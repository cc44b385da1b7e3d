import PikeAnalysis.Proofs.Concurrency.Leftovers
import PikeAnalysis.Proofs.Concurrency.Parking
import PikeAnalysis.Proofs.Engine.Consulting

/-!
# What comes of a load

The task that loads a module joins the request for it, or makes one, and waits for its end.  Once
that has ended the load does all the rest in one turn (`concluded`): it notes the module, or that
there is none, or nothing if no worker could be reached.  So a turn of a load either changes neither
the index nor the worker nor the time, or concludes the load with what its request has ended with
(`load_turn`).

What a load does is one question and a conclusion, with a wait in between that others can interrupt
only by cancelling the load.  `Still` is what a turn that does not conclude leaves alone; together
with `heard?`, which says of what a turn learns, it makes every turn of a load one of two kinds.
Modules, failures and the time to live are then matters of the index alone.
-/

namespace PikeAnalysis.Engine.Library

open PikeAnalysis.Concurrency

attribute [local irreducible] StdlibModule.cleanPath

variable {ω : Type} {S : Setting ω} {Q Q' : Multiset (Ready Hook)} {s u v : State}
  {t : Nat} {path : String}
  {m m' : Machine State Trouble Value Job} {i : Ready Hook} {r : Act Value}
  {e : Ending Trouble Value}

/-! ## Conclusions -/

/-- What the value of a request says. -/
def jsonOf : Value → Json
  | .json v => v
  | _ => .null

/-- What is made of the way in which a request has ended that asked a question; nothing if it was
cancelled. -/
def answerTo (q : Question) : Ending Trouble Value → Option (Except BridgeFailure Json)
  | .value v => some (reading q.query (.ok (jsonOf v)))
  | .error (.bridge why) => some (.error why)
  | _ => none

/-- What is said to whoever asked a question, once its request has ended. -/
def told (q : Question) (e : Ending Trouble Value) : Act (Except BridgeFailure Json) :=
  match answerTo q e with
  | some answer => .done answer
  | none =>
    match e with
    | .error why => .fail why
    | _ => .cancelled

/-- What is said once an answer has come, which may be none that can be read. -/
theorem orFailure_read (q : Bridge.Query) (a : Json) :
    orFailure (match q.model.read a with
      | .ok v => pure v
      | .error issue => .fail (.bridge (.malformed q.method issue.message)) : Act Json) =
        .done (reading q (.ok a)) := by
  rw [reading]
  cases q.model.read a <;> rfl

/-- Whoever asks a question joins a request, or makes one, and is told once that has ended. -/
theorem orFailure_ask (q : Question) :
    orFailure (ask q.query) =
      (Routine.act (joinRequest q.query.method q.query.params)).andThen fun task =>
        (Routine.awaitTask task : Act Value).onEnd (told q) := by
  have joins {α : Type} {k : Nat → Act α} {f : Ending Trouble α → Act (Except BridgeFailure Json)} :
      ((Routine.act (joinRequest q.query.method q.query.params)).andThen k).onEnd f =
        (Routine.act (joinRequest q.query.method q.query.params)).andThen fun task =>
          (k task).onEnd f := rfl
  unfold orFailure ask request
  simp only [Routine.bind_eq_andThen, Routine.andThen_assoc]
  rw [joins]
  refine congrArg _ (funext fun task => Routine.andThen_onEnd _ (fun v => ?_) (fun why => ?_) rfl)
  · have heard : told q (.value v) = .done (reading q.query (.ok (jsonOf v))) := rfl
    rw [heard]
    cases v with
    | json a =>
      dsimp only
      rw [Routine.pure_eq_done, Routine.andThen]
      exact orFailure_read q.query a
    | _ =>
      dsimp only
      rw [Routine.pure_eq_done, Routine.andThen]
      exact orFailure_read q.query .null
  · cases why <;> rfl

/-- The state once it is remembered that a module could not be loaded. -/
def remembered (path : String) (s : State) : State :=
  { s with stdlib := s.stdlib.rememberFailure s.now s.bridge.generation path }

/-- The state once a module is stored. -/
def stored (mod : StdlibModule) (s : State) : State :=
  let s := if s.stdlib.isTooLarge mod then s.note [⟨.warning, "stdlib_module_too_large"⟩] else s
  { s with stdlib := s.stdlib.store mod }

/-- What comes of a load whose question has been answered.  This is the whole effect of a load, in
one change. -/
def concluded (path : String) (answer : Except BridgeFailure Json) (s : State) :
    State × Option StdlibModule :=
  match answer with
  | .error why => (if Validation.isUnreachable why then s else remembered path s, none)
  | .ok v =>
    let answer := Wire.StdlibAnswer.ofJson v
    if answer.found then
      let mod := StdlibModule.ofAnswer path answer s.now
      (stored mod s, some mod)
    else (remembered path s, none)

/-- What comes of a load once its request has ended.  It is written as a function of the state and
the ending, so that it can be compared with what the routine does. -/
def learned (path : String) (e : Ending Trouble Value) (s : State) : State × Ending Trouble Value :=
  match answerTo (.module path) e with
  | some answer => ((concluded path answer s).1, .value (.module (concluded path answer s).2))
  | none => (s, e)

/-- What a load has left to do once its request has ended.  A load that has been asked and answered
runs to its end in one turn. -/
def Learns (path : String) (rest : Rest State Trouble Value Job) : Prop :=
  ∀ e s, Machine.runRoutine (rest e) s = ((learned path e s).1, .ended (learned path e s).2)

/-- A load asks its question, and concludes with the answer. -/
theorem exists_conclusion (path : String) : ∃ conclude : Except BridgeFailure Json → Act Value,
    loadBody path = (orFailure (ask (.resolveStdlib path))).andThen conclude ∧
      ∀ answer s, Machine.runRoutine (conclude answer) s =
        ((concluded path answer s).1, .ended (.value (.module (concluded path answer s).2))) := by
  refine ⟨_, rfl, fun answer s => ?_⟩
  cases answer with
  | error why =>
    dsimp only [concluded]
    cases Validation.isUnreachable why <;> rfl
  | ok v =>
    dsimp only [concluded]
    cases (Wire.StdlibAnswer.ofJson v).found <;> rfl

/-- A load waits for a request, which it joins or makes, and has the conclusion left to do. -/
theorem exists_rest (path : String) : ∃ rest : Rest State Trouble Value Job, Learns path rest ∧
    loadBody path =
      (Routine.act (joinRequest (Question.module path).query.method
        (Question.module path).query.params)).andThen fun task =>
          (Routine.awaitTask task : Act Value).onEnd rest := by
  obtain ⟨conclude, hload, hconclude⟩ := exists_conclusion path
  refine ⟨fun e => (told (.module path) e).andThen conclude, fun e s => ?_, ?_⟩
  · dsimp only
    unfold told learned
    cases answered : answerTo (.module path) e with
    | some answer => exact hconclude answer s
    | none =>
      cases e with
      | value v => cases answered
      | error | cancelled => rfl
  · have asked := orFailure_ask (.module path)
    rw [hload, show ask (.resolveStdlib path) = ask (Question.module path).query from rfl, asked,
      Routine.andThen_assoc]
    refine congrArg _ (funext fun task => ?_)
    simp only [Routine.andThen_eq_onEnd, Routine.onEnd_assoc]

/-! ## Turns -/

/-- Neither the index nor the time nor the worker is another one.  What the index answers depends on
these three alone. -/
structure Still (s u : State) : Prop where
  stdlib : u.stdlib = s.stdlib
  now : u.loop.now = s.loop.now
  generation : u.bridge.generation = s.bridge.generation

theorem Still.refl (s : State) : Still s s :=
  ⟨rfl, rfl, rfl⟩

theorem Still.trans (h : Still s u) (k : Still u v) : Still s v :=
  ⟨k.stdlib.trans h.stdlib, k.now.trans h.now, k.generation.trans h.generation⟩

theorem still_loop (s : State) {l : Loop Job Hook Trouble Value} (now : l.now = s.loop.now) :
    Still s { s with loop := l } :=
  ⟨rfl, now, rfl⟩

theorem still_joinRequest (method : String) (params : List (String × Json)) (s : State) :
    Still s (joinRequest method params s).1 := by
  unfold joinRequest
  dsimp only
  split
  · exact .refl s
  · exact ⟨rfl, Loop.now_follow .., rfl⟩

/-- At the end of a turn only the loop changes. -/
theorem still_proceed {stop : Stop State Trouble Value Job}
    (run : Machine.runRoutine r (Machine.turnOf t m.state) = (u, stop)) :
    Still u (m.proceed rules t r).state := by
  rw [Machine.proceed_eq rules m t r run]
  cases stop with
  | ended e => exact still_loop u (Loop.now_conclude ..)
  | waits signal rest | renews signal job => exact still_loop u (Loop.clock_suspend ..).2

/-- A load joins a request, or makes one.  It is over at once if that has ended, and else waits for
its end. -/
theorem runs_load (path : String) (s : State) :
    let joined := joinRequest (Question.module path).query.method
      (Question.module path).query.params s
    ∃ rest, Learns path rest ∧
      (∀ e, joined.1.loop.ending? (.ended joined.2) = some e →
        Machine.runRoutine (loadBody path) s =
          ((learned path e joined.1).1, .ended (learned path e joined.1).2)) ∧
      (joined.1.loop.ending? (.ended joined.2) = none →
        Machine.runRoutine (loadBody path) s =
          Machine.runRoutine (.wait (.ticket joined.1.loop.nextTicket) rest)
            { joined.1 with loop := joined.1.loop.passingOn joined.2 }) := by
  intro joined
  obtain ⟨rest, learns, hload⟩ := exists_rest path
  -- To wait for a task is to look whether it has ended, and to leave a ticket with it if not.
  have run : Machine.runRoutine (loadBody path) s =
      Machine.runRoutine ((Routine.awaitTask joined.2 : Act Value).onEnd rest) joined.1 := by
    rw [hload]
    rfl
  rw [Routine.runs_awaitTask_onEnd] at run
  refine ⟨rest, learns, fun e ended => ?_, fun unended => ?_⟩
  · have gone : (HasLoop.loop joined.1).isEnded joined.2 = true := by
      rw [Loop.isEnded, show (HasLoop.loop joined.1).ending? (.ended joined.2) = some e from ended]
      rfl
    rw [run, if_pos gone, Machine.runRoutine]
    have raised : (HasLoop.loop (HasLoop.withLoop joined.1 (HasLoop.loop joined.1))).ending?
        (.ended joined.2) = some e := ended
    rw [raised]
    exact learns e joined.1
  · have under : ¬ (HasLoop.loop joined.1).isEnded joined.2 = true := by
      rw [Loop.isEnded, show (HasLoop.loop joined.1).ending? (.ended joined.2) = none from unended]
      exact Bool.false_ne_true
    rw [run, if_neg under]
    rfl

theorem bridge_learned (path : String) (e : Ending Trouble Value) (s : State) :
    (learned path e s).1.bridge = s.bridge := by
  unfold learned
  cases answerTo (.module path) e with
  | none => rfl
  | some answer =>
    cases answer with
    | error why =>
      dsimp only [concluded]
      split <;> rfl
    | ok v =>
      dsimp only [concluded]
      split
      · dsimp only [stored]
        split <;> rfl
      · rfl

/-- In its first turn a load joins the request for the module, or makes one. -/
theorem load_asks (path : String) (s : State) :
    Assoc.get? (Question.key (.module path))
      (Machine.runRoutine (loadBody path) s).1.bridge.inflight ≠ none := by
  obtain ⟨rest, learns, ends, waits⟩ := runs_load path s
  have joined :
      Assoc.get? (Question.key (.module path)) (joinRequest (Question.module path).query.method
      (Question.module path).query.params s).1.bridge.inflight ≠ none := by
    rw [joinRequest_eq]
    cases joins : Assoc.get? (Question.key (.module path)) s.bridge.inflight with
    | some task => simp [joins]
    | none => simp [asking]
  generalize joinRequest (Question.module path).query.method (Question.module path).query.params s =
    made at *
  cases ended : made.1.loop.ending? (.ended made.2) with
  | some e =>
    rw [ends e ended, bridge_learned]
    exact joined
  | none =>
    rw [waits ended, Machine.runRoutine]
    split
    · next e _ =>
      rw [learns e, bridge_learned]
      exact joined
    · exact joined

/-- A load that comes to wait has the conclusion left to do. -/
theorem learns_of_waits {signal : Signal} {rest : Rest State Trouble Value Job}
    (run : Machine.runRoutine (loadBody path) s = (u, .waits signal rest)) : Learns path rest := by
  obtain ⟨left, learns, ends, waits⟩ := runs_load path s
  generalize joinRequest (Question.module path).query.method (Question.module path).query.params s =
    joined at *
  cases ended : joined.1.loop.ending? (.ended joined.2) with
  | some e =>
    rw [ends e ended] at run
    cases run
  | none =>
    rw [waits ended, Machine.runRoutine] at run
    split at run
    · next e _ =>
      rw [learns e] at run
      cases run
    · cases run
      exact learns

/-- Whether a task loads a module and is not to be cancelled.  Such a task will learn what its
request ends with. -/
def listens (path : String) (st : TaskState Job) : Bool :=
  match st.job with
  | .load p => p == path && !st.mustCancel
  | _ => false

/-- How the request has ended of which the load of a module learns in its turn: one that it joins
then, or the one for which it has waited. -/
def heard? (path : String) (m : Machine State Trouble Value Job) :
    Ready Hook → Option (Ending Trouble Value)
  | .start t => (m.loop.task? t).bind fun st =>
    if listens path st then
      (Assoc.get? (Question.key (.module path)) m.state.bridge.inflight).bind fun request =>
        m.loop.ending? (.ended request)
    else none
  | .follow (.resume t) signal => (m.loop.task? t).bind fun st =>
    if listens path st then (Assoc.get? t m.suspended).bind fun _ => m.loop.ending? signal else none
  | _ => none

theorem listens_iff {st : TaskState Job} :
    listens path st = true ↔ st.job = .load path ∧ st.mustCancel = false := by
  unfold listens
  cases st.job <;> simp

/-- Only loads learn anything.  What is heard in a turn is heard by the load that begins in it or
goes on. -/
theorem begins_of_heard (heard : heard? path m i = some e) :
    ∃ t r m', m.Begins rules i t (.load path) r m' := by
  cases i with
  | start t =>
    obtain ⟨st, task, heard⟩ := Option.bind_eq_some_iff.mp heard
    split at heard
    · next listening =>
      obtain ⟨job, unmarked⟩ := listens_iff.mp listening
      have begins : m.Begins rules (.start t) t st.job (rules.body st.job) m :=
        .starts task unmarked
      rw [job] at begins
      exact ⟨t, _, _, begins⟩
    · cases heard
  | timer id => cases heard
  | follow f signal =>
    cases f with
    | resume t =>
      obtain ⟨st, task, heard⟩ := Option.bind_eq_some_iff.mp heard
      split at heard
      · next listening =>
        obtain ⟨rest, waiting, -⟩ := Option.bind_eq_some_iff.mp heard
        have begins : m.Begins rules (.follow (.resume t) signal) t st.job _ _ :=
          .resumes task waiting
        rw [(listens_iff.mp listening).1] at begins
        exact ⟨t, _, _, begins⟩
      · cases heard
    | relay | part | hook => cases heard

/-- The request that a load joins has ended only if it was under way before. -/
theorem ended_of_joined (amid : (pact S).Amid t (.load path) Q s) :
    let joined := joinRequest (Question.module path).query.method
      (Question.module path).query.params s
    joined.1.loop.ending? (.ended joined.2) = some e ↔
      ∃ request, Assoc.get? (Question.key (.module path)) s.bridge.inflight = some request ∧
        s.loop.ending? (.ended request) = some e := by
  intro joined
  obtain ⟨steps, -, -⟩ := join_spec amid (.module path)
  have order : joined.1.loop.Orderly (some t) Q := steps.amid.orderly
  have fresh : s.loop.Fresh := amid.orderly.fresh
  have hjoined := joinRequest_eq (.module path) s
  rw [show joinRequest _ _ s = joined from rfl] at hjoined
  cases hkey : Assoc.get? (Question.key (.module path)) s.bridge.inflight with
  | some request =>
    rw [hkey] at hjoined
    rw [hjoined]
    simp
  | none =>
    rw [hkey] at hjoined
    have made : joined.1.loop.jobOf joined.2 =
        some (.request (Question.module path).key (Question.module path).query.method
          (Question.module path).query.params) := by
      rw [hjoined]
      exact (fresh.jobOf_hooked _ _ _).trans (if_pos rfl)
    rw [order.open_of_jobOf made]
    simp

/-- In its turn a load learns how its request has ended and concludes, or it changes nothing of
note.  The second kind includes a turn in which the load is cancelled. -/
theorem load_turn (h : (pact S).Holds (i ::ₘ Q) m) (begins : m.Begins rules i t (.load path) r m')
    (left : ∀ rest, Assoc.get? t m.suspended = some rest → Learns path rest) :
    ∃ u, Still m.state u ∧
      match heard? path m i with
      | some e => Machine.runRoutine r (Machine.turnOf t m'.state) =
          ((learned path e u).1, .ended (learned path e u).2)
      | none => ∃ stop, Machine.runRoutine r (Machine.turnOf t m'.state) = (u, stop) := by
  have amid := ((lawful S).begun h begins).amid
  generalize hjob : Job.load path = job at begins
  cases begins with
  | @starts t st task unmarked =>
    have begun : Still m.state (Machine.turnOf t m.state) := ⟨rfl, rfl, rfl⟩
    have hheard : heard? path m (.start t) =
        (Assoc.get? (Question.key (.module path)) m.state.bridge.inflight).bind fun request =>
          m.loop.ending? (.ended request) := by
      simp only [heard?, task, Option.bind_some, listens_iff.mpr ⟨hjob.symm, unmarked⟩, if_true]
    obtain ⟨rest, -, ends, waits⟩ := runs_load path (Machine.turnOf t m.state)
    have told (e : Ending Trouble Value) := ended_of_joined (e := e) amid
    have order := (join_spec amid (.module path)).1.amid.orderly
    have joins := still_joinRequest (Question.module path).query.method
      (Question.module path).query.params
      (Machine.turnOf t m.state)
    rw [← hjob]
    generalize joinRequest (Question.module path).query.method (Question.module path).query.params
      (Machine.turnOf t m.state) = joined at *
    -- The request that was joined may have ended already.  Otherwise the turn ends with the wait
    -- for it.
    cases ended : joined.1.loop.ending? (.ended joined.2) with
    | some e =>
      obtain ⟨request, hjoined, hended⟩ := (told e).1 ended
      refine ⟨_, begun.trans joins, ?_⟩
      have heard : heard? path m (.start t) = some e :=
        hheard.trans (Option.bind_eq_some_iff.mpr ⟨request, hjoined, hended⟩)
      rw [heard]
      exact ends e ended
    | none =>
      have unheard : heard? path m (.start t) = none := by
        refine Option.eq_none_iff_forall_ne_some.mpr fun e heard => ?_
        have := (told e).2 (Option.bind_eq_some_iff.mp (hheard.symm.trans heard))
        rw [ended] at this
        cases this
      have fresh :
          (joined.1.loop.passingOn joined.2).ending? (.ticket joined.1.loop.nextTicket) = none :=
        order.open_passingOn joined.2
      have passed : Still joined.1 { joined.1 with loop := joined.1.loop.passingOn joined.2 } :=
        still_loop joined.1 (Loop.now_follow ..)
      refine ⟨_, begun.trans (joins.trans passed), ?_⟩
      rw [unheard]
      refine ⟨.waits (.ticket joined.1.loop.nextTicket) rest, (waits ended).trans ?_⟩
      rw [Machine.runRoutine]
      have unraised :
          (HasLoop.loop { joined.1 with loop := joined.1.loop.passingOn joined.2 }).ending?
          (.ticket joined.1.loop.nextTicket) = none := fresh
      rw [unraised]
  | @resumes t st rest signal task waiting =>
    have woken : Still m.state
      (Machine.turnOf t ({ m with suspended := Assoc.erase t m.suspended }.updateLoop
        fun l => l.setTask t { st with waiting := none, mustCancel := false }).state) :=
          ⟨rfl, rfl, rfl⟩
    have learns := left rest waiting
    refine ⟨_, woken, ?_⟩
    cases marked : st.mustCancel with
    | true =>
      -- A load that is marked does not listen: it is cancelled whatever the signal says.
      have deaf : ¬ listens path st = true := fun listening => by
        rw [(listens_iff.mp listening).2] at marked
        cases marked
      have unheard : heard? path m (.follow (.resume t) signal) = none := by
        simp only [heard?, task, Option.bind_some, if_neg deaf]
      rw [unheard]
      exact ⟨.ended .cancelled, learns .cancelled _⟩
    | false =>
      have hheard : heard? path m (.follow (.resume t) signal) = m.loop.ending? signal := by
        simp only [heard?, task, waiting, Option.bind_some, listens_iff.mpr ⟨hjob.symm, marked⟩,
          if_true]
      rw [hheard]
      cases m.loop.ending? signal with
      | some e => exact learns e _
      | none => exact ⟨.ended .cancelled, learns .cancelled _⟩

end PikeAnalysis.Engine.Library
