import PikeAnalysis.Proofs.Engine.Recollecting
import PikeAnalysis.Proofs.Engine.Transparency

/-!
# A missing module is asked for again when it is due

Modules are asked for and loads come back in any order, while time goes on, one worker comes after
the other and the index is cleared.  `Recalls` follows such a course and keeps the load of a module
that was completed last.  If that load found no module, or failed, whoever asks for the module is
told that there is none until the time to live of the failure is over or the worker is another one,
and nobody else is asked; after that, or if no worker could be reached, a load is joined or begun
(`missing_module_is_asked_for_when_due`).

The course carries the load that was completed last, since it cannot be read off the state: the
index keeps no note when no worker could be reached, and drops one that has run out only when
somebody asks.  `Recalls` takes it down from the turns themselves (`completion?`), and `Recollects`
is the invariant that ties it to the index.

The claim has two directions.  While the note counts, the answer is that there is no such module, in
the same turn and with nobody asked; when it does not, the next to ask joins a load or begins one.
Availability is not remembered: after a load that failed because no worker could be reached, the
next caller asks again.
-/

namespace PikeAnalysis.Engine.Library

open PikeAnalysis.Concurrency

attribute [local irreducible] StdlibModule.cleanPath IncludeCache.targetPath

variable {ω : Type} {worker : Worker ω} {S : Setting ω} {settings : Config.Settings}
  {typedbBudget stdlibBudget : Int} {host : Host} {sink : Sink} {Q : Multiset (Ready Hook)}
  {s u : State}
  {path : String} {ttl : Duration} {last : Option Completed}
  {m m' : Machine State Trouble Value Job}
  {i : Ready Hook} {t : Nat} {job : Job} {r : Act Value} {c d : Moment State Trouble Value Job Hook}

/-! ## Courses -/

/-- Time goes on, and workers come one after the other.  Without this a failure could become current
again, which it cannot in a process. -/
def Event.Onward (s : State) : Event ω → Prop
  | .clock now => s.now ≤ now
  | .replaced generation => s.bridge.generation ≤ generation
  | _ => True

/-- A load once something has happened.  Nothing else that happens changes what is known of a load
that is over. -/
def Completed.after : Event ω → Completed → Completed
  | .cleared, c => { c with cleared := true }
  | _, c => c

/-- The load of a module that is completed by something that is ready, if it is: one that learns how
its request has ended.  A load that is cancelled learns nothing, and completes nothing. -/
def completion? (path : String) (m : Machine State Trouble Value Job) (i : Ready Hook) :
    Option Completed :=
  (heard? path m i).bind fun e => (answerTo (.module path) e).map fun answer =>
    { time := m.state.now, generation := m.state.bridge.generation, answer }

/-- What can become of an engine as time goes on, and the load of a module that was completed last.
The clock does not go back, and a worker that was replaced does not come back. -/
inductive Recalls (worker : Worker ω) (path : String) (c : Moment State Trouble Value Job Hook) :
    Option Completed → Moment State Trouble Value Job Hook → Prop
  | refl : Recalls worker path c none c
  | happens {last : Option Completed} {d : Moment State Trouble Value Job Hook}
    (h : Recalls worker path c last d) {e : Event ω} (onward : e.Onward d.state) :
    Recalls worker path c (last.map (Completed.after e)) (d.happen (occur worker) e)
  | gathers {last : Option Completed} {d : Moment State Trouble Value Job Hook}
    (h : Recalls worker path c last d) : Recalls worker path c last d.gather
  | runs {last : Option Completed} {m : Machine State Trouble Value Job} {i : Ready Hook}
    {before after : List (Ready Hook)} (h : Recalls worker path c last ⟨m, before ++ i :: after⟩) :
    Recalls worker path c ((completion? path m i).or last) ⟨m.runReady rules i, before ++ after⟩

theorem Recalls.leads (h : Recalls worker path c last d) :
    ∃ os, Leads rules (occur worker) c os d := by
  induction h with
  | refl => exact ⟨[], .refl⟩
  | @happens last d _ e _ ih =>
    obtain ⟨os, led⟩ := ih
    exact ⟨os ++ [e], led.happens e⟩
  | gathers _ ih =>
    obtain ⟨os, led⟩ := ih
    exact ⟨os, led.gathers⟩
  | runs _ ih =>
    obtain ⟨os, led⟩ := ih
    exact ⟨os, led.runs⟩

/-! ## Steps -/

theorem map_after {e : Event ω} (other : e ≠ .cleared) : last.map (Completed.after e) = last := by
  cases last with
  | none => rfl
  | some c =>
    cases e with
    | cleared => exact absurd rfl other
    | _ => rfl

theorem still_answer (worker : Worker ω) (t : Nat) (choice : ω) (s : State) :
    Still s (answer worker t choice s) := by
  unfold answer
  split
  · exact still_loop s (Loop.now_raise ..)
  · exact .refl s

/-- What is remembered of the loads of a module is remembered whatever happens. -/
theorem Recollects.happens (h : Recollects ttl path last s) {e : Event ω} (onward : e.Onward s) :
    Recollects ttl path (last.map (Completed.after e)) (occur worker e s) := by
  have aside (other : e ≠ .cleared) (h : Recollects ttl path last (occur worker e s)) :
      Recollects ttl path (last.map (Completed.after e)) (occur worker e s) := by
    rwa [map_after other]
  cases e with
  | called c => exact aside nofun (h.still (still_loop s rfl))
  | answered t choice => exact aside nofun (h.still (still_answer worker t choice s))
  | cancelled t => exact aside nofun (h.still (still_loop s (Loop.clock_cancel s.loop t).2))
  | clock now => exact aside nofun (h.later rfl onward (Nat.le_refl _))
  | replaced generation => exact aside nofun (h.later rfl (Int.le_refl _) onward)
  | cleared =>
    refine ⟨h.lasting, fun c hc => ?_, fun c hc _ => ?_⟩ <;> obtain ⟨b, hb, rfl⟩ :=
      Option.map_eq_some_iff.1 hc
    · exact h.earlier b hb
    · exact .clear _ _ _ _ rfl
  | stored | invalidated | surroundings => exact aside nofun (h.still ⟨rfl, rfl, rfl⟩)

theorem still_gather (c : Moment State Trouble Value Job Hook) : Still c.state c.gather.state := by
  refine still_loop c.state ?_
  change (Moment.due c.machine.loop).now = c.machine.loop.now
  rw [Moment.due, Loop.now_takeDue, Loop.now_dropCancelled]

theorem Recollects.hook (h : Recollects ttl path last s) (k : Hook) :
    Recollects ttl path last (rules.hook k s) := by
  cases k with
  | runOver => exact h
  | forgetRequest key task =>
    have forgets : (rules.hook (.forgetRequest key task) s).bridge =
        if Assoc.get? key s.bridge.inflight = some task then
          { s.bridge with inflight := Assoc.erase key s.bridge.inflight }
        else s.bridge := rfl
    refine h.still ⟨rfl, rfl, ?_⟩
    rw [forgets]
    split <;> rfl
  | endLoading other => exact h.change rfl rfl rfl fun remembers => remembers.endLoading other

theorem still_begins (begins : m.Begins rules i t job r m') :
    Still m.state (Machine.turnOf t m'.state) := by
  cases begins with
  | starts | resumes => exact ⟨rfl, rfl, rfl⟩

/-- A task has its turn that does not load the module. -/
theorem Recollects.turn (h : Recollects ttl path last m.state)
    (left : m.LeftOver (LeftOver ttl path))
    (begins : m.Begins rules i t job r m') (other : job ≠ .load path) :
    r.Abides (recollecting ttl path) ∧ Recollects ttl path last (Machine.turnOf t m'.state) := by
  refine ⟨?_, h.still (still_begins begins)⟩
  cases begins with
  | starts => exact abides_body other
  | resumes task waiting => exact (left _ _ _ waiting (Loop.jobOf_of_task? task)).2 other _

/-- What a contract allows leaves alone what is remembered of the loads of a module. -/
theorem Recollects.steps (h : Recollects ttl path last s)
    (steps : Relation.ReflTransGen (recollecting ttl path).step s u) :
    Recollects ttl path last u := by
  induction steps with
  | refl => exact h
  | tail _ step ih => exact step last ih

/-- Whatever is ready can be done: what is remembered of a module is what its last load has left
behind. -/
theorem Recollects.runs (h : Recollects ttl path last m.state) (holds : (pact S).Holds (i ::ₘ Q) m)
    (left : m.LeftOver (LeftOver ttl path)) :
    Recollects ttl path ((completion? path m i).or last) (m.runReady rules i).state := by
  have turn {t : Nat} {r : Act Value} {m' : Machine State Trouble Value Job}
      (begins : m.Begins rules i t (.load path) r m') :=
    load_turn holds begins fun rest waiting => (left t rest _ waiting begins.jobOf).1 rfl
  -- A load that hears of the end of its request concludes; anything else changes nothing of note.
  cases heard : heard? path m i with
  | some e =>
    obtain ⟨t, r, m', begins⟩ := begins_of_heard heard
    obtain ⟨v, still, run⟩ := turn begins
    rw [heard] at run
    have ended := still_proceed run
    rw [← begins.runReady] at ended
    cases answered : answerTo (.module path) e with
    | none =>
      rw [completion?, heard, Option.bind_some, answered]
      rw [learned, answered] at ended
      exact h.still (still.trans ended)
    | some answer =>
      rw [completion?, heard, Option.bind_some, answered]
      rw [learned, answered] at ended
      have loads : m.state.stdlib.Loads path t := holds.sound.relies t _ nofun begins.jobOf path rfl
      refine (recollects_concluded (t := t) ?_ ?_ still.now.symm still.generation.symm).still ended
      · rwa [still.stdlib]
      · rw [still.stdlib, h.lasting]
  | none =>
    rw [completion?, heard]
    rcases m.begins_or_idle rules i with
      ⟨t, job, r, m', begins⟩ | ⟨k, signal, rfl⟩ | same | ⟨f, now, same⟩
    · by_cases loads : job = .load path
      · subst loads
        obtain ⟨v, still, run⟩ := turn begins
        rw [heard] at run
        obtain ⟨stop, run⟩ := run
        have ended := still_proceed run
        rw [← begins.runReady] at ended
        exact h.still (still.trans ended)
      · obtain ⟨abides, begun⟩ := h.turn left begins loads
        obtain ⟨steps, -⟩ := Machine.runRoutine_keeps (abides _ trivial)
        have ended : Still _ (m'.proceed rules t r).state := still_proceed rfl
        rw [← begins.runReady] at ended
        exact (begun.steps steps).still ended
    · exact h.hook k
    · rwa [same]
    · rw [same]
      exact h.still (still_loop m.state (now _))

/-! ## What is remembered along a course -/

theorem Recalls.holds (ttl : Duration)
    (h : Recalls worker path (opening settings typedbBudget stdlibBudget host sink) last d) :
    (pact (anyData worker settings.stdlibModules stdlibBudget)).Holds
    (d.queue : Multiset (Ready Hook))
      d.machine ∧ d.machine.LeftOver (LeftOver ttl path) := by
  have law := lawful (anyData worker settings.stdlibModules stdlibBudget)
  have first := holds_opening (S := anyData worker settings.stdlibModules stdlibBudget)
    typedbBudget host sink
    rfl rfl
  obtain ⟨os, led⟩ := h.leads
  have allowed := allowed_anyData worker settings.stdlibModules stdlibBudget
    (opening settings typedbBudget stdlibBudget host sink) os
  exact ⟨(law.leads first led allowed).holds, law.leftovers leavesOver first nofun led allowed⟩

theorem Recalls.recollects
    (h : Recalls worker path (opening settings typedbBudget stdlibBudget host sink) last d) :
    Recollects settings.negativeTtl path last d.state := by
  -- By what was done last; only a turn of a load of this very module changes what is remembered.
  induction h with
  | refl => exact ⟨rfl, nofun, nofun⟩
  | happens _ onward ih => exact ih.happens onward
  | gathers _ ih => exact ih.still (still_gather _)
  | runs earlier ih =>
    obtain ⟨holds, left⟩ := earlier.holds settings.negativeTtl
    rw [multiset_middle] at holds
    exact ih.runs holds left

/-- A state through which the turn of a task passes that does not load the module, and the load of
the module that was completed last. -/
inductive RecallsAmid (worker : Worker ω) (path : String)
    (c : Moment State Trouble Value Job Hook) :
    Option Completed → State → Prop
  | turn {last : Option Completed} {m m' : Machine State Trouble Value Job} {i : Ready Hook}
    {before after : List (Ready Hook)} {t : Nat} {job : Job} {r : Act Value} {u : State}
    (h : Recalls worker path c last ⟨m, before ++ i :: after⟩)
    (begins : m.Begins rules i t job r m')
    (other : job ≠ .load path) (passes : r.Passes (Machine.turnOf t m'.state) u) :
    RecallsAmid worker path c last u

theorem RecallsAmid.recollects
    (h : RecallsAmid worker path (opening settings typedbBudget stdlibBudget host sink) last u) :
    Recollects settings.negativeTtl path last u ∧
      ∃ t job Q, (pact (anyData worker settings.stdlibModules stdlibBudget)).Amid t job Q u := by
  cases h with
  | turn h begins other passes =>
    obtain ⟨holds, left⟩ := h.holds settings.negativeTtl
    rw [multiset_middle] at holds
    obtain ⟨abides, begun⟩ := h.recollects.turn left begins other
    exact ⟨begun.steps (passes.steps (abides _ trivial)), _, _, _,
      ((lawful _).begun holds begins).passes passes⟩

/-! ## Asking -/

/-- Whoever asks for a module has it from the index, or waits for the task that loads it. -/
theorem runs_getModule {asked : String} (named : (StdlibModule.cleanPath asked).isEmpty = false)
    (k : Option StdlibModule → Act Value) (s : State) :
    let found := findModule (StdlibModule.cleanPath asked) s
    Machine.runRoutine ((getModule asked).andThen k) s =
      match found.2 with
      | .ok mod => Machine.runRoutine (k mod) found.1
      | .error task => Machine.runRoutine ((Routine.awaitTask task : Act Value).andThen fun v =>
          (match v with
            | .module mod => .done mod
            | _ => .done none : Act (Option StdlibModule)).andThen k) found.1 := by
  intro found
  have unempty : ¬ (StdlibModule.cleanPath asked).isEmpty = true := by
    rw [named]; exact Bool.false_ne_true
  unfold getModule
  dsimp only
  rw [if_neg unempty, Routine.bind_eq_andThen, Routine.andThen_assoc]
  have asks {α : Type} (f : State → State × α) (next : α → Act Value) :
      Machine.runRoutine ((Routine.act f).andThen next) s =
        Machine.runRoutine (next (f s).2) (f s).1 := rfl
  rw [asks]
  change Machine.runRoutine ((match found.2 with
    | .ok mod => _
    | .error task => _ : Act (Option StdlibModule)).andThen k) found.1 = _
  cases found.2 with
  | ok mod => rfl
  | error task =>
    dsimp only
    rw [Routine.bind_eq_andThen, Routine.andThen_assoc]
    rfl

/-- Whoever asks for a module joins a load of it or begins one, and waits for that, unless it is
over and just has not been forgotten yet.  The last is possible only until the hook at the end of
the load has been run. -/
def Fetches (asked : String) (s : State) : Prop :=
  ∃ v task, findModule (StdlibModule.cleanPath asked) s = (v, .error task) ∧
    ((v.loop.jobOf task = some (.load (StdlibModule.cleanPath asked)) ∧
      ∀ k : Option StdlibModule → Act Value,
        ∃ rest, Machine.runRoutine ((getModule asked).andThen k) s =
        ({ v with loop := v.loop.passingOn task }, .waits (.ticket v.loop.nextTicket) rest)) ∨
    (Assoc.get? (StdlibModule.cleanPath asked) s.stdlib.loading = some task ∧
      s.loop.ending? (.ended task) ≠ none))

/-- A load that is under way is waited for.  No second one is begun, and what the first comes to is
passed on to the caller. -/
theorem waits_for_load {asked : String} {task : Nat}
    (named : (StdlibModule.cleanPath asked).isEmpty = false)
    (found : findModule (StdlibModule.cleanPath asked) s = (u, .error task))
    (order : u.loop.Orderly (some t) Q) (under : u.loop.jobOf task = some job)
    (k : Option StdlibModule → Act Value) :
    ∃ rest, Machine.runRoutine ((getModule asked).andThen k) s =
      ({ u with loop := u.loop.passingOn task }, .waits (.ticket u.loop.nextTicket) rest) := by
  have unended : ¬ (HasLoop.loop u).isEnded task = true := by
    rw [Loop.isEnded, show (HasLoop.loop u).ending? (.ended task) =
      none from order.open_of_jobOf under]
    exact Bool.false_ne_true
  have run := runs_getModule named k s
  rw [found] at run
  dsimp only at run
  rw [Routine.runs_awaitTask, if_neg unended] at run
  exact ⟨_, run.trans (Routine.runs_await_of_open (order.open_passingOn task) _)⟩

/-- Whoever asks for a module of which nothing is known that counts has it fetched. -/
theorem fetches_of_unknown {asked : String} {known : Option MissingModule} {cleared : Prop}
    (named : (StdlibModule.cleanPath asked).isEmpty = false) (amid : (pact S).Amid t job Q u)
    (remembers : u.stdlib.Remembers (StdlibModule.cleanPath asked) known cleared u.now
      u.bridge.generation)
    (idle : ¬ StdlibIndex.Counts known u.now u.bridge.generation) : Fetches asked u := by
  have agrees : Agrees S Q u := amid.inv
  have order : u.loop.Orderly (some t) Q := amid.orderly
  have found := findModule_eq (StdlibModule.cleanPath asked) u
  have order' := (find_spec amid (StdlibModule.cleanPath asked)).1.amid.orderly
  rw [remembers.unknown idle] at found
  cases loading : Assoc.get? (StdlibModule.cleanPath asked) u.stdlib.loading with
  | some task =>
    rw [loading] at found
    rw [found] at order'
    refine ⟨_, task, found, ?_⟩
    rcases agrees.loading _ task loading with ⟨job, under, -⟩ | ⟨e, ended, -⟩
    · obtain rfl := (agrees.loads _ task loading).2 job under
      exact .inl ⟨under, waits_for_load named found order' under⟩
    · exact .inr ⟨loading, by simp [ended]⟩
  | none =>
    rw [loading] at found
    rw [found] at order'
    have under : (fetching (StdlibModule.cleanPath asked) u).loop.jobOf u.loop.nextTask =
        some (.load (StdlibModule.cleanPath asked)) :=
          (order.fresh.jobOf_hooked _ _ _).trans (if_pos rfl)
    exact ⟨_, _, found, .inl ⟨under, waits_for_load named found order' under⟩⟩

/-- Whenever a module is asked for, under whatever circumstances: if its last load found none, or
failed, the answer is none as long as the time to live has not passed since and the worker is the
same, and the index has not been cleared, and nothing else is done; and if one of the first two is
not so, or no worker could be reached, a load is joined or begun, which joins or makes a request. -/
theorem missing_module_is_asked_for_when_due {asked : String}
    (named : (StdlibModule.cleanPath asked).isEmpty = false)
    (recalled : RecallsAmid worker (StdlibModule.cleanPath asked)
      (opening settings typedbBudget stdlibBudget host sink) last u) :
    (∀ c ∈ last, c.missing = true → c.cleared = false →
      c.Stands settings.negativeTtl u.now u.bridge.generation → ∀ k,
        Machine.runRoutine ((getModule asked).andThen k) u = Machine.runRoutine (k none)
          { u with stdlib := { u.stdlib with negativeHits := u.stdlib.negativeHits + 1 } }) ∧
    (∀ c ∈ last, (c.missing = true ∧ ¬ c.Stands settings.negativeTtl u.now u.bridge.generation) ∨
      c.unreachable = true → Fetches asked u) ∧
    ∀ s, Assoc.get? (Question.key (.module (StdlibModule.cleanPath asked)))
      (Machine.runRoutine (rules.body (.load (StdlibModule.cleanPath asked))) s).1.bridge.inflight ≠
        none := by
  obtain ⟨recollects, t, job, Q, amid⟩ := recalled.recollects
  refine ⟨fun c hc missing kept stands k => ?_, fun c hc failed => ?_, load_asks _⟩
  · have remembers := recollects.remembers c hc (.inl missing)
    have told := remembers.absent (by simp [kept]) ((c.counts_noted _ _).2 ⟨missing, stands⟩)
    have found := findModule_eq (StdlibModule.cleanPath asked) u
    rw [told] at found
    rw [runs_getModule named, found]
  · have idle : ¬ StdlibIndex.Counts (c.noted settings.negativeTtl) u.now u.bridge.generation := by
      rw [c.counts_noted]
      rintro ⟨missing, stands⟩
      rcases failed with ⟨-, past⟩ | unreachable
      · exact past stands
      · exact c.not_missing_and_unreachable ⟨missing, unreachable⟩
    exact fetches_of_unknown named amid (recollects.remembers c hc (failed.imp_left And.left)) idle

/-! ## A course -/

/-- Does one thing that is ready, and keeps the load that was completed last. -/
def recallReady (path : String) (x : Machine State Trouble Value Job × Option Completed)
    (i : Ready Hook) :
    Machine State Trouble Value Job × Option Completed :=
  (x.1.runReady rules i, (completion? path x.1 i).or x.2)

/-- Does everything that is ready, and keeps the load that was completed last. -/
def recallRound (path : String) (x : Machine State Trouble Value Job × Option Completed) :
    Machine State Trouble Value Job × Option Completed :=
  let gathered : Moment State Trouble Value Job Hook := Moment.gather { machine := x.1 }
  gathered.queue.foldl (recallReady path) (gathered.machine, x.2)

theorem Recalls.drain {items : List (Ready Hook)} (h : Recalls worker path c last ⟨m, items⟩) :
    let drained := items.foldl (recallReady path) (m, last)
    Recalls worker path c drained.2 ⟨drained.1, []⟩ := by
  induction items generalizing m last with
  | nil => exact h
  | cons i rest ih =>
    have next : Recalls worker path c last ⟨m, [] ++ i :: rest⟩ := h
    exact ih next.runs

theorem Recalls.rounds (h : Recalls worker path c last ⟨m, []⟩) (n : Nat) :
    let reached := (recallRound path)^[n] (m, last)
    Recalls worker path c reached.2 ⟨reached.1, []⟩ := by
  induction n generalizing m last with
  | zero => exact h
  | succ n ih => exact ih h.gathers.drain

theorem Recalls.goes (h : Recalls worker path c last d) {e : Event ω} (onward : e.Onward d.state)
    (other : e ≠ .cleared) : Recalls worker path c last (d.happen (occur worker) e) := by
  have next := h.happens onward
  rwa [map_after other] at next

/-- Whether a round begins with a call in a task.  The rest of the round is arbitrary. -/
def BeginsCall (task : Nat) (d : Moment State Trouble Value Job Hook) : Bool :=
  match d.queue with
  | .start t :: _ => t == task && (d.machine.loop.task? t).any fun st =>
    !st.mustCancel && match st.job with | .call _ => true | _ => false
  | _ => false

theorem Recalls.amid (h : Recalls worker path c last d) {task : Nat}
    (calls : BeginsCall task d = true) :
    RecallsAmid worker path c last (Machine.turnOf task d.machine.state) := by
  obtain ⟨m, queue⟩ := d
  unfold BeginsCall at calls
  split at calls
  · next t rest hqueue =>
    obtain rfl : queue = .start t :: rest := hqueue
    obtain ⟨same, begins⟩ := Bool.and_eq_true_iff.1 calls
    obtain ⟨st, hst, called⟩ := (Option.any_eq_true _ _).1 begins
    obtain ⟨unmarked, call⟩ := Bool.and_eq_true_iff.1 called
    obtain rfl := eq_of_beq same
    have head : Recalls worker path c last ⟨m, [] ++ .start t :: rest⟩ := h
    refine .turn head (.starts hst (by simpa using unmarked)) (fun load => ?_) .here
    rw [load] at call
    cases call
  · cases calls

/-- A worker that finds nothing. -/
def denier : Worker Unit :=
  fun _ _ _ => .ok (.obj [("found", .bool false)])

/-- A module has been asked for and not found. -/
def denied : Machine State Trouble Value Job × Option Completed :=
  let asked := (opening {} 1000 1000 desk .absent).happen (occur denier) (.called (.module "Nope"))
  let waiting := (recallRound "Nope")^[8] (asked.machine, none)
  let answered : Moment State Trouble Value Job Hook :=
    Moment.happen (occur denier) { machine := waiting.1 } (.answered 2 ())
  (recallRound "Nope")^[8] (answered.machine, waiting.2)

/-- It is asked for again at some time. -/
def askedAt (now : Instant) : Moment State Trouble Value Job Hook :=
  let later : Moment State Trouble Value Job Hook :=
    Moment.happen (occur denier) { machine := denied.1 } (.clock now)
  (later.happen (occur denier) (.called (.module "Nope"))).gather

theorem recalls_asked (now : Instant) (onward : denied.1.state.now ≤ now) :
    Recalls denier "Nope" (opening {} 1000 1000 desk .absent) denied.2 (askedAt now) := by
  have asked : Recalls denier "Nope" (opening {} 1000 1000 desk .absent) none _ :=
    Recalls.refl.goes (e := .called (.module "Nope")) trivial nofun
  have waiting := asked.rounds 8
  have answered := waiting.goes (e := .answered 2 ()) trivial nofun
  have settled : Recalls denier "Nope" (opening {} 1000 1000 desk .absent) denied.2
    ⟨denied.1, []⟩ :=
    answered.rounds 8
  have later := settled.goes (e := .clock now) onward nofun
  exact (later.goes (e := .called (.module "Nope")) trivial nofun).gathers

/-- The module is not asked for again before five minutes have passed. -/
theorem denied_module_is_asked_for_when_due :
    (∀ k, let soon := Machine.turnOf 3 (askedAt 299999999).machine.state
      Machine.runRoutine ((getModule "Nope").andThen k) soon = Machine.runRoutine (k none)
        { soon with stdlib := { soon.stdlib with negativeHits := soon.stdlib.negativeHits + 1 } }) ∧
    Fetches "Nope" (Machine.turnOf 3 (askedAt 300000000).machine.state) := by
  have clean : StdlibModule.cleanPath "Nope" = "Nope" := by decide +kernel
  have named : (StdlibModule.cleanPath "Nope").isEmpty = false := by decide +kernel
  have amid (now : Instant) (onward : denied.1.state.now ≤ now)
    (calls : BeginsCall 3 (askedAt now) = true) :
      RecallsAmid denier (StdlibModule.cleanPath "Nope")
        (opening {} 1000 1000 desk .absent) denied.2
        (Machine.turnOf 3 (askedAt now).machine.state) := by
    rw [clean]
    exact (recalls_asked now onward).amid calls
  obtain ⟨c, hc, missing, kept, time, worker⟩ : ∃ c, denied.2 = some c ∧
    c.missing = true ∧ c.cleared = false ∧
      c.time = 0 ∧ c.generation = 0 := by
    have completed :
        denied.2.any (fun c => c.missing && (!c.cleared && (c.time == 0 && c.generation == 0))) =
        true := by decide +kernel
    obtain ⟨c, hc, h⟩ := (Option.any_eq_true _ _).1 completed
    exact ⟨c, hc, by simpa using h⟩
  -- The worker denied the module at time zero, and the denial stands for five minutes.
  have expiry : c.time.after (some 300000000) = some 300000000 := by
    rw [time]
    rfl
  have soon := missing_module_is_asked_for_when_due named
    (amid 299999999 (by decide +kernel) (by decide +kernel))
  have late := missing_module_is_asked_for_when_due named
    (amid 300000000 (by decide +kernel) (by decide +kernel))
  refine ⟨soon.1 c hc missing kept ⟨fun t ht => ?_, ?_⟩,
    late.2.1 c hc (.inl ⟨missing, fun stands => ?_⟩)⟩
  · obtain rfl := Option.some.inj (ht.symm.trans expiry)
    decide +kernel
  · rw [worker]
    decide +kernel
  · have early := stands.1 _ expiry
    revert early
    decide +kernel

end PikeAnalysis.Engine.Library
