import PikeAnalysis.Proofs.Concurrency.Parking
import PikeAnalysis.Proofs.Engine.Closed
import PikeAnalysis.Proofs.Engine.InFlight

/-!
# Calls that share a request

A call joins the task of the request that is under its key, or makes one, and waits for a ticket to
which the end of that task is passed on (`call_started`).  Unless it is cancelled itself it goes on
as that task has ended (`call_ended`), so that all who have joined the same task are told the same
(`requests_are_shared`).

Which call is cancelled is not known beforehand, and the charter of `Sharing` only says what becomes
of those that are not.  So a course is taken for one call at a time: either the call is cancelled in
it while it is there (`Cancelled`), or the cancellations of it hit nothing and can be left out, and
then the call is one of those that are spared (`cancelled_or_spared`).  That is why the theorem
names the cancellation and not only its outcome.

`Joined` is how a call comes to share: it has its first turn, and after that the task is under the
key of what it asks for.  From there the call waits for a ticket of its own, to which the end of the
task is relayed, and the invariants of `Proofs/Engine/Sharing.lean` say that nobody cancels the
task.  So what the call ends with is decided by the end of the task, unless the call is cancelled.

The theorem has one part for each of the things that could go wrong: a request that is written
twice, a caller who is told something else than the task has ended with, two callers who are told
different things, a task that ends as cancelled because a caller was, and a caller whose
cancellation shows although he was not cancelled.
-/

namespace PikeAnalysis.Engine.Sharing

open PikeAnalysis.Concurrency
open PikeAnalysis.Concurrency.Loop (Guarded)

variable {spared : Nat → Prop} {s : State} {c t : Nat} {method : String}
  {params : List (String × Json)}

/-! ## The turn of a call -/

/-- How a call ends once the request has ended that it has waited for. -/
def answerOf : Ending Trouble Value → Ending Trouble Value
  | .value (.json v) => .value (.json v)
  | .value _ => .value (.json .null)
  | .error why => .error why
  | .cancelled => .cancelled

theorem runs_passOn (e : Ending Trouble Value) (s : State) :
    Machine.runRoutine ((Routine.ofEnding e).andThen passOn) s = (s, .ended (answerOf e)) := by
  cases e with
  | value v => cases v <;> rfl
  | error | cancelled => rfl

theorem inflight_joinRequest (method : String) (params : List (String × Json)) (s : State) :
    Assoc.get? (Bridge.requestKey method params) (joinRequest method params s).1.bridge.inflight =
      some (joinRequest method params s).2 := by
  unfold joinRequest
  dsimp only
  split
  · next task found => exact found
  · exact Assoc.get?_set_self _ _ _

theorem ending?_joinRequest (method : String) (params : List (String × Json)) (s : State)
    (signal : Signal) :
    (joinRequest method params s).1.loop.ending? signal = s.loop.ending? signal := by
  unfold joinRequest
  dsimp only
  split
  · rfl
  · exact Loop.ending?_follow _ _ _ _

/-- A call joins a request.  It ends at once if that has ended, or waits for a ticket to which
its end is passed on. -/
theorem runs_call (method : String) (params : List (String × Json)) (s : State) :
    let u := (joinRequest method params s).1
    let t := (joinRequest method params s).2
    (∀ e, u.loop.ending? (.ended t) = some e →
      Machine.runRoutine (callBody (.request method params)) s = (u, .ended (answerOf e))) ∧
    (u.loop.ending? (.ended t) = none → u.loop.ending? (.ticket u.loop.nextTicket) = none →
      Machine.runRoutine (callBody (.request method params)) s =
        ({ u with
          loop := u.loop.newTicket.1.follow (.ended t) (.relay (.ticket u.loop.nextTicket)) },
          .waits (.ticket u.loop.nextTicket) fun e => (Routine.ofEnding e).andThen passOn)) := by
  intro u t
  rw [callBody_request]
  have joined : Machine.runRoutine ((Routine.act (joinRequest method params)).andThen fun task =>
      (Routine.awaitTask task : Act Value).andThen passOn) s =
        Machine.runRoutine ((Routine.awaitTask t : Act Value).andThen passOn) u := rfl
  rw [joined]
  -- To wait for a task means to look whether it has ended, and only then to wait for a ticket.
  rw [Routine.runs_awaitTask]
  constructor
  · intro e he
    have ended : u.loop.isEnded t = true := by
      rw [Loop.isEnded, he]
      rfl
    have raised : Machine.runRoutine ((Routine.await (.ended t) : Act Value).andThen passOn) u =
        Machine.runRoutine ((Routine.ofEnding e).andThen passOn) u :=
          Routine.runs_await_of_raised he _
    exact (if_pos ended).trans (raised.trans (runs_passOn e u))
  · intro running fresh
    have unended : ¬ u.loop.isEnded t = true := by
      rw [Loop.isEnded, running]
      exact Bool.false_ne_true
    refine (if_neg unended).trans (Routine.runs_await_of_open ?_ _)
    exact (Loop.ending?_follow _ _ _ _).trans fresh

/-! ## The ends of calls -/

/-- A call ends as the request's task `t` has ended.  Which of the three ways it is makes no
difference: a value, an error and a cancellation are all passed on. -/
def Told (l : Loop Job Hook Trouble Value) (t : Nat) (e : Ending Trouble Value) : Prop :=
  ∃ answer, l.ending? (.ended t) = some answer ∧ e = answerOf answer

theorem ending?_finish_self {l : Loop Job Hook Trouble Value}
    (unended : l.ending? (.ended c) = none)
    (e : Ending Trouble Value) : (l.finish c e).ending? (.ended c) = some e := by
  rw [Loop.finish, Loop.ending?_raise, if_pos ⟨rfl, unended⟩]

/-- A task that is not to be cancelled ends as its routine does. -/
theorem ending?_conclude {l : Loop Job Hook Trouble Value} (unended : l.ending? (.ended c) = none)
    (unmarked : ∀ st, l.task? c = some st → st.mustCancel = false) (e : Ending Trouble Value) :
    (Machine.conclude l c e).ending? (.ended c) = some e := by
  cases e with
  | value v =>
    have calm : (l.task? c).any (·.mustCancel) = false := by
      cases htask : l.task? c with
      | none => rfl
      | some st => exact unmarked st htask
    rw [Machine.conclude, calm, if_neg Bool.false_ne_true]
    exact ending?_finish_self unended _
  | error | cancelled => exact ending?_finish_self unended _

theorem stays_conclude (l : Loop Job Hook Trouble Value) (c : Nat) (e : Ending Trouble Value)
    {signal : Signal} {ending : Ending Trouble Value} (h : l.ending? signal = some ending) :
    (Machine.conclude l c e).ending? signal = some ending := by
  cases e <;> exact Loop.stays_finish l c _ signal ending h

/-- A call whose turn ends with what the request's task has ended with. -/
theorem told_conclude {l : Loop Job Hook Trouble Value} (unended : l.ending? (.ended c) = none)
    (unmarked : ∀ st, l.task? c = some st → st.mustCancel = false)
    {e : Ending Trouble Value} (told : Told l t e) :
    ∃ e', (Machine.conclude l c e).ending? (.ended c) = some e' ∧
      Told (Machine.conclude l c e) t e' := by
  obtain ⟨answer, hanswer, same⟩ := told
  exact ⟨e, ending?_conclude unended unmarked e, answer, stays_conclude l c e hanswer, same⟩

variable {m : Machine State Trouble Value Job} {Q : Multiset (Ready Hook)}

/-- A task that has not ended. -/
theorem unended_of_task (h : (charter spared).Holds none Q m) {st : TaskState Job}
    (hst : m.state.loop.task? c = some st) : m.state.loop.ending? (.ended c) = none :=
  h.unended (Loop.jobOf_of_task? hst)

/-- After its first turn a call that is spared has joined a task, and has ended as that or waits for
its end. -/
theorem call_started (here : spared c) (h : (charter spared).Holds none (.start c ::ₘ Q) m)
    (hjob : m.state.loop.jobOf c = some (.call (.request method params))) :
    let m' := m.runReady rules (.start c)
    ∃ t, Assoc.get? (Bridge.requestKey method params) m'.state.bridge.inflight = some t ∧
      ((∃ e, m'.state.loop.ending? (.ended c) = some e ∧ Told m'.state.loop t e) ∨
        ∃ n, m'.Parks c (.ticket n) (fun e => (Routine.ofEnding e).andThen passOn) ∧
          Loop.Bound (custom spared) (claims m'.state) Q m'.state.loop n (.ended t)) := by
  intro m'
  have follows := (lawful spared).run h
  have firm : (custom spared).firm c (.call (.request method params)) := .inr ⟨here, trivial⟩
  obtain ⟨st, hst, hstjob⟩ := Loop.task?_of_jobOf hjob
  have unended := unended_of_task h hst
  have unmarked : st.mustCancel = false := h.guarded.marks c st hst (hstjob ▸ firm)
  have started : m' = m.proceed rules c (callBody (.request method params)) := by
    have htask : m.loop.task? c = some st := hst
    show m.startTask rules c = _
    rw [Machine.startTask, htask]
    dsimp only
    rw [unmarked, if_neg Bool.false_ne_true, hstjob]
    rfl
  have first : 0 < Loop.pending (.start c ::ₘ Q) m.state.loop (.start c) := by
    rw [Loop.pending_cons, if_pos rfl]
    exact Nat.succ_pos _
  have amid : (charter spared).Amid c (.call (.request method params)) (Machine.turnOf c m.state) :=
    Charter.amid_turnOf h.inv h.guarded hjob (h.sane.starts c first).2.2
  have heeds : (charter spared).Heeds c (.call (.request method params)) ((charter spared).Ends c _)
      (jobBody (.call (.request method params))) (Machine.turnOf c m.state) :=
    heeds_body amid (.inl ⟨rfl, h.unbegun c first⟩)
  obtain ⟨steps, -⟩ := Charter.runRoutine_heeds amid heeds
  rw [show jobBody (.call (.request method params)) =
    callBody (.request method params) from rfl] at steps
  obtain ⟨ends, waits⟩ := runs_call method params (Machine.turnOf c m.state)
  have unended' : (joinRequest method params (Machine.turnOf c m.state)).1.loop.ending? (.ended c) =
    none := by
    rw [ending?_joinRequest]
    exact unended
  have joined := inflight_joinRequest method params (Machine.turnOf c m.state)
  have amid' := (steps_joinRequest amid method params).amid
  generalize (joinRequest method params (Machine.turnOf c m.state)).1 = u at *
  generalize (joinRequest method params (Machine.turnOf c m.state)).2 = t at *
  refine ⟨t, ?_⟩
  -- The task that is joined may have ended already, and then there is no wait.
  cases ended : u.loop.ending? (.ended t) with
  | some answer =>
    have left := started.trans (Machine.proceed_eq rules m c _ (ends answer ended))
    rw [left]
    refine ⟨joined, .inl (told_conclude unended' (fun st' hst' => ?_) ⟨answer, ended, rfl⟩)⟩
    have same := Option.some.inj ((Loop.jobOf_of_task? hst').symm.trans amid'.job)
    exact amid'.guarded.marks c st' hst' (same ▸ firm)
  | none =>
    have fresh : u.loop.ending? (.ticket u.loop.nextTicket) = none := by
      by_contra raised
      exact Nat.lt_irrefl _ (amid'.guarded.raised _ raised)
    have run := waits ended fresh
    have left := started.trans (Machine.proceed_eq rules m c _ run)
    rw [run] at steps
    obtain ⟨st', hst', -⟩ := Loop.task?_of_jobOf steps.amid.job
    have mild := Loop.mild_suspend hst' (.ticket u.loop.nextTicket)
    have parks : m'.Parks c (.ticket u.loop.nextTicket) fun e =>
      (Routine.ofEnding e).andThen passOn := by
      rw [left]
      refine ⟨?_, ?_⟩
      · exact (mild.waiting c).trans (by rw [Loop.waitingOn_asleep, if_pos rfl])
      · exact if_pos rfl
    have passed : 0 < Loop.pending Q m'.state.loop
        (.follow (.relay (.ticket u.loop.nextTicket)) (.ended t)) := by
      rw [left]
      refine Nat.lt_of_lt_of_eq ?_ (mild.pending _).symm
      rw [Loop.pending_asleep]
      refine Nat.add_pos_left (Nat.lt_of_lt_of_eq ?_ (Loop.pending_follow Q _ _ _ _).symm) _
      rw [if_pos rfl]
      exact Nat.succ_pos _
    have bound := follows.holds.sane.relays _ _ passed
    refine ⟨?_, .inr ⟨_, parks, bound⟩⟩
    rw [left]
    exact joined

/-- A call that goes on after its wait ends as the request's task has ended. -/
theorem told_goOn {signal : Signal} {rest : Rest State Trouble Value Job}
    (h : (charter spared).Holds none Q m) (parks : m.Parks c signal rest) {e : Ending Trouble Value}
    (told : Told m.state.loop t (answerOf e)) :
    let m' := m.goOn rules c ((Routine.ofEnding e).andThen passOn)
    ∃ e', m'.state.loop.ending? (.ended c) = some e' ∧ Told m'.state.loop t e' := by
  intro m'
  obtain ⟨st, hst, -⟩ := Option.bind_eq_some_iff.mp parks.waiting
  have htask : m.loop.task? c = some st := hst
  let woken :=
    { m.state.loop.setTask c { st with waiting := none, mustCancel := false } with current := c }
  have went : m' = { m with suspended := Assoc.erase c m.suspended }.updateLoop fun _ =>
      Machine.conclude woken c (answerOf e) := by
    have opened : m' = ({ m with suspended := Assoc.erase c m.suspended }.updateLoop fun l =>
        l.setTask c { st with waiting := none, mustCancel := false }).proceed rules c
          ((Routine.ofEnding e).andThen passOn) := by
      show m.goOn rules c _ = _
      rw [Machine.goOn, htask]
    exact opened.trans (Machine.proceed_eq rules _ c _ (runs_passOn e _))
  rw [went]
  have unended : woken.ending? (.ended c) = none := unended_of_task h hst
  have told' : Told woken t (answerOf e) := told
  refine told_conclude unended (fun st' hst' => ?_) told'
  have same : woken.task? c = some { st with waiting := none, mustCancel := false } := by
    show (m.state.loop.setTask c _).task? c = _
    rw [Loop.task?_setTask, if_pos rfl]
  rw [same] at hst'
  exact Option.some.inj hst' ▸ rfl

/-- The task of a request, which is there or has ended, and not as cancelled. -/
def Answers (s : State) (t : Nat) : Prop :=
  (∃ key method params, s.loop.jobOf t = some (.request key method params)) ∨
    ∃ e, s.loop.ending? (.ended t) = some e ∧ e ≠ .cancelled

theorem Shared.answers (h : Shared spared s) {key : String}
    (found : Assoc.get? key s.bridge.inflight = some t) : Answers s t :=
  (h.inFlight key t found).imp_left fun ⟨method, params, hjob⟩ => ⟨key, method, params, hjob⟩

/-- Nobody cancels the task of a request. -/
theorem Answers.follow {Q Q' : Multiset (Ready Hook)} {m m' : Machine State Trouble Value Job}
    {W : Nat → Prop}
    {own : Option Nat} (h : Answers m.state t)
    (follows : (charter spared).Follows W Q m own Q' m') :
    Answers m'.state t := by
  rcases h with ⟨key, method, params, hjob⟩ | ⟨e, he, done⟩
  · have firm : (custom spared).firm t (.request key method params) := .inl trivial
    rcases follows.ends t _ firm hjob with hjob | ⟨e, he, comes⟩
    · exact .inl ⟨key, method, params, hjob⟩
    · exact .inr ⟨e, he, comes trivial⟩
  · exact .inr ⟨e, follows.stays _ e he, done⟩

theorem Answers.uncancelled (h : Answers m.state t) (held : (charter spared).Holds none Q m)
    {answer : Ending Trouble Value} (ended : m.state.loop.ending? (.ended t) = some answer) :
    answer ≠ .cancelled := by
  rcases h with ⟨key, method, params, hjob⟩ | ⟨e, he, done⟩
  · cases ended.symm.trans (held.unended hjob)
  · exact Option.some.inj (he.symm.trans ended) ▸ done

/-- A call that is spared and has joined a task ends as that task has ended, which is not as
cancelled. -/
theorem call_ended {before after : List (Ready Hook)}
    {d : Moment State Trouble Value Job Hook} {os : List Occurrence} {e : Ending Trouble Value}
    (h : (charter spared).Holds none
      (.start c ::ₘ ((before ++ after : List (Ready Hook)) : Multiset (Ready Hook))) m)
    (here : spared c) (hjob : m.state.loop.jobOf c = some (.call (.request method params)))
    (leads : Leads rules befall ⟨m.runReady rules (.start c), before ++ after⟩ os d)
    (spares : ∀ o ∈ os, Spares spared o) (ended : d.state.loop.ending? (.ended c) = some e) :
    ∃ t, Assoc.get? (Bridge.requestKey method params)
      (m.runReady rules (.start c)).state.bridge.inflight = some t ∧
        ∃ answer, answer ≠ .cancelled ∧ d.state.loop.ending? (.ended t) = some answer ∧
          e = answerOf answer := by
  have begun := ((lawful spared).run h).holds
  -- What has been told by some moment is what has been told at the end.
  have last {m' : Machine State Trouble Value Job} {items : List (Ready Hook)}
    {os' : List Occurrence}
      (held : (charter spared).Holds none (items : Multiset (Ready Hook)) m')
      (onward : Leads rules befall ⟨m', items⟩ os' d) (spares' : ∀ o ∈ os', Spares spared o)
      {t : Nat} {e' : Ending Trouble Value} (he' : m'.state.loop.ending? (.ended c) = some e')
      (told : Told m'.state.loop t e') : Told d.state.loop t e := by
    have follows := (lawful spared).leads held onward spares'
    obtain rfl := Option.some.inj (ended.symm.trans (follows.stays _ _ he'))
    obtain ⟨answer, hanswer, same⟩ := told
    exact ⟨answer, follows.stays _ _ hanswer, same⟩
  obtain ⟨t, joined, goes⟩ := call_started here h hjob
  have follows := (lawful spared).leads begun leads spares
  have answers : Answers d.state t := (begun.inv.answers joined).follow follows
  suffices told : Told d.state.loop t e by
    obtain ⟨answer, hanswer, same⟩ := told
    exact ⟨t, joined, answer, answers.uncancelled follows.holds hanswer, hanswer, same⟩
  rcases goes with ⟨e', he', told⟩ | ⟨n, parks, bound⟩
  · exact last begun leads spares he' told
  rcases (lawful spared).hears begun leads spares parks bound with
    still | ⟨m', before', after', os₁, os₂, e', rfl, reached, parked, -, heard, went, onward⟩
  · obtain ⟨st, hst, -⟩ := Option.bind_eq_some_iff.mp still.waiting
    cases ended.symm.trans (unended_of_task follows.holds hst)
  · obtain ⟨early, late⟩ := List.forall_mem_append.mp spares
    have arrived := (lawful spared).leads begun reached early
    have held := arrived.holds
    rw [multiset_middle] at held
    have joins : m'.state.loop.jobOf c = some (.call (.request method params)) := by
      obtain ⟨st, hst, -⟩ := Option.bind_eq_some_iff.mp parked.waiting
      have hjob' := Loop.jobOf_of_task? hst
      have evolves := ((lawful spared).run h).evolves.trans arrived.evolves
      have earlier := evolves.jobs c _ (h.guarded.fresh.lt_of_jobOf hjob) hjob'
      exact hjob'.trans (earlier.symm.trans hjob)
    have told : Told m'.state.loop t (answerOf e') :=
      ⟨e', heard ⟨_, joins, .inr ⟨here, trivial⟩⟩, rfl⟩
    obtain ⟨e'', he'', told'⟩ := told_goOn held parked told
    have next := ((lawful spared).run held).holds
    rw [went] at next
    exact last next onward late he'' told'

/-! ## Cancellations -/

variable {first last d : Moment State Trouble Value Job Hook} {os more : List Occurrence}
  {e : Ending Trouble Value}

/-- In a course with these occurrences a task is cancelled while it is there.  It is an occurrence
of the course, at a moment when the task has not ended. -/
inductive Cancelled (c : Nat) (first last : Moment State Trouble Value Job Hook) :
    List Occurrence → Prop
  | intro {before after : List Occurrence} {d : Moment State Trouble Value Job Hook}
      (reached : Leads rules befall first before d) (there : d.state.loop.jobOf c ≠ none)
      (onward : Leads rules befall (d.happen befall (.cancels c)) after last) :
      Cancelled c first last (before ++ .cancels c :: after)

theorem Cancelled.mem (h : Cancelled c first last os) : .cancels c ∈ os := by
  obtain ⟨-, -, -⟩ := h
  exact List.mem_append_right _ List.mem_cons_self

theorem Cancelled.onward (h : Cancelled c first d os) (leads : Leads rules befall d more last) :
    Cancelled c first last (os ++ more) := by
  obtain ⟨reached, there, onward⟩ := h
  rw [List.append_assoc]
  exact ⟨reached, there, onward.trans leads⟩

theorem Cancelled.still (h : Cancelled c first d os) (leads : Leads rules befall d [] last) :
    Cancelled c first last os := by
  have onward := h.onward leads
  rwa [List.append_nil] at onward

theorem Cancelled.after (h : Cancelled c d last more) (leads : Leads rules befall first os d) :
    Cancelled c first last (os ++ more) := by
  obtain ⟨reached, there, onward⟩ := h
  rw [← List.append_assoc]
  exact ⟨leads.trans reached, there, onward⟩

/-- Nothing happens if a task is cancelled that is not there. -/
theorem happen_cancels (gone : d.state.loop.jobOf c = none) : d.happen befall (.cancels c) = d := by
  have none_cancelled : (d.state.loop.cancel c).1 = d.state.loop := by
    rw [Loop.cancel, Loop.cancelTask, Option.map_eq_none_iff.mp gone]
  have same : befall (.cancels c) d.machine.state = d.machine.state := by
    have hgone : d.machine.state.loop.jobOf c = none := gone
    rw [befall, hgone]
    dsimp only
    rw [occur, show (d.machine.state.loop.cancel c).1 = d.machine.state.loop from none_cancelled]
  rw [Moment.happen, same]

/-- Either a task is cancelled while it is there, or what cancels it can be left out.  In the second
case the course is another one to the same end, with fewer occurrences. -/
theorem cancelled_or_spared (c : Nat) (leads : Leads rules befall first os d) :
    Cancelled c first d os ∨
      ∃ os', (∀ o ∈ os', Spares (· = c) o) ∧ Leads rules befall first os' d := by
  -- What comes after a cancellation that hits does not take it back; one that does not hit can be
  -- left out.
  induction leads with
  | refl => exact .inr ⟨[], nofun, .refl⟩
  | @happens os d led o ih =>
    rcases ih with cancelled | ⟨os', spares, led'⟩
    · exact .inl (cancelled.onward (.happens .refl o))
    by_cases hits : o = .cancels c
    · subst hits
      by_cases gone : d.state.loop.jobOf c = none
      · rw [happen_cancels gone]
        exact .inr ⟨os', spares, led'⟩
      · exact .inl (.intro led gone .refl)
    · refine .inr ⟨os' ++ [o], List.forall_mem_append.mpr ⟨spares, fun o' ho' t ht same => ?_⟩,
        led'.happens o⟩
      rw [List.mem_singleton.mp ho'] at ht
      exact hits (same ▸ ht)
  | gathers led ih =>
    rcases ih with cancelled | ⟨os', spares, led'⟩
    · exact .inl (cancelled.still (.gathers .refl))
    · exact .inr ⟨os', spares, led'.gathers⟩
  | @runs os m item before after led ih =>
    rcases ih with cancelled | ⟨os', spares, led'⟩
    · have ran : Leads rules befall ⟨m, before ++ item :: after⟩ []
        ⟨m.runReady rules item, before ++ after⟩ :=
        .runs .refl
      exact .inl (cancelled.still ran)
    · exact .inr ⟨os', spares, led'.runs⟩

/-! ## Sharing -/

/-- What has the number `id` has been asked by a task that has not got its answer. -/
def Stems (s : State) (id : Nat) (method : String) (params : List (String × Json)) : Prop :=
  ∃ t thread, Assoc.get? t s.bridge.threads = some thread ∧ thread.stage.request? = some id ∧
    thread.job = .request method params

/-- What has no answer yet stems from a request that is in flight, and from no other does it stem
twice.  So what two callers ask for at the same time is numbered once. -/
structure AskedOnce (s : State) : Prop where
  stems : ∀ id entry, Assoc.get? id s.bridge.pending = some entry →
    ∃ params, Stems s id entry.method params
  inFlight : ∀ id method params, Stems s id method params →
    Assoc.get? (Bridge.requestKey method params) s.bridge.inflight ≠ none
  once : ∀ id id' method method' params params', Stems s id method params →
    Stems s id' method' params' →
    Bridge.requestKey method params = Bridge.requestKey method' params' → id = id'

/-- The task of a request that waits for an answer is under its key. -/
theorem Shared.inflight_of_thread (h : Shared spared s) {thread : Bridge.Thread}
    (ht : Assoc.get? t s.bridge.threads = some thread)
    (request : thread.job = .request method params) :
    Assoc.get? (Bridge.requestKey method params) s.bridge.inflight = some t :=
  (h.joined t _ method params ((h.threads t _ ht).request method params request)).2

theorem Shared.askedOnce (h : Shared spared s) : AskedOnce s where
  stems id entry hid := by
    obtain ⟨t, thread, params, ht, asks, request⟩ := h.pending id entry hid
    exact ⟨params, t, thread, ht, asks, request⟩
  inFlight id method params stems := by
    obtain ⟨t, thread, ht, -, request⟩ := stems
    rw [h.inflight_of_thread ht request]
    exact fun h => by cases h
  once id id' method method' params params' stems stems' key := by
    obtain ⟨t, thread, ht, asks, request⟩ := stems
    obtain ⟨t', thread', ht', asks', request'⟩ := stems'
    have joined := h.inflight_of_thread ht request
    rw [key, h.inflight_of_thread ht' request'] at joined
    obtain rfl := Option.some.inj joined
    obtain rfl := Option.some.inj (ht'.symm.trans ht)
    exact Option.some.inj (asks.symm.trans asks')

/-- In a course from `first` to `last` with these occurrences the call `c` has its first turn, after
which the task `t` is under the key of what it asks for.  Whether it was the one that made the task
does not matter. -/
inductive Joined (c t : Nat) (first last : Moment State Trouble Value Job Hook) :
    List Occurrence → Prop
  | intro {os os' : List Occurrence} {m : Machine State Trouble Value Job}
    {before after : List (Ready Hook)}
      {method : String} {params : List (String × Json)}
      (reached : Leads rules befall first os ⟨m, before ++ .start c :: after⟩)
      (calls : m.state.loop.jobOf c = some (.call (.request method params)))
      (found : Assoc.get? (Bridge.requestKey method params)
        (m.runReady rules (.start c)).state.bridge.inflight = some t)
      (onward : Leads rules befall ⟨m.runReady rules (.start c), before ++ after⟩ os' last) :
      Joined c t first last (os ++ os')

/-- Whoever has joined a task and has ended has been cancelled himself, or has been told how the
task has ended, which is not as cancelled. -/
theorem Joined.told
    (h : ∀ spared, (charter spared).Holds none (first.queue : Multiset (Ready Hook)) first.machine)
    (joined : Joined c t first d os) (ended : d.state.loop.ending? (.ended c) = some e) :
    Cancelled c first d os ∨
      ∃ answer, answer ≠ .cancelled ∧ d.state.loop.ending? (.ended t) = some answer ∧
        e = answerOf answer := by
  obtain ⟨reached, calls, found, onward⟩ := joined
  rcases cancelled_or_spared c reached with cancelled | ⟨earlier, early, reached'⟩
  · refine .inl (cancelled.onward ?_)
    exact List.nil_append _ ▸ Leads.trans (.runs .refl) onward
  rcases cancelled_or_spared c onward with cancelled | ⟨later, late, onward'⟩
  · exact .inl (cancelled.after reached.runs)
  have held := ((lawful (· = c)).leads (h _) reached' early).holds
  rw [multiset_middle] at held
  obtain ⟨t', found', told⟩ := call_ended held rfl calls onward' late ended
  obtain rfl := Option.some.inj (found.symm.trans found')
  exact .inr told

/-- A task waits for a ticket to which the end of the task `t` is to be passed on, and then has a
rest to do. -/
structure WaitsFor (c t n : Nat) (rest : Rest State Trouble Value Job)
    (d : Moment State Trouble Value Job Hook) : Prop where
  parks : d.machine.Parks c (.ticket n) rest
  relayed : 0 < Loop.pending (d.queue : Multiset (Ready Hook)) d.state.loop
    (.follow (.relay (.ticket n)) (.ended t))

/-- A task goes on with what it has left to do, as the task `t` has ended, or as cancelled if it was
going to hear of a cancellation when it began to wait or has been cancelled since. -/
def GoesOn (c t n : Nat) (rest : Rest State Trouble Value Job) (began : State)
    (m m' : Machine State Trouble Value Job) : Prop :=
  ∃ e, Loop.Learns began.loop m.state.loop c n (.ended t) e ∧ m' = m.goOn rules c (rest e)

/-- Requests are shared.  In every order in which replies, crashes, stops and calls, and
cancellations of those who call, may come: whatever has no answer yet stems from a request that is
in flight, and no two of them from the same.  Whoever has joined the task of a request and was not
cancelled himself ends as that task has ended, and so do all of them; the task does not end as
cancelled, whoever of them is.  Whoever else waits for the end of a task, with a limit of time or
without, goes on as that task has ended, or as cancelled if he is. -/
theorem requests_are_shared (settings : Config.Settings) (typedbBudget stdlibBudget : Int)
    (host : Host) (sink : Sink) :
    let first := opening settings typedbBudget stdlibBudget host sink
    (∀ os s, Visits rules befall first os s → AskedOnce s) ∧
    (∀ c t os d e, Joined c t first d os → d.state.loop.ending? (.ended c) = some e →
      Cancelled c first d os ∨
        ∃ answer, answer ≠ .cancelled ∧ d.state.loop.ending? (.ended t) = some answer ∧
          e = answerOf answer) ∧
    (∀ c c' t os os' d e e', Joined c t first d os → Joined c' t first d os' →
      d.state.loop.ending? (.ended c) = some e → d.state.loop.ending? (.ended c') = some e' →
        ¬ Cancelled c first d os → ¬ Cancelled c' first d os' → e = e') ∧
    (∀ t key method params os a os' d, Leads rules befall first os a →
      a.state.loop.jobOf t = some (.request key method params) → Leads rules befall a os' d →
        d.state.loop.ending? (.ended t) ≠ some .cancelled) ∧
    ∀ c t n rest os a os' d, Leads rules befall first os a → WaitsFor c t n rest a →
      Leads rules befall a os' d →
        d.machine.Parks c (.ticket n) rest ∨ ∃ m before after os₁ os₂, os₁ ++ os₂ = os' ∧
          Leads rules befall a os₁ ⟨m, before ++ .follow (.resume c) (.ticket n) :: after⟩ ∧
          GoesOn c t n rest a.state m (m.runReady rules (.follow (.resume c) (.ticket n))) ∧
          Leads rules befall ⟨m.runReady rules (.follow (.resume c) (.ticket n)), before ++ after⟩
            os₂ d := by
  intro first
  have opened (spared : Nat → Prop) : (charter spared).Holds none _ first.machine :=
    holds_opening settings typedbBudget stdlibBudget host sink
  -- Nobody needs to be spared where only the requests are in question.
  have told {c t : Nat} {os : List Occurrence} {d : Moment State Trouble Value Job Hook}
      {e : Ending Trouble Value} (joined : Joined c t first d os) :=
    joined.told (e := e) opened
  refine ⟨fun os s visits => ?_, fun c t os d e joined ended => told joined ended,
    fun c c' t os os' d e e' joined joined' ended ended' calm calm' => ?_,
    fun t key method params os a os' d reached asks onward cancelled => ?_,
    fun c t n rest os a os' d reached waits onward => ?_⟩
  · exact ((lawful fun _ => False).visits (opened _) visits fun o _ => spares_nobody o).askedOnce
  · obtain ⟨answer, -, hanswer, rfl⟩ := (told joined ended).resolve_left calm
    obtain ⟨answer', -, hanswer', rfl⟩ := (told joined' ended').resolve_left calm'
    rw [Option.some.inj (hanswer.symm.trans hanswer')]
  · have held := ((lawful fun _ => False).leads (opened _) reached fun o _ => spares_nobody o).holds
    have follows := (lawful fun _ => False).leads held onward fun o _ => spares_nobody o
    have answers : Answers a.state t := .inl ⟨key, method, params, asks⟩
    exact (answers.follow follows).uncancelled follows.holds cancelled rfl
  · have held := ((lawful fun _ => False).leads (opened _) reached fun o _ => spares_nobody o).holds
    have bound := held.sane.relays _ _ waits.relayed
    rcases (lawful fun _ => False).hears held onward
      (fun o _ => spares_nobody o) waits.parks bound with
      still | ⟨m, before, after, os₁, os₂, e, split, reached', parked, learns, -, went, onward'⟩
    · exact .inl still
    · rw [← went] at onward'
      exact .inr ⟨m, before, after, os₁, os₂, split, reached', ⟨e, learns, went⟩, onward'⟩

/-- Somebody asks for the version of the worker. -/
def callVersion : Occurrence :=
  .calls (.request "version" [])

/-- Two callers ask for it. -/
def asking : Moment State Trouble Value Job Hook :=
  (((opening {} 1000 1000 desk .absent).happen befall callVersion).happen befall callVersion).gather

/-- What they ask for has been sent to the worker. -/
def asked : Moment State Trouble Value Job Hook :=
  { machine :=
      ((asking.machine.runReady rules (.start 0)).runReady rules (.start 1)).settle rules 20 }

/-- What the worker answers. -/
def versionAnswer : Occurrence :=
  .happens (.output 0 ["\x7b\"id\": 1, \"result\": 8\x7d"] false)

/-- The worker has answered. -/
def answered : Moment State Trouble Value Job Hook :=
  { machine := (asked.happen befall versionAnswer).machine.settle rules 20 }

/-- The value that a task has ended with. -/
def valueOf (t : Nat) (d : Moment State Trouble Value Job Hook) : Option Value :=
  match d.state.loop.ending? (.ended t) with
  | some (.value v) => some v
  | _ => none

theorem ending?_of_valueOf {d : Moment State Trouble Value Job Hook} {v : Value}
    (h : valueOf t d = some v) :
    d.state.loop.ending? (.ended t) = some (.value v) := by
  unfold valueOf at h
  split at h
  · next w ended => rw [ended, Option.some.inj h]
  · cases h

/-- Whether a task is a call for the version of the worker. -/
def asksVersion (t : Nat) (m : Machine State Trouble Value Job) : Bool :=
  match m.state.loop.jobOf t with
  | some (.call (.request "version" [])) => true
  | _ => false

theorem jobOf_of_asksVersion {m : Machine State Trouble Value Job} (h : asksVersion t m = true) :
    m.state.loop.jobOf t = some (.call (.request "version" [])) := by
  unfold asksVersion at h
  split at h
  · next calls => exact calls
  · cases h

/-- The two are answered alike, though the worker was asked once. -/
theorem both_are_answered_alike :
    answered.state.bridge.nextId = 1 ∧ ∃ v, answered.state.loop.ending? (.ended 0) =
      some (.value v) ∧
      answered.state.loop.ending? (.ended 1) = some (.value v) := by
  -- The course is cut where the first call, and then the second, has had its first turn.
  have called : Leads rules befall (opening {} 1000 1000 desk .absent) _ asking :=
    .gathers (.happens (.happens .refl callVersion) callVersion)
  have begun : Leads rules befall (opening {} 1000 1000 desk .absent) _
      ⟨asking.machine, [] ++ .start 0 :: [.start 1]⟩ := called
  have next : Leads rules befall (opening {} 1000 1000 desk .absent) _
      ⟨asking.machine.runReady rules (.start 0), [] ++ .start 1 :: []⟩ := begun.runs
  have sent : Leads rules befall
    ⟨(asking.machine.runReady rules (.start 0)).runReady rules (.start 1), []⟩ []
      asked := Leads.settle .refl 20
  have rest : Leads rules befall
    ⟨(asking.machine.runReady rules (.start 0)).runReady rules (.start 1), []⟩ _
      answered := Leads.settle (sent.happens versionAnswer) 20
  have whole :
      Leads rules befall ⟨asking.machine.runReady rules (.start 0), [] ++ [.start 1]⟩ _ answered :=
    Leads.trans (Leads.runs .refl) rest
  obtain ⟨once, first, second, joins, joined, ends, ended⟩ : answered.state.bridge.nextId = 1 ∧
      asksVersion 0 asking.machine ∧ asksVersion 1 (asking.machine.runReady rules (.start 0)) ∧
      Assoc.get? (Bridge.requestKey "version" [])
        (asking.machine.runReady rules (.start 0)).state.bridge.inflight = some 2 ∧
      Assoc.get? (Bridge.requestKey "version" [])
        ((asking.machine.runReady rules (.start 0)).runReady rules
          (.start 1)).state.bridge.inflight = some 2 ∧
      (valueOf 0 answered).isSome ∧ (valueOf 1 answered).isSome := by decide +kernel
  obtain ⟨v, hv⟩ := Option.isSome_iff_exists.mp ends
  obtain ⟨w, hw⟩ := Option.isSome_iff_exists.mp ended
  have zero : Joined 0 2 (opening {} 1000 1000 desk .absent) answered _ :=
    ⟨begun, jobOf_of_asksVersion first, joins, whole⟩
  have one : Joined 1 2 (opening {} 1000 1000 desk .absent) answered _ :=
    ⟨next, jobOf_of_asksVersion second, joined, rest⟩
  have calm {c : Nat} {first last : Moment State Trouble Value Job Hook} :
      ¬ Cancelled c first last [callVersion, callVersion, versionAnswer] := by
    intro cancelled
    have hit := cancelled.mem
    simp [callVersion, versionAnswer] at hit
  have same := (requests_are_shared {} 1000 1000 desk .absent).2.2.1 0 1 2 _ _ answered _ _ zero one
    (ending?_of_valueOf hv) (ending?_of_valueOf hw) calm calm
  exact ⟨once, v, ending?_of_valueOf hv, same ▸ ending?_of_valueOf hw⟩

end PikeAnalysis.Engine.Sharing
