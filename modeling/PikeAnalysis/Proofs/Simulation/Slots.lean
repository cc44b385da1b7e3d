import PikeAnalysis.Proofs.Simulation.Attendance
import PikeAnalysis.Proofs.Simulation.Moves
import PikeAnalysis.Proofs.Simulation.Validations

/-!
# The slots of registered documents

Whenever nothing is being done, the slot of a registered document says what its timers and runs are
(`Coherent`): it is pending exactly if a timer is attached to it whose task is alive, running
exactly if a run is attached to it whose task has not ended, and else idle; and nothing of the kind
is going on for any slot that is not registered.  This holds along every course of a rehearsal, also
while callers wait for documents to become idle and give up (`slots_coherent`).

This is the scheduler's state as somebody finds it who looks in at any moment: after an edit,
between two tasks, or while callers wait.  `Attended` combines what is known of the scheduler and
its tasks (`Tended`) with what each waiting task still has to do, since a task that goes on must do
what its job says for the invariant to be kept.

The claim is an equivalence for each of the three states of a slot, together with whose the timer or
run is.  The first half says that what a slot refers to is really there; the other that nothing goes
on that no slot refers to, such as a timer that was replaced and not cancelled.
-/

namespace PikeAnalysis.Simulation.Scheduling

open PikeAnalysis.Concurrency
open PikeAnalysis.Concurrency.Loop (NoNewWait)
open PikeAnalysis.Scheduler (Live Event Inv Slot)

variable {own : Option Nat} {Q : Multiset (Ready Nat)} {m : Rehearsal}
  {s s' : State} {i : Ready Nat}
  {t u n x r id : Nat} {job : Job} {st : TaskState Job} {choice : Choice} {uri : String}
  {uris : List String} {rest : Rest State Unit Unit Job}

/-! ## Callers that wait -/

/-- What a caller still has to do while it waits for a document to become idle: when it goes on it
looks at the same document once more, which may have become busy again meanwhile. -/
def awaitRest (uris : List String) : Rest State Unit Unit Job
  | .value _ => awaitIdle uris
  | .error x => .fail x
  | .cancelled => .cancelled

theorem renewed_awaitIdle (choice : Choice) (uris : List String) :
    (rulesBy choice).renewed (.awaitIdle uris) = awaitRest uris := by
  funext ending
  cases ending <;> rfl

/-- A state in which a caller has begun to wait for a slot.  The ticket is left with the slot and is
known to nobody else. -/
def awaiting (id : Nat) (s : State) : State :=
  { s with
    loop := s.loop.newTicket.1
    scheduler := { s.scheduler with machine := s.machine.awaitIdle id s.loop.nextTicket } }

theorem runRoutine_awaitIdle_of_idle (h : s.machine.busySlot? uri = none) :
    Machine.runRoutine (awaitIdle (uri :: uris)) s = Machine.runRoutine (awaitIdle uris) s := by
  have idle : (Scheduler.machineIn s).busySlot? uri = none := h
  rw [awaitIdle, Scheduler.busyTicket]
  simp only [Bind.bind, Routine.read, Routine.andThen, Machine.runRoutine, idle]
  rfl

theorem runRoutine_awaitIdle_of_busy (h : s.machine.busySlot? uri = some id) :
    Machine.runRoutine (awaitIdle (uri :: uris)) s =
      (awaiting id s, .renews (.ticket s.loop.nextTicket) (.awaitIdle (uri :: uris))) := by
  have busy : (Scheduler.machineIn s).busySlot? uri = some id := h
  rw [awaitIdle, Scheduler.busyTicket]
  simp only [Bind.bind, Routine.read, Routine.andThen, Machine.runRoutine, busy]
  rfl

/-- A caller passes over the documents that are idle, up to the end or to one that is not. -/
theorem runRoutine_awaitIdle (uris : List String) (s : State) :
    Machine.runRoutine (awaitIdle uris) s = (s, .ended (.value ())) ∨
    ∃ id left, Machine.runRoutine (awaitIdle uris) s =
      (awaiting id s, .renews (.ticket s.loop.nextTicket) (.awaitIdle left)) := by
  -- By the list of documents: each is passed over or waited for.
  induction uris with
  | nil => exact .inl rfl
  | cons uri uris ih =>
    cases look : s.machine.busySlot? uri with
    | none =>
      rw [runRoutine_awaitIdle_of_idle look]
      exact ih
    | some id => exact .inr ⟨id, uri :: uris, runRoutine_awaitIdle_of_busy look⟩

/-- Whoever waits for all documents waits for those that there are. -/
theorem proceed_awaitAllIdle : m.proceed (rulesBy choice) t (body .awaitAllIdle) =
    m.proceed (rulesBy choice) t (awaitIdle (m.state.machine.docs.map (·.1))) :=
  rfl

/-! ## Machines -/

theorem runReady_start_of_none (hst : m.state.loop.task? t = none) :
    m.runReady (rulesBy choice) (.start t) = m := by
  change Machine.startTask (rulesBy choice) m t = m
  rw [Machine.startTask, show (Machine.loop m).task? t = none from hst]

theorem runReady_start_of_some (hst : m.state.loop.task? t = some st) :
    m.runReady (rulesBy choice) (.start t) =
      if st.mustCancel then ⟨{ m.state with loop := m.state.loop.finish t .cancelled }, m.suspended⟩
      else m.proceed (rulesBy choice) t (bodyBy choice st.job) := by
  change Machine.startTask (rulesBy choice) m t = _
  rw [Machine.startTask, show (Machine.loop m).task? t = some st from hst]
  rfl

/-- What a task with some job still has to do while it waits.  There is one form for each kind of
job, since every routine of the scheduler waits at one place only. -/
def StillToDo : Job → Rest State Unit Unit Job → Prop
  | .timer x, rest => ∃ id, rest = timerRest x id
  | .run r, rest => ∃ b run id, rest = runRest b r run id
  | .awaitIdle _, rest | .awaitAllIdle, rest => ∃ uris, rest = awaitRest uris
  | .stop, _ => False

theorem StillToDo.of_visits (visits : job.Visits) (uris : List String) :
    StillToDo job (awaitRest uris) := by
  cases job with
  | awaitIdle | awaitAllIdle => exact ⟨uris, rfl⟩
  | timer | run | stop => exact visits.elim

/-- What holds of a rehearsal in the turn of the task `own`, or between turns.  Every task that
waits still has to do what tasks of its job do after their waits. -/
structure Attended (own : Option Nat) (Q : Multiset (Ready Nat)) (m : Rehearsal) : Prop where
  tended : Tended own [] Q m.state.scheduler m.state.loop
  rests : ∀ t s, m.state.loop.waitingOn t = some s → ∃ job rest,
    m.state.loop.jobOf t = some job ∧ Assoc.get? t m.suspended = some rest ∧ StillToDo job rest

namespace Attended

variable {own' : Option Nat} {Q' : Multiset (Ready Nat)} {sig : Signal}

/-- A change after which no task waits that did not. -/
theorem moves (h : Attended own Q m) (s' : State) (tended : Tended own' [] Q' s'.scheduler s'.loop)
    (kept : NoNewWait m.state.loop s'.loop) : Attended own' Q' ⟨s', m.suspended⟩ where
  tended := tended
  rests t s hs := by
    obtain ⟨job, rest, hjob, hrest, todo⟩ := h.rests t s (kept.waits t s hs)
    exact ⟨job, rest, (kept.jobOf h.tended.loop.fresh hs).trans hjob, hrest, todo⟩

theorem begin (h : Attended none (.start t ::ₘ Q) m) : Attended (some t) Q m :=
  ⟨h.tended.begin, h.rests⟩

theorem goOn (h : Attended none (.follow (.resume t) sig ::ₘ Q) m)
    (hst : m.state.loop.task? t = some st) :
    Attended (some t) Q (facing m t st) where
  tended := h.tended.goOn hst
  rests u s hs := by
    have kept : NoNewWait m.state.loop (facing m t st).state.loop := .wake hst
    obtain ⟨job, rest, hjob, hrest, todo⟩ := h.rests u s (kept.waits u s hs)
    have hne : u ≠ t := by
      rintro rfl
      have turn := (h.tended.goOn hst).loop.turn u rfl
      exact nomatch turn.symm.trans hs
    exact ⟨job, rest, (kept.jobOf h.tended.loop.fresh hs).trans hjob,
      (Assoc.get?_erase_of_ne hne _).trans hrest, todo⟩

/-- The task whose turn it is ends. -/
theorem ends (h : Attended own Q m) (s' : State)
    (tended : Tended (some t) [] Q s'.scheduler s'.loop)
    (kept : NoNewWait m.state.loop s'.loop)
    (timer : ∀ x, s'.loop.jobOf t = some (.timer x) → Ticking s'.scheduler x →
      Assoc.get? x s'.scheduler.timerTasks ≠ some t)
    (run : ∀ r, s'.loop.jobOf t = some (.run r) → ¬ Ongoing s'.scheduler r) (e : Ending Unit Unit) :
    Attended none Q ⟨{ s' with loop := s'.loop.finish t e }, m.suspended⟩ :=
  h.moves _ (tended.finish timer run e) (kept.trans (.finish _ t e))

/-- The task whose turn it is starts to wait. -/
theorem sleeps {l : Tasks} (h : Attended own Q' m)
    (tended : Tended none [] Q s'.scheduler (Machine.suspend l t (.ticket n)))
    (kept : NoNewWait m.state.loop l) (hst : l.task? t = some st) (unmarked : st.mustCancel = false)
    (todo : StillToDo st.job rest) :
    Attended none Q
      ⟨{ s' with loop := Machine.suspend l t (.ticket n) }, (t, rest) :: m.suspended⟩ where
  tended := tended
  rests u s hs := by
    have jobs := (Loop.sameJobs_suspend l t (.ticket n)).jobs u
    by_cases self : u = t
    · subst self
      exact ⟨st.job, rest, jobs.trans (Loop.jobOf_of_task? hst), by simp [Assoc.get?], todo⟩
    · have waits : l.waitingOn u = some s := by
        have hs : (Machine.suspend l t (.ticket n)).waitingOn u = some s := hs
        rwa [Loop.suspend_of_unmarked hst unmarked, Loop.waitingOn_asleep, if_neg self] at hs
      obtain ⟨job, rest', hjob, hrest, todo'⟩ := h.rests u s (kept.waits u s waits)
      refine ⟨job, rest', jobs.trans ((kept.jobOf h.tended.loop.fresh waits).trans hjob), ?_, todo'⟩
      rwa [Assoc.get?, if_neg (Ne.symm self)]

/-- A task falls asleep as soon as it has begun. -/
theorem naps (h : Attended none (.start t ::ₘ Q) m) (s' : State)
    (hst : m.state.loop.task? t = some st)
    (unmarked : st.mustCancel = false) (d : Duration) (scheduler : s'.scheduler = m.state.scheduler)
    (todo : StillToDo st.job rest) :
    Attended none Q ⟨{ s' with loop := napping m.state.loop t d }, (t, rest) :: m.suspended⟩ := by
  have aside : Loop.Aside m.state.loop (lying { m.state.loop with current := t } d) :=
    (Loop.Aside.turnTo m.state.loop t).trans (.sleep _ d)
  exact h.sleeps (scheduler ▸ h.tended.nap hst unmarked d) (.of_still aside.still) hst unmarked todo

/-! ### Turns of callers -/

/-- A caller ends. -/
theorem leaves (h : Attended (some t) Q m) (living : m.state.loop.Alive t job) (visits : job.Visits)
    (e : Ending Unit Unit) :
    Attended none Q ⟨{ m.state with loop := m.state.loop.finish t e }, m.suspended⟩ := by
  have other {k : Job} (foreign : ¬ k.Visits) : m.state.loop.jobOf t ≠ some k := fun hk =>
    foreign (Option.some.inj (living.jobOf.symm.trans hk) ▸ visits)
  exact h.ends _ h.tended (.refl _) (fun x hx => absurd hx (other id))
    (fun r hr => absurd hr (other id)) e

/-- A caller starts to wait for a slot. -/
theorem awaits (h : Attended (some t) Q m) (living : m.state.loop.Alive t job) (visits : job.Visits)
    (id : Nat) (uris : List String) :
    Attended none Q ⟨{ awaiting id m.state with
      loop := Machine.suspend (awaiting id m.state).loop t (.ticket m.state.loop.nextTicket) },
      (t, awaitRest uris) :: m.suspended⟩ := by
  have ⟨st, hst, hjob, unmarked, _⟩ := living
  subst hjob
  have aside : Loop.Aside m.state.loop (awaiting id m.state).loop := .newTicket _
  have foreign {k : Job} (hk : (awaiting id m.state).loop.Alive t k) : k.Visits :=
    (aside.alive.mp hk).unique living ▸ visits
  refine h.sleeps ?_ (.of_still aside.still) hst unmarked (.of_visits visits uris)
  refine (h.tended.awaitIdle id).suspend hst unmarked (Nat.lt_succ_self _) (fun u hu => ?_)
    (h.tended.loop.unraised (Nat.le_refl _)) (fun x hx => (foreign hx).elim) fun r hr =>
      (foreign hr).elim
  obtain ⟨n, hn, lt⟩ := h.tended.loop.waits u _ hu
  exact Nat.lt_irrefl _ (Signal.ticket.inj hn ▸ lt)

/-- A caller waits for one document after the other.  Where nothing is under way it goes on at
once. -/
theorem attends (h : Attended (some t) Q m) (living : m.state.loop.Alive t job)
    (visits : job.Visits)
    (uris : List String) : Attended none Q (m.proceed (rulesBy choice) t (awaitIdle uris)) := by
  have aside : Loop.Aside m.state.loop (Machine.turnOf t m.state).loop := .turnTo _ t
  have turn : Attended (some t) Q ⟨Machine.turnOf t m.state, m.suspended⟩ :=
    h.moves _ (h.tended.aside aside) (.of_still aside.still)
  have living' := aside.alive.mpr living
  rcases runRoutine_awaitIdle uris (Machine.turnOf t m.state) with run | ⟨id, left, run⟩
  · obtain ⟨e, proceed⟩ := proceed_of_ended choice run
    rw [proceed]
    exact turn.leaves living' visits e
  · rw [Machine.proceed_eq _ _ _ _ run]
    dsimp only
    rw [renewed_awaitIdle]
    exact turn.awaits living' visits id left

/-- A caller goes on after it has waited, or gives up. -/
theorem returns (h : Attended (some t) Q m) (living : m.state.loop.Alive t job)
    (visits : job.Visits) (ending : Ending Unit Unit) (uris : List String) :
    Attended none Q (m.proceed (rulesBy choice) t (awaitRest uris ending)) := by
  have aside : Loop.Aside m.state.loop (Machine.turnOf t m.state).loop := .turnTo _ t
  have turn : Attended (some t) Q ⟨Machine.turnOf t m.state, m.suspended⟩ :=
    h.moves _ (h.tended.aside aside) (.of_still aside.still)
  have quits {e : Ending Unit Unit} (run : Machine.runRoutine (awaitRest uris ending)
      (Machine.turnOf t m.state) = (Machine.turnOf t m.state, .ended e)) :
      Attended none Q (m.proceed (rulesBy choice) t (awaitRest uris ending)) := by
    obtain ⟨e', proceed⟩ := proceed_of_ended choice run
    rw [proceed]
    exact turn.leaves (aside.alive.mpr living) visits e'
  cases ending with
  | value v => exact h.attends living visits uris
  | error x => exact quits rfl
  | cancelled => exact quits rfl

/-! ### Turns of timers and runs -/

/-- The scheduler is told of an event in the turn of a task, which goes on with its job. -/
theorem tells (h : Attended (some t) Q m) (aside : Loop.Aside m.state.loop s.loop)
    (scheduler : s.scheduler = m.state.scheduler) (hjob : m.state.loop.jobOf t = some job)
    {e : Event} (inTurn : InTurn (some t) s.scheduler s.loop e) :
    Tended (some t) [] Q (Scheduler.tell s e).scheduler (Scheduler.tell s e).loop ∧
      NoNewWait m.state.loop (Scheduler.tell s e).loop ∧
      ∀ k, (Scheduler.tell s e).loop.jobOf t = some k → job = k := by
  have tended : Tended (some t) [] Q s.scheduler s.loop := scheduler ▸ h.tended.aside aside
  obtain ⟨told, kept⟩ := tended.tell inTurn
  have kept := (NoNewWait.of_still aside.still).trans kept
  refine ⟨told, kept, fun k hk => ?_⟩
  exact Option.some.inj (hjob.symm.trans (kept.jobs t k (h.tended.whose t rfl) hk))

/-- A timer fires in the turn of its task. -/
theorem rings (h : Attended (some t) Q m) (aside : Loop.Aside m.state.loop s.loop)
    (scheduler : s.scheduler = m.state.scheduler) (job : m.state.loop.jobOf t = some (.timer x))
    (alone : ∀ u, some t ≠ some u → ¬ m.state.loop.Alive u (.timer x)) (e : Ending Unit Unit) :
    Attended none Q
      ⟨{ Scheduler.tell s (.fired x) with loop := (Scheduler.tell s (.fired x)).loop.finish t e },
      m.suspended⟩ := by
  obtain ⟨told, kept, same⟩ := h.tells aside scheduler job (e := .fired x) fun u hu living =>
    alone u hu (aside.alive.mp living)
  refine h.ends _ told kept (fun y hy ticking _ => ticking ?_) (fun r hr => nomatch same _ hr) e
  obtain rfl := Job.timer.inj (same _ hy)
  have machine : (Scheduler.tell s (.fired x)).scheduler.machine = (s.machine.step (.fired x)).1 :=
    machine_tell s _
  have used : (s.machine.step (.fired x)).1.timers = Assoc.erase x s.machine.timers :=
    (Scheduler.rearms_onFired s.machine x).timers.trans (List.append_nil _)
  rw [machine, used]
  exact Assoc.get?_erase_self ..

/-- A run ends in the turn of its task. -/
theorem completes (h : Attended (some t) Q m) (aside : Loop.Aside m.state.loop s.loop)
    (scheduler : s.scheduler = m.state.scheduler) (job : m.state.loop.jobOf t = some (.run r))
    (alone : ∀ u, some t ≠ some u → ¬ m.state.loop.Alive u (.run r)) (b : Behaviour)
    (run : Scheduler.Run) (e : Ending Unit Unit) :
    Attended none Q ⟨{ validated b r run s with loop := (validated b r run s).loop.finish t e },
      m.suspended⟩ := by
  have noted : (finishing run b s).scheduler = s.scheduler ∧ (finishing run b s).loop = s.loop := by
    unfold finishing
    dsimp only
    split <;> exact ⟨rfl, rfl⟩
  rw [← noted.2] at aside
  rw [← noted.1] at scheduler
  obtain ⟨told, kept, same⟩ := h.tells aside scheduler job (e := .ended r) fun u hu living =>
    alone u hu (aside.alive.mp living)
  refine h.ends _ told.forgetTimers kept (fun y hy => nomatch same _ hy)
    (fun q hq ongoing => ongoing ?_) e
  obtain rfl := Job.run.inj (same _ hq)
  have starts := Scheduler.starts_step (finishing run b s).machine (e := .ended r) nofun
  have machine : (validated b r run s).scheduler.machine =
    ((finishing run b s).machine.step (.ended r)).1 :=
    machine_tell _ _
  change Assoc.get? r (validated b r run s).scheduler.machine.runs = none
  rw [machine]
  refine starts.over ?_ (Assoc.get?_erase_self ..)
  rw [Scheduler.nextRun_before, show (finishing run b s).machine = m.state.machine from
    congrArg Live.machine scheduler]
  exact h.tended.runs.born t r job

/-- A task that has been cancelled before it could begin is that of a timer that is over, or of a
caller. -/
theorem abandons (h : Attended none (.start t ::ₘ Q) m) (hst : m.state.loop.task? t = some st)
    (marked : st.mustCancel = true) :
    Attended none Q ⟨{ m.state with loop := m.state.loop.finish t .cancelled }, m.suspended⟩ := by
  have doomed (k : Job) : ¬ m.state.loop.Alive t k := by
    rintro ⟨st', hst', -, unmarked, -⟩
    rw [← Option.some.inj (hst.symm.trans hst'), marked] at unmarked
    cases unmarked
  refine h.begin.ends _ h.begin.tended (.refl _) (fun x _ ticking hx => ?_)
    (fun r hr => absurd (h.tended.firm t r hr) (doomed _)) .cancelled
  obtain ⟨u, hu, living⟩ := (h.tended.timers.alive x ticking).resolve_left List.not_mem_nil
  obtain rfl := Option.some.inj (hx.symm.trans hu)
  exact doomed _ living

/-- A task begins with its job. -/
theorem begins (h : Attended none (.start t ::ₘ Q) m) (hst : m.state.loop.task? t = some st)
    (unmarked : st.mustCancel = false) (living : m.state.loop.Alive t st.job) :
    Attended none Q (m.proceed (rulesBy choice) t (bodyBy choice st.job)) := by
  have fresh := h.tended.loop.unraised (Nat.le_refl _)
  cases job : st.job with
  | timer x =>
    rw [proceed_timer fresh]
    refine h.naps _ hst unmarked _ rfl ?_
    rw [job]
    exact ⟨_, rfl⟩
  | run r =>
    rw [job] at living
    -- A task that is alive is attached to its run, which is therefore still listed.
    have ongoing := (h.tended.runs.attached t r nofun living).2.resolve_right List.not_mem_nil
    obtain ⟨run, found⟩ := Option.ne_none_iff_exists'.mp ongoing
    cases takes : (behaves choice run m.state).length with
    | some length =>
      rw [proceed_run_of_some found takes fresh]
      refine h.naps (started choice run m.state) hst unmarked length rfl ?_
      rw [job]
      exact ⟨_, _, _, rfl⟩
    | none =>
      obtain ⟨e, s', rfl, proceed⟩ := proceed_run_of_none (m := m) (t := t) choice found takes
      rw [proceed]
      exact h.begin.completes (s := started choice run (Machine.turnOf t m.state)) (.turnTo _ t) rfl
        living.jobOf (h.tended.runs.alone living) _ run e
  | awaitIdle uris => exact h.begin.attends living (by rw [job]; trivial) uris
  | awaitAllIdle =>
    change Attended none Q (m.proceed (rulesBy choice) t (body .awaitAllIdle))
    rw [proceed_awaitAllIdle]
    exact h.begin.attends living (by rw [job]; trivial) _
  | stop => exact absurd (job ▸ living.jobOf) (h.tended.jobs t)

/-- It is the turn of a task that is to begin. -/
theorem turn_start (h : Attended none (.start t ::ₘ Q) m) :
    Attended none Q (m.runReady (rulesBy choice) (.start t)) := by
  have starts := h.tended.loop.starts t (by rw [Loop.pending_cons, if_pos rfl]; omega)
  cases hst : m.state.loop.task? t with
  | none =>
    rw [runReady_start_of_none hst]
    exact ⟨h.tended.drop, h.rests⟩
  | some st =>
    rw [runReady_start_of_some hst]
    cases unmarked : st.mustCancel with
    | true => exact h.abandons hst unmarked
    | false =>
      have waiting : st.waiting = none := (Loop.waitingOn_of_task? hst).symm.trans starts.2.2
      exact h.begins hst unmarked ⟨st, hst, rfl, unmarked, by rw [waiting]; nofun⟩

/-- It is the turn of a task that has waited. -/
theorem turn_resume (h : Attended none (.follow (.resume t) sig ::ₘ Q) m) :
    Attended none Q (m.runReady (rulesBy choice) (.follow (.resume t) sig)) := by
  have waits := (h.tended.loop.resumes t sig (by rw [Loop.pending_cons, if_pos rfl]; omega)).2
  obtain ⟨job, rest, hjob, hrest, todo⟩ := h.rests t sig waits
  obtain ⟨st, hst, rfl⟩ := Loop.task?_of_jobOf hjob
  have goesOn : m.runReady (rulesBy choice) (.follow (.resume t) sig) =
      (facing m t st).proceed (rulesBy choice) t
        (rest (if st.mustCancel then .cancelled
          else (m.state.loop.ending? sig).getD .cancelled)) := by
    change Machine.resumeTask (rulesBy choice) m t sig = _
    rw [Machine.resumeTask, show (Machine.loop m).task? t = some st from hst, hrest]
    rfl
  have turn := h.goOn hst
  have living : (facing m t st).state.loop.Alive t st.job := (Loop.alive_wake_self _ t st).mpr rfl
  have stirs (id : Nat) : Loop.Aside (facing m t st).state.loop
      (stopped id (Machine.turnOf t (facing m t st).state)).loop :=
        (Loop.Aside.turnTo _ t).trans (.stopTimer _ id)
  have others {k : Job} (alone : ∀ u, some t ≠ some u → ¬ m.state.loop.Alive u k) (u : Nat)
      (hu : some t ≠ some u) : ¬ (facing m t st).state.loop.Alive u k := fun other =>
    alone u hu ((Loop.alive_setTask_of_ne fun he => hu (congrArg some he.symm)).mp other)
  rw [goesOn]
  cases job : st.job with
  | timer x =>
    rw [job] at todo living
    obtain ⟨id, rfl⟩ := todo
    rcases h.tended.loop.value_of_alive hst with ⟨v, ending, before⟩ | ⟨ending, doomed⟩
    · rw [job] at before
      obtain ⟨e, proceed⟩ := proceed_of_ended choice
        (runRoutine_timerRest x id (Machine.turnOf t (facing m t st).state))
      rw [ending, proceed]
      exact turn.rings (stirs id) rfl living.jobOf (others (h.tended.timers.alone before)) e
    · -- It has been cancelled while it slept, so its timer is over.
      obtain ⟨e, proceed⟩ := proceed_of_ended choice
        (runRoutine_timerRest_of_cancelled x id (Machine.turnOf t (facing m t st).state))
      rw [ending, proceed]
      refine turn.ends (stopped id (Machine.turnOf t (facing m t st).state))
        (turn.tended.aside (stirs id)) (.of_still (stirs id).still) (fun y _ ticking hy => ?_)
        (fun r hr => ?_) e
      · obtain ⟨u, hu, alive⟩ := (h.tended.timers.alive y ticking).resolve_left List.not_mem_nil
        obtain rfl := Option.some.inj (hy.symm.trans hu)
        exact doomed _ alive
      · rw [(stirs id).jobOf, living.jobOf] at hr
        cases hr
  | run r =>
    rw [job] at todo living hjob
    obtain ⟨b, run, id, rfl⟩ := todo
    have before := h.tended.firm t r hjob
    rcases h.tended.loop.value_of_alive hst with ⟨v, ending, -⟩ | ⟨-, doomed⟩
    · obtain ⟨e, proceed⟩ := proceed_of_ended choice
        (runRoutine_runRest b r run id (Machine.turnOf t (facing m t st).state))
      rw [ending, proceed]
      exact turn.completes (stirs id) rfl living.jobOf (others (h.tended.runs.alone before)) b run e
    · exact absurd before (doomed _)
  | awaitIdle | awaitAllIdle =>
    rw [job] at todo living
    obtain ⟨uris, rfl⟩ := todo
    exact turn.returns living trivial _ uris
  | stop => exact absurd (job ▸ hjob) (h.tended.jobs t)

/-- Whatever is ready is done.  Coherence in every state comes from this, by induction on the
course. -/
theorem turn (h : Attended none (i ::ₘ Q) m) : Attended none Q (m.runReady (rulesBy choice) i) := by
  cases i with
  | start t => exact h.turn_start
  | timer id =>
    change Attended none Q
      ⟨{ m.state with loop := Machine.fireTimer m.state.loop () id }, m.suspended⟩
    rcases h.tended.loop.fireTimer_cases () id with same | ⟨n, lt, same⟩
    · rw [same]
      exact ⟨h.tended.drop, h.rests⟩
    · rw [same]
      have stopped : Loop.Aside m.state.loop (m.state.loop.stopTimer id) := .stopTimer _ id
      obtain ⟨tended, kept⟩ := (h.tended.drop.aside stopped).raise lt
      exact h.moves _ tended ((NoNewWait.of_still stopped.still).trans kept)
  | follow f sig =>
    have ready : 0 < Loop.pending (.follow f sig ::ₘ Q) m.state.loop (.follow f sig) := by
      rw [Loop.pending_cons, if_pos rfl]
      omega
    rcases h.tended.loop.follows f sig ready with ⟨t, rfl⟩ | ⟨r, t, rfl, rfl⟩
    · exact h.turn_resume
    · -- The task has ended, so its run is over.
      have ended := h.tended.loop.raised _ _ (.inl (Multiset.mem_cons_self _ _))
      obtain ⟨-, past⟩ := (h.tended.hooks r _ ready).resolve_right fun ⟨u, hu, hjob⟩ => by
        obtain rfl := Signal.ended.inj hu
        exact ended (h.tended.loop.open_of_jobOf hjob)
      have told := h.tended.drop.tell (e := .dropped r) past
      exact h.moves (Scheduler.afterRunTask r m.state) (h.tended.drop.afterRunTask past) told.2

end Attended

/-! ## Courses -/

/-- What happens to a rehearsal from outside, where callers may wait for documents to become idle.
Besides edits and the passing of time this is that a caller comes, and that one gives up. -/
inductive Occasion where
  | edit (e : Edit)
  | clock (t : Instant)
  | awaitIdle (uris : List String)
  | awaitAllIdle
  /-- A caller does not wait any longer. -/
  | giveUp (task : Nat)

/-- What becomes of a rehearsal.  Only callers give up.  Edits, the clock and new callers come as
they like, so nothing is assumed about their order. -/
def befall : Occasion → State → State
  | .edit e, s => Scheduler.tell s e.event
  | .clock t, s => { s with loop := { s.loop with now := t } }
  | .awaitIdle uris, s => { s with loop := (s.loop.create (.awaitIdle uris)).1 }
  | .awaitAllIdle, s => { s with loop := (s.loop.create .awaitAllIdle).1 }
  | .giveUp t, s =>
    match s.loop.jobOf t with
    | some (.awaitIdle _) | some .awaitAllIdle => { s with loop := (s.loop.cancel t).1 }
    | _ => s

variable {debounce : Int} {behaviours : List Behaviour} {watchesClosing : Bool} {os : List Occasion}
  {c : Moment State Unit Unit Job Nat}

theorem Attended.befalls (h : Attended none Q m) (o : Occasion) :
    Attended none Q ⟨befall o m.state, m.suspended⟩ := by
  have launch (job : Job) (visits : job.Visits) :
      Attended none Q ⟨{ m.state with loop := (m.state.loop.create job).1 }, m.suspended⟩ :=
    let launched := h.tended.launch visits
    h.moves _ launched.1 launched.2
  have giveUp {t : Nat} {job : Job} (ht : m.state.loop.jobOf t = some job) (visits : job.Visits) :
      Attended none Q ⟨{ m.state with loop := (m.state.loop.cancel t).1 }, m.suspended⟩ :=
    let gone := h.tended.giveUp ht visits
    h.moves _ gone.1 gone.2
  cases o with
  | edit e =>
    have told := h.tended.tell (e.inTurn none _ _)
    exact h.moves _ told.1 told.2
  | clock t =>
    have aside : Loop.Aside m.state.loop { m.state.loop with now := t } := .clock _ t
    exact h.moves _ (h.tended.aside aside) (.of_still aside.still)
  | awaitIdle uris => exact launch (.awaitIdle uris) trivial
  | awaitAllIdle => exact launch .awaitAllIdle trivial
  | giveUp t =>
    rw [befall]
    split
    · next ht => exact giveUp ht trivial
    · next ht => exact giveUp ht trivial
    · exact h

theorem attended_opening (debounce : Int) (behaviours : List Behaviour) (watchesClosing : Bool) :
    Attended none 0 (opening debounce behaviours watchesClosing).machine where
  tended :=
    { machine := .start debounce
      loop := .empty
      whose := nofun
      timers := .empty fun x hx => hx rfl
      runs := .empty fun r hr => hr rfl
      firm := nofun
      jobs := nofun
      hooks := fun r sig hr =>
        absurd (Nat.lt_of_lt_of_eq hr (Loop.pending_empty _ _)) (Nat.lt_irrefl 0)
      waiters := by
        rintro n ⟨e, he, -⟩
        cases he
      feasible := nofun }
  rests := nofun

/-- At every moment of a rehearsal timers and runs have their tasks. -/
theorem attended_of_leads
    (course : Leads rules befall (opening debounce behaviours watchesClosing) os c) :
    Attended none (c.queue : Multiset (Ready Nat)) c.machine := by
  induction course with
  | refl => exact attended_opening debounce behaviours watchesClosing
  | happens _ o ih => exact ih.befalls o
  | @gathers _ d _ ih =>
    have due : Loop.Aside d.machine.state.loop (Moment.due d.machine.state.loop) := .due _
    have gathered := (ih.tended.aside due).gather
    rw [Multiset.coe_add] at gathered
    exact ih.moves
      { d.machine.state with loop := { Moment.due d.machine.state.loop with ready := [] } } gathered
      ((NoNewWait.of_still due.still).trans (.gather _))
  | runs _ ih =>
    rw [multiset_middle] at ih
    rw [← rulesBy_taking]
    exact ih.turn

/-! ## Slots -/

/-- A timer is attached to the slot of a document, and its task is alive.  The four fields lead from
the slot to the loop: to the timer's number, to its entry, to its task, and to that task being
alive. -/
structure LiveTimer (s : State) (uri : String) (id : Nat) (slot : Slot) (x t : Nat) : Prop where
  attached : slot.timer = some x
  entry : Assoc.get? x s.machine.timers = some ⟨uri, id⟩
  task : Assoc.get? x s.scheduler.timerTasks = some t
  alive : s.loop.Alive t (.timer x)

/-- A run is attached to the slot of a document, and its task has not ended.  As for timers, each
field is one step of the way from the slot to the loop; a run that has ended leaves its slot in the
same step. -/
structure UnfinishedRun (s : State) (uri : String) (id : Nat) (slot : Slot) (r t : Nat) : Prop where
  attached : slot.run = some r
  entry : ∃ version text, Assoc.get? r s.machine.runs = some ⟨uri, id, version, text⟩
  task : Assoc.get? r s.scheduler.runTasks = some t
  unfinished : s.loop.jobOf t = some (.run r)

/-- The slot of a document says what is going on.  A timer that is over, and a run whose task has
ended, do not count. -/
structure Coherent (s : State) (uri : String) (id : Nat) (slot : Slot) : Prop where
  pending : slot.phase = .pending ↔ ∃ x t, LiveTimer s uri id slot x t
  running : slot.phase = .running ↔ ∃ r t, UnfinishedRun s uri id slot r t
  idle : slot.phase = .idle ↔ slot.idle = true
  rerunNow : slot.rerunNow = true → slot.phase = .running
  closed : slot.closed = true → slot.phase = .running ∧ slot.dirty = false ∧ slot.rerunNow = false
  clean : slot.phase = .idle → slot.dirty = false

/-- The slots of registered documents say what is going on, and nothing goes on for any other. -/
structure SlotsCoherent (s : State) : Prop where
  slots : ∀ uri id slot, s.machine.slotOf? uri = some (id, slot) → Coherent s uri id slot
  timers : ∀ t x, s.loop.Alive t (.timer x) →
    ∃ uri id slot, s.machine.slotOf? uri = some (id, slot) ∧ LiveTimer s uri id slot x t
  runs : ∀ t r, s.loop.jobOf t = some (.run r) →
    ∃ uri id slot, s.machine.slotOf? uri = some (id, slot) ∧ UnfinishedRun s uri id slot r t

variable {slot : Slot}

theorem coherent_of_rests (h : slot.Rests) : Coherent s uri id slot where
  pending := ⟨fun he => (nomatch h.phase.symm.trans he),
    fun ⟨_, _, live⟩ => nomatch h.timer.symm.trans live.attached⟩
  running := ⟨fun he => (nomatch h.phase.symm.trans he),
    fun ⟨_, _, busy⟩ => nomatch h.run.symm.trans busy.attached⟩
  idle := ⟨fun _ => h.idle, fun _ => h.phase⟩
  rerunNow he := nomatch h.rerunNow.symm.trans he
  closed he := nomatch h.closed.symm.trans he
  clean _ := h.dirty

theorem coherent_of_waits (h : slot.Waits x) (live : LiveTimer s uri id slot x t) :
    Coherent s uri id slot where
  pending := ⟨fun _ => ⟨x, t, live⟩, fun _ => h.phase⟩
  running := ⟨fun he => (nomatch h.phase.symm.trans he),
    fun ⟨_, _, busy⟩ => nomatch h.run.symm.trans busy.attached⟩
  idle := ⟨fun he => (nomatch h.phase.symm.trans he), fun he => nomatch h.idle.symm.trans he⟩
  rerunNow he := nomatch h.rerunNow.symm.trans he
  closed he := nomatch h.closed.symm.trans he
  clean he := nomatch h.phase.symm.trans he

theorem coherent_of_runs (h : slot.Runs r) (busy : UnfinishedRun s uri id slot r t) :
    Coherent s uri id slot where
  pending := ⟨fun he => (nomatch h.phase.symm.trans he),
    fun ⟨_, _, live⟩ => nomatch h.timer.symm.trans live.attached⟩
  running := ⟨fun _ => ⟨r, t, busy⟩, fun _ => h.phase⟩
  idle := ⟨fun he => (nomatch h.phase.symm.trans he), fun he => nomatch h.idle.symm.trans he⟩
  rerunNow _ := h.phase
  closed he := ⟨h.phase, h.dirty he, h.rerunNow he⟩
  clean he := nomatch h.phase.symm.trans he

/-- The timer of a task that is alive is attached to the slot of a registered document. -/
theorem Tended.liveTimer (h : Tended none [] Q s.scheduler s.loop)
    (living : s.loop.Alive t (.timer x)) :
    ∃ uri id slot, s.machine.slotOf? uri = some (id, slot) ∧ LiveTimer s uri id slot x t := by
  obtain ⟨task, old⟩ := h.timers.attached t x nofun living
  obtain ⟨⟨uri, id⟩, entry⟩ := Option.ne_none_iff_exists'.mp (old.resolve_right List.not_mem_nil)
  obtain ⟨slot, doc, found, waits, -⟩ := h.machine.waiting_of_timer entry
  exact ⟨uri, id, slot, Scheduler.State.slotOf?_of_found doc found, waits.timer,
    entry, task, living⟩

/-- The run of a task that has not ended is attached to the slot of a registered document. -/
theorem Tended.unfinishedRun (h : Tended none [] Q s.scheduler s.loop)
    (job : s.loop.jobOf t = some (.run r)) :
    ∃ uri id slot, s.machine.slotOf? uri = some (id, slot) ∧ UnfinishedRun s uri id slot r t := by
  obtain ⟨task, old⟩ := h.runs.attached t r nofun (h.firm t r job)
  obtain ⟨⟨uri, id, version, text⟩, entry⟩ :=
    Option.ne_none_iff_exists'.mp (old.resolve_right List.not_mem_nil)
  obtain ⟨slot, doc, found, hasRun, -⟩ := h.machine.running_of_run entry
  exact ⟨uri, id, slot, Scheduler.State.slotOf?_of_found doc found, hasRun.run,
    ⟨version, text, entry⟩, task, job⟩

theorem Tended.coherent (h : Tended none [] Q s.scheduler s.loop)
    (registered : s.machine.slotOf? uri = some (id, slot)) : Coherent s uri id slot := by
  obtain ⟨doc, found⟩ := Scheduler.State.found_of_slotOf? registered
  have same {id' : Nat} {slot' : Slot} (doc' : Assoc.get? uri s.machine.docs = some id')
      (found' : s.machine.slot? id' = some slot') : id' = id ∧ slot' = slot := by
    obtain rfl := Option.some.inj (doc.symm.trans doc')
    exact ⟨rfl, Option.some.inj (found'.symm.trans found)⟩
  -- How the document stands tells its phase, and what is under way for it has a task that is alive.
  cases h.machine.standing uri with
  | absent doc' => exact nomatch doc'.symm.trans doc
  | resting doc' found' rests =>
    obtain ⟨-, rfl⟩ := same doc' found'
    exact coherent_of_rests rests
  | @waiting id' _ x doc' found' waits timers =>
    obtain ⟨rfl, rfl⟩ := same doc' found'
    have mem : (x, (⟨uri, id'⟩ : Scheduler.TimerEntry)) ∈ s.machine.timersOf uri := by
      rw [timers]
      exact List.mem_singleton_self _
    have entry := Assoc.get?_of_mem h.machine.tidy.timer_inj (Scheduler.State.mem_timersOf.mp mem).1
    have ticking : Ticking s.scheduler x := by
      rw [Ticking, entry]
      nofun
    obtain ⟨t, task, living⟩ := (h.timers.alive x ticking).resolve_left List.not_mem_nil
    exact coherent_of_waits waits ⟨waits.timer, entry, task, living⟩
  | @running _ _ r run doc' found' hasRun slotOf carries timers runs =>
    obtain ⟨rfl, rfl⟩ := same doc' found'
    have mem : (r, run) ∈ s.machine.runsOf uri := by
      rw [runs]
      exact List.mem_singleton_self _
    obtain ⟨started, rfl⟩ := Scheduler.State.mem_runsOf.mp mem
    have entry := Assoc.get?_of_mem h.machine.tidy.run_inj started
    have ongoing : Ongoing s.scheduler r := by
      rw [Ongoing, entry]
      nofun
    obtain ⟨t, task, living⟩ := (h.runs.alive r ongoing).resolve_left List.not_mem_nil
    subst slotOf
    exact coherent_of_runs hasRun ⟨hasRun.run, ⟨run.version, run.text, entry⟩, task, living.jobOf⟩
  | stranded lost => exact lost.elim

/-- At every moment of a rehearsal the slots of registered documents say what is going on.
`SlotsCoherent` says it from both ends: each slot has the timer or the run that its phase calls for
and no other, and each timer that is alive and each run that has not ended belongs to a slot.
Between the edits others may wait for documents to become idle, and may give up. -/
theorem slots_coherent
    (course : Leads rules befall (opening debounce behaviours watchesClosing) os c) :
    SlotsCoherent c.state := by
  have tended := (attended_of_leads course).tended
  exact
    { slots := fun _ _ _ registered => tended.coherent registered
      timers := fun _ _ living => tended.liveTimer living
      runs := fun _ _ job => tended.unfinishedRun job }

/-- A rehearsal in which one document is being validated and another waits, and somebody waits for
both. -/
def bothBusy : Rehearsal :=
  ((((openedOnce.tell (Edit.change "file:///b.pike" 1 "int y;").event).tell
    (Edit.change "file:///a.pike" 2 "int z;").event).launch .awaitAllIdle).1).settle

/-- Of two documents that somebody waits for, one has a run that is not over, and the other a
timer. -/
theorem slots_coherent_of_both_busy :
    (∃ r t, UnfinishedRun bothBusy.state "file:///a.pike" 0
      { version := 2, text := "int z;", phase := .running, run := some 0,
        dirty := true, idle := false,
        waiters := [2] } r t) ∧
    ∃ x t, LiveTimer bothBusy.state "file:///b.pike" 1
      { version := 1, text := "int y;", phase := .pending, timer := some 0, idle := false }
        x t := by
  have opened : Leads rules befall (opening 250 [{ length := Duration.milliseconds 300 }] true) _
      ⟨openedOnce, []⟩ :=
    Leads.settle (Leads.happens .refl (Occasion.edit (.opened "file:///a.pike" 1 "int x;"))) _
  have course : Leads rules befall _ _ ⟨bothBusy, []⟩ :=
    Leads.settle (((opened.happens (Occasion.edit (.change "file:///b.pike" 1 "int y;"))).happens
      (Occasion.edit (.change "file:///a.pike" 2 "int z;"))).happens Occasion.awaitAllIdle) _
  have coherent := slots_coherent course
  exact ⟨(coherent.slots "file:///a.pike" 0 _ (by decide +kernel)).running.mp rfl,
    (coherent.slots "file:///b.pike" 1 _ (by decide +kernel)).pending.mp rfl⟩

end PikeAnalysis.Simulation.Scheduling
