import PikeAnalysis.Proofs.Simulation.Events

/-!
# The turns of a rehearsal's tasks

The tasks of timers and runs keep the discipline of a rehearsal: the task of a run takes down that
its validation begins, waits for as long as that takes, and tells the scheduler of the end in its
last turn; the task of a timer tells that it has fired.  Between the turns the loop does its part.

What has to be shown for a discipline is a list of obligations (`Lawful`): one for the body of each
job, one for the hook, one for a task that is cancelled before it begins, and one for the outside.
In the bodies the argument is that a run which begins is the only one of its document, so that
nobody else relies on what the document was validated for before (`step_beginning`).

The task of a timer waits in one place and does one thing afterwards, so most of the module is about
runs.  Their validation may take no time, in which case its begin and its end are taken down in one
turn; otherwise there is a wait between the two, and what holds on either side of it is said by the
same predicate (`Working`).
-/

namespace PikeAnalysis.Simulation.Scheduling

open PikeAnalysis.Concurrency
open PikeAnalysis.Scheduler (Effect Event Inv Setting startedRuns)

variable {own : Option Nat} {s s' : State} {t : Nat} {job : Job}

instance : LawfulLoop State where
  loop_withLoop _ _ := rfl

/-! ## Between turns -/

theorem Sound.weaken {todo : List Effect} (h : Sound none todo s) (own : Option Nat) :
    Sound own todo s :=
  { h with running := fun t r ht => ⟨(h.running t r ht).1, fun _ => (h.running t r ht).2 nofun⟩ }

/-- The turn of a task is over once its run is under way or the task has ended. -/
theorem Sound.strengthen (h : Sound (some t) [] s)
    (hrun : ∀ r, s.loop.jobOf t = some (.run r) → Assoc.get? r s.machine.runs ≠ none) :
    Sound none [] s :=
  { h with
    running := fun u r hu => by
      obtain ⟨hlt, hne⟩ := h.running u r hu
      refine ⟨hlt, fun _ => ?_⟩
      by_cases hut : u = t
      · exact hrun r (hut ▸ hu)
      · exact hne fun he => hut (Option.some.inj he).symm }

/-- A change of the loop in the turn of a task. -/
theorem step_loop {l : Tasks} (h : discipline.during t job s) (books : Books s.Over l)
    (same : Loop.SameJobs s.loop l) : discipline.Steps t job s { s with loop := l } :=
  ⟨⟨h.1.loop books same, (same.jobs t).trans h.2⟩, carries_loop same.evolves, fun _ => rfl⟩

/-- What leaves the tasks as they are may be done at any time. -/
theorem passes_loop {l : Tasks} (h : Sound none [] s) (books : Books s.Over l)
    (same : Loop.SameJobs s.loop l) : discipline.Passes none s { s with loop := l } :=
  ⟨h.loop books same, carries_loop same.evolves, fun _ => rfl⟩

theorem books_turn {gone : Nat → Prop} {l : Tasks} (h : Books gone l) (t : Nat) :
    Books gone { l with current := t } :=
  h.alike rfl rfl rfl (fun _ hi => .inl hi) fun _ he => .inl he

/-- A task that is about to end may do so once its run is over. -/
theorem passes_conclude (h : discipline.during t job s)
    (hover : ∀ r, job = .run r → Assoc.get? r s.machine.runs = none) (e : Ending Unit Unit) :
    discipline.Passes (some t) s { s with loop := Machine.conclude s.loop t e } := by
  obtain ⟨hsound, hjob⟩ := h
  have hgone : ∀ r, s.loop.jobOf t = some (.run r) → s.Over r := by
    intro r hr
    exact ⟨(hsound.running t r hr).1, hover r (Option.some.inj (hjob.symm.trans hr))⟩
  have hlt := hsound.books.fresh.lt_of_jobOf hjob
  have books := hsound.books.conclude hgone e hlt
  obtain ⟨e', he'⟩ := Loop.conclude_eq_finish s.loop t e
  rw [he'] at books ⊢
  have hjobs : ∀ u, (s.loop.finish t e').jobOf u = if u = t then none else s.loop.jobOf u := by
    intro u
    rw [Loop.jobOf, Loop.task?_finish]
    split <;> rfl
  -- The others keep their jobs; that of the task is nobody's any more.
  have hkept : ∀ {u r}, (s.loop.finish t e').jobOf u = some (.run r) →
    s.loop.jobOf u = some (.run r) ∧
      u ≠ t := by
    intro u r hu
    rw [hjobs] at hu
    split at hu
    · cases hu
    · next hne => exact ⟨hu, hne⟩
  refine ⟨?_, carries_loop (Loop.evolves_finish _ _ _), fun _ => rfl⟩
  exact
    { machine := hsound.machine
      books := books
      running := fun u r hu => by
        obtain ⟨hu', hne⟩ := hkept hu
        obtain ⟨hlt', hruns⟩ := hsound.running u r hu'
        exact ⟨hlt', fun _ => hruns fun he => hne (Option.some.inj he).symm⟩
      alive := fun r hr => by
        refine (hsound.alive r hr).imp_right ?_
        rintro ⟨u, hu⟩
        refine ⟨u, (hjobs u).trans ?_⟩
        rw [if_neg, hu]
        rintro rfl
        exact hr (hgone r hu).2
      unborn := List.forall_mem_nil _
      once := List.nodup_nil
      timers := fun id u hu => by
        obtain ⟨hlt', hnone⟩ := hsound.timers id u hu
        refine ⟨?_, fun r hr => hnone r (hkept hr).1⟩
        change u < (s.loop.finish t e').nextTask
        rwa [Loop.nextTask_finish]
      quiet := fun _ => List.not_mem_nil }

/-- A task that starts to wait leaves its run under way. -/
theorem passes_suspend (h : discipline.during t job s) (held : ∀ r, job = .run r → Begun s r)
    (n : Nat) :
    discipline.Passes (some t) s { s with loop := Machine.suspend s.loop t (.ticket n) } := by
  obtain ⟨hsound, hjob⟩ := h
  have same := Loop.sameJobs_suspend s.loop t (.ticket n)
  refine ⟨?_, carries_loop same.evolves, fun _ => rfl⟩
  refine (hsound.strengthen fun r hr => ?_).loop (hsound.books.suspend t n) same
  obtain ⟨run, hrun, -⟩ := held r (Option.some.inj (hjob.symm.trans hr))
  simp [hrun]

/-! ## Waiting -/

/-- What holds whenever a task goes on.  The discipline holds, and the task has its turn. -/
def Working (t : Nat) (job : Job) (s : State) : Prop :=
  discipline.during t job s ∧ ∀ r, job = .run r → Begun s r

theorem keeps_sleep (h : Working t job s) (d : Duration) :
    (Routine.sleep d : Act Unit).Keeps (discipline.contract t job)
    (fun _ s => Working t job s) s := by
  have hstart : Books s.Over ((s.loop.newTicket.1.startTimer d
      (.raise (.ticket s.loop.newTicket.2))).1) := by
    refine h.1.1.books.alike rfl rfl rfl (fun _ hi => .inl hi) fun e he => ?_
    rcases List.mem_cons.mp he with rfl | he
    · exact .inr ⟨_, rfl⟩
    · exact .inl he
  have hstep := step_loop h.1 hstart ⟨fun _ => rfl, rfl, fun _ h => h⟩
  refine ⟨hstep, ⟨_, rfl⟩, ⟨hstep.1, h.2⟩, fun ending u hu => ?_⟩
  have hstop : ∀ id, discipline.Steps t job u { u with loop := u.loop.stopTimer id } :=
    fun id => step_loop hu.1 (hu.1.1.books.stopTimer id) ⟨fun _ => rfl, rfl, fun _ h => h⟩
  refine ⟨hstop _, ?_⟩
  cases ending with
  | value | error | cancelled => exact ⟨(hstop _).1, hu.2⟩

/-! ## Telling the scheduler -/

theorem machine_carryOut (s : State) (x : Effect) :
    (Scheduler.carryOut s x).machine = s.machine := by
  cases x with
  | armTimer id => rfl
  | startRun r => rfl
  | cancelTimer id =>
    change (Scheduler.cancelTask s (Assoc.get? id s.scheduler.timerTasks)).machine = _
    cases Assoc.get? id s.scheduler.timerTasks <;> rfl
  | cancelRun r =>
    change (Scheduler.cancelTask s (Assoc.get? r s.scheduler.runTasks)).machine = _
    cases Assoc.get? r s.scheduler.runTasks <;> rfl
  | wake tickets =>
    change (tickets.foldl _ s).machine = _
    induction tickets generalizing s with
    | nil => rfl
    | cons n rest ih => exact ih _
  | closed uri =>
    change (if s.watchesClosing then s.note (.closed uri) else s).machine = _
    split <;> rfl

theorem machine_tell (s : State) (e : Event) :
    (Scheduler.tell s e).machine = (s.machine.step e).1 := by
  have hfold : ∀ (out : List Effect) (u : State), (out.foldl Scheduler.carryOut u).machine =
    u.machine := by
    intro out
    induction out with
    | nil => exact fun _ => rfl
    | cons x rest ih => exact fun u => (ih _).trans (machine_carryOut u x)
  exact hfold _ (decided s e)

/-- Events that say nothing of documents leave it at what was known of them. -/
theorem content_tell {e : Event} (h : Sound own [] s) (proper : Proper own s e) (uri : String) :
    (Scheduler.tell s e).machine.content uri = e.accept uri (s.machine.content uri) := by
  rw [machine_tell]
  exact Scheduler.State.content_step h.machine.tidy e proper.ne_stop uri

theorem step_tell {e : Event} (h : discipline.during t job s) (proper : Proper (some t) s e)
    (silent : ∀ uri known, e.accept uri known = known) :
    discipline.Steps t job s (Scheduler.tell s e) := by
  obtain ⟨hsound, hgoes⟩ := h.1.tell proper
  exact ⟨⟨hsound, hgoes.jobs t job h.2⟩, hgoes.carries,
    fun uri => (content_tell h.1 proper uri).trans (silent uri _)⟩

/-- A run that has ended is over. -/
theorem over_tell_ended {r : Nat} (h : Sound own [] s) (ht : s.loop.jobOf t = some (.run r)) :
    Assoc.get? r (Scheduler.tell s (.ended r)).machine.runs = none := by
  rw [machine_tell]
  have starts := Scheduler.starts_step s.machine (e := .ended r) nofun
  exact starts.over (h.running t r ht).1 (Assoc.get?_erase_self r _)

/-- Forgetting the tasks of timers that are over. -/
theorem step_forgetTimers (h : discipline.during t job s) :
    discipline.Steps t job s (Scheduler.forgetTimers s) := by
  refine ⟨⟨?_, h.2⟩, ⟨.refl _, fun _ hi => hi, fun _ _ _ _ _ hh => hh⟩, fun _ => rfl⟩
  refine { h.1 with timers := fun id u hu => h.1.timers id u ?_ }
  have hget : Assoc.get? id (s.scheduler.timerTasks.filter
      fun e => Assoc.has e.1 s.machine.timers) = some u := hu
  rw [Assoc.get?_filter (fun id => Assoc.has id s.machine.timers)] at hget
  split at hget
  · exact hget
  · cases hget

/-! ## Validations -/

/-- The state after a validation has begun. -/
def beginning (s : State) (run : Scheduler.Run) : State :=
  { s with behaviours := s.behaviours.tail }.note
    (.started s.loop.now run.uri run.version run.text)

theorem lastBegun_beginning (s : State) (run : Scheduler.Run) (uri : String) :
    (beginning s run).lastBegun uri =
      if run.uri = uri then some (run.version, run.text) else s.lastBegun uri := by
  rw [beginning, State.lastBegun_note, Happening.begun]
  split <;> rfl

/-- The run that begins is the only one of its document, so nobody else relies on what the document
was validated for before. -/
theorem step_beginning {r : Nat} {run : Scheduler.Run} (h : discipline.during t (.run r) s)
    (hrun : Assoc.get? r s.machine.runs = some run) :
    discipline.Steps t (.run r) s (beginning s run) ∧ Begun (beginning s run) r := by
  obtain ⟨slot, doc, found, hasRun, -, -, runs⟩ := h.1.machine.running_of_run hrun
  have hinv : Inv (beginning s run).setting s.machine := by
    refine h.1.machine.resettle id fun uri id slot' doc' found' rests validated => ?_
    refine (lastBegun_beginning s run uri).trans ?_
    rw [if_neg]
    · exact validated
    · rintro rfl
      rw [doc] at doc'
      rw [← Option.some.inj doc', found] at found'
      have hphase := rests.phase
      rw [← Option.some.inj found', hasRun.phase] at hphase
      cases hphase
  refine ⟨⟨⟨{ h.1 with machine := hinv }, h.2⟩, ⟨.refl _, fun _ hi => hi, ?_⟩, fun _ => rfl⟩,
    run, hrun, (lastBegun_beginning s run run.uri).trans (if_pos rfl)⟩
  intro u job hown _ hu hheld r' hr'
  subst hr'
  obtain ⟨run', hrun', hlast⟩ := hheld r' rfl
  refine ⟨run', hrun', (lastBegun_beginning s run run'.uri).trans ?_⟩
  rw [if_neg]
  · exact hlast
  · intro huri
    have hmem : (r', run') ∈ s.machine.runsOf run.uri :=
      Scheduler.State.mem_runsOf.mpr ⟨Assoc.mem_of_get? hrun', huri.symm⟩
    rw [runs, List.mem_singleton] at hmem
    obtain ⟨rfl, -⟩ := Prod.mk.inj hmem
    exact hown (congrArg some (h.1.books.unique t u r' h.2 hu))

theorem step_note (h : discipline.during t job s) {w : Happening}
    (hb : ∀ uri, w.begun uri = none) : discipline.Steps t job s (s.note w) :=
  ⟨⟨h.1.note hb, h.2⟩, (goes_note hb).carries, fun _ => rfl⟩

/-- What a validation takes down at its end. -/
theorem keeps_finish (h : Working t job s) (run : Scheduler.Run) (fails : Bool) :
    (Routine.modify fun (s : State) =>
      let s := s.note (.ended s.loop.now run.uri run.version)
      if fails then s.note (.told ⟨.error, "validation_run_failed"⟩) else s : Act Unit).Keeps
        (discipline.contract t job) (fun _ s => Working t job s) s := by
  have hended := step_note h.1 (w := .ended s.loop.now run.uri run.version) fun _ => rfl
  have hbegun : ∀ {what : Happening} {u : State}, (∀ uri, what.begun uri = none) →
      (∀ r, job = .run r → Begun u r) → ∀ r, job = .run r → Begun (u.note what) r :=
    fun hb hu r hr => begun_note hb (hu r hr)
  cases fails with
  | false => exact Routine.keeps_modify hended ⟨hended.1, hbegun (fun _ => rfl) h.2⟩
  | true =>
    have htold := step_note hended.1 (w := .told ⟨.error, "validation_run_failed"⟩) fun _ => rfl
    exact Routine.keeps_modify (hended.trans htold)
      ⟨htold.1, hbegun (fun _ => rfl) (hbegun (fun _ => rfl) h.2)⟩

theorem keeps_validate {r : Nat} {run : Scheduler.Run} (h : discipline.during t (.run r) s)
    (hrun : Assoc.get? r s.machine.runs = some run) :
    (validate run).Keeps (discipline.contract t (.run r)) (fun _ s => Working t (.run r) s) s := by
  obtain ⟨hstep, hbegun⟩ := step_beginning h hrun
  have hworking : Working t (.run r) (beginning s run) :=
    ⟨hstep.1, fun r' hr' => Job.run.inj hr' ▸ hbegun⟩
  unfold validate
  refine Routine.keeps_act_andThen hstep ?_
  dsimp only
  cases (s.behaviours.headD {}).length with
  | some d =>
    exact (keeps_sleep hworking d).andThen (fun _ u hu => keeps_finish hu run _) (fun _ _ hu => hu)
      fun _ hu => hu
  | none => exact keeps_finish hworking run _

/-! ## Tasks -/

/-- What is to be shown of the body of a job.  With it for every job, the discipline holds of every
rehearsal. -/
def BodyKeeps (t : Nat) (job : Job) : Prop :=
  ∀ s, discipline.during t job s →
    (body job).Keeps (discipline.contract t job) (discipline.post t job) s

theorem body_run (t r : Nat) : BodyKeeps t (.run r) := by
  intro s h
  change Routine.Keeps _ _ (Scheduler.runBody validate r) s
  unfold Scheduler.runBody
  refine Routine.keeps_read_andThen ?_
  cases hrun : Assoc.get? r (Scheduler.machineIn s).runs with
  | none => exact ⟨h, fun r' hr' => Job.run.inj hr' ▸ hrun⟩
  | some run =>
    have htell : ∀ {u}, Working t (.run r) u →
        discipline.Steps t (.run r) u (Scheduler.tell u (.ended r)) :=
      fun hu => step_tell hu.1 ⟨hu.2 r rfl, t, rfl, hu.1.2⟩ fun _ _ => rfl
    refine (keeps_validate h hrun).always
      (fun _ u hu => (htell hu).trans (step_forgetTimers (htell hu).1)) fun _ u hu => ?_
    refine ⟨(step_forgetTimers (htell hu).1).1, fun r' hr' => ?_⟩
    cases hr'
    exact over_tell_ended hu.1.1 hu.1.2

theorem body_timer (t id : Nat) : BodyKeeps t (.timer id) := by
  intro s h
  have hover : ∀ (e : Ending Unit Unit) (u : State), discipline.during t (.timer id) u →
      discipline.post t (.timer id) e u := fun _ _ hu => ⟨hu, nofun⟩
  change Routine.Keeps _ _ (Scheduler.timerBody id) s
  unfold Scheduler.timerBody
  refine Routine.keeps_read_andThen ((keeps_sleep ⟨h, nofun⟩ _).onEnd fun ending u hu => ?_)
  cases ending with
  | value v =>
    have hstep := step_tell (e := .fired id) hu.1 trivial fun _ _ => rfl
    exact Routine.keeps_modify hstep (hover _ _ hstep.1)
  | error e => exact hover _ _ hu.1
  | cancelled => exact hover _ _ hu.1

end PikeAnalysis.Simulation.Scheduling

/-!
## The courses of a rehearsal

From outside, documents are edited and the clock is set; everything else a rehearsal does by itself,
in whatever order.  Along all of these courses the scheduler and its tasks agree, and a document
that is open holds what the edits said of it (`sound_of_leads`).
-/

namespace PikeAnalysis.Simulation.Scheduling

open PikeAnalysis.Concurrency
open PikeAnalysis.Scheduler (Effect Event Inv Setting startedRuns)

/-- What an editor does with documents.  A version or a text may be missing from a save, and then it
is the one that is known. -/
inductive Edit where
  | change (uri : String) (version : Int) (text : String)
  | opened (uri : String) (version : Int) (text : String)
  | save (uri : String) (version : Option Int) (text : Option String)
  | close (uri : String)

/-- What the scheduler is told of an edit. -/
def Edit.event : Edit → Event
  | .change uri version text => .change uri version text
  | .opened uri version text => .opened uri version text
  | .save uri version text => .save uri version text
  | .close uri => .close uri

/-- What happens to a rehearsal from outside.  Between two of these the loop may run for as long as
it likes, or not at all. -/
inductive Outside where
  | edit (e : Edit)
  | clock (t : Instant)

def outside : Outside → State → State
  | .edit e, s => Scheduler.tell s e.event
  | .clock t, s => { s with loop := { s.loop with now := t } }

/-- What is known of a document after edits of any documents: what the last one that said something
of it left, unless it has been closed since. -/
def known (uri : String) (os : List Outside) : Option (Int × String) :=
  os.foldl (fun known o =>
    match o with
    | .edit e => e.event.accept uri known
    | .clock _ => known) none

variable {s : State} {t : Nat} {st : TaskState Job}

/-- An editor may do anything at any time. -/
theorem Edit.proper (e : Edit) (own : Option Nat) (s : State) : Proper own s e.event := by
  cases e <;> trivial

/-! ### The discipline is kept -/

theorem step_turn {job : Job} (h : discipline.during t job s) (u : Nat) :
    discipline.Steps t job s (Machine.turnOf u s) :=
  step_loop h (books_turn h.1.books u) ⟨fun _ => rfl, rfl, fun _ h => h⟩

theorem bodyKeeps (h : Books s.Over s.loop) (hst : s.loop.task? t = some st) :
    BodyKeeps t st.job := by
  rcases (h.fits t st hst).kind with ⟨id, hid⟩ | ⟨r, hr⟩
  · rw [hid]
    exact body_timer t id
  · rw [hr]
    exact body_run t r

/-- A task that is cancelled before it begins is that of a timer. -/
theorem passes_skip (h : Sound none [] s) (hst : s.loop.task? t = some st)
    (hcancel : st.mustCancel = true) :
    discipline.Passes none s { s with loop := s.loop.finish t .cancelled } := by
  have hfits := h.books.fits t st hst
  have hrun : ∀ r, st.job = .run r → Assoc.get? r s.machine.runs = none := by
    intro r hr
    rw [hfits.unmarked r hr] at hcancel
    cases hcancel
  obtain ⟨hinv, carries, kept⟩ :=
    passes_conclude (t := t) ⟨h.weaken _, Loop.jobOf_of_task? hst⟩ hrun .cancelled
  exact ⟨hinv, ⟨carries.evolves, carries.items, fun _ _ _ _ _ hheld => hheld⟩, kept⟩

theorem step_resume (h : Sound none [] s) (hst : s.loop.task? t = some st) :
    discipline.Steps t st.job s
      { s with loop := s.loop.setTask t { st with waiting := none, mustCancel := false } } := by
  have hjob := Loop.jobOf_of_task? hst
  have hfits := h.books.fits t st hst
  have books := h.books.setTask (w := { st with waiting := none, mustCancel := false }) hjob
    ⟨hfits.kind, fun _ _ => rfl, nofun⟩
  exact step_loop ⟨h.weaken _, hjob⟩ books (Loop.SameJobs.setTask (.refl _) hjob)

/-- The hook of a run finds it gone. -/
theorem passes_hook {r : Nat} (h : Sound none [] s) (hover : s.Over r) :
    discipline.Passes none s (Scheduler.afterRunTask r s) := by
  have proper : Proper none s (.dropped r) := hover.2
  obtain ⟨hsound, hgoes⟩ := h.tell proper
  refine ⟨?_, ?_, content_tell h proper⟩
  · exact
      { machine := hsound.machine
        books := hsound.books
        running := hsound.running
        alive := hsound.alive
        unborn := hsound.unborn
        once := hsound.once
        timers := hsound.timers
        quiet := hsound.quiet }
  · exact hgoes.carries.trans ⟨.refl _, fun _ hi => hi, fun _ _ _ _ _ hheld => hheld⟩

theorem books_due (h : Books s.Over s.loop) : Books s.Over (Moment.due s.loop) :=
  (h.dropCancelled _).takeDue _

/-- Whatever is ready, and whatever happens from outside, the discipline is kept. -/
theorem lawful : discipline.Lawful rules outside fun _ _ => True where
  begins {s t st} h _ hst _ := by
    have hjob := Loop.jobOf_of_task? hst
    have hstep := step_turn ⟨h.weaken _, hjob⟩ t
    exact ⟨hstep, bodyKeeps h.books hst _ hstep.during⟩
  skips h _ hst hcancel := passes_skip h hst hcancel
  resumes {s t st} h hst hheld := by
    have hstep := step_resume h hst
    exact ⟨hstep.trans (step_turn hstep.during t), hheld⟩
  renews _ _ _ := False.elim
  ends h hover := passes_conclude h hover _
  suspends h hheld hwaits := by
    obtain ⟨n, rfl⟩ := hwaits
    exact ⟨passes_suspend h hheld n, hheld⟩
  fires h _ := passes_loop h (h.books.fireTimer _) (Loop.sameJobs_fireTimer _ _ _)
  relays _ hitem := hitem.elim
  counts _ hitem := hitem.elim
  hooks h hitem := passes_hook h hitem
  dues h := passes_loop h (books_due h.books) (Moment.sameTasks_due _).sameJobs
  ready h hi := h.books.ready _ hi
  empties h := passes_loop h
    (h.books.alike rfl rfl rfl (fun _ hi => absurd hi List.not_mem_nil) fun _ he => .inl he)
    ⟨fun _ => rfl, rfl, fun _ h => absurd h List.not_mem_nil⟩
  happens {s o} h _ := by
    cases o with
    | edit e =>
      obtain ⟨hsound, hgoes⟩ := h.tell (e.proper none s)
      exact ⟨hsound, hgoes.carries⟩
    | clock t =>
      have books : Books s.Over { s.loop with now := t } :=
        h.books.alike rfl rfl rfl (fun _ hi => .inl hi) fun _ he => .inl he
      obtain ⟨hinv, carries, -⟩ := passes_loop h books ⟨fun _ => rfl, rfl, fun _ h => h⟩
      exact ⟨hinv, carries⟩

/-! ### Courses -/

/-- A rehearsal before anything happens.  Every course of a rehearsal starts here. -/
def opening (debounce : Int) (behaviours : List Behaviour) (watchesClosing : Bool) :
    Moment State Unit Unit Job Nat :=
  { machine := Rehearsal.start debounce behaviours watchesClosing }

theorem sound_opening (debounce : Int) (behaviours : List Behaviour) (watchesClosing : Bool) :
    discipline.Holds (opening debounce behaviours watchesClosing) where
  inv :=
    { machine := .start debounce
      books :=
        { fresh := nofun, fits := nofun, unique := nofun, ended := nofun, followers := nofun
          spent := fun _ _ => rfl, ready := nofun, live := nofun }
      running := nofun
      alive := fun _ hr => absurd rfl hr
      unborn := nofun
      once := List.nodup_nil
      timers := nofun
      quiet := nofun }
  fresh := nofun
  queue := nofun
  waiting := nofun

variable {debounce : Int} {behaviours : List Behaviour} {watchesClosing : Bool} {os : List Outside}
  {c : Moment State Unit Unit Job Nat}

/-- At every moment of a rehearsal the scheduler and its tasks agree, and documents hold what the
edits said.  Nothing is assumed of the order in which things are done. -/
theorem sound_of_leads
    (course : Leads rules outside (opening debounce behaviours watchesClosing) os c) :
    Sound none [] c.state ∧ ∀ uri, c.state.machine.content uri = known uri os := by
  obtain ⟨hholds, hsaid⟩ := lawful.leads
    (p := fun os s => ∀ uri, s.machine.content uri = known uri os) (q := fun _ => True)
    (fun _ _ _ hsaid hkept uri => (hkept uri).trans (hsaid uri))
    (fun os s o hinv _ hsaid => ⟨trivial, fun uri => by
      rw [known, List.foldl_append]
      cases o with
      | edit e =>
        refine (content_tell hinv (e.proper none s) uri).trans ?_
        rw [hsaid uri]
        rfl
      | clock t => exact hsaid uri⟩)
    (sound_opening ..) (fun _ => rfl) course fun _ _ => trivial
  exact ⟨hholds.inv, hsaid⟩

end PikeAnalysis.Simulation.Scheduling
