import PikeAnalysis.Proofs.Concurrency.Discipline
import PikeAnalysis.Proofs.Scheduler.Content
import PikeAnalysis.Proofs.Scheduler.Effects
import PikeAnalysis.Proofs.Simulation.Books

/-!
# The scheduler and its tasks

How the tasks of a rehearsal go with what its scheduler has decided: a run is under way exactly if
it has a task, and then it has one only.  An event is decided in one go and carried out step by
step, so `Sound` is stated of a state in which some effects are still to be carried out.

The module is about the effects of an event on the tasks, and does not look at what documents hold:
which version and text a run carries comes with the scheduler's own invariants (`setting`), and is
passed along.  A run that has ended is over before its task is, which is why the invariant knows of
the task whose turn it is: for as long as the turn lasts there is a task whose run is gone.

`discipline` puts this into the form that the general theory asks for.  What a task relies on while
it waits is that its run has begun and is still under way.
-/

namespace PikeAnalysis.Simulation.Scheduling

open PikeAnalysis.Concurrency
open PikeAnalysis.Scheduler (Effect Event Inv Setting startedRuns)

/-! ## What has happened -/

/-- The version and text of the validation of a document that begins, if one does. -/
def Happening.begun (uri : String) : Happening → Option (Int × String)
  | .started _ u version text => if u = uri then some (version, text) else none
  | _ => none

namespace State

/-- The scheduling machine. -/
abbrev machine (s : State) : Scheduler.State :=
  s.scheduler.machine

/-- The version and text of the latest validation of a document that has begun. -/
def lastBegun (s : State) (uri : String) : Option (Int × String) :=
  (s.happenings.filterMap (Happening.begun uri)).getLast?

theorem lastBegun_note (s : State) (h : Happening) (uri : String) :
    (s.note h).lastBegun uri = (h.begun uri).or (s.lastBegun uri) := by
  rw [lastBegun, note, List.filterMap_append, List.getLast?_append]
  cases hb : h.begun uri with
  | none => simp [hb, lastBegun]
  | some c => simp [hb, lastBegun]

/-- A run that has been and is no more. -/
def Over (s : State) (r : Nat) : Prop :=
  r < s.machine.nextRun ∧ Assoc.get? r s.machine.runs = none

/-- Runs are not lost, and what has been validated shows in what has happened. -/
def setting (s : State) : Setting where
  lossy := False
  validated uri version text := s.lastBegun uri = some (version, text)

end State

/-! ## The invariant -/

/-- What holds of a state in which the effects `todo` are still to be carried out, in the turn of
the task `own` if there is one.  A task whose run has ended is about to end itself.  In between two
effects the tasks lag behind the decision by just those effects that are still to be carried out. -/
structure Sound (own : Option Nat) (todo : List Effect) (s : State) : Prop where
  machine : Inv s.setting s.machine
  books : Books s.Over s.loop
  running : ∀ t r, s.loop.jobOf t = some (.run r) →
    r < s.machine.nextRun ∧ (own ≠ some t → Assoc.get? r s.machine.runs ≠ none)
  alive : ∀ r, Assoc.get? r s.machine.runs ≠ none →
    r ∈ startedRuns todo ∨ ∃ t, s.loop.jobOf t = some (.run r)
  unborn : ∀ r ∈ startedRuns todo,
    r < s.machine.nextRun ∧ Assoc.get? r s.machine.runs ≠ none ∧ ∀ t, s.loop.jobOf t ≠ some (.run r)
  once : (startedRuns todo).Nodup
  timers : ∀ id t, Assoc.get? id s.scheduler.timerTasks = some t →
    t < s.loop.nextTask ∧ ∀ r, s.loop.jobOf t ≠ some (.run r)
  quiet : ∀ r, .cancelRun r ∉ todo

/-- The run of a waiting task has begun and is under way. -/
def Begun (s : State) (r : Nat) : Prop :=
  ∃ run, Assoc.get? r s.machine.runs = some run ∧
    s.lastBegun run.uri = some (run.version, run.text)

/-- What the tasks of a rehearsal owe one another.  Between turns the state is sound with nothing
left to do.  A task may end once its run is over, and waits for tickets only. -/
def discipline : Discipline State Unit Unit Job Nat where
  inv := Sound none []
  during t job s := Sound (some t) [] s ∧ s.loop.jobOf t = some job
  item i s := Due s.Over i
  held _ job s := ∀ r, job = .run r → Begun s r
  waits _ signal := ∃ n, signal = .ticket n
  atEnd _ job _ s := ∀ r, job = .run r → Assoc.get? r s.machine.runs = none
  renews _ _ := False
  kept s s' := ∀ uri, s'.machine.content uri = s.machine.content uri
  kept_refl _ _ := rfl
  kept_trans h k uri := (k uri).trans (h uri)

/-- What is respected within an event: whatever a discipline asks for, and no task ends.  An event
of the scheduler can create tasks and cancel timers, but the tasks that exist are the same before
and after it. -/
structure Goes (own : Option Nat) (s s' : State) : Prop where
  carries : discipline.Carries own s s'
  jobs : ∀ t job, s.loop.jobOf t = some job → s'.loop.jobOf t = some job

variable {own : Option Nat} {todo : List Effect} {s s' s'' : State} {t : Nat} {job : Job}

theorem Goes.trans (h : Goes own s s') (k : Goes own s' s'') : Goes own s s'' :=
  ⟨h.carries.trans k.carries, fun t job hj => k.jobs t job (h.jobs t job hj)⟩

theorem Goes.refl (own : Option Nat) (s : State) : Goes own s s :=
  ⟨.refl own s, fun _ _ hj => hj⟩

/-! ## Changes to the loop -/

/-- What tasks rely on does not depend on the loop. -/
theorem carries_loop {l : Tasks} (h : Loop.Evolves s.loop l) :
    discipline.Carries own s { s with loop := l } :=
  ⟨h, fun _ hi => hi, fun _ _ _ _ _ hheld => hheld⟩

theorem goes_loop {l : Tasks} (h : Loop.SameJobs s.loop l) : Goes own s { s with loop := l } :=
  ⟨carries_loop h.evolves, fun t job hj => by rwa [h.jobs]⟩

theorem Sound.loop {l : Tasks} (h : Sound own todo s) (books : Books s.Over l)
    (same : Loop.SameJobs s.loop l) : Sound own todo { s with loop := l } where
  machine := h.machine
  books := books
  running t r hr := h.running t r (by rwa [← same.jobs])
  alive r hr := by
    refine (h.alive r hr).imp_right fun ⟨t, ht⟩ => ⟨t, ?_⟩
    rwa [same.jobs]
  unborn r hr := by
    obtain ⟨hlt, hruns, hjob⟩ := h.unborn r hr
    exact ⟨hlt, hruns, fun t => by rw [same.jobs]; exact hjob t⟩
  once := h.once
  timers id t ht := by
    obtain ⟨hlt, hjob⟩ := h.timers id t ht
    refine ⟨?_, fun r => ?_⟩
    · rw [same.next]
      exact hlt
    · rw [same.jobs]
      exact hjob r
  quiet := h.quiet

end PikeAnalysis.Simulation.Scheduling

/-!
## Events of a rehearsal

What the scheduler decides on an event is carried out by starting, cancelling and waking tasks.
Each effect brings the tasks closer to the decision, and once all are carried out they agree with it
again.
-/

namespace PikeAnalysis.Simulation.Scheduling

open PikeAnalysis.Concurrency
open PikeAnalysis.Scheduler (Effect Event Inv Setting startedRuns)

variable {own : Option Nat} {todo : List Effect} {s s' : State} {t : Nat} {job : Job}

/-! ### Notes -/

theorem setting_note {h : Happening} (hb : ∀ uri, h.begun uri = none) :
    (s.note h).setting = s.setting := by
  simp [State.setting, State.lastBegun_note, hb]

theorem begun_note {h : Happening} (hb : ∀ uri, h.begun uri = none) {r : Nat} (hr : Begun s r) :
    Begun (s.note h) r := by
  obtain ⟨run, hrun, hlast⟩ := hr
  refine ⟨run, hrun, ?_⟩
  rw [State.lastBegun_note, hb, Option.none_or]
  exact hlast

/-- Taking down what is not the beginning of a validation. -/
theorem Sound.note (h : Sound own todo s) {what : Happening} (hb : ∀ uri, what.begun uri = none) :
    Sound own todo (s.note what) :=
  { h with machine := setting_note (s := s) hb ▸ h.machine }

theorem goes_note {what : Happening} (hb : ∀ uri, what.begun uri = none) :
    Goes own s (s.note what) where
  carries :=
    { evolves := .refl _
      items := fun _ hi => hi
      held := fun _ _ _ _ _ hheld r hr => begun_note hb (hheld r hr) }
  jobs _ _ hj := hj

/-! ### Effects -/

/-- Effects that start no run leave nothing behind. -/
theorem Sound.drop {x : Effect} (h : Sound own (x :: todo) s) (hx : startedRuns [x] = []) :
    Sound own todo s := by
  have hsame : startedRuns (x :: todo) = startedRuns todo := by
    rw [← List.singleton_append, Scheduler.startedRuns_append, hx, List.nil_append]
  exact
    { machine := h.machine
      books := h.books
      running := h.running
      alive := fun r hr => hsame ▸ h.alive r hr
      unborn := fun r hr => h.unborn r (hsame ▸ hr)
      once := hsame ▸ h.once
      timers := h.timers
      quiet := fun r hr => h.quiet r (List.mem_cons_of_mem _ hr) }

theorem Sound.startTimer (h : Sound own todo s) (id : Nat) :
    Sound own todo (Scheduler.startTimerTask s id) ∧
      Goes own s (Scheduler.startTimerTask s id) := by
  have hjob := h.books.fresh.jobOf_create (.timer id)
  have hold : ∀ {t job}, s.loop.jobOf t = some job →
      (s.loop.create (.timer id)).1.jobOf t = some job := by
    intro t job ht
    rw [hjob, if_neg (Nat.ne_of_lt (h.books.fresh.lt_of_jobOf ht)), ht]
  -- The new task is that of a timer, so the tasks of runs are the old ones.
  have hrun : ∀ {t r}, (s.loop.create (.timer id)).1.jobOf t = some (.run r) →
      s.loop.jobOf t = some (.run r) := by
    intro t r ht
    rw [hjob] at ht
    split at ht
    · cases ht
    · exact ht
  refine ⟨?_, ⟨Loop.evolves_create _ _, fun _ hi => hi, fun _ _ _ _ _ hh => hh⟩, fun t job => hold⟩
  exact
    { machine := h.machine
      books := h.books.create (.inl ⟨id, rfl⟩) nofun
      running := fun t r ht => h.running t r (hrun ht)
      alive := fun r hr => (h.alive r hr).imp_right fun ⟨t, ht⟩ => ⟨t, hold ht⟩
      unborn := fun r hr => by
        obtain ⟨hlt, hruns, hnone⟩ := h.unborn r hr
        exact ⟨hlt, hruns, fun t ht => hnone t (hrun ht)⟩
      once := h.once
      timers := fun id' t ht => by
        have hget : Assoc.get? id' (Assoc.set id s.loop.nextTask s.scheduler.timerTasks) =
          some t := ht
        rw [Assoc.get?_set] at hget
        split at hget
        · rw [← Option.some.inj hget]
          refine ⟨Nat.lt_succ_self _, fun r hr => ?_⟩
          have hnext : (s.loop.create (.timer id)).1.jobOf s.loop.nextTask = some (.run r) := hr
          rw [hjob, if_pos rfl] at hnext
          cases hnext
        · obtain ⟨hlt, hnone⟩ := h.timers id' t hget
          exact ⟨Nat.lt_succ_of_lt hlt, fun r hr => hnone r (hrun hr)⟩
      quiet := h.quiet }

theorem Sound.startRun {r : Nat} (h : Sound own (.startRun r :: todo) s) :
    Sound own todo (Scheduler.startRunTask s r) ∧ Goes own s (Scheduler.startRunTask s r) := by
  have hstarted : startedRuns (.startRun r :: todo) = r :: startedRuns todo := rfl
  obtain ⟨hlt, hruns, hnone⟩ := h.unborn r (by simp [hstarted])
  have hnodup := h.once
  rw [hstarted, List.nodup_cons] at hnodup
  have hcreate := h.books.fresh.jobOf_create (.run r)
  have hfollow : Loop.SameJobs (s.loop.create (.run r)).1
      ((s.loop.create (.run r)).1.follow (.ended s.loop.nextTask) (.hook r)) :=
    (Loop.SameJobs.refl _).follow _ _
  have hjob : ∀ u, ((s.loop.create (.run r)).1.follow (.ended s.loop.nextTask) (.hook r)).jobOf u =
      if u = s.loop.nextTask then some (.run r) else s.loop.jobOf u :=
    fun u => (hfollow.jobs u).trans (hcreate u)
  have hold : ∀ {t job}, s.loop.jobOf t = some job →
      ((s.loop.create (.run r)).1.follow (.ended s.loop.nextTask) (.hook r)).jobOf t =
        some job := by
    intro t job ht
    rw [hjob, if_neg (Nat.ne_of_lt (h.books.fresh.lt_of_jobOf ht)), ht]
  -- The end of a task that has just been created is not raised, so the hook waits for it.
  have hopen : ((s.loop.create (.run r)).1.signalState (.ended s.loop.nextTask)).ending = none := by
    cases he : ((s.loop.create (.run r)).1.signalState (.ended s.loop.nextTask)).ending with
    | none => rfl
    | some e =>
      have hended : s.loop.isEnded s.loop.nextTask = true := by
        rw [Loop.isEnded, Loop.ending?]
        exact Option.isSome_iff_exists.mpr ⟨e, he⟩
      exact absurd (h.books.ended _ hended) (Nat.lt_irrefl _)
  refine ⟨?_,
    ⟨(Loop.evolves_create _ _).trans hfollow.evolves, fun _ hi => hi, fun _ _ _ _ _ hh => hh⟩,
    fun t job => hold⟩
  exact
    { machine := h.machine
      books := by
        have hbooks := Books.create (h.books : Books _ s.loop) (.inr ⟨r, rfl⟩) fun t r' hr' => by
          cases hr'
          exact hnone t
        exact hbooks.follow ⟨s.loop.nextTask, rfl, (hcreate _).trans (if_pos rfl)⟩
          fun hne => absurd hopen hne
      running := fun t r' ht => by
        replace ht := (hjob t).symm.trans ht
        split at ht
        · cases ht
          exact ⟨hlt, fun _ => hruns⟩
        · exact h.running t r' ht
      alive := fun r' hr' => by
        rcases h.alive r' hr' with hmem | ⟨t, ht⟩
        · rw [hstarted, List.mem_cons] at hmem
          rcases hmem with rfl | hmem
          · exact .inr ⟨s.loop.nextTask, (hjob _).trans (if_pos rfl)⟩
          · exact .inl hmem
        · exact .inr ⟨t, hold ht⟩
      unborn := fun r' hr' => by
        obtain ⟨hlt', hruns', hnone'⟩ := h.unborn r' (by simp [hstarted, hr'])
        refine ⟨hlt', hruns', fun t ht => ?_⟩
        replace ht := (hjob t).symm.trans ht
        split at ht
        · cases ht
          exact hnodup.1 hr'
        · exact hnone' t ht
      once := hnodup.2
      timers := fun id t ht => by
        obtain ⟨hlt', hnone'⟩ := h.timers id t ht
        refine ⟨?_, fun r' hr' => ?_⟩
        · refine Nat.lt_of_lt_of_le hlt' ?_
          exact ((Loop.evolves_create s.loop (.run r)).trans hfollow.evolves).next
        · replace hr' := (hjob t).symm.trans hr'
          rw [if_neg (Nat.ne_of_lt hlt')] at hr'
          exact hnone' r' hr'
      quiet := fun r' hr' => h.quiet r' (List.mem_cons_of_mem _ hr') }

theorem Sound.cancelTimer (h : Sound own todo s) (id : Nat) :
    let task := Assoc.get? id s.scheduler.timerTasks
    Sound own todo (Scheduler.cancelTask s task) ∧ Goes own s (Scheduler.cancelTask s task) := by
  dsimp only
  cases ht : Assoc.get? id s.scheduler.timerTasks with
  | none => exact ⟨h, .refl own s⟩
  | some t =>
    have same : Loop.SameJobs s.loop (s.loop.cancel t).1 := Loop.SameJobs.cancel (.refl _) t
    exact ⟨h.loop (h.books.cancel (h.timers id t ht).2) same, goes_loop same⟩

theorem Sound.wake (h : Sound own todo s) (tickets : List Nat) :
    let s' := tickets.foldl (fun s n => HasLoop.update s fun l => l.raise (.ticket n) (.value ())) s
    Sound own todo s' ∧ Goes own s s' := by
  induction tickets generalizing s with
  | nil => exact ⟨h, .refl own s⟩
  | cons n rest ih =>
    have same : Loop.SameJobs s.loop (s.loop.raise (.ticket n) (.value ())) :=
      (Loop.SameJobs.refl _).raise _ _
    obtain ⟨hsound, hgoes⟩ := ih (h.loop (h.books.raise n _) same)
    exact ⟨hsound, (goes_loop same).trans hgoes⟩

theorem Sound.close (h : Sound own todo s) (uri : String) :
    Sound own todo (Scheduler.HasScheduler.closed uri s) ∧
      Goes own s (Scheduler.HasScheduler.closed uri s) := by
  change Sound own todo (if s.watchesClosing then s.note (.closed uri) else s) ∧
    Goes own s (if s.watchesClosing then s.note (.closed uri) else s)
  split
  · exact ⟨h.note fun _ => rfl, goes_note fun _ => rfl⟩
  · exact ⟨h, .refl own s⟩

/-- Carrying out one effect. -/
theorem Sound.carryOut {x : Effect} (h : Sound own (x :: todo) s) :
    Sound own todo (Scheduler.carryOut s x) ∧ Goes own s (Scheduler.carryOut s x) := by
  cases x with
  | armTimer id => exact (h.drop rfl).startTimer id
  | cancelTimer id => exact (h.drop rfl).cancelTimer id
  | startRun r => exact h.startRun
  | cancelRun r => exact absurd (List.mem_cons_self ..) (h.quiet r)
  | wake tickets => exact (h.drop rfl).wake tickets
  | closed uri => exact (h.drop rfl).close uri

theorem Sound.carryOutAll {out : List Effect} (h : Sound own out s) :
    Sound own [] (out.foldl Scheduler.carryOut s) ∧
      Goes own s (out.foldl Scheduler.carryOut s) := by
  induction out generalizing s with
  | nil => exact ⟨h, .refl own s⟩
  | cons x rest ih =>
    obtain ⟨hsound, hgoes⟩ := h.carryOut
    obtain ⟨hsound', hgoes'⟩ := ih hsound
    exact ⟨hsound', hgoes.trans hgoes'⟩

/-! ### Events -/

/-- What may happen: anything but a stop.  A run ends in the turn of its task and has begun by then,
and one is dropped only if it is over.  The events of the editor are always possible; the others
come from the tasks of timers and runs. -/
def Proper (own : Option Nat) (s : State) : Event → Prop
  | .ended r => Begun s r ∧ ∃ t, own = some t ∧ s.loop.jobOf t = some (.run r)
  | .dropped r => Assoc.get? r s.machine.runs = none
  | .stop => False
  | _ => True

/-- The state in which an event has been decided on. -/
def decided (s : State) (e : Event) : State :=
  { s with scheduler := { s.scheduler with machine := (s.machine.step e).1 } }

variable {e : Event}

theorem Proper.ne_stop (h : Proper own s e) : e ≠ .stop := by
  rintro rfl
  exact h

theorem Proper.allowed (h : Proper own s e) : e.Allowed s.setting s.machine := by
  cases e with
  | ended r =>
    obtain ⟨⟨run, hrun, hlast⟩, -⟩ := h
    intro run' hrun'
    rw [hrun] at hrun'
    exact Option.some.inj hrun' ▸ hlast
  | dropped r => exact fun hne => absurd h hne
  | stop => exact h
  | change | opened | save | close | fired => trivial

/-- A run that is over is so before what an event starts. -/
theorem get?_before_of_none {r : Nat} (hr : Assoc.get? r s.machine.runs = none) :
    Assoc.get? r (s.machine.before e).runs = none := by
  have herase : ∀ r', Assoc.get? r (Assoc.erase r' s.machine.runs) = none := by
    intro r'
    rw [Assoc.get?_erase]
    split
    · rfl
    · exact hr
  cases e with
  | ended r' | dropped r' => exact herase r'
  | change | opened | save | close | fired | stop => exact hr

/-- An event ends no run but that of the task whose turn it is. -/
theorem get?_before_of_some (h : Sound own [] s) (proper : Proper own s e) {r : Nat}
    (ht : s.loop.jobOf t = some (.run r)) (hown : own ≠ some t) :
    Assoc.get? r (s.machine.before e).runs = Assoc.get? r s.machine.runs := by
  cases e with
  | ended r' =>
    obtain ⟨-, t', hown', ht'⟩ := proper
    refine Assoc.get?_erase_of_ne ?_ _
    rintro rfl
    rw [h.books.unique t t' r ht ht'] at hown
    exact hown hown'
  | dropped r' =>
    refine Assoc.get?_erase_of_ne ?_ _
    rintro rfl
    exact (h.running t r ht).2 hown proper
  | change | opened | save | close | fired | stop => rfl

theorem get?_of_before {r : Nat} {run : Scheduler.Run}
    (hr : Assoc.get? r (s.machine.before e).runs = some run) :
    Assoc.get? r s.machine.runs = some run := by
  cases hs : Assoc.get? r s.machine.runs with
  | none =>
    rw [get?_before_of_none hs] at hr
    cases hr
  | some run' =>
    have herase : ∀ r', Assoc.get? r (Assoc.erase r' s.machine.runs) = some run → run' = run := by
      intro r' hr'
      rw [Assoc.get?_erase] at hr'
      split at hr'
      · cases hr'
      · exact Option.some.inj (hs.symm.trans hr')
    cases e with
    | ended r' | dropped r' => rw [herase r' hr]
    | change | opened | save | close | fired | stop => exact hs.symm.trans hr

/-- A run that is over stays over. -/
theorem over_decided (he : e ≠ .stop) {r : Nat} (hr : s.Over r) : (decided s e).Over r := by
  have starts := Scheduler.starts_step s.machine he
  obtain ⟨hlt, hnone⟩ := hr
  rw [← Scheduler.nextRun_before s.machine e] at hlt
  exact ⟨Nat.lt_of_lt_of_le hlt starts.next_le, starts.over hlt (get?_before_of_none hnone)⟩

/-- Deciding on an event. -/
theorem Sound.decide (h : Sound own [] s) (proper : Proper own s e) :
    Sound own (s.machine.step e).2 (decided s e) ∧ Goes own s (decided s e) := by
  have starts := Scheduler.starts_step s.machine proper.ne_stop
  have hnext : s.machine.nextRun ≤ (s.machine.step e).1.nextRun :=
    Scheduler.nextRun_before s.machine e ▸ starts.next_le
  -- A task that is not in its turn has its run until it ends, and an event does not end it.
  have hkept : ∀ {t r run}, s.loop.jobOf t = some (.run r) → own ≠ some t →
      Assoc.get? r s.machine.runs = some run →
        Assoc.get? r (s.machine.step e).1.runs = some run := by
    intro t r run ht hown hrun
    exact starts.get?_of (by rw [get?_before_of_some h proper ht hown, hrun])
  refine ⟨?_, ⟨.refl _, fun i hi => hi.mono fun r => over_decided proper.ne_stop, ?_⟩,
    fun _ _ hj => hj⟩
  · exact
      { machine := h.machine.step proper.allowed
        books := h.books.mono fun r => over_decided proper.ne_stop
        running := fun t r ht => by
          obtain ⟨hlt, hruns⟩ := h.running t r ht
          refine ⟨Nat.lt_of_lt_of_le hlt hnext, fun hown => ?_⟩
          obtain ⟨run, hrun⟩ := Option.ne_none_iff_exists'.mp (hruns hown)
          have hrun' := hkept ht hown hrun
          simp [decided, State.machine, hrun']
        alive := fun r hr => by
          obtain ⟨run, hrun⟩ := Option.ne_none_iff_exists'.mp hr
          rcases starts.known_or_started hrun with hknown | hstarted
          · have hne : Assoc.get? r s.machine.runs ≠ none := by simp [get?_of_before hknown]
            exact .inr ((h.alive r hne).resolve_left List.not_mem_nil)
          · exact .inl hstarted
        unborn := fun r hr => by
          obtain ⟨hge, hlt, hne⟩ := starts.started hr
          rw [Scheduler.nextRun_before] at hge
          exact ⟨hlt, hne, fun t ht =>
            Nat.lt_irrefl _ (Nat.lt_of_le_of_lt hge (h.running t r ht).1)⟩
        once := starts.nodup
        timers := h.timers
        quiet := fun r hr => by
          rcases Scheduler.plain_step s.machine proper.ne_stop _ hr with hplain | ⟨_, -, hc⟩
          · exact hplain
          · cases hc }
  · intro t job hown _ hjob hheld r hr
    subst hr
    obtain ⟨run, hrun, hlast⟩ := hheld r rfl
    exact ⟨run, hkept hjob hown hrun, hlast⟩

/-- Whatever happens to the scheduler, its tasks agree with it again once that is carried out. -/
theorem Sound.tell (h : Sound own [] s) (proper : Proper own s e) :
    Sound own [] (Scheduler.tell s e) ∧ Goes own s (Scheduler.tell s e) := by
  obtain ⟨hsound, hgoes⟩ := h.decide proper
  obtain ⟨hsound', hgoes'⟩ := hsound.carryOutAll
  exact ⟨hsound', hgoes.trans hgoes'⟩

end PikeAnalysis.Simulation.Scheduling
