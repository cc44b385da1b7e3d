import PikeAnalysis.Proofs.Concurrency.Crews
import PikeAnalysis.Proofs.Scheduler.Timers
import PikeAnalysis.Proofs.Scheduler.Waiters
import PikeAnalysis.Proofs.Simulation.Tracks

/-!
# Timers and runs have tasks that are alive

A timer of the scheduler is running exactly if its task is alive, and a run is under way exactly if
its task has not ended (`Tended`).  This holds of a rehearsal in which tasks may also wait for
documents to become idle, whenever no event is being carried out: what an event decides is carried
out step by step, and `Tended` is kept by each step (`Tended.decide`, `Tended.carryOut`,
`Tended.tell`).

The scheduler decides on an event in one go, and the tasks follow: timers are started and cancelled,
runs are started, and whoever waited goes on.  In between the decision and its last effect the two
do not agree, so `Tended` is stated with the effects `todo` that are still to be carried out.  Each
effect takes itself off the list and brings the tasks closer to what was decided
(`Tended.carryOut`); with the list empty the invariant is about the scheduler and the loop as
anybody else finds them.

Callers that wait for documents to become idle are tasks as well, and may give up at any time.  All
that is needed of them is that they are neither timers nor runs (`Job.Visits`), so that their
comings and goings cannot be taken for those of a validation.
-/

namespace PikeAnalysis.Scheduler

variable {w : Setting} {s : State} {e : Event} {uri : String} {id n x r : Nat} {slot : Slot}

/-! ## Timers and runs before an event -/

theorem timers_rung (hx : Assoc.get? x s.timers ≠ none) :
    Assoc.get? x (s.rung e).timers ≠ none ∨ e = .fired x := by
  cases e with
  | fired y =>
    by_cases hy : x = y
    · exact .inr (hy ▸ rfl)
    · exact .inl (by rwa [State.rung, State.dropTimer, Assoc.get?_erase_of_ne hy])
  | change | opened | save | close | ended | dropped | stop => exact .inl hx

theorem timers_of_rung (hx : Assoc.get? x (s.rung e).timers ≠ none) :
    Assoc.get? x s.timers ≠ none := by
  cases e with
  | fired y =>
    intro hnone
    refine hx ?_
    rw [State.rung, State.dropTimer, Assoc.get?_erase, hnone, ite_self]
  | change | opened | save | close | ended | dropped | stop => exact hx

theorem nextTimer_rung (s : State) (e : Event) : (s.rung e).nextTimer = s.nextTimer := by
  cases e <;> rfl

theorem Tidy.rung (h : Tidy s) (e : Event) :
    ∀ y ∈ (s.rung e).timers, y.1 < (s.rung e).nextTimer := by
  intro y hy
  rw [nextTimer_rung]
  cases e with
  | fired x => exact h.timer_lt y (Assoc.mem_erase.mp hy).1
  | change | opened | save | close | ended | dropped | stop => exact h.timer_lt y hy

theorem runs_before (hr : Assoc.get? r s.runs ≠ none) :
    Assoc.get? r (s.before e).runs ≠ none ∨ e = .ended r ∨ e = .dropped r := by
  cases e with
  | ended q | dropped q =>
    by_cases hq : r = q
    · exact .inr (by simp [hq])
    · exact .inl (by rwa [State.before, State.dropRun, Assoc.get?_erase_of_ne hq])
  | change | opened | save | close | fired | stop => exact .inl hr

theorem runs_of_before (hr : Assoc.get? r (s.before e).runs ≠ none) :
    Assoc.get? r s.runs ≠ none := by
  cases e with
  | ended q | dropped q =>
    intro hnone
    refine hr ?_
    rw [State.before, State.dropRun, Assoc.get?_erase, hnone, ite_self]
  | change | opened | save | close | fired | stop => exact hr

/-! ## Waiting for slots -/

/-- Who waits for a slot is of no account. -/
theorem Inv.awaitIdle (h : Inv w s) (id n : Nat) : Inv w (s.awaitIdle id n) := by
  unfold State.awaitIdle
  split
  · exact h
  · next awaited found =>
    -- Every slot is as before, but for who waits for it.
    have slots {i : Nat} {slot : Slot} (hi : s.slot? i = some slot) : ∃ waiters,
        (s.setSlot id { awaited with waiters := awaited.waiters ++ [n] }).slot? i =
          some { slot with waiters } := by
      rw [State.slot?_setSlot]
      split
      · next same =>
        subst same
        obtain rfl := Option.some.inj (found.symm.trans hi)
        exact ⟨_, rfl⟩
      · exact ⟨slot.waiters, hi⟩
    refine ⟨h.tidy.setSlot _ _, fun uri => ?_⟩
    cases h.standing uri with
    | absent doc timers runs => exact .absent doc timers runs
    | resting doc found' rests validated timers runs =>
      obtain ⟨waiters, found'⟩ := slots found'
      exact .resting doc found' { rests with } validated timers runs
    | waiting doc found' waits timers runs =>
      obtain ⟨waiters, found'⟩ := slots found'
      exact .waiting doc found' { waits with } timers runs
    | running doc found' hasRun slotOf carries timers runs =>
      obtain ⟨waiters, found'⟩ := slots found'
      exact .running doc found' { hasRun with } slotOf
        (fun quiet => { carries { quiet with } with }) timers runs
    | stranded lost doc found' hasRun timers runs =>
      obtain ⟨waiters, found'⟩ := slots found'
      exact .stranded lost doc found' { hasRun with } timers runs

theorem awaitIdle_eq (s : State) (id n : Nat) : ∃ slots, s.awaitIdle id n = { s with slots } := by
  unfold State.awaitIdle
  split
  · exact ⟨s.slots, rfl⟩
  · exact ⟨_, rfl⟩

end PikeAnalysis.Scheduler

namespace PikeAnalysis.Simulation.Scheduling

open PikeAnalysis.Concurrency
open PikeAnalysis.Concurrency.Loop (NoNewWait)
open PikeAnalysis.Scheduler (Live Effect Event Inv startedRuns armedTimers cancelledTimers)

variable {own : Option Nat} {todo : List Effect} {Q : Multiset (Ready Nat)}
  {live : Live} {l m : Tasks}
  {s : State} {e : Event} {i : Ready Nat} {t u n x r : Nat} {job : Job} {st : TaskState Job}

/-- Only callers that wait for documents to become idle have such a job. -/
def Job.Visits : Job → Prop
  | .awaitIdle _ | .awaitAllIdle => True
  | .timer _ | .run _ | .stop => False

/-- The timer is running. -/
def Ticking (live : Live) (x : Nat) : Prop :=
  Assoc.get? x live.machine.timers ≠ none

/-- The run is under way. -/
def Ongoing (live : Live) (r : Nat) : Prop :=
  Assoc.get? r live.machine.runs ≠ none

/-- The run has been and is no more. -/
def Past (live : Live) (r : Nat) : Prop :=
  r < live.machine.nextRun ∧ Assoc.get? r live.machine.runs = none

/-- An effect that cancels no run and lets only those go on who hold a ticket that has been
given. -/
def Feasible (l : Tasks) : Effect → Prop
  | .cancelRun _ => False
  | .wake tickets => ∀ n ∈ tickets, n < l.nextTicket
  | _ => True

theorem Feasible.mono {y : Effect} (h : Feasible l y) (le : l.nextTicket ≤ m.nextTicket) :
    Feasible m y := by
  cases y with
  | wake tickets => exact fun n hn => Nat.lt_of_lt_of_le (h n hn) le
  | cancelRun r => exact h
  | armTimer | cancelTimer | startRun | closed => trivial

/-- What holds of the scheduler and its tasks while the effects `todo` are still to be carried out,
in the turn of the task `own` if there is one.  The lists of the scheduler's timers and runs, its
tables of tasks and the tasks themselves then say the same. -/
structure Tended (own : Option Nat) (todo : List Effect) (Q : Multiset (Ready Nat))
    (live : Live) (l : Tasks) :
    Prop where
  machine : Inv anyhow live.machine
  loop : l.Ticketed own Q
  whose : ∀ t, own = some t → t < l.nextTask
  timers : l.Manned Job.timer live.timerTasks (Ticking live) live.machine.nextTimer
    (armedTimers todo)
    (cancelledTimers todo) own
  runs : l.Manned Job.run live.runTasks (Ongoing live) live.machine.nextRun
    (startedRuns todo) [] own
  /-- No run is cancelled. -/
  firm : ∀ t r, l.jobOf t = some (.run r) → l.Alive t (.run r)
  jobs : ∀ t, l.jobOf t ≠ some .stop
  /-- What follows the end of a run's task is left to the end. -/
  hooks : ∀ r sig, 0 < Loop.pending Q l (.follow (.hook r) sig) →
    Past live r ∨ ∃ t, sig = .ended t ∧ l.jobOf t = some (.run r)
  waiters : ∀ n, live.machine.Awaits n → n < l.nextTicket
  feasible : ∀ x ∈ todo, Feasible l x

theorem timer_injective : Function.Injective Job.timer :=
  fun _ _ => Job.timer.inj

theorem run_injective : Function.Injective Job.run :=
  fun _ _ => Job.run.inj

namespace Tended

/-! ## Changes of the loop -/

/-- What follows the end of a run's task, where the jobs of all tasks are what they were. -/
theorem hooks_of_jobs {sig : Signal} (h : Tended own todo Q live l)
    (jobs : ∀ t, m.jobOf t = l.jobOf t)
    (hr : 0 < Loop.pending Q l (.follow (.hook r) sig)) :
    Past live r ∨ ∃ t, sig = .ended t ∧ m.jobOf t = some (.run r) :=
  (h.hooks r sig hr).imp_right fun ⟨t, hs, ht⟩ => ⟨t, hs, (jobs t).trans ht⟩

/-- A change that leaves all tasks as they are. -/
theorem still (h : Tended own todo Q live l) (loop : m.Ticketed own Q) (k : Loop.Still l m)
    (alive : ∀ t job, m.Alive t job ↔ l.Alive t job) (nextTicket : l.nextTicket ≤ m.nextTicket) :
    Tended own todo Q live m where
  machine := h.machine
  loop := loop
  whose t ht := k.next ▸ h.whose t ht
  timers := h.timers.congr k.jobs (fun t x => alive t _) (Nat.le_of_eq k.next.symm)
  runs := h.runs.congr k.jobs (fun t r => alive t _) (Nat.le_of_eq k.next.symm)
  firm t r ht := (alive t _).mpr (h.firm t r (by rwa [← k.jobs]))
  jobs t := by
    rw [k.jobs]
    exact h.jobs t
  hooks r sig hr := h.hooks_of_jobs k.jobs (by rwa [← k.pending_follow])
  waiters n hn := Nat.lt_of_lt_of_le (h.waiters n hn) nextTicket
  feasible x hx := (h.feasible x hx).mono nextTicket

theorem aside (h : Tended own todo Q live l) (k : Loop.Aside l m) : Tended own todo Q live m :=
  h.still (h.loop.aside k) k.still (fun _ _ => k.alive) k.nextTicket

theorem raise (h : Tended own todo Q live l) (lt : n < l.nextTicket) :
    Tended own todo Q live (l.raise (.ticket n) (.value ())) ∧
      NoNewWait l (l.raise (.ticket n) (.value ())) := by
  have mild := Loop.mild_raise l (.ticket n) (.value ())
  have still : Loop.Still l (l.raise (.ticket n) (.value ())) := mild.still fun s e hnew t ht => by
    rw [hnew.1] at ht
    cases ht
  exact ⟨h.still (h.loop.raise lt fun x => nofun) still (fun t job => Loop.alive_raise l _ nofun)
    mild.nextTicket, .of_still still⟩

theorem drop (h : Tended own todo (i ::ₘ Q) live l) : Tended own todo Q live l :=
  { h with
    loop := h.loop.drop
    hooks := fun r sig hr => h.hooks r sig (by rw [Loop.pending_cons]; omega) }

/-- What is ready becomes part of the round. -/
theorem gather (h : Tended own todo Q live l) :
    Tended own todo (Q + (l.ready : Multiset (Ready Nat))) live { l with ready := [] } :=
  { h with
    loop := h.loop.gather
    timers := { h.timers with }
    runs := { h.runs with }
    hooks := fun r sig => by
      rw [Loop.pending_gather]
      exact h.hooks r sig }

/-! ## Effects -/

/-- A task is created. -/
theorem create {todo' : List Effect} {timerTasks runTasks : List (Nat × Nat)}
    (h : Tended own todo Q live l) (goesOn : job ≠ .stop)
    (timers : (l.create job).1.Manned Job.timer timerTasks (Ticking live) live.machine.nextTimer
      (armedTimers todo') (cancelledTimers todo') own)
    (runs : (l.create job).1.Manned Job.run runTasks (Ongoing live) live.machine.nextRun
      (startedRuns todo') []
      own)
    (fewer : ∀ y ∈ todo', y ∈ todo) :
    Tended own todo' Q { live with timerTasks, runTasks } (l.create job).1 ∧
      NoNewWait l (l.create job).1 := by
  have fresh := h.loop.fresh
  -- The job of the new task is the only new one.
  have jobs (t : Nat) : (l.create job).1.jobOf t = if t = l.nextTask then some job else l.jobOf t :=
    fresh.jobOf_create _ t
  refine ⟨?_, .create fresh _⟩
  exact
    { machine := h.machine
      loop := h.loop.create _ fun he => Nat.lt_irrefl _ (h.whose _ he)
      whose := fun t ht => Nat.lt_succ_of_lt (h.whose t ht)
      timers
      runs
      firm := fun t r ht => by
        rw [jobs] at ht
        split at ht
        · next hnext =>
          obtain rfl := Option.some.inj ht
          exact hnext ▸ Loop.alive_create_self fresh _
        · next hne => exact (Loop.alive_create_of_ne fresh hne).mpr (h.firm t r ht)
      jobs := fun t ht => by
        rw [jobs] at ht
        split at ht
        · exact goesOn (Option.some.inj ht)
        · exact h.jobs t ht
      hooks := fun r sig hr => by
        rw [Loop.pending_create, if_neg nofun, Nat.add_zero] at hr
        refine (h.hooks r sig hr).imp_right fun ⟨t, hs, ht⟩ => ⟨t, hs, ?_⟩
        rw [jobs, if_neg (Nat.ne_of_lt (fresh.lt_of_jobOf ht)), ht]
      waiters := h.waiters
      feasible := fun y hy => h.feasible y (fewer y hy) }

/-- The end of a run's task is to be followed by a hook.  By the hook its entry in the table is
forgotten. -/
theorem hook (h : Tended own todo Q live l) (hjob : l.jobOf t = some (.run r)) :
    Tended own todo Q live (l.follow (.ended t) (.hook r)) ∧
      NoNewWait l (l.follow (.ended t) (.hook r)) := by
  have same : Loop.SameTasks l (l.follow (.ended t) (.hook r)) := .follow (.refl l) _ _
  have jobs := same.sameJobs.jobs
  have next := Nat.le_of_eq same.next.symm
  have nextTicket : (l.follow (.ended t) (.hook r)).nextTicket = l.nextTicket :=
    Loop.nextTicket_follow ..
  refine ⟨?_, .follow _ _ _⟩
  exact
    { machine := h.machine
      loop := h.loop.hook _ _
      whose := fun u hu => Nat.lt_of_lt_of_le (h.whose u hu) next
      timers := h.timers.congr jobs (fun _ _ => Loop.alive_follow ..) next
      runs := h.runs.congr jobs (fun _ _ => Loop.alive_follow ..) next
      firm := fun u q hu => (Loop.alive_follow ..).mpr (h.firm u q ((jobs u).symm.trans hu))
      jobs := fun u hu => h.jobs u ((jobs u).symm.trans hu)
      hooks := fun q sig hq => by
        rw [Loop.pending_follow] at hq
        by_cases new : q = r ∧ sig = .ended t
        · obtain ⟨rfl, rfl⟩ := new
          exact .inr ⟨t, rfl, (jobs t).trans hjob⟩
        · have other : Ready.follow (.hook q) sig ≠ .follow (.hook r) (.ended t) := fun he => by
            obtain ⟨hq', hsig⟩ := Ready.follow.inj he
            exact new ⟨Follower.hook.inj hq', hsig⟩
          rw [if_neg other, Nat.add_zero] at hq
          exact h.hooks_of_jobs jobs hq
      waiters := fun n hn => nextTicket ▸ h.waiters n hn
      feasible := fun y hy => (h.feasible y hy).mono (Nat.le_of_eq nextTicket.symm) }

/-- The task of a timer is created. -/
theorem startTimer (h : Tended own (.armTimer x :: todo) Q live l) :
    Tended own todo Q { live with timerTasks := Assoc.set x l.nextTask live.timerTasks }
        (l.create (.timer x)).1 ∧ NoNewWait l (l.create (.timer x)).1 :=
  h.create nofun (h.timers.create timer_injective h.loop.fresh)
    (h.runs.create_other h.loop.fresh fun _ => nofun) fun _ => List.mem_cons_of_mem _

/-- The task of a run is created. -/
theorem startRun (h : Tended own (.startRun r :: todo) Q live l) :
    Tended own todo Q { live with runTasks := Assoc.set r l.nextTask live.runTasks }
        ((l.create (.run r)).1.follow (.ended l.nextTask) (.hook r)) ∧
      NoNewWait l ((l.create (.run r)).1.follow (.ended l.nextTask) (.hook r)) := by
  have fresh := h.loop.fresh
  obtain ⟨created, kept⟩ :
    Tended own todo Q { live with runTasks := Assoc.set r l.nextTask live.runTasks }
      (l.create (.run r)).1 ∧ NoNewWait l (l.create (.run r)).1 :=
    h.create nofun (h.timers.create_other fresh fun _ => nofun) (h.runs.create run_injective fresh)
      fun _ => List.mem_cons_of_mem _
  obtain ⟨hooked, kept'⟩ := created.hook ((fresh.jobOf_create _ _).trans (if_pos rfl))
  exact ⟨hooked, kept.trans kept'⟩

/-- A task that is not that of a run is cancelled. -/
theorem cancel {todo' : List Effect} (h : Tended own todo Q live l)
    (other : ∀ r, l.jobOf t ≠ some (.run r))
    (timers : (l.cancel t).1.Manned Job.timer live.timerTasks (Ticking live) live.machine.nextTimer
      (armedTimers todo') (cancelledTimers todo') own)
    (started : startedRuns todo' = startedRuns todo) (fewer : ∀ y ∈ todo', y ∈ todo) :
    Tended own todo' Q live (l.cancel t).1 ∧ NoNewWait l (l.cancel t).1 := by
  have mild := Loop.mild_cancel l t
  have still : Loop.Still l (l.cancel t).1 := mild.still fun s e hnew => hnew.2.1
  refine ⟨?_, .of_still still⟩
  exact
    { machine := h.machine
      loop := h.loop.cancel t
      whose := fun u hu => still.next ▸ h.whose u hu
      timers := timers
      runs := started ▸ h.runs.cancel_other h.loop other
      firm := fun u r hu => by
        rw [still.jobs] at hu
        refine (h.loop.alive_cancel_of_ne ?_).mpr (h.firm u r hu)
        rintro rfl
        exact other r hu
      jobs := fun u => by
        rw [still.jobs]
        exact h.jobs u
      hooks := fun r sig hr => h.hooks_of_jobs still.jobs (by rwa [← still.pending_follow])
      waiters := fun n hn => Nat.lt_of_lt_of_le (h.waiters n hn) mild.nextTicket
      feasible := fun y hy => (h.feasible y (fewer y hy)).mono mild.nextTicket }

/-- The task of a timer is cancelled. -/
theorem cancelTimer (h : Tended own (.cancelTimer x :: todo) Q live l)
    (ht : Assoc.get? x live.timerTasks = some t) :
    Tended own todo Q live (l.cancel t).1 ∧ NoNewWait l (l.cancel t).1 :=
  h.cancel (fun r hr => by cases (h.timers.known x t ht).2 _ hr)
    (h.timers.cancel_of_some timer_injective h.loop ht) rfl fun _ => List.mem_cons_of_mem _

/-- There is nothing to be done for an effect that neither starts nor cancels anything that has a
task. -/
theorem skip {y : Effect} (h : Tended own (y :: todo) Q live l)
    (cancelled : ∀ x, y = .cancelTimer x → Assoc.get? x live.timerTasks = none)
    (armed : ∀ x, y ≠ .armTimer x) (started : ∀ r, y ≠ .startRun r) : Tended own todo Q live l := by
  have feasible : ∀ z ∈ todo, Feasible l z := fun z hz => h.feasible z (List.mem_cons_of_mem _ hz)
  cases y with
  | armTimer x => exact absurd rfl (armed x)
  | startRun r => exact absurd rfl (started r)
  | cancelTimer x => exact { h with timers := h.timers.cancel_of_none (cancelled x rfl), feasible }
  | cancelRun | wake | closed => exact { h with feasible }

/-- Those go on who have waited for a document to become idle. -/
theorem wake {tickets : List Nat} (h : Tended own todo Q s.scheduler s.loop)
    (given : ∀ n ∈ tickets, n < s.loop.nextTicket) :
    let s' := tickets.foldl (fun s n => HasLoop.update s fun l => l.raise (.ticket n) (.value ())) s
    Tended own todo Q s'.scheduler s'.loop ∧ NoNewWait s.loop s'.loop := by
  induction tickets generalizing s with
  | nil => exact ⟨h, .refl _⟩
  | cons n rest ih =>
    obtain ⟨raised, kept⟩ := h.raise (given n List.mem_cons_self)
    obtain ⟨tended, kept'⟩ :=
      ih (s := HasLoop.update s fun l => l.raise (.ticket n) (.value ())) raised
      fun n' hn' => (Loop.nextTicket_raise s.loop (.ticket n) _).symm ▸
        given n' (List.mem_cons_of_mem _ hn')
    exact ⟨tended, kept.trans kept'⟩

/-- Carrying out one effect.  The cases are those of `Effect`; each is one of the lemmas above. -/
theorem carryOut {y : Effect} (h : Tended own (y :: todo) Q s.scheduler s.loop) :
    Tended own todo Q (Scheduler.carryOut s y).scheduler (Scheduler.carryOut s y).loop ∧
      NoNewWait s.loop (Scheduler.carryOut s y).loop := by
  cases y with
  | armTimer x => exact h.startTimer
  | cancelTimer x =>
    change Tended own todo Q
      (Scheduler.cancelTask s (Assoc.get? x s.scheduler.timerTasks)).scheduler
      (Scheduler.cancelTask s (Assoc.get? x s.scheduler.timerTasks)).loop ∧ NoNewWait s.loop
        (Scheduler.cancelTask s (Assoc.get? x s.scheduler.timerTasks)).loop
    cases ht : Assoc.get? x s.scheduler.timerTasks with
    | none =>
      refine ⟨h.skip (fun x' he => ?_) nofun nofun, .refl _⟩
      rwa [← Effect.cancelTimer.inj he]
    | some t => exact h.cancelTimer ht
  | startRun r => exact h.startRun
  | cancelRun r => exact (h.feasible _ List.mem_cons_self).elim
  | wake tickets => exact (h.skip nofun nofun nofun).wake (h.feasible _ List.mem_cons_self)
  | closed uri =>
    have skipped := h.skip nofun nofun nofun
    change Tended own todo Q (if s.watchesClosing then s.note (.closed uri) else s).scheduler
      (if s.watchesClosing then s.note (.closed uri) else s).loop ∧
        NoNewWait s.loop (if s.watchesClosing then s.note (.closed uri) else s).loop
    split <;> exact ⟨skipped, .refl _⟩

theorem carryOutAll {out : List Effect} (h : Tended own out Q s.scheduler s.loop) :
    Tended own [] Q (out.foldl Scheduler.carryOut s).scheduler
      (out.foldl Scheduler.carryOut s).loop ∧
      NoNewWait s.loop (out.foldl Scheduler.carryOut s).loop := by
  induction out generalizing s with
  | nil => exact ⟨h, .refl _⟩
  | cons y rest ih =>
    obtain ⟨tended, kept⟩ := h.carryOut
    obtain ⟨tended', kept'⟩ := ih tended
    exact ⟨tended', kept.trans kept'⟩

end Tended

/-! ## Events -/

/-- What may happen in the turn of a task, or between turns: anything but a stop.  A timer fires and
a run ends in the turn of its task, and a run is dropped only if it is over.  What the scheduler is
told by its own tasks is told by the task concerned, and that is the one whose turn it is. -/
def InTurn (own : Option Nat) (live : Live) (l : Tasks) : Event → Prop
  | .fired x => ∀ t, own ≠ some t → ¬ l.Alive t (.timer x)
  | .ended r => ∀ t, own ≠ some t → ¬ l.Alive t (.run r)
  | .dropped r => Assoc.get? r live.machine.runs = none
  | .stop => False
  | _ => True

theorem InTurn.ne_stop (h : InTurn own live l e) : e ≠ .stop := by
  rintro rfl
  exact h

theorem InTurn.allowed (h : InTurn own live l e) : e.Allowed anyhow live.machine := by
  cases e with
  | dropped r => exact fun hne => absurd h hne
  | ended => exact fun _ _ => trivial
  | stop => exact h
  | change | opened | save | close | fired => trivial

/-- An editor may do anything at any time. -/
theorem Edit.inTurn (edit : Edit) (own : Option Nat) (live : Live) (l : Tasks) :
    InTurn own live l edit.event := by
  cases edit <;> trivial

namespace Tended

/-- Deciding on an event.  The effects are still to be carried out. -/
theorem decide (h : Tended own [] Q live l) (inTurn : InTurn own live l e) :
    Tended own (live.machine.step e).2 Q { live with machine := (live.machine.step e).1 } l := by
  have he := inTurn.ne_stop
  obtain ⟨gone, new, rearms⟩ := h.machine.rearms_step he
  have starts := Scheduler.starts_step live.machine he
  have wakes := Scheduler.wakes_step live.machine e
  -- Timers and runs are treated alike: what the machine has after the step it had before, or it is
  -- new and about to be begun.
  have timers : l.Manned Job.timer live.timerTasks
      (fun x => Assoc.get? x (live.machine.step e).1.timers ≠ none)
        (live.machine.step e).1.nextTimer
      (armedTimers (live.machine.step e).2) (cancelledTimers (live.machine.step e).2) own := by
    refine h.timers.decide (fun x hx => ?_) (fun x hx => ?_) (fun x hx => ?_) rearms.nodup_armed
      (fun x hx hne => ?_) (Scheduler.nextTimer_rung live.machine e ▸ rearms.next_le)
    · rcases Scheduler.timers_rung (e := e) hx with rung | rfl
      · exact (rearms.kept_or_cancelled rung).imp_right .inl
      · exact .inr (.inr inTurn)
    · exact (rearms.known_or_armed hx).imp_left Scheduler.timers_of_rung
    · obtain ⟨rfl, lt, hne⟩ := rearms.mem_armed hx
      exact ⟨hne, Nat.le_of_eq (Scheduler.nextTimer_rung live.machine e).symm, lt⟩
    · exact hne (rearms.get?_cancelled (h.machine.tidy.rung e) hx)
  have runs :
      l.Manned Job.run live.runTasks (fun r => Assoc.get? r (live.machine.step e).1.runs ≠ none)
      (live.machine.step e).1.nextRun (startedRuns (live.machine.step e).2) [] own := by
    refine h.runs.decide (fun r hr => ?_) (fun r hr => ?_) (fun r hr => ?_) starts.nodup nofun
      (Scheduler.nextRun_before live.machine e ▸ starts.next_le)
    · rcases Scheduler.runs_before (e := e) hr with before | rfl | rfl
      · obtain ⟨run, hrun⟩ := Option.ne_none_iff_exists'.mp before
        exact .inl (by rw [starts.get?_of hrun]; nofun)
      · exact .inr (.inr inTurn)
      · exact absurd inTurn hr
    · obtain ⟨run, hrun⟩ := Option.ne_none_iff_exists'.mp hr
      refine (starts.known_or_started hrun).imp_left fun before => ?_
      exact Scheduler.runs_of_before (e := e) (by rw [before]; nofun)
    · obtain ⟨ge, lt, hne⟩ := starts.started hr
      exact ⟨hne, Scheduler.nextRun_before live.machine e ▸ ge, lt⟩
  exact
    { machine := h.machine.step inTurn.allowed
      loop := h.loop
      whose := h.whose
      timers := timers
      runs := runs
      firm := h.firm
      jobs := h.jobs
      hooks := fun r sig hr => (h.hooks r sig hr).imp_left
        (over_decided (s := { scheduler := live }) he)
      waiters := fun n hn => h.waiters n (wakes.waiters n hn)
      feasible := fun y hy => by
        cases y with
        | cancelRun r =>
          rcases Scheduler.plain_step live.machine he _ hy with plain | ⟨_, -, hc⟩
          · exact plain
          · cases hc
        | wake tickets => exact fun n hn => h.waiters n (wakes.woken _ hy n hn)
        | armTimer | cancelTimer | startRun | closed => trivial }

/-- Whatever happens to the scheduler, timers and runs have their tasks again once that is carried
out.  This is `decide` followed by `carryOutAll`, and the form in which events are used from here
on. -/
theorem tell (h : Tended own [] Q s.scheduler s.loop) (inTurn : InTurn own s.scheduler s.loop e) :
    Tended own [] Q (Scheduler.tell s e).scheduler (Scheduler.tell s e).loop ∧
      NoNewWait s.loop (Scheduler.tell s e).loop :=
  carryOutAll (s := decided s e) (h.decide inTurn)

/-- The tasks of timers that are over are forgotten. -/
theorem forgetTimers (h : Tended own [] Q s.scheduler s.loop) :
    Tended own [] Q (Scheduler.forgetTimers s).scheduler (Scheduler.forgetTimers s).loop := by
  have left (x : Nat) : Assoc.get? x (Scheduler.forgetTimers s).scheduler.timerTasks =
      if Assoc.has x s.machine.timers then Assoc.get? x s.scheduler.timerTasks else none :=
    Assoc.get?_filter (fun x => Assoc.has x s.machine.timers) x s.scheduler.timerTasks
  refine { h with timers := h.timers.forget (fun x hx => ?_) fun x t ht => ?_ }
  · exact (left x).trans (if_pos (Option.isSome_iff_ne_none.mpr hx))
  · rw [left] at ht
    split at ht
    · exact ht
    · cases ht

/-- The hook of a run that is over forgets its task. -/
theorem afterRunTask (h : Tended own [] Q s.scheduler s.loop)
    (past : Assoc.get? r s.machine.runs = none) :
    Tended own [] Q (Scheduler.afterRunTask r s).scheduler (Scheduler.afterRunTask r s).loop := by
  have told := (h.tell (e := .dropped r) past).1
  refine { told with
    runs := told.runs.forget (fun q hq => ?_) fun q t ht => (Assoc.of_get?_erase ht).2 }
  refine Assoc.get?_erase_of_ne ?_ _
  rintro rfl
  exact hq (Assoc.get?_erase_self ..)

/-- Somebody starts to wait for a slot with a new ticket.  The ticket is the next one of the
loop. -/
theorem awaitIdle (h : Tended own [] Q live l) (id : Nat) :
    Tended own [] Q { live with machine := live.machine.awaitIdle id l.nextTicket }
      l.newTicket.1 := by
  have ticketed := h.aside (.newTicket l)
  have machine := h.machine.awaitIdle id l.nextTicket
  have waiters (n : Nat) (hn : (live.machine.awaitIdle id l.nextTicket).Awaits n) :
      n < l.nextTicket + 1 := by
    rcases Scheduler.awaits_awaitIdle hn with hn | rfl
    · exact Nat.lt_succ_of_lt (h.waiters n hn)
    · exact Nat.lt_succ_self _
  obtain ⟨slots, eq⟩ := Scheduler.awaitIdle_eq live.machine id l.nextTicket
  rw [eq] at machine waiters ⊢
  exact { ticketed with machine, waiters }

/-! ## Callers that wait -/

/-- Somebody comes who waits for documents to become idle. -/
theorem launch (h : Tended own todo Q live l) (visits : job.Visits) :
    Tended own todo Q live (l.create job).1 ∧ NoNewWait l (l.create job).1 := by
  have other {k : Job} (foreign : ¬ k.Visits) : job ≠ k := fun he => foreign (he ▸ visits)
  exact h.create (other id) (h.timers.create_other h.loop.fresh fun x => (other id).symm)
    (h.runs.create_other h.loop.fresh fun r => (other id).symm) fun _ hy => hy

/-- Somebody waits no longer. -/
theorem giveUp (h : Tended own todo Q live l) (ht : l.jobOf t = some job) (visits : job.Visits) :
    Tended own todo Q live (l.cancel t).1 ∧ NoNewWait l (l.cancel t).1 := by
  have other {k : Job} (foreign : ¬ k.Visits) : l.jobOf t ≠ some k := fun hk =>
    foreign (Option.some.inj (ht.symm.trans hk) ▸ visits)
  exact h.cancel (fun r => other id) (h.timers.cancel_other h.loop fun x => other id) rfl
    fun _ hy => hy

/-! ## Turns -/

/-- It is the turn of a task that is to begin. -/
theorem begin (h : Tended none [] (.start t ::ₘ Q) live l) : Tended (some t) [] Q live l :=
  { h.drop with
    loop := h.loop.begin
    whose := fun u hu => by
      obtain rfl := Option.some.inj hu
      exact (h.loop.starts t (by rw [Loop.pending_cons, if_pos rfl]; omega)).1
    timers := h.timers.weaken _
    runs := h.runs.weaken _ }

/-- It is the turn of a task that has waited. -/
theorem goOn {sig : Signal} (h : Tended none [] (.follow (.resume t) sig ::ₘ Q) live l)
    (hst : l.task? t = some st) :
    Tended (some t) [] Q live (l.setTask t { st with waiting := none, mustCancel := false }) := by
  have jobs : Loop.SameJobs l (l.setTask t { st with waiting := none, mustCancel := false }) :=
    .setTask (.refl l) (show l.jobOf t = some st.job from Loop.jobOf_of_task? hst)
  exact
    { machine := h.machine
      loop := (h.loop.wake hst).2
      whose := fun u hu => by
        obtain rfl := Option.some.inj hu
        exact h.loop.fresh.lt_of_jobOf (Loop.jobOf_of_task? hst)
      timers := h.timers.wake hst
      runs := h.runs.wake hst
      firm := fun u r hu => by
        rw [jobs.jobs] at hu
        by_cases self : u = t
        · subst self
          exact (Loop.alive_wake_self l u st).mpr
            (Option.some.inj ((Loop.jobOf_of_task? hst).symm.trans hu))
        · exact (Loop.alive_setTask_of_ne self).mpr (h.firm u r hu)
      jobs := fun u => by
        rw [jobs.jobs]
        exact h.jobs u
      hooks := fun r s hr => by
        rw [Loop.pending_setTask] at hr
        exact h.drop.hooks_of_jobs jobs.jobs hr
      waiters := h.waiters
      feasible := nofun }

/-- The task whose turn it is falls asleep. -/
theorem suspend (h : Tended (some t) [] Q live l) (hst : l.task? t = some st)
    (unmarked : st.mustCancel = false)
    (lt : n < l.nextTicket) (free : ∀ u, l.waitingOn u ≠ some (.ticket n))
    (unraised : l.ending? (.ticket n) = none)
    (timer : ∀ x, l.Alive t (.timer x) → Assoc.get? x live.timerTasks = some t ∧ Ticking live x)
    (run : ∀ r, l.Alive t (.run r) → Assoc.get? r live.runTasks = some t ∧ Ongoing live r) :
    Tended none [] Q live (Machine.suspend l t (.ticket n)) := by
  have jobs := Loop.sameJobs_suspend l t (.ticket n)
  -- Nobody ceases to be alive by it: the task is not marked, and its ticket has not been raised.
  have alive (u : Nat) (job : Job) : (Machine.suspend l t (.ticket n)).Alive u job ↔
    l.Alive u job :=
    h.loop.alive_suspend hst unmarked unraised
  have next := jobs.evolves.next
  exact
    { machine := h.machine
      loop := h.loop.suspend hst unmarked lt free
      whose := nofun
      timers := (h.timers.settle fun x hx => ⟨(timer x hx).1, .inl (timer x hx).2⟩).congr jobs.jobs
        (fun u x => alive u _) next
      runs := (h.runs.settle fun r hr => ⟨(run r hr).1, .inl (run r hr).2⟩).congr jobs.jobs
        (fun u r => alive u _) next
      firm := fun u r hu => (alive u _).mpr (h.firm u r (by rwa [← jobs.jobs]))
      jobs := fun u => by
        rw [jobs.jobs]
        exact h.jobs u
      hooks := fun r sig hr => by
        have other : Ready.follow (.hook r) sig ≠ .follow (.resume t) (.ticket n) := nofun
        rw [Loop.suspend_of_unmarked hst unmarked, Loop.pending_asleep,
          if_neg other, Nat.add_zero] at hr
        exact h.hooks_of_jobs jobs.jobs hr
      waiters := fun m hm => by
        rw [Loop.suspend_of_unmarked hst unmarked, Loop.nextTicket_asleep]
        exact h.waiters m hm
      feasible := nofun }

/-- The task whose turn it is ends.  Its timer, or its run, is over. -/
theorem finish (h : Tended (some t) [] Q live l)
    (timer : ∀ x, l.jobOf t = some (.timer x) → Ticking live x →
      Assoc.get? x live.timerTasks ≠ some t)
    (run : ∀ r, l.jobOf t = some (.run r) → ¬ Ongoing live r) (e : Ending Unit Unit) :
    Tended none [] Q live (l.finish t e) := by
  -- A timer that ticks has its task alive, so that the task which ends is another.
  have freeTimer (x : Nat) (hx : Ticking live x) : Assoc.get? x live.timerTasks ≠ some t := by
    intro ht
    obtain ⟨u, hu, living⟩ := (h.timers.alive x hx).resolve_left List.not_mem_nil
    obtain rfl := Option.some.inj (ht.symm.trans hu)
    exact timer x living.jobOf hx ht
  have freeRun (r : Nat) (hr : Ongoing live r) : Assoc.get? r live.runTasks ≠ some t := by
    intro ht
    obtain ⟨u, hu, living⟩ := (h.runs.alive r hr).resolve_left List.not_mem_nil
    obtain rfl := Option.some.inj (ht.symm.trans hu)
    exact run r living.jobOf hr
  exact
    { machine := h.machine
      loop := h.loop.finish (h.whose t rfl) (h.loop.turn t rfl) e
      whose := nofun
      timers := h.timers.finish h.loop freeTimer e
      runs := h.runs.finish h.loop freeRun e
      firm := fun u r hu => (h.loop.alive_finish e).mpr
        ⟨(Loop.of_jobOf_finish hu).1, h.firm u r (Loop.of_jobOf_finish hu).2⟩
      jobs := fun u hu => h.jobs u (Loop.of_jobOf_finish hu).2
      hooks := fun r sig hr => by
        rw [Loop.pending_finish] at hr
        rcases h.hooks r sig hr with past | ⟨u, hs, hu⟩
        · exact .inl past
        · by_cases self : u = t
          · subst self
            exact .inl ⟨h.runs.born u r hu, not_not.mp (run r hu)⟩
          · exact .inr ⟨u, hs, (Loop.jobOf_finish ..).trans ((if_neg self).trans hu)⟩
      waiters := fun n hn => by
        rw [Loop.nextTicket_finish]
        exact h.waiters n hn
      feasible := nofun }

/-- A task falls asleep as soon as it has begun.  It has not come to do anything yet, so its entry
in a table is all there is to keep. -/
theorem nap (h : Tended none [] (.start t ::ₘ Q) live l) (hst : l.task? t = some st)
    (unmarked : st.mustCancel = false) (d : Duration) : Tended none [] Q live (napping l t d) := by
  have set : Loop.Aside l (lying { l with current := t } d) :=
    (Loop.Aside.turnTo l t).trans (.sleep _ d)
  refine (h.begin.aside set).suspend (by rwa [set.task?]) unmarked
    (Nat.lt_succ_self _) (fun u hu => ?_) ?_
    (fun x hx => ?_) fun r hr => ?_
  · rw [set.waitingOn] at hu
    obtain ⟨n, hn, lt⟩ := h.loop.waits u _ hu
    exact Nat.lt_irrefl _ (Signal.ticket.inj hn ▸ lt)
  · rw [set.ending?]
    exact h.loop.unraised (Nat.le_refl _)
  · obtain ⟨hx, old⟩ := h.timers.attached t x nofun (set.alive.mp hx)
    exact ⟨hx, old.resolve_right List.not_mem_nil⟩
  · obtain ⟨hr, old⟩ := h.runs.attached t r nofun (set.alive.mp hr)
    exact ⟨hr, old.resolve_right List.not_mem_nil⟩

end Tended

end PikeAnalysis.Simulation.Scheduling
