import PikeAnalysis.Proofs.Concurrency.Tasks
import PikeAnalysis.Simulation.Scheduling

/-!
# The loop of a rehearsal

What the loop of a rehearsal looks like while nothing but timers and runs are among its tasks.
Tasks wait for tickets only, the task of a run is never cancelled, and the end of a run's task is
followed by its hook and nothing else.  `Books` is kept by every operation of the loop that a
rehearsal makes use of.

These are facts about bookkeeping that hold of every rehearsal in which documents are only edited,
and they are what lets the later modules forget about kinds of signals: a follower is a task that
goes on or the hook of a run, what is ready is the beginning of a task, such a follower or a timer,
and a ticket is the only thing anybody waits for.  `Due` is the one condition that depends on the
scheduler, and it enters as a parameter: the hook of a run may be ready only if the run is gone.
-/

namespace PikeAnalysis.Simulation.Scheduling

open PikeAnalysis.Concurrency

/-- The loop of a rehearsal. -/
abbrev Tasks := Loop Job Nat Unit Unit

/-- A task of a timer or of a run, the latter not cancelled.  All that it ever waits for is a
ticket. -/
structure Fits (st : TaskState Job) : Prop where
  kind : (∃ id, st.job = .timer id) ∨ ∃ r, st.job = .run r
  unmarked : ∀ r, st.job = .run r → st.mustCancel = false
  waits : ∀ s, st.waiting = some s → ∃ n, s = .ticket n

/-- What may follow a signal: a task goes on, or a run is over with its task. -/
def Expected (l : Tasks) (s : Signal) : Follower Nat → Prop
  | .resume _ => True
  | .hook r => ∃ t, s = .ended t ∧ l.jobOf t = some (.run r)
  | _ => False

/-- What may be ready; the hook of a run only if the run is gone. -/
def Due (gone : Nat → Prop) : Ready Nat → Prop
  | .follow (.hook r) _ => gone r
  | .follow (.relay _) _ | .follow (.part _) _ => False
  | _ => True

/-- The books that the loop of a rehearsal keeps.  They are the same whether or not it is the turn
of a task. -/
structure Books (gone : Nat → Prop) (l : Tasks) : Prop where
  fresh : l.Fresh
  fits : ∀ t st, l.task? t = some st → Fits st
  unique : ∀ t u r, l.jobOf t = some (.run r) → l.jobOf u = some (.run r) → t = u
  ended : ∀ t, l.isEnded t = true → t < l.nextTask
  followers : ∀ s, ∀ f ∈ (l.signalState s).followers, Expected l s f
  spent : ∀ s, (l.signalState s).ending ≠ none → (l.signalState s).followers = []
  ready : ∀ i ∈ l.ready, Due gone i
  live : ∀ e ∈ l.live, ∃ n, e.2 = .raise (.ticket n)

variable {gone gone' : Nat → Prop} {l m : Tasks} {t : Nat} {st : TaskState Job} {job : Job}

theorem Due.mono {i : Ready Nat} (h : Due gone i) (le : ∀ r, gone r → gone' r) : Due gone' i := by
  cases i with
  | start t => trivial
  | timer id => trivial
  | follow f s =>
    cases f with
    | hook r => exact le r h
    | resume t => trivial
    | relay s => exact h.elim
    | part n => exact h.elim

theorem Expected.congr {s : Signal} {f : Follower Nat} (h : Expected l s f)
    (jobs : ∀ t r, s = .ended t → l.jobOf t = some (.run r) → m.jobOf t = some (.run r)) :
    Expected m s f := by
  cases f with
  | resume t => trivial
  | hook r =>
    obtain ⟨t, hs, hjob⟩ := h
    exact ⟨t, hs, jobs t r hs hjob⟩
  | relay s => exact h.elim
  | part n => exact h.elim

namespace Books

theorem mono (h : Books gone l) (le : ∀ r, gone r → gone' r) : Books gone' l :=
  { h with ready := fun i hi => (h.ready i hi).mono le }

theorem jobs (h : Books gone l) (hjob : l.jobOf t = some job) :
    (∃ id, job = .timer id) ∨ ∃ r, job = .run r := by
  obtain ⟨st, hst, rfl⟩ := Loop.task?_of_jobOf hjob
  exact (h.fits t st hst).kind

/-! ## Signals -/

/-- A change to what is ready, to the timers or to the clock. -/
theorem alike (h : Books gone l) (tasks : m.tasks = l.tasks) (next : m.nextTask = l.nextTask)
    (signals : m.signals = l.signals) (ready : ∀ i ∈ m.ready, i ∈ l.ready ∨ Due gone i)
    (live : ∀ e ∈ m.live, e ∈ l.live ∨ ∃ n, e.2 = .raise (.ticket n)) : Books gone m := by
  have htask : ∀ t, m.task? t = l.task? t := fun t => by rw [Loop.task?, Loop.task?, tasks]
  have hjobs : ∀ t, m.jobOf t = l.jobOf t := fun t => by rw [Loop.jobOf, Loop.jobOf, htask]
  have hstate : ∀ s, m.signalState s = l.signalState s := fun s => by
    rw [Loop.signalState, Loop.signalState, signals]
  refine
    { fresh := fun t ht => ?_
      fits := fun t st hst => h.fits t st (by rwa [← htask t])
      unique := fun t u r ht hu => ?_
      ended := fun t ht => ?_
      followers := fun s f hf => ?_
      spent := fun s hs => ?_
      ready := fun i hi => (ready i hi).elim (h.ready i) id
      live := fun e he => (live e he).elim (h.live e) id }
  · rw [next]
    exact h.fresh t (by rwa [← hjobs])
  · rw [hjobs] at ht hu
    exact h.unique t u r ht hu
  · rw [next]
    exact h.ended t (by rwa [Loop.isEnded, Loop.ending?, ← hstate])
  · rw [hstate] at hf
    exact (h.followers s f hf).congr fun t r _ hr => by rwa [hjobs]
  · rw [hstate] at hs ⊢
    exact h.spent s hs

theorem raise (h : Books gone l) (n : Nat) (e : Ending Unit Unit) :
    Books gone (l.raise (.ticket n) e) := by
  have same : Loop.SameTasks l (l.raise (.ticket n) e) := Loop.SameTasks.raise (.refl l) _ _
  refine
    { fresh := same.evolves.fresh h.fresh
      fits := fun t st hst => h.fits t st (by rwa [← same.task? t])
      unique := fun t u r ht hu => ?_
      ended := fun t ht => ?_
      followers := fun s f hf => ?_
      spent := fun s hs => ?_
      ready := fun i hi => ?_
      live := by rw [Loop.live_raise]; exact h.live }
  · rw [same.sameJobs.jobs] at ht hu
    exact h.unique t u r ht hu
  · rw [Loop.isEnded, Loop.ending?, Loop.signalState_raise, if_neg (by simp)] at ht
    rw [same.next]
    exact h.ended t ht
  · rw [Loop.signalState_raise] at hf
    split at hf
    · simp at hf
    · exact (h.followers s f hf).congr fun t r _ hr => by rwa [same.sameJobs.jobs]
  · rw [Loop.signalState_raise] at hs ⊢
    split
    · rfl
    · next hne =>
      rw [if_neg hne] at hs
      exact h.spent s hs
  · rcases Loop.mem_ready_raise hi with hi | ⟨f, hf, rfl⟩
    · exact h.ready i hi
    · -- A hook follows the end of a task, and what is raised is a ticket.
      have hf := h.followers _ f hf
      cases f with
      | resume t => trivial
      | hook r =>
        obtain ⟨t, ht, -⟩ := hf
        cases ht
      | relay s => exact hf.elim
      | part n => exact hf.elim

theorem follow (h : Books gone l) {s : Signal} {f : Follower Nat} (hf : Expected l s f)
    (hdue : (l.signalState s).ending ≠ none → Due gone (.follow f s)) :
    Books gone (l.follow s f) := by
  have same : Loop.SameTasks l (l.follow s f) := Loop.SameTasks.follow (.refl l) _ _
  -- The jobs of the tasks are as before, and with them what is expected of followers.
  have hkept : ∀ s' f', Expected l s' f' → Expected (l.follow s f) s' f' :=
    fun s' f' he => he.congr fun t r _ hr => by rwa [same.sameJobs.jobs]
  refine
    { fresh := same.evolves.fresh h.fresh
      fits := fun t st hst => h.fits t st (by rwa [← same.task? t])
      unique := fun t u r ht hu => ?_
      ended := fun t ht => ?_
      followers := fun s' f' hf' => ?_
      spent := fun s' hs' => ?_
      ready := fun i hi => ?_
      live := by rw [Loop.live_follow]; exact h.live }
  · rw [same.sameJobs.jobs] at ht hu
    exact h.unique t u r ht hu
  · rw [same.next]
    refine h.ended t ?_
    rw [Loop.isEnded, Loop.ending?, Loop.signalState_follow] at ht
    split at ht
    · cases ht
    · exact ht
  · rw [Loop.signalState_follow] at hf'
    split at hf'
    · next hs' =>
      rcases List.mem_append.mp hf' with hf' | hf'
      · exact hkept s' f' (hs'.1 ▸ h.followers s f' hf')
      · rw [List.mem_singleton.mp hf', hs'.1]
        exact hkept s f hf
    · exact hkept s' f' (h.followers s' f' hf')
  · rw [Loop.signalState_follow] at hs' ⊢
    split
    · next hne =>
      rw [if_pos hne] at hs'
      exact absurd rfl hs'
    · next hne =>
      rw [if_neg hne] at hs'
      exact h.spent s' hs'
  · rcases Loop.mem_ready_follow hi with hi | ⟨hending, rfl⟩
    · exact h.ready i hi
    · exact hdue hending

/-! ## Tasks -/

theorem setTask (h : Books gone l) {w : TaskState Job} (hjob : l.jobOf t = some w.job)
    (hw : Fits w) : Books gone (l.setTask t w) := by
  have same : Loop.SameJobs l (l.setTask t w) := Loop.SameJobs.setTask (.refl l) hjob
  refine
    { fresh := same.evolves.fresh h.fresh
      fits := fun u su hu => ?_
      unique := fun u v r hu hv => ?_
      ended := h.ended
      followers := fun s f hf => (h.followers s f hf).congr fun u r _ hr => by rwa [same.jobs]
      spent := h.spent
      ready := h.ready
      live := h.live }
  · rw [Loop.task?_setTask] at hu
    split at hu
    · rwa [← Option.some.inj hu]
    · exact h.fits u su hu
  · rw [same.jobs] at hu hv
    exact h.unique u v r hu hv

theorem create (h : Books gone l) (kind : (∃ id, job = .timer id) ∨ ∃ r, job = .run r)
    (new : ∀ t r, job = .run r → l.jobOf t ≠ some (.run r)) : Books gone (l.create job).1 := by
  have htask := Loop.task?_create l job h.fresh.task?_next
  have hjob := h.fresh.jobOf_create job
  refine
    { fresh := (Loop.evolves_create l job).fresh h.fresh
      fits := fun u su hu => ?_
      unique := fun u v r hu hv => ?_
      ended := fun u hu => Nat.lt_succ_of_lt (h.ended u hu)
      followers := fun s f hf => (h.followers s f hf).congr fun u r _ hr => ?_
      spent := h.spent
      ready := fun i hi => ?_
      live := h.live }
  · rw [htask] at hu
    split at hu
    · rw [← Option.some.inj hu]
      exact ⟨kind, fun _ _ => rfl, nofun⟩
    · exact h.fits u su hu
  · -- Two tasks with one run are the same, since the run of the new task is nobody else's.
    rw [hjob] at hu hv
    split at hu <;> split at hv
    · next hu' hv' => rw [hu', hv']
    · exact absurd hv (new v r (Option.some.inj hu))
    · exact absurd hu (new u r (Option.some.inj hv))
    · exact h.unique u v r hu hv
  · rw [hjob, if_neg, hr]
    exact Nat.ne_of_lt (h.fresh u (by simp [hr]))
  · rcases List.mem_append.mp hi with hi | hi
    · exact h.ready i hi
    · rw [List.mem_singleton.mp hi]
      trivial

/-- A task may end once its run is gone.  It is the end of the task by which its hook becomes
due. -/
theorem finish (h : Books gone l) (hgone : ∀ r, l.jobOf t = some (.run r) → gone r)
    (e : Ending Unit Unit) (hlt : t < l.nextTask) : Books gone (l.finish t e) := by
  have hjob : ∀ u job, (l.finish t e).jobOf u = some job → l.jobOf u = some job := by
    intro u job hu
    rw [Loop.jobOf, Loop.task?_finish] at hu
    split at hu
    · cases hu
    · exact hu
  have hstate : ∀ s, (l.finish t e).signalState s =
      if s = .ended t ∧ (l.signalState (.ended t)).ending = none then { ending := some e }
      else l.signalState s :=
    fun s => Loop.signalState_raise { l with tasks := Assoc.erase t l.tasks } (.ended t) s e
  refine
    { fresh := (Loop.evolves_finish l t e).fresh h.fresh
      fits := fun u su hu => ?_
      unique := fun u v r hu hv => h.unique u v r (hjob u _ hu) (hjob v _ hv)
      ended := fun u hu => ?_
      followers := fun s f hf => ?_
      spent := fun s hs => ?_
      ready := fun i hi => ?_
      live := by
        intro e' he'
        exact h.live e' (by simpa [Loop.finish] using he') }
  · rw [Loop.task?_finish] at hu
    split at hu
    · cases hu
    · exact h.fits u su hu
  · rw [Loop.nextTask_finish]
    rw [Loop.isEnded, Loop.ending?, hstate] at hu
    split at hu
    · next hs => rwa [Signal.ended.inj hs.1]
    · exact h.ended u hu
  · rw [hstate] at hf
    split at hf
    · simp at hf
    · next hs =>
      refine (h.followers s f hf).congr fun u r hu hr => ?_
      have hne : u ≠ t := by
        rintro rfl
        refine hs ⟨hu, Classical.byContradiction fun hending => ?_⟩
        rw [hu, h.spent _ hending] at hf
        cases hf
      rwa [Loop.jobOf, Loop.task?_finish, if_neg hne]
  · rw [hstate] at hs ⊢
    split
    · rfl
    · next hne =>
      rw [if_neg hne] at hs
      exact h.spent s hs
  · -- What becomes ready by the end of the task are its followers, the hooks of its run.
    rcases Loop.mem_ready_raise hi with hi | ⟨f, hf, rfl⟩
    · exact h.ready i hi
    · have hf := h.followers (.ended t) f hf
      cases f with
      | resume t => trivial
      | hook r =>
        obtain ⟨u, hu, hr⟩ := hf
        rw [← Signal.ended.inj hu] at hr
        exact hgone r hr
      | relay s => exact hf.elim
      | part n => exact hf.elim

/-- Only the task of a timer is ever cancelled. -/
theorem cancel (h : Books gone l) (ht : ∀ r, l.jobOf t ≠ some (.run r)) :
    Books gone (l.cancel t).1 := by
  unfold Loop.cancel Loop.cancelTask
  cases hst : l.task? t with
  | none => exact h
  | some st =>
    have hjob := Loop.jobOf_of_task? hst
    obtain ⟨kind, -, waits⟩ := h.fits t st hst
    have hrun : ∀ r, st.job ≠ .run r := fun r hr => ht r (hr ▸ hjob)
    have hset := h.setTask (w := { st with cancels := st.cancels + 1 }) hjob
      ⟨kind, fun r hr => absurd hr (hrun r), waits⟩
    have hmarked :=
      hset.setTask (t := t) (w := { st with cancels := st.cancels + 1, mustCancel := true })
      (by
        rw [(Loop.SameJobs.setTask (.refl l) (w := { st with cancels := st.cancels + 1 })
          hjob).jobs]
        exact hjob)
      ⟨kind, fun r hr => absurd hr (hrun r), waits⟩
    dsimp only
    split
    · exact hmarked
    · next other hother =>
      obtain ⟨n, hn⟩ := waits _ hother
      cases hn
    · next s _ hs =>
      obtain ⟨n, rfl⟩ := waits s hs
      split
      · exact hmarked
      · exact hset.raise n _

/-! ## Turns and timers -/

theorem suspend (h : Books gone l) (t n : Nat) : Books gone (Machine.suspend l t (.ticket n)) := by
  unfold Machine.suspend
  cases hst : l.task? t with
  | none => exact h
  | some st =>
    obtain ⟨kind, -, -⟩ := h.fits t st hst
    have hjob := Loop.jobOf_of_task? hst
    have hset := (h.setTask (w := { st with waiting := some (.ticket n), mustCancel := false }) hjob
      ⟨kind, fun _ _ => rfl, fun s hs => ⟨n, (Option.some.inj hs).symm⟩⟩).follow
        (s := .ticket n) (f := .resume t) trivial fun _ => trivial
    dsimp only
    split
    · exact hset.raise n _
    · exact hset

theorem conclude (h : Books gone l) (hgone : ∀ r, l.jobOf t = some (.run r) → gone r)
    (e : Ending Unit Unit) (hlt : t < l.nextTask) : Books gone (Machine.conclude l t e) := by
  obtain ⟨e', he'⟩ := Loop.conclude_eq_finish l t e
  rw [he']
  exact h.finish hgone e' hlt

theorem stopTimer (h : Books gone l) (id : Nat) : Books gone (l.stopTimer id) :=
  h.alike rfl rfl rfl (fun _ hi => .inl hi) fun _ he => .inl (Assoc.mem_erase.mp he).1

theorem fireTimer (h : Books gone l) (id : Nat) : Books gone (Machine.fireTimer l () id) := by
  unfold Machine.fireTimer
  split
  · exact h
  · next action haction =>
    obtain ⟨n, hn⟩ := h.live _ (Assoc.mem_of_get? haction)
    have hraise : action = .raise (.ticket n) := hn
    rw [hraise]
    exact (h.stopTimer id).raise n _

theorem dropCancelled (h : Books gone l) (fuel : Nat) : Books gone (Loop.dropCancelled fuel l) := by
  induction fuel generalizing l with
  | zero => exact h
  | succ fuel ih =>
    unfold Loop.dropCancelled
    split
    · split
      · exact h
      · exact ih (h.alike rfl rfl rfl (fun _ hi => .inl hi) fun _ he => .inl he)
    · exact h

theorem takeDue (h : Books gone l) (fuel : Nat) : Books gone (Loop.takeDue fuel l) := by
  induction fuel generalizing l with
  | zero => exact h
  | succ fuel ih =>
    unfold Loop.takeDue
    split
    · next timer _ =>
      split
      · refine ih (h.alike rfl rfl rfl (fun i hi => ?_) fun _ he => .inl he)
        rcases List.mem_append.mp hi with hi | hi
        · exact .inl hi
        · rw [List.mem_singleton.mp hi]
          exact .inr trivial
      · exact h
    · exact h

end Books

end PikeAnalysis.Simulation.Scheduling
