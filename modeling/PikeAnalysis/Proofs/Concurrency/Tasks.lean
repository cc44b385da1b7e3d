import PikeAnalysis.Concurrency.Machine

/-!
# The tasks of a loop

What the operations of a loop do to its tasks.  Most leave them alone; cancelling and suspending
change how a task waits but not what it is for; only `create` adds a task and only `finish` takes
one away.  `Evolves` is what can be said of any number of them: a task never changes its job, and
numbers are not given twice.

The lemmas are ordered by how much an operation changes.  `SameTasks` is for those that change
neither which tasks there are nor what is noted of them; `SameJobs` for those that change notes,
such as what a task waits for or whether it is marked; `Evolves` for any number of operations.  Each
is a structure with one lemma for each operation, so that a change which is made of several
operations is dealt with by composing lemmas, and no proof above this module has to open the
definition of an operation only to learn that it leaves jobs alone.

`Gains` bounds what may be new: it is how one shows that a part of the program creates no tasks but
of some kind.
-/

namespace PikeAnalysis.Concurrency

namespace Loop

variable {κ η ε ν : Type} {l m n : Loop κ η ε ν} {t u : Nat} {job : κ}

/-- What a task that has not ended is for.  A task that has ended has none any more. -/
def jobOf (l : Loop κ η ε ν) (t : Nat) : Option κ :=
  (l.task? t).map (·.job)

theorem jobOf_of_task? {st : TaskState κ} (h : l.task? t = some st) : l.jobOf t = some st.job := by
  rw [jobOf, h, Option.map_some]

theorem task?_of_jobOf (h : l.jobOf t = some job) : ∃ st, l.task? t = some st ∧ st.job = job :=
  Option.map_eq_some_iff.mp h

/-! ## Signals -/

theorem raise_of_ended {s : Signal} {e' : Ending ε ν} (h : (l.signalState s).ending = some e')
    (e : Ending ε ν) : l.raise s e = l := by
  rw [raise, h]

theorem raise_of_open {s : Signal} (h : (l.signalState s).ending = none) (e : Ending ε ν) :
    l.raise s e = { l with signals := Assoc.set s { ending := some e } l.signals }.enqueue
      ((l.signalState s).followers.map fun f => .follow f s) := by
  rw [raise, h]

theorem follow_of_ended {s : Signal} {e : Ending ε ν} (h : (l.signalState s).ending = some e)
    (f : Follower η) : l.follow s f = l.enqueue [.follow f s] := by
  rw [follow, h]

theorem follow_of_open {s : Signal} (h : (l.signalState s).ending = none) (f : Follower η) :
    l.follow s f =
      { l with
        signals := Assoc.set s { followers := (l.signalState s).followers ++ [f] } l.signals } := by
  rw [follow, h]

theorem signalState_raise (l : Loop κ η ε ν) (s s' : Signal) (e : Ending ε ν) :
    (l.raise s e).signalState s' =
      if s' = s ∧ (l.signalState s).ending = none then { ending := some e }
      else l.signalState s' := by
  cases hending : (l.signalState s).ending with
  | some e' => simp [raise_of_ended hending]
  | none =>
    rw [raise_of_open hending]
    by_cases hs : s' = s
    · simp [signalState, enqueue, hs]
    · simp [signalState, enqueue, hs, Assoc.get?_set_of_ne hs]

theorem signalState_follow (l : Loop κ η ε ν) (s s' : Signal) (f : Follower η) :
    (l.follow s f).signalState s' =
      if s' = s ∧ (l.signalState s).ending = none then
        { followers := (l.signalState s).followers ++ [f] }
      else l.signalState s' := by
  cases hending : (l.signalState s).ending with
  | some e' => simp [follow_of_ended hending, signalState, enqueue]
  | none =>
    rw [follow_of_open hending]
    by_cases hs : s' = s
    · simp [signalState, hs]
    · simp [signalState, hs, Assoc.get?_set_of_ne hs]

/-- What a raised signal makes ready.  Only the followers of the signal do, and only the first time
it is raised. -/
theorem mem_ready_raise {s : Signal} {e : Ending ε ν} {i : Ready η} (h : i ∈ (l.raise s e).ready) :
    i ∈ l.ready ∨ ∃ f ∈ (l.signalState s).followers, i = .follow f s := by
  cases hending : (l.signalState s).ending with
  | some e' =>
    rw [raise_of_ended hending] at h
    exact .inl h
  | none =>
    rw [raise_of_open hending] at h
    rcases List.mem_append.mp h with h | h
    · exact .inl h
    · obtain ⟨f, hf, rfl⟩ := List.mem_map.mp h
      exact .inr ⟨f, hf, rfl⟩

theorem mem_ready_follow {s : Signal} {f : Follower η} {i : Ready η}
    (h : i ∈ (l.follow s f).ready) :
    i ∈ l.ready ∨ ((l.signalState s).ending ≠ none ∧ i = .follow f s) := by
  cases hending : (l.signalState s).ending with
  | some e' =>
    rw [follow_of_ended hending] at h
    exact (List.mem_append.mp h).imp_right fun hi => ⟨by simp, List.mem_singleton.mp hi⟩
  | none =>
    rw [follow_of_open hending] at h
    exact .inl h

@[simp] theorem live_raise (l : Loop κ η ε ν) (s : Signal) (e : Ending ε ν) :
    (l.raise s e).live = l.live := by
  cases hending : (l.signalState s).ending with
  | some e' => rw [raise_of_ended hending]
  | none => rw [raise_of_open hending, enqueue]

@[simp] theorem live_follow (l : Loop κ η ε ν) (s : Signal) (f : Follower η) :
    (l.follow s f).live = l.live := by
  cases hending : (l.signalState s).ending with
  | some e' => rw [follow_of_ended hending, enqueue]
  | none => rw [follow_of_open hending]

/-! ## Operations that leave the tasks alone -/

/-- Two loops have the same tasks, and none is started anew.  Their signals, timers and tickets may
differ in any way.  Whatever is about jobs, creation and cancellation carries over from the one to
the other. -/
structure SameTasks (l m : Loop κ η ε ν) : Prop where
  tasks : m.tasks = l.tasks
  next : m.nextTask = l.nextTask
  starts : ∀ t, .start t ∈ m.ready → .start t ∈ l.ready

namespace SameTasks

theorem refl (l : Loop κ η ε ν) : SameTasks l l :=
  ⟨rfl, rfl, fun _ h => h⟩

theorem task? (h : SameTasks l m) (t : Nat) : m.task? t = l.task? t := by
  rw [Loop.task?, Loop.task?, h.tasks]

end SameTasks

theorem SameTasks.enqueue (h : SameTasks l m) {items : List (Ready η)}
    (hitems : ∀ t, .start t ∉ items) : SameTasks l (m.enqueue items) := by
  refine ⟨h.tasks, h.next, fun t ht => ?_⟩
  rcases List.mem_append.mp ht with ht | ht
  · exact h.starts t ht
  · exact absurd ht (hitems t)

theorem SameTasks.raise (h : SameTasks l m) (s : Signal) (e : Ending ε ν) :
    SameTasks l (m.raise s e) := by
  cases he : (m.signalState s).ending with
  | some e' =>
    rw [raise_of_ended he]
    exact h
  | none =>
    rw [raise_of_open he]
    refine SameTasks.enqueue ?_ (by simp)
    exact ⟨h.tasks, h.next, h.starts⟩

theorem SameTasks.follow (h : SameTasks l m) (s : Signal) (f : Follower η) :
    SameTasks l (m.follow s f) := by
  cases he : (m.signalState s).ending with
  | some e' =>
    rw [follow_of_ended he]
    exact h.enqueue (by simp)
  | none =>
    rw [follow_of_open he]
    exact ⟨h.tasks, h.next, h.starts⟩

theorem sameTasks_joinAll (l : Loop κ η ε ν) (parts : List Signal) :
    SameTasks l (l.joinAll parts).1 := by
  have hfold : ∀ (n : Nat) (m : Loop κ η ε ν), SameTasks l m →
      SameTasks l (parts.foldl (fun l s => l.follow s (.part n)) m) := by
    intro n
    induction parts with
    | nil => exact fun m hm => hm
    | cons s rest ih => exact fun m hm => ih _ (hm.follow s _)
  unfold joinAll
  split
  · exact .refl l
  · exact hfold _ _ ⟨rfl, rfl, fun _ h => h⟩

theorem sameTasks_countPart (l : Loop κ η ε ν) (v : ν) (n : Nat) :
    SameTasks l (l.countPart v n) := by
  unfold countPart
  split
  · exact .refl l
  · split
    · refine SameTasks.raise ?_ _ _
      exact ⟨rfl, rfl, fun _ h => h⟩
    · exact ⟨rfl, rfl, fun _ h => h⟩

theorem sameTasks_startTimer (l : Loop κ η ε ν) (d : Duration) (a : TimerAction) :
    SameTasks l (l.startTimer d a).1 :=
  ⟨rfl, rfl, fun _ h => h⟩

theorem sameTasks_startLimit (l : Loop κ η ε ν) (d : Duration) :
    SameTasks l (l.startLimit d).1 := by
  unfold startLimit
  split
  · dsimp only
    split
    · refine SameTasks.enqueue ?_ (by simp)
      exact ⟨rfl, rfl, fun _ h => h⟩
    · exact ⟨rfl, rfl, fun _ h => h⟩
  · exact ⟨rfl, rfl, fun _ h => h⟩

theorem SameTasks.dropCancelled (h : SameTasks l m) (fuel : Nat) :
    SameTasks l (Loop.dropCancelled fuel m) := by
  induction fuel generalizing m with
  | zero => exact h
  | succ fuel ih =>
    unfold Loop.dropCancelled
    split
    · split
      · exact h
      · exact ih ⟨h.tasks, h.next, h.starts⟩
    · exact h

theorem SameTasks.takeDue (h : SameTasks l m) (fuel : Nat) : SameTasks l (Loop.takeDue fuel m) := by
  induction fuel generalizing m with
  | zero => exact h
  | succ fuel ih =>
    unfold Loop.takeDue
    split
    · split
      · refine ih (SameTasks.enqueue ?_ (by simp))
        exact ⟨h.tasks, h.next, h.starts⟩
      · exact h
    · exact h

/-! ## Operations that leave the jobs alone -/

/-- Two loops have the same tasks with the same jobs, and none is started anew.  What is noted of a
task besides its job may differ. -/
structure SameJobs (l m : Loop κ η ε ν) : Prop where
  jobs : ∀ t, m.jobOf t = l.jobOf t
  next : m.nextTask = l.nextTask
  starts : ∀ t, .start t ∈ m.ready → .start t ∈ l.ready

namespace SameJobs

theorem refl (l : Loop κ η ε ν) : SameJobs l l :=
  ⟨fun _ => rfl, rfl, fun _ h => h⟩

theorem trans (h : SameJobs l m) (k : SameJobs m n) : SameJobs l n :=
  ⟨fun t => (k.jobs t).trans (h.jobs t), k.next.trans h.next,
    fun t ht => h.starts t (k.starts t ht)⟩

end SameJobs

theorem SameTasks.sameJobs (h : SameTasks l m) : SameJobs l m :=
  ⟨fun t => by rw [jobOf, jobOf, h.task? t], h.next, h.starts⟩

theorem task?_setTask (l : Loop κ η ε ν) (t u : Nat) (st : TaskState κ) :
    (l.setTask t st).task? u = if u = t then some st else l.task? u :=
  Assoc.get?_set t u st l.tasks

theorem SameJobs.setTask (h : SameJobs l m) {w : TaskState κ} (hjob : l.jobOf t = some w.job) :
    SameJobs l (m.setTask t w) := by
  refine ⟨fun u => ?_, h.next, h.starts⟩
  rw [← h.jobs t] at hjob
  rw [← h.jobs u, jobOf, task?_setTask]
  split
  · next hu => rw [hu, hjob, Option.map_some]
  · rfl

theorem SameJobs.raise (h : SameJobs l m) (s : Signal) (e : Ending ε ν) :
    SameJobs l (m.raise s e) :=
  h.trans (SameTasks.raise (.refl m) s e).sameJobs

theorem SameJobs.follow (h : SameJobs l m) (s : Signal) (f : Follower η) :
    SameJobs l (m.follow s f) :=
  h.trans (SameTasks.follow (.refl m) s f).sameJobs

theorem SameJobs.cancelTask (h : SameJobs l m) (fuel t : Nat) :
    SameJobs l (Loop.cancelTask fuel m t).1 := by
  induction fuel generalizing m t with
  | zero => exact h
  | succ fuel ih =>
    unfold Loop.cancelTask
    split
    · exact h
    · next st hst =>
      have hjob : l.jobOf t = some st.job := by rw [← h.jobs t, jobOf_of_task? hst]
      have hset : SameJobs l (m.setTask t { st with cancels := st.cancels + 1 }) := h.setTask hjob
      have hmarked :=
        hset.setTask (w := { st with cancels := st.cancels + 1, mustCancel := true }) hjob
      dsimp only
      split
      · exact hmarked
      · next other _ =>
        split
        · exact ih hset other
        · exact hmarked
      · split
        · exact hmarked
        · exact hset.raise _ _

theorem SameJobs.cancel (h : SameJobs l m) (t : Nat) : SameJobs l (m.cancel t).1 :=
  h.cancelTask _ t

theorem sameJobs_stopLimit (l : Loop κ η ε ν) (id : Nat) : SameJobs l (l.stopLimit id).1 := by
  unfold stopLimit
  split
  · dsimp only
    split
    · next st hst =>
      have hjob : l.jobOf l.current = some st.job := jobOf_of_task? hst
      refine SameJobs.setTask ?_ hjob
      exact ⟨fun _ => rfl, rfl, fun _ h => h⟩
    · exact ⟨fun _ => rfl, rfl, fun _ h => h⟩
  · exact ⟨fun _ => rfl, rfl, fun _ h => h⟩

theorem sameJobs_suspend (l : Loop κ η ε ν) (t : Nat) (s : Signal) :
    SameJobs l (Machine.suspend l t s) := by
  unfold Machine.suspend
  split
  · exact .refl l
  · next st hst =>
    have hjob := jobOf_of_task? hst
    have h := ((SameJobs.refl l).setTask (w := { st with waiting := some s, mustCancel := false })
      hjob).follow s (.resume t)
    dsimp only
    split
    · split
      · exact h.cancel _
      · exact h.raise _ _
    · exact h

theorem sameJobs_fireTimer (l : Loop κ η ε ν) (v : ν) (id : Nat) :
    SameJobs l (Machine.fireTimer l v id) := by
  unfold Machine.fireTimer
  split
  · exact .refl l
  · dsimp only
    split
    · refine SameJobs.raise ?_ _ _
      exact ⟨fun _ => rfl, rfl, fun _ h => h⟩
    · refine SameJobs.cancel ?_ _
      exact ⟨fun _ => rfl, rfl, fun _ h => h⟩

/-! ## Beginnings and ends -/

theorem task?_create (l : Loop κ η ε ν) (job : κ) (h : l.task? l.nextTask = none) (u : Nat) :
    (l.create job).1.task? u = if u = l.nextTask then some { job } else l.task? u := by
  have hget : (l.create job).1.task? u =
      (l.task? u <|> Assoc.get? u [(l.nextTask, ({ job } : TaskState κ))]) :=
    Assoc.get?_append u l.tasks _
  rw [hget]
  by_cases hu : u = l.nextTask
  · rw [if_pos hu, hu, h]
    simp [Assoc.get?]
  · rw [if_neg hu]
    simp [Assoc.get?, Ne.symm hu]

theorem jobOf_create (l : Loop κ η ε ν) (job : κ) (u : Nat) :
    (l.create job).1.jobOf u = (l.jobOf u).or (if u = l.nextTask then some job else none) := by
  have hget : (l.create job).1.task? u =
      (l.task? u <|> Assoc.get? u [(l.nextTask, ({ job } : TaskState κ))]) :=
    Assoc.get?_append u l.tasks _
  rw [jobOf, jobOf, hget]
  by_cases hu : u = l.nextTask
  · cases l.task? u <;> simp [Assoc.get?, hu]
  · cases l.task? u <;> simp [Assoc.get?, hu, Ne.symm hu]

theorem task?_finish (l : Loop κ η ε ν) (t u : Nat) (e : Ending ε ν) :
    (l.finish t e).task? u = if u = t then none else l.task? u :=
  ((SameTasks.raise (.refl { l with tasks := Assoc.erase t l.tasks }) (.ended t) e).task? u).trans
    (Assoc.get?_erase t u l.tasks)

theorem nextTask_finish (l : Loop κ η ε ν) (t : Nat) (e : Ending ε ν) :
    (l.finish t e).nextTask = l.nextTask :=
  (SameTasks.raise (.refl { l with tasks := Assoc.erase t l.tasks }) (.ended t) e).next

theorem jobOf_finish (l : Loop κ η ε ν) (t u : Nat) (e : Ending ε ν) :
    (l.finish t e).jobOf u = if u = t then none else l.jobOf u := by
  rw [jobOf, task?_finish]
  split <;> rfl

/-- Who has a job after a task has ended is another task and had it before. -/
theorem of_jobOf_finish {l : Loop κ η ε ν} {t u : Nat} {e : Ending ε ν} {job : κ}
    (h : (l.finish t e).jobOf u = some job) : u ≠ t ∧ l.jobOf u = some job := by
  rw [jobOf_finish] at h
  split at h
  · cases h
  · next hne => exact ⟨hne, h⟩

theorem jobOf_finish_self (l : Loop κ η ε ν) (t : Nat) (e : Ending ε ν) :
    (l.finish t e).jobOf t = none := by
  rw [jobOf_finish, if_pos rfl]

/-- A turn that ends finishes its task, with whatever ending. -/
theorem conclude_eq_finish (l : Loop κ η ε ν) (t : Nat) (e : Ending ε ν) :
    ∃ e', Machine.conclude l t e = l.finish t e' := by
  cases e with
  | value v => exact ⟨_, rfl⟩
  | error e => exact ⟨.error e, rfl⟩
  | cancelled => exact ⟨.cancelled, rfl⟩

/-! ## Any number of operations -/

/-- The number that the next task gets has not been given.  Numbers are given in order and never
again, so a number identifies a task for good. -/
def Fresh (l : Loop κ η ε ν) : Prop :=
  ∀ t, l.jobOf t ≠ none → t < l.nextTask

theorem Fresh.lt_of_jobOf (h : l.Fresh) (hjob : l.jobOf t = some job) : t < l.nextTask :=
  h t (by simp [hjob])

theorem Fresh.task?_next (h : l.Fresh) : l.task? l.nextTask = none := by
  cases hst : l.task? l.nextTask with
  | none => rfl
  | some st => exact absurd (h l.nextTask (by simp [jobOf_of_task? hst])) (Nat.lt_irrefl _)

theorem Fresh.jobOf_create (h : l.Fresh) (job : κ) (u : Nat) :
    (l.create job).1.jobOf u = if u = l.nextTask then some job else l.jobOf u := by
  rw [Loop.jobOf_create]
  by_cases hu : u = l.nextTask
  · have hnone : l.jobOf u = none := by rw [hu, jobOf, h.task?_next, Option.map_none]
    rw [hnone, Option.none_or, if_pos hu]
  · rw [if_neg hu, if_neg hu, Option.or_none]

/-- What a loop can become: tasks end and new ones begin, but those that go on keep their jobs.
This is the order in which states of the loop come after one another, whatever happened. -/
structure Evolves (l m : Loop κ η ε ν) : Prop where
  next : l.nextTask ≤ m.nextTask
  jobs : ∀ t job, t < l.nextTask → m.jobOf t = some job → l.jobOf t = some job
  fresh : l.Fresh → m.Fresh

namespace Evolves

theorem refl (l : Loop κ η ε ν) : Evolves l l :=
  ⟨Nat.le_refl _, fun _ _ _ h => h, fun h => h⟩

theorem trans (h : Evolves l m) (k : Evolves m n) : Evolves l n :=
  ⟨Nat.le_trans h.next k.next,
    fun t job ht hj => h.jobs t job ht (k.jobs t job (Nat.lt_of_lt_of_le ht h.next) hj),
    fun hf => k.fresh (h.fresh hf)⟩

end Evolves

theorem SameJobs.evolves (h : SameJobs l m) : Evolves l m := by
  refine ⟨Nat.le_of_eq h.next.symm, fun t job _ hj => ?_, fun hf t ht => ?_⟩
  · rwa [← h.jobs t]
  · rw [h.next]
    exact hf t (by rwa [← h.jobs t])

theorem SameTasks.evolves (h : SameTasks l m) : Evolves l m :=
  h.sameJobs.evolves

theorem evolves_create (l : Loop κ η ε ν) (job : κ) : Evolves l (l.create job).1 := by
  have hjob : ∀ t, t ≠ l.nextTask → (l.create job).1.jobOf t = l.jobOf t := by
    intro t ht
    rw [jobOf_create, if_neg ht, Option.or_none]
  refine ⟨Nat.le_succ _, fun t j ht hj => ?_, fun hf t ht => ?_⟩
  · rwa [← hjob t (Nat.ne_of_lt ht)]
  · by_cases hn : t = l.nextTask
    · rw [hn]
      exact Nat.lt_succ_self _
    · rw [hjob t hn] at ht
      exact Nat.lt_succ_of_lt (hf t ht)

theorem evolves_finish (l : Loop κ η ε ν) (t : Nat) (e : Ending ε ν) :
    Evolves l (l.finish t e) := by
  refine ⟨Nat.le_of_eq (nextTask_finish l t e).symm, fun u job _ hu => (of_jobOf_finish hu).2,
    fun hf u hu => ?_⟩
  obtain ⟨job, hj⟩ := Option.ne_none_iff_exists'.mp hu
  rw [nextTask_finish]
  exact hf u (by simp [(of_jobOf_finish hj).2])

/-! ## New tasks of a kind -/

/-- What a loop can become when only tasks of a kind begin.  Those of other kinds are among the ones
that were there. -/
structure Gains (kind : κ → Prop) (l m : Loop κ η ε ν) : Prop where
  evolves : Evolves l m
  jobs : ∀ t job, m.jobOf t = some job → l.jobOf t = some job ∨ kind job
  starts : l.Fresh → ∀ t, .start t ∈ m.ready →
    .start t ∈ l.ready ∨ ∀ job, m.jobOf t = some job → kind job

variable {kind : κ → Prop}

theorem SameJobs.gains (h : SameJobs l m) : Gains kind l m :=
  ⟨h.evolves, fun t job hj => .inl (by rwa [← h.jobs t]), fun _ t ht => .inl (h.starts t ht)⟩

namespace Gains

theorem refl (l : Loop κ η ε ν) : Gains kind l l :=
  (SameJobs.refl l).gains

theorem trans (h : Gains kind l m) (k : Gains kind m n) : Gains kind l n := by
  refine ⟨h.evolves.trans k.evolves, fun t job hj => ?_, fun hf t ht => ?_⟩
  · rcases k.jobs t job hj with hj | hk
    · exact h.jobs t job hj
    · exact .inr hk
  · rcases k.starts (h.evolves.fresh hf) t ht with ht | hk
    · refine (h.starts hf t ht).imp_right fun hm job hj => ?_
      rcases k.jobs t job hj with hj | hk
      · exact hm job hj
      · exact hk
    · exact .inr hk

end Gains

theorem gains_create (l : Loop κ η ε ν) (hkind : kind job) : Gains kind l (l.create job).1 := by
  refine ⟨evolves_create l job, fun t j hj => ?_, fun hf t ht => ?_⟩
  · rw [jobOf_create] at hj
    rcases Option.or_eq_some_iff.mp hj with hj | ⟨-, hj⟩
    · exact .inl hj
    · split at hj
      · exact .inr (Option.some.inj hj ▸ hkind)
      · cases hj
  · rcases List.mem_append.mp ht with ht | ht
    · exact .inl ht
    · obtain rfl : t = l.nextTask := by simpa using ht
      refine .inr fun j hj => ?_
      rw [hf.jobOf_create, if_pos rfl] at hj
      exact Option.some.inj hj ▸ hkind

theorem gains_finish (l : Loop κ η ε ν) (t : Nat) (e : Ending ε ν) :
    Gains kind l (l.finish t e) := by
  refine ⟨evolves_finish l t e, fun u j hj => .inl (of_jobOf_finish hj).2, fun _ u hu => .inl ?_⟩
  have h := SameTasks.raise (.refl { l with tasks := Assoc.erase t l.tasks }) (.ended t) e
  exact h.starts u hu

end Loop

end PikeAnalysis.Concurrency
