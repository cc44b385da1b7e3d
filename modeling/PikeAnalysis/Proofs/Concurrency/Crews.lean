import PikeAnalysis.Proofs.Concurrency.Tickets

/-!
# Tables of tasks

A table says which task is in charge of which thing.  While things start and end the table, the
tasks that are alive and the things that are under way must be kept together (`Loop.Manned`): tasks
for new things are still to be created, and those of things that are no more are still to be
cancelled.

In the scheduler the table is that of the running validations, and in between two operations of one
turn it is out of step with the tasks: an entry is made before its task is there, or is dropped
before its task is cancelled.  `ahead` and `off` hold what is still to be done, in order, and each
operation takes its item off; at the end of the turn both are empty again and the table and the
tasks agree.

That a task is cancelled and gone for the table is enough, as it will not do anything that matters
before it hears of it.  So only the tasks that are alive are counted, and cancelling one is the same
as its end.
-/

namespace PikeAnalysis.Concurrency

namespace Loop

variable {κ η ε ν : Type} {job : Nat → κ} {table table' : List (Nat × Nat)}
  {under under' : Nat → Prop}
  {next next' : Nat} {ahead ahead' off off' : List Nat} {own own' : Option Nat} {l m : Loop κ η ε ν}
  {Q : Multiset (Ready η)} {t u x : Nat} {k : κ} {st : TaskState κ}

/-- Whatever is under way has a task in the table that is alive, and every task that is alive, but
for the one whose turn it is, is that of something under way.  Tasks of `ahead` are still to be
created, and tasks of `off` are still to be cancelled.  In between turns both lists are empty, and
then this says that running things and tasks that are alive are in correspondence. -/
structure Manned (job : Nat → κ) (table : List (Nat × Nat)) (under : Nat → Prop) (next : Nat)
    (ahead off : List Nat) (own : Option Nat) (l : Loop κ η ε ν) : Prop where
  alive : ∀ x, under x → x ∈ ahead ∨ ∃ t, Assoc.get? x table = some t ∧ l.Alive t (job x)
  attached : ∀ t x, own ≠ some t → l.Alive t (job x) → Assoc.get? x table = some t ∧
    (under x ∨ x ∈ off)
  unborn : ∀ x ∈ ahead, under x ∧ x < next ∧ ∀ t, l.jobOf t ≠ some (job x)
  once : ahead.Nodup
  /-- The table holds no task of anything else. -/
  known : ∀ x t, Assoc.get? x table = some t → t < l.nextTask ∧ ∀ j, l.jobOf t = some j → j = job x
  gone : ∀ x ∈ off, ¬ under x
  born : ∀ t x, l.jobOf t = some (job x) → x < next

namespace Manned

/-! ## Turns -/

theorem weaken (h : Manned job table under next ahead off none l) (own : Option Nat) :
    Manned job table under next ahead off own l :=
  { h with attached := fun t x _ => h.attached t x nofun }

/-- Nothing has two tasks that are alive. -/
theorem alone (h : Manned job table under next ahead off none l) (ht : l.Alive t (job x)) (u : Nat)
    (hu : some t ≠ some u) : ¬ l.Alive u (job x) := by
  intro other
  obtain ⟨hx, -⟩ := h.attached t x nofun ht
  obtain ⟨hx', -⟩ := h.attached u x nofun other
  exact hu (hx.symm.trans hx')

/-- At the end of its turn the task is that of something under way. -/
theorem settle (h : Manned job table under next ahead off (some t) l)
    (mine : ∀ x, l.Alive t (job x) → Assoc.get? x table = some t ∧ (under x ∨ x ∈ off)) :
    Manned job table under next ahead off none l := by
  refine { h with attached := fun u x _ hu => ?_ }
  by_cases own : t = u
  · subst own
    exact mine x hu
  · exact h.attached u x (fun he => own (Option.some.inj he)) hu

/-- A change that leaves the jobs of all tasks as they are, and some of those that were still to be
cancelled without a task. -/
theorem change (h : Manned job table under next ahead off own l) (jobs : ∀ t, m.jobOf t = l.jobOf t)
    (nextTask : l.nextTask ≤ m.nextTask) (fewer : ∀ x ∈ off', x ∈ off)
    (alive : ∀ t x, under x → Assoc.get? x table = some t → l.Alive t (job x) → m.Alive t (job x))
    (attached : ∀ t x, own' ≠ some t → m.Alive t (job x) →
      Assoc.get? x table = some t ∧ (under x ∨ x ∈ off')) :
    Manned job table under next ahead off' own' m where
  alive x hx := (h.alive x hx).imp_right fun ⟨t, ht, living⟩ => ⟨t, ht, alive t x hx ht living⟩
  attached := attached
  unborn x hx := by
    obtain ⟨hunder, lt, none⟩ := h.unborn x hx
    exact ⟨hunder, lt, fun t => by rw [jobs]; exact none t⟩
  once := h.once
  known x t ht := by
    obtain ⟨lt, only⟩ := h.known x t ht
    exact ⟨Nat.lt_of_lt_of_le lt nextTask, fun j hj => only j (by rwa [← jobs])⟩
  gone x hx := h.gone x (fewer x hx)
  born t x ht := h.born t x (by rwa [← jobs])

theorem congr (h : Manned job table under next ahead off own l) (jobs : ∀ t, m.jobOf t = l.jobOf t)
    (alive : ∀ t x, m.Alive t (job x) ↔ l.Alive t (job x)) (nextTask : l.nextTask ≤ m.nextTask) :
    Manned job table under next ahead off own m :=
  h.change jobs nextTask (fun _ hx => hx) (fun t x _ _ living => (alive t x).mpr living)
    fun t x hown ht => h.attached t x hown ((alive t x).mp ht)

/-- A task goes on after its wait.  It is under way as before, so the table stays as it is. -/
theorem wake (h : Manned job table under next ahead off none l) (hst : l.task? t = some st) :
    Manned job table under next ahead off (some t)
      (l.setTask t { st with waiting := none, mustCancel := false }) := by
  have jobs : SameJobs l (l.setTask t { st with waiting := none, mustCancel := false }) :=
    .setTask (.refl l) (show l.jobOf t = some st.job from jobOf_of_task? hst)
  have kept {u x : Nat} (hu : u ≠ t) :
      (l.setTask t { st with waiting := none, mustCancel := false }).Alive
      u (job x) ↔ l.Alive u (job x) := alive_setTask_of_ne hu
  refine h.change jobs.jobs (Nat.le_refl _) (fun _ hx => hx) (fun u x _ _ living => ?_)
    fun u x hown hu => h.attached u x nofun ((kept fun he => hown (he ▸ rfl)).mp hu)
  by_cases self : u = t
  · subst self
    exact (alive_wake_self l u st).mpr
      (Option.some.inj ((jobOf_of_task? hst).symm.trans living.jobOf))
  · exact (kept self).mpr living

/-- The task whose turn it is ends.  It was not in charge of anything that is under way. -/
theorem finish (h : Manned job table under next ahead off (some t) l) (tick : Ticketed own Q l)
    (free : ∀ x, under x → Assoc.get? x table ≠ some t) (e : Ending ε ν) :
    Manned job table under next ahead off none (l.finish t e) := by
  refine
    { alive := fun x hx => ?_
      attached := fun u x _ hu => ?_
      unborn := fun x hx => ?_
      once := h.once
      known := fun x u hu => ?_
      gone := h.gone
      born := fun u x hu => h.born u x (of_jobOf_finish hu).2 }
  · exact (h.alive x hx).imp_right fun ⟨u, hu, living⟩ =>
      ⟨u, hu, (tick.alive_finish e).mpr ⟨fun he => free x hx (he ▸ hu), living⟩⟩
  · obtain ⟨hne, living⟩ := (tick.alive_finish e).mp hu
    exact h.attached u x (fun he => hne (Option.some.inj he).symm) living
  · obtain ⟨hunder, lt, none⟩ := h.unborn x hx
    exact ⟨hunder, lt, fun u hu => none u (of_jobOf_finish hu).2⟩
  · obtain ⟨lt, only⟩ := h.known x u hu
    exact ⟨by rwa [nextTask_finish], fun j hj => only j (of_jobOf_finish hj).2⟩

/-! ## Things that start and end -/

/-- It is decided what is under way from now on.  What is dropped without its task being cancelled
has no task but the one whose turn it is. -/
theorem decide (h : Manned job table under next [] [] own l)
    (kept : ∀ x, under x → under' x ∨ x ∈ off ∨ ∀ t, own ≠ some t → ¬ l.Alive t (job x))
    (new : ∀ x, under' x → under x ∨ x ∈ ahead)
    (fresh : ∀ x ∈ ahead, under' x ∧ next ≤ x ∧ x < next') (once : ahead.Nodup)
    (gone : ∀ x ∈ off, ¬ under' x) (le : next ≤ next') :
    Manned job table under' next' ahead off own l where
  alive x hx := by
    rcases new x hx with old | hmem
    · exact .inr ((h.alive x old).resolve_left List.not_mem_nil)
    · exact .inl hmem
  attached t x hown ht := by
    obtain ⟨hx, old⟩ := h.attached t x hown ht
    refine ⟨hx, ?_⟩
    rcases kept x (old.resolve_right List.not_mem_nil) with still | hmem | alone
    · exact .inl still
    · exact .inr hmem
    · exact absurd ht (alone t hown)
  unborn x hx := by
    obtain ⟨hunder, ge, lt⟩ := fresh x hx
    exact ⟨hunder, lt, fun t ht => absurd (h.born t x ht) (Nat.not_lt.mpr ge)⟩
  once := once
  known := h.known
  gone := gone
  born t x ht := Nat.lt_of_lt_of_le (h.born t x ht) le

/-- A task for something else is created.  The table and what is still to be done are about the
tasks that are looked at. -/
theorem create_other (h : Manned job table under next ahead off own l) (fresh : l.Fresh)
    (other : ∀ x, job x ≠ k) : Manned job table under next ahead off own (l.create k).1 := by
  have old {t x : Nat} (ht : (l.create k).1.jobOf t = some (job x)) :
      t ≠ l.nextTask ∧ l.jobOf t = some (job x) := by
    rw [fresh.jobOf_create] at ht
    split at ht
    · exact absurd (Option.some.inj ht).symm (other x)
    · next hne => exact ⟨hne, ht⟩
  have before {t x : Nat} (hx : Assoc.get? x table = some t) : t ≠ l.nextTask :=
    Nat.ne_of_lt (h.known x t hx).1
  refine
    { alive := fun x hx => (h.alive x hx).imp_right fun ⟨t, ht, living⟩ =>
        ⟨t, ht, (alive_create_of_ne fresh (before ht)).mpr living⟩
      attached := fun t x hown ht =>
        h.attached t x hown ((alive_create_of_ne fresh (old ht.jobOf).1).mp ht)
      unborn := fun x hx => ?_
      once := h.once
      known := fun x t ht => ⟨Nat.lt_succ_of_lt (h.known x t ht).1, fun j hj => ?_⟩
      gone := h.gone
      born := fun t x ht => h.born t x (old ht).2 }
  · obtain ⟨hunder, lt, none⟩ := h.unborn x hx
    exact ⟨hunder, lt, fun t ht => none t (old ht).2⟩
  · rw [fresh.jobOf_create, if_neg (before ht)] at hj
    exact (h.known x t ht).2 j hj

/-- The next task that is still to be created is created.  It has the next number, and is entered
under what it was created for. -/
theorem create (inj : Function.Injective job)
    (h : Manned job table under next (x :: ahead) off own l)
    (fresh : l.Fresh) :
    Manned job (Assoc.set x l.nextTask table) under next ahead off own (l.create (job x)).1 := by
  obtain ⟨hunder, lt, none⟩ := h.unborn x List.mem_cons_self
  obtain ⟨hmem, once⟩ := List.nodup_cons.mp h.once
  have before {y t : Nat} (hy : Assoc.get? y table = some t) : t ≠ l.nextTask :=
    Nat.ne_of_lt (h.known y t hy).1
  have jobs (t : Nat) : (l.create (job x)).1.jobOf t = if t = l.nextTask
    then some (job x) else l.jobOf t :=
    fresh.jobOf_create (job x) t
  -- A task that was alive before is not that of the new thing.
  have foreign {y t : Nat} (ht : l.Alive t (job y)) : y ≠ x := by
    rintro rfl
    exact none t ht.jobOf
  refine
    { alive := fun y hy => ?_
      attached := fun t y hown ht => ?_
      unborn := fun y hy => ?_
      once := once
      known := fun y t ht => ?_
      gone := h.gone
      born := fun t y ht => ?_ }
  · rcases h.alive y hy with hmem | ⟨t, ht, living⟩
    · rcases List.mem_cons.mp hmem with rfl | hmem
      · exact .inr ⟨l.nextTask, Assoc.get?_set_self .., alive_create_self fresh (job y)⟩
      · exact .inl hmem
    · refine .inr ⟨t, ?_, (alive_create_of_ne fresh (before ht)).mpr living⟩
      rwa [Assoc.get?_set_of_ne (foreign living)]
  · by_cases hnext : t = l.nextTask
    · subst hnext
      have self := ht.jobOf
      rw [jobs, if_pos rfl] at self
      obtain rfl := inj (Option.some.inj self)
      exact ⟨Assoc.get?_set_self .., .inl hunder⟩
    · have living := (alive_create_of_ne fresh hnext).mp ht
      rw [Assoc.get?_set_of_ne (foreign living)]
      exact h.attached t y hown living
  · obtain ⟨hunder', lt', none'⟩ := h.unborn y (List.mem_cons_of_mem _ hy)
    refine ⟨hunder', lt', fun t ht => ?_⟩
    rw [jobs] at ht
    split at ht
    · obtain rfl := inj (Option.some.inj ht)
      exact hmem hy
    · exact none' t ht
  · rw [Assoc.get?_set] at ht
    split at ht
    · next hy =>
      obtain rfl := Option.some.inj ht
      refine ⟨Nat.lt_succ_self _, fun j hj => ?_⟩
      rw [jobs, if_pos rfl] at hj
      rw [hy, Option.some.inj hj]
    · refine ⟨Nat.lt_succ_of_lt (h.known y t ht).1, fun j hj => ?_⟩
      rw [jobs, if_neg (before ht)] at hj
      exact (h.known y t ht).2 j hj
  · rw [jobs] at ht
    split at ht
    · obtain rfl := inj (Option.some.inj ht)
      exact lt
    · exact h.born t y ht

/-- What is to be cancelled next has no task. -/
theorem cancel_of_none (h : Manned job table under next ahead (x :: off) own l)
    (hx : Assoc.get? x table = none) : Manned job table under next ahead off own l := by
  refine { h with
    attached := fun t y hown ht => ?_
    gone := fun y hy => h.gone y (List.mem_cons_of_mem _ hy) }
  obtain ⟨hy, old⟩ := h.attached t y hown ht
  refine ⟨hy, old.imp_right fun hmem => (List.mem_cons.mp hmem).resolve_left ?_⟩
  rintro rfl
  rw [hx] at hy
  cases hy

/-- What is to be cancelled next is cancelled.  Its entry in the table stays until it has ended. -/
theorem cancel_of_some (inj : Function.Injective job)
    (h : Manned job table under next ahead (x :: off) own l) (tick : Ticketed own Q l)
    (hx : Assoc.get? x table = some t) :
    Manned job table under next ahead off own (l.cancel t).1 := by
  have jobs : SameJobs l (l.cancel t).1 := .cancel (.refl l) t
  refine h.change jobs.jobs jobs.evolves.next (fun y => List.mem_cons_of_mem _)
    (fun u y hy hu living => ?_)
    fun u y hown hu => ?_
  · refine (tick.alive_cancel_of_ne ?_).mpr living
    rintro rfl
    obtain rfl := inj ((h.known x u hx).2 _ living.jobOf)
    exact h.gone y List.mem_cons_self hy
  · have hne : u ≠ t := by
      rintro rfl
      exact tick.not_alive_cancel hu
    obtain ⟨hy, old⟩ := h.attached u y hown ((tick.alive_cancel_of_ne hne).mp hu)
    refine ⟨hy, old.imp_right fun hmem => (List.mem_cons.mp hmem).resolve_left ?_⟩
    rintro rfl
    exact hne (Option.some.inj (hy.symm.trans hx))

/-- The task of something else is cancelled. -/
theorem cancel_other (h : Manned job table under next ahead off own l) (tick : Ticketed own Q l)
    (other : ∀ x, l.jobOf t ≠ some (job x)) :
    Manned job table under next ahead off own (l.cancel t).1 := by
  have jobs : SameJobs l (l.cancel t).1 := .cancel (.refl l) t
  refine h.congr jobs.jobs (fun u x => ?_) jobs.evolves.next
  by_cases hu : u = t
  · subst hu
    exact ⟨fun living => absurd living tick.not_alive_cancel,
      fun living => absurd living.jobOf (other x)⟩
  · exact tick.alive_cancel_of_ne hu

/-- What is not under way may be struck off the table.  Entries may only go, and only those of what
is not under way. -/
theorem forget (h : Manned job table under next [] [] own l)
    (kept : ∀ x, under x → Assoc.get? x table' = Assoc.get? x table)
    (fewer : ∀ x t, Assoc.get? x table' = some t → Assoc.get? x table = some t) :
    Manned job table' under next [] [] own l := by
  refine { h with
    alive := fun x hx => ?_
    attached := fun t x hown ht => ?_
    known := fun x t ht => h.known x t (fewer x t ht) }
  · rw [kept x hx]
    exact h.alive x hx
  · obtain ⟨hx, old⟩ := h.attached t x hown ht
    rw [kept x (old.resolve_right List.not_mem_nil)]
    exact ⟨hx, old⟩

theorem empty (none : ∀ x, ¬ under x) :
    Manned job [] under 0 [] [] Option.none ({} : Loop κ η ε ν) where
  alive x hx := absurd hx (none x)
  attached := by
    rintro t x - ⟨st, hst, -⟩
    cases hst
  unborn := nofun
  once := List.nodup_nil
  known := nofun
  gone := nofun
  born := nofun

end Manned

/-! ## Who waits -/

/-- A change after which tasks are what they were and no task waits that did not.  A task that is
not waiting cannot be made to wait by others, so what is known of the waits of all tasks has to be
shown only for the task whose turn it is. -/
structure NoNewWait (l m : Loop κ η ε ν) : Prop extends Evolves l m where
  waits : ∀ t s, m.waitingOn t = some s → l.waitingOn t = some s

namespace NoNewWait

variable {s : Signal}

theorem refl (l : Loop κ η ε ν) : NoNewWait l l :=
  ⟨.refl l, fun _ _ h => h⟩

theorem trans {n : Loop κ η ε ν} (h : NoNewWait l m) (k : NoNewWait m n) : NoNewWait l n :=
  ⟨h.toEvolves.trans k.toEvolves, fun t s hs => h.waits t s (k.waits t s hs)⟩

/-- Who waits is still what it was. -/
theorem jobOf (h : NoNewWait l m) (fresh : l.Fresh) (hs : m.waitingOn t = some s) :
    m.jobOf t = l.jobOf t := by
  obtain ⟨st, hst, -⟩ := Option.bind_eq_some_iff.mp hs
  obtain ⟨old, hold, -⟩ := Option.bind_eq_some_iff.mp (h.waits t s hs)
  have job := jobOf_of_task? hst
  rw [job, h.jobs t _ (fresh.lt_of_jobOf (jobOf_of_task? hold)) job]

theorem of_still (k : Still l m) : NoNewWait l m :=
  ⟨k.evolves, fun t s hs => by rwa [← k.waiting]⟩

/-- What is ready becomes part of the round. -/
theorem gather (l : Loop κ η ε ν) : NoNewWait l { l with ready := [] } :=
  ⟨⟨Nat.le_refl _, fun _ _ _ h => h, fun h => h⟩, fun _ _ h => h⟩

theorem create (fresh : l.Fresh) (k : κ) : NoNewWait l (l.create k).1 :=
  ⟨evolves_create l k, fun t s hs => by rwa [waitingOn_create fresh] at hs⟩

theorem follow (l : Loop κ η ε ν) (s : Signal) (f : Follower η) : NoNewWait l (l.follow s f) :=
  have same : SameTasks l (l.follow s f) := .follow (.refl l) s f
  ⟨same.evolves, fun t s' hs => by rwa [waitingOn_of_sameTasks same] at hs⟩

theorem wake (hst : l.task? t = some st) :
    NoNewWait l (l.setTask t { st with waiting := none, mustCancel := false }) := by
  have jobs : SameJobs l (l.setTask t { st with waiting := none, mustCancel := false }) :=
    .setTask (.refl l) (show l.jobOf t = some st.job from jobOf_of_task? hst)
  refine ⟨jobs.evolves, fun u s hs => ?_⟩
  rw [waitingOn_setTask] at hs
  split at hs
  · cases hs
  · exact hs

theorem finish (l : Loop κ η ε ν) (t : Nat) (e : Ending ε ν) : NoNewWait l (l.finish t e) := by
  refine ⟨evolves_finish l t e, fun u s hs => ?_⟩
  rw [waitingOn_finish] at hs
  split at hs
  · cases hs
  · exact hs

end NoNewWait

end Loop

end PikeAnalysis.Concurrency
