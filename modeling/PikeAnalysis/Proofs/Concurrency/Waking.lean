import Mathlib.Data.Multiset.AddSub
import Mathlib.Data.Multiset.Count
import PikeAnalysis.Proofs.Concurrency.Interleaving
import PikeAnalysis.Proofs.Concurrency.Tasks

/-!
# What is still to happen

Whatever is ready, and whatever becomes ready once a signal is raised, is still to happen.  Raising
a signal changes nothing about it, and following one adds a single thing (`expected_raise`,
`expected_follow`).  A loop is punctual (`Loop.Punctual`) if no task is to be started twice, and if
a task is gone on with once, and only after what it waits for.

It is counted rather than listed, because all that matters is how often a thing will happen: a task
that is gone on with twice, or that is forgotten, is the mistake that this module excludes.
`expected` counts what is ready or follows a signal that has not been raised, and `pending` adds
what is left of the round.  Both are sums over the loop's own data, so an operation changes them by
what it adds, and most add nothing.

Changes come in two strengths.  A change is still (`Still`) if it leaves tasks and counts alone and
raises no ends of tasks, and mild (`Mild`) if besides it is known which signals it raises; both
compose.  What adds to the counts is dealt with one by one: a follower, a new task, a task that
begins, goes on, starts to wait, or ends.
-/

namespace PikeAnalysis.Concurrency

/-- Of what is left of a round, anything may be done next. -/
theorem multiset_middle {η : Type} {i : Ready η} {before after : List (Ready η)} :
    ((before ++ i :: after : List (Ready η)) : Multiset (Ready η)) =
      i ::ₘ ((before ++ after : List (Ready η)) : Multiset (Ready η)) :=
  Multiset.coe_eq_coe.2 List.perm_middle

namespace Loop

variable {κ η ε ν : Type} {l m : Loop κ η ε ν} {t u : Nat} {s : Signal}
  {f : Follower η} {i : Ready η} {job : κ}

open Classical in
/-- How often something is ready or becomes ready with a signal.  Raising a signal moves its
followers from one part of the sum to the other. -/
noncomputable def expected (l : Loop κ η ε ν) (i : Ready η) : Nat :=
  l.ready.count i +
    match i with
    | .follow f s => (l.signalState s).followers.count f
    | _ => 0

theorem expected_congr (hready : m.ready = l.ready) (hsignals : m.signals = l.signals)
    (i : Ready η) : m.expected i = l.expected i := by
  simp only [expected, signalState, hready, hsignals]

open Classical in
theorem expected_enqueue (l : Loop κ η ε ν) (items : List (Ready η)) (i : Ready η) :
    (l.enqueue items).expected i = l.expected i + items.count i := by
  have hstate (s : Signal) : (l.enqueue items).signalState s = l.signalState s := rfl
  have hready : (l.enqueue items).ready = l.ready ++ items := rfl
  simp only [expected, hstate, hready, List.count_append]
  omega

open Classical in
theorem count_map_follow (fs : List (Follower η)) (s : Signal) (i : Ready η) :
    (fs.map fun f => Ready.follow f s).count i =
      match i with
      | .follow f s' => if s' = s then fs.count f else 0
      | _ => 0 := by
  induction fs with
  | nil => cases i <;> simp
  | cons g rest ih =>
    rw [List.map_cons, List.count_cons, ih]
    cases i with
    | start t => simp
    | timer id => simp
    | follow f s' =>
      by_cases hs : s' = s
      · subst hs
        simp [List.count_cons]
      · simp [hs, Ne.symm hs]

@[simp] theorem expected_raise (l : Loop κ η ε ν) (s : Signal) (e : Ending ε ν) (i : Ready η) :
    (l.raise s e).expected i = l.expected i := by
  cases hending : (l.signalState s).ending with
  | some e' => rw [raise_of_ended hending]
  | none =>
    have hstate (s' : Signal) : (l.raise s e).signalState s' =
        if s' = s then { ending := some e } else l.signalState s' := by
      rw [signalState_raise]
      simp [hending]
    have hready : (l.raise s e).ready =
        l.ready ++ (l.signalState s).followers.map fun f => .follow f s := by
      rw [raise_of_open hending]
      rfl
    simp only [expected, hstate, hready, List.count_append, count_map_follow]
    cases i with
    | start t => rfl
    | timer id => rfl
    | follow f s' =>
      by_cases hs : s' = s
      · subst hs
        simp
      · simp [hs]

open Classical in
theorem expected_follow (l : Loop κ η ε ν) (s : Signal) (f : Follower η) (i : Ready η) :
    (l.follow s f).expected i = l.expected i + if i = .follow f s then 1 else 0 := by
  cases hending : (l.signalState s).ending with
  | some e' =>
    rw [follow_of_ended hending, expected_enqueue, List.count_singleton]
    simp only [beq_iff_eq, eq_comm (a := i)]
  | none =>
    have hstate (s' : Signal) : (l.follow s f).signalState s' =
        if s' = s then { followers := (l.signalState s).followers ++ [f] }
        else l.signalState s' := by
      rw [signalState_follow]
      simp [hending]
    have hready : (l.follow s f).ready = l.ready := by
      rw [follow_of_open hending]
    simp only [expected, hstate, hready]
    cases i with
    | start t => simp
    | timer id => simp
    | follow g s' =>
      by_cases hs : s' = s
      · subst hs
        by_cases hg : g = f
        · subst hg
          simp [List.count_append, Nat.add_assoc]
        · simp [List.count_append, hg, Ne.symm hg]
      · simp [hs]

open Classical in
theorem expected_create (l : Loop κ η ε ν) (job : κ) (i : Ready η) :
    (l.create job).1.expected i = l.expected i + if i = .start l.nextTask then 1 else 0 := by
  rw [create, expected_enqueue, List.count_singleton]
  have hsame := expected_congr (l := l)
    (m := { l with
      nextTask := l.nextTask + 1
      tasks := l.tasks ++ [(l.nextTask, { job := job : TaskState κ })] }) rfl rfl i
  rw [hsame]
  simp only [beq_iff_eq, eq_comm (a := i)]

open Classical in
/-- How often something is still to happen, the rest of a round included.  The order of what is left
does not matter, so it is a multiset. -/
noncomputable def pending (round : Multiset (Ready η)) (l : Loop κ η ε ν) (i : Ready η) : Nat :=
  round.count i + l.expected i

variable {Q Q' : Multiset (Ready η)}

open Classical in
theorem pending_cons (i j : Ready η) (Q : Multiset (Ready η)) (l : Loop κ η ε ν) :
    pending (i ::ₘ Q) l j = pending Q l j + if j = i then 1 else 0 := by
  rw [pending, pending, Multiset.count_cons]
  omega

theorem pending_congr (h : ∀ i, m.expected i = l.expected i) (i : Ready η) :
    pending Q m i = pending Q l i := by
  rw [pending, pending, h]

/-- What is ready may be counted as part of the round. -/
theorem pending_gather (Q : Multiset (Ready η)) (l : Loop κ η ε ν) (i : Ready η) :
    pending (Q + (l.ready : Multiset (Ready η))) { l with ready := [] } i = pending Q l i := by
  have hstate (s : Signal) : signalState { l with ready := [] } s = l.signalState s := rfl
  simp only [pending, expected, hstate, Multiset.count_add, Multiset.coe_count, List.count_nil]
  omega

/-! ## Punctual loops -/

/-- What a task waits for. -/
def waitingOn (l : Loop κ η ε ν) (t : Nat) : Option Signal :=
  (l.task? t).bind (·.waiting)

/-- A loop in which every task starts and goes on once and in time, in the turn of a task or between
turns.  A task that is there is gone on with at most once, and after what it waits for; the task
`own` in whose turn we are waits for nothing, so that nothing is to happen to it at all. -/
structure Punctual (own : Option Nat) (Q : Multiset (Ready η)) (l : Loop κ η ε ν) : Prop where
  fresh : l.Fresh
  /-- No task is started twice. -/
  once : ∀ t, pending Q l (.start t) ≤ 1
  /-- A task that is to be started waits for nothing, and is not the one whose turn it is. -/
  starts : ∀ t, 0 < pending Q l (.start t) → t < l.nextTask ∧ own ≠ some t ∧ l.waitingOn t = none
  /-- A task goes on once, after what it waits for. -/
  resumes : ∀ t s, 0 < pending Q l (.follow (.resume t) s) →
    pending Q l (.follow (.resume t) s) ≤ 1 ∧ l.waitingOn t = some s
  turn : ∀ t, own = some t → l.waitingOn t = none
  /-- What follows a signal is ready only once the signal has been raised. -/
  raised : ∀ f s, .follow f s ∈ Q ∨ .follow f s ∈ l.ready → l.ending? s ≠ none
  ended : ∀ t, l.ending? (.ended t) ≠ none → t < l.nextTask ∧ l.task? t = none

namespace Punctual

variable {own : Option Nat}

theorem drop (h : Punctual own (i ::ₘ Q) l) : Punctual own Q l := by
  have le (j : Ready η) : pending Q l j ≤ pending (i ::ₘ Q) l j := by
    rw [pending_cons]
    omega
  exact
    { h with
      once := fun t => Nat.le_trans (le _) (h.once t)
      starts := fun t ht => h.starts t (Nat.lt_of_lt_of_le ht (le _))
      resumes := fun t s ht =>
        let hr := h.resumes t s (Nat.lt_of_lt_of_le ht (le _))
        ⟨Nat.le_trans (le _) hr.1, hr.2⟩
      raised := fun f s hs => h.raised f s (hs.imp_left (Multiset.mem_cons_of_mem ·)) }

theorem gather (h : Punctual own Q l) :
    Punctual own (Q + (l.ready : Multiset (Ready η))) { l with ready := [] } where
  fresh := h.fresh
  once t := by
    rw [pending_gather]
    exact h.once t
  starts t := by
    rw [pending_gather]
    exact h.starts t
  resumes t s := by
    rw [pending_gather]
    exact h.resumes t s
  turn := h.turn
  raised f s hs := by
    rcases hs with hs | hs
    · rcases Multiset.mem_add.1 hs with hs | hs
      · exact h.raised f s (.inl hs)
      · exact h.raised f s (.inr (Multiset.mem_coe.1 hs))
    · cases hs
  ended := h.ended

/-- A task that has a job still has not ended. -/
theorem open_of_jobOf (h : Punctual own Q l) {t : Nat} {job : κ} (hjob : l.jobOf t = some job) :
    l.ending? (.ended t) = none := by
  by_contra ended
  rw [jobOf, (h.ended t ended).2] at hjob
  cases hjob

end Punctual

/-! ## Changes that add nothing -/

/-- A change that leaves the tasks and what is still to happen to them alone, and ends none.  A
punctual loop stays punctual by it. -/
structure Still (l m : Loop κ η ε ν) : Prop where
  jobs : ∀ t, m.jobOf t = l.jobOf t
  waiting : ∀ t, m.waitingOn t = l.waitingOn t
  next : m.nextTask = l.nextTask
  starts : ∀ t, m.expected (.start t) = l.expected (.start t)
  follows : ∀ f s, m.expected (.follow f s) = l.expected (.follow f s)
  ready : ∀ f s, .follow f s ∈ m.ready → .follow f s ∈ l.ready ∨ m.ending? s ≠ none
  stays : ∀ s e, l.ending? s = some e → m.ending? s = some e
  ends : ∀ t e, m.ending? (.ended t) = some e → l.ending? (.ended t) = some e

namespace Still

variable {n : Loop κ η ε ν}

theorem refl (l : Loop κ η ε ν) : Still l l :=
  ⟨fun _ => rfl, fun _ => rfl, rfl, fun _ => rfl, fun _ _ => rfl,
    fun _ _ h => .inl h, fun _ _ h => h, fun _ _ h => h⟩

theorem pending_follow (h : Still l m) (Q : Multiset (Ready η)) (f : Follower η) (s : Signal) :
    pending Q m (.follow f s) = pending Q l (.follow f s) := by
  rw [pending, pending, h.follows]

theorem trans (h : Still l m) (k : Still m n) : Still l n where
  jobs t := (k.jobs t).trans (h.jobs t)
  waiting t := (k.waiting t).trans (h.waiting t)
  next := k.next.trans h.next
  starts t := (k.starts t).trans (h.starts t)
  follows f s := (k.follows f s).trans (h.follows f s)
  ready f s hs := by
    rcases k.ready f s hs with hs | hs
    · rcases h.ready f s hs with hs | hs
      · exact .inl hs
      · obtain ⟨e, he⟩ := Option.ne_none_iff_exists'.1 hs
        exact .inr (by simp [k.stays s e he])
    · exact .inr hs
  stays s e hs := k.stays s e (h.stays s e hs)
  ends t e he := h.ends t e (k.ends t e he)

theorem task?_eq_none (h : Still l m) {t : Nat} (ht : l.task? t = none) : m.task? t = none := by
  have hjob := h.jobs t
  rw [jobOf, jobOf, ht, Option.map_none, Option.map_eq_none_iff] at hjob
  exact hjob

theorem fresh (h : Still l m) (fresh : l.Fresh) : m.Fresh := by
  intro t ht
  rw [h.next]
  exact fresh t (by rwa [← h.jobs t])

theorem evolves (h : Still l m) : Evolves l m :=
  ⟨Nat.le_of_eq h.next.symm, fun t job _ hj => by rwa [← h.jobs t], h.fresh⟩

end Still

/-- What stays still stays punctual. -/
theorem Punctual.still {own : Option Nat} (h : Punctual own Q l) (k : Still l m) :
    Punctual own Q m where
  fresh := k.fresh h.fresh
  once t := by
    rw [pending, k.starts]
    exact h.once t
  starts t := by
    rw [pending, k.starts, k.next, k.waiting]
    exact h.starts t
  resumes t s := by
    rw [pending, k.follows, k.waiting]
    exact h.resumes t s
  turn t ht := by
    rw [k.waiting]
    exact h.turn t ht
  raised f s hs := by
    have keep (hl : l.ending? s ≠ none) : m.ending? s ≠ none := by
      obtain ⟨e, he⟩ := Option.ne_none_iff_exists'.1 hl
      simp [k.stays s e he]
    rcases hs with hs | hs
    · exact keep (h.raised f s (.inl hs))
    · rcases k.ready f s hs with hs | hs
      · exact keep (h.raised f s (.inr hs))
      · exact hs
  ended t ht := by
    obtain ⟨e, he⟩ := Option.ne_none_iff_exists'.1 ht
    obtain ⟨hlt, hnone⟩ := h.ended t (by simp [k.ends t e he])
    exact ⟨k.next ▸ hlt, k.task?_eq_none hnone⟩

/-- A change that leaves the tasks and what is still to happen alone, and raises only some signals.
`new` says which signals may be raised by it, and how. -/
structure Mild (new : Signal → Ending ε ν → Prop) (l m : Loop κ η ε ν) : Prop where
  jobs : ∀ t, m.jobOf t = l.jobOf t
  waiting : ∀ t, m.waitingOn t = l.waitingOn t
  next : m.nextTask = l.nextTask
  nextTicket : l.nextTicket ≤ m.nextTicket
  timeless : l.live = [] ∧ l.timers.slots = #[] ∧ l.missing = [] →
    m.live = [] ∧ m.timers.slots = #[] ∧ m.missing = []
  expected : ∀ i, m.expected i = l.expected i
  ready : ∀ f s, .follow f s ∈ m.ready → .follow f s ∈ l.ready ∨ m.ending? s ≠ none
  stays : ∀ s e, l.ending? s = some e → m.ending? s = some e
  raises : ∀ s e, m.ending? s = some e → l.ending? s = some e ∨ new s e

variable {new : Signal → Ending ε ν → Prop} {n : Loop κ η ε ν}

namespace Mild

theorem refl (l : Loop κ η ε ν) : Mild new l l :=
  ⟨fun _ => rfl, fun _ => rfl, rfl, Nat.le_refl _, id, fun _ => rfl, fun _ _ h => .inl h,
    fun _ _ h => h, fun _ _ h => .inl h⟩

theorem trans (h : Mild new l m) (k : Mild new m n) : Mild new l n where
  jobs t := (k.jobs t).trans (h.jobs t)
  waiting t := (k.waiting t).trans (h.waiting t)
  next := k.next.trans h.next
  nextTicket := Nat.le_trans h.nextTicket k.nextTicket
  timeless hl := k.timeless (h.timeless hl)
  expected i := (k.expected i).trans (h.expected i)
  ready f s hs := by
    rcases k.ready f s hs with hs | hs
    · rcases h.ready f s hs with hs | hs
      · exact .inl hs
      · obtain ⟨e, he⟩ := Option.ne_none_iff_exists'.1 hs
        exact .inr (by simp [k.stays s e he])
    · exact .inr hs
  stays s e hs := k.stays s e (h.stays s e hs)
  raises s e hs := by
    rcases k.raises s e hs with hs | hs
    · exact h.raises s e hs
    · exact .inr hs

theorem mono {new' : Signal → Ending ε ν → Prop} (h : Mild new l m)
    (le : ∀ s e, new s e → new' s e) : Mild new' l m :=
  { h with raises := fun s e hs => (h.raises s e hs).imp_right (le s e) }

theorem pending (h : Mild new l m) (i : Ready η) : pending Q m i = pending Q l i :=
  pending_congr h.expected i

end Mild

/-- A mild change leaves the tasks still if it raises no ends of tasks. -/
theorem Mild.still (k : Mild new l m) (tame : ∀ s e, new s e → ∀ t, s ≠ .ended t) : Still l m where
  jobs := k.jobs
  waiting := k.waiting
  next := k.next
  starts _ := k.expected _
  follows _ _ := k.expected _
  ready := k.ready
  stays := k.stays
  ends t e he := (k.raises _ e he).resolve_right fun hnew => tame _ e hnew t rfl

theorem waitingOn_of_sameTasks (h : SameTasks l m) (t : Nat) : m.waitingOn t = l.waitingOn t := by
  rw [waitingOn, waitingOn, h.task? t]

theorem ending?_raise (l : Loop κ η ε ν) (s s' : Signal) (e : Ending ε ν) :
    (l.raise s e).ending? s' = if s' = s ∧ l.ending? s = none then some e else l.ending? s' := by
  rw [ending?, signalState_raise]
  exact apply_ite SignalState.ending _ _ _

theorem ending?_follow (l : Loop κ η ε ν) (s s' : Signal) (f : Follower η) :
    (l.follow s f).ending? s' = l.ending? s' := by
  rw [ending?, signalState_follow]
  split
  · next h =>
    obtain ⟨rfl, hnone⟩ := h
    exact hnone.symm
  · rfl

theorem mild_raise (l : Loop κ η ε ν) (s : Signal) (e : Ending ε ν) :
    Mild (fun s' e' => s' = s ∧ e' = e) l (l.raise s e) where
  jobs := (SameJobs.raise (.refl l) s e).jobs
  waiting := waitingOn_of_sameTasks (.raise (.refl l) s e)
  next := (SameTasks.raise (.refl l) s e).next
  nextTicket := by
    cases hending : (l.signalState s).ending with
    | some e' => rw [raise_of_ended hending]
    | none =>
      rw [raise_of_open hending]
      exact Nat.le_refl _
  timeless hl := by
    cases hending : (l.signalState s).ending with
    | some e' => rwa [raise_of_ended hending]
    | none =>
      rw [raise_of_open hending]
      exact hl
  expected := expected_raise l s e
  ready f s' hs := by
    rcases mem_ready_raise hs with hs | ⟨g, -, hg⟩
    · exact .inl hs
    · obtain ⟨-, rfl⟩ := Ready.follow.inj hg
      right
      rw [ending?_raise]
      split
      · simp
      · next hne => simpa using hne
  stays s' e' hs := by
    rw [ending?_raise]
    split
    · next h =>
      obtain ⟨rfl, hnone⟩ := h
      rw [hnone] at hs
      cases hs
    · exact hs
  raises s' e' hs := by
    rw [ending?_raise] at hs
    split at hs
    · next h => exact .inr ⟨h.1, (Option.some.inj hs).symm⟩
    · exact .inl hs

theorem mild_newTicket (l : Loop κ η ε ν) : Mild new l l.newTicket.1 :=
  { Mild.refl l with nextTicket := Nat.le_succ _ }

theorem mild_setTask {t : Nat} {st st' : TaskState κ} (hst : l.task? t = some st)
    (job : st'.job = st.job) (waiting : st'.waiting = st.waiting) : Mild new l (l.setTask t st') :=
  { Mild.refl l with
    jobs := fun u => by
      rw [jobOf, task?_setTask]
      split
      · next hu => rw [hu, jobOf_of_task? hst, Option.map_some, job]
      · rfl
    waiting := fun u => by
      rw [waitingOn, task?_setTask]
      split
      · next hu => rw [hu, waitingOn, hst, Option.bind_some, Option.bind_some, waiting]
      · rfl }

/-- Cancelling raises nothing but signals that tasks wait for, as cancelled, and no ends of tasks.
A task that waits for a task cancels that one instead, and so on; hence the induction on the fuel,
which bounds how far this goes. -/
theorem mild_cancelTask (fuel : Nat) (l : Loop κ η ε ν) (t : Nat) :
    Mild (fun s e => e = .cancelled ∧ (∀ u, s ≠ .ended u) ∧ ∃ u, l.waitingOn u = some s) l
      (cancelTask fuel l t).1 := by
  induction fuel generalizing l t with
  | zero => exact .refl l
  | succ fuel ih =>
    unfold cancelTask
    split
    · exact .refl l
    · next st hst =>
      -- To count the request to cancel, and to mark the task, touches no signal.
      have counted : Mild (fun s e => e = .cancelled ∧ (∀ u, s ≠ .ended u) ∧
          ∃ u, l.waitingOn u = some s) l (l.setTask t { st with cancels := st.cancels + 1 }) :=
        mild_setTask hst rfl rfl
      have hset : (l.setTask t { st with cancels := st.cancels + 1 }).task? t =
          some { st with cancels := st.cancels + 1 } := by
        rw [task?_setTask, if_pos rfl]
      have marks :
          Mild (fun s e => e = .cancelled ∧ (∀ u, s ≠ .ended u) ∧ ∃ u, l.waitingOn u = some s)
          (l.setTask t { st with cancels := st.cancels + 1 })
          ((l.setTask t { st with cancels := st.cancels + 1 }).setTask t
            { st with cancels := st.cancels + 1, mustCancel := true }) :=
        mild_setTask hset rfl rfl
      have marked := counted.trans marks
      have hwaiting (s : Signal) : st.waiting = some s → l.waitingOn t = some s := by
        rw [waitingOn, hst, Option.bind_some]
        exact id
      dsimp only
      split
      · exact marked
      · next other _ =>
        split
        · refine counted.trans ((ih _ other).mono ?_)
          rintro s e ⟨he, hs, u, hu⟩
          rw [counted.waiting u] at hu
          exact ⟨he, hs, u, hu⟩
        · exact marked
      · next s hne hs =>
        split
        · exact marked
        · refine counted.trans ((mild_raise _ s .cancelled).mono ?_)
          rintro s' e ⟨rfl, rfl⟩
          exact ⟨rfl, fun u hu => hne u hu, t, hwaiting s' hs⟩

theorem mild_cancel (l : Loop κ η ε ν) (t : Nat) :
    Mild (fun s e => e = .cancelled ∧ (∀ u, s ≠ .ended u) ∧ ∃ u, l.waitingOn u = some s) l
      (l.cancel t).1 :=
  mild_cancelTask _ l t

/-! ## Changes that add something -/

open Classical in
theorem pending_follow (Q : Multiset (Ready η)) (l : Loop κ η ε ν) (s : Signal) (f : Follower η)
    (i : Ready η) :
    pending Q (l.follow s f) i = pending Q l i + if i = .follow f s then 1 else 0 := by
  rw [pending, pending, expected_follow]
  omega

open Classical in
theorem pending_create (Q : Multiset (Ready η)) (l : Loop κ η ε ν) (job : κ) (i : Ready η) :
    pending Q (l.create job).1 i = pending Q l i + if i = .start l.nextTask then 1 else 0 := by
  rw [pending, pending, expected_create]
  omega

theorem waitingOn_eq_none_of_task? {t : Nat} (h : l.task? t = none) : l.waitingOn t = none := by
  rw [waitingOn, h, Option.bind_none]

theorem waitingOn_of_task? {t : Nat} {st : TaskState κ} (h : l.task? t = some st) :
    l.waitingOn t = st.waiting := by
  rw [waitingOn, h, Option.bind_some]

theorem waitingOn_create (h : l.Fresh) (job : κ) (t : Nat) :
    (l.create job).1.waitingOn t = l.waitingOn t := by
  rw [waitingOn, waitingOn, task?_create l job h.task?_next]
  split
  · next ht => rw [ht, h.task?_next, Option.bind_some, Option.bind_none]
  · rfl

theorem ready_follow (l : Loop κ η ε ν) (s : Signal) (f : Follower η) {g : Follower η} {s' : Signal}
    (h : .follow g s' ∈ (l.follow s f).ready) : .follow g s' ∈ l.ready ∨ l.ending? s' ≠ none := by
  rcases mem_ready_follow h with h | ⟨hs, h⟩
  · exact .inl h
  · obtain ⟨-, rfl⟩ := Ready.follow.inj h
    exact .inr hs

theorem nextTicket_follow (l : Loop κ η ε ν) (s : Signal) (f : Follower η) :
    (l.follow s f).nextTicket = l.nextTicket := by
  cases hending : (l.signalState s).ending with
  | some e => rw [follow_of_ended hending, enqueue]
  | none => rw [follow_of_open hending]

namespace Punctual

variable {own : Option Nat}

theorem create (h : Punctual own Q l) (job : κ) (hown : own ≠ some l.nextTask) :
    Punctual own Q (l.create job).1 := by
  have hnext : (l.create job).1.nextTask = l.nextTask + 1 := rfl
  -- The first turn of the new task is the only thing that becomes ready.
  have other (i : Ready η) (hi : i ≠ .start l.nextTask) :
      pending Q (l.create job).1 i = pending Q l i := by
    rw [pending_create, if_neg hi, Nat.add_zero]
  exact
    { fresh := (evolves_create l job).fresh h.fresh
      once := fun t => by
        rw [pending_create]
        split
        · next ht =>
          obtain rfl : t = l.nextTask := Ready.start.inj ht
          have := h.starts l.nextTask
          omega
        · exact h.once t
      starts := fun t ht => by
        rw [waitingOn_create h.fresh, hnext]
        by_cases hn : t = l.nextTask
        · subst hn
          exact ⟨by omega, hown, waitingOn_eq_none_of_task? h.fresh.task?_next⟩
        · rw [other _ (by simpa using hn)] at ht
          obtain ⟨hlt, hrest⟩ := h.starts t ht
          exact ⟨by omega, hrest⟩
      resumes := fun t s => by
        rw [other (.follow (.resume t) s) nofun, waitingOn_create h.fresh]
        exact h.resumes t s
      turn := fun t ht => by
        rw [waitingOn_create h.fresh]
        exact h.turn t ht
      raised := fun f s hs => h.raised f s (hs.imp_right fun hs => by
        rcases List.mem_append.1 hs with hs | hs
        · exact hs
        · simp at hs)
      ended := fun t ht => by
        obtain ⟨hlt, hnone⟩ := h.ended t ht
        refine ⟨by omega, ?_⟩
        rw [task?_create l job h.fresh.task?_next, if_neg (by omega)]
        exact hnone }

/-- A follower that is no wait of a task can be added.  Only followers that resume a task are
counted. -/
theorem follow (h : Punctual own Q l) (s : Signal) {f : Follower η} (hf : ∀ t, f ≠ .resume t) :
    Punctual own Q (l.follow s f) := by
  have same : SameTasks l (l.follow s f) := .follow (.refl l) s f
  have other (i : Ready η) (hi : i ≠ .follow f s) : pending Q (l.follow s f) i = pending Q l i := by
    rw [pending_follow, if_neg hi, Nat.add_zero]
  exact
    { fresh := same.evolves.fresh h.fresh
      once := fun t => by
        rw [other (.start t) nofun]
        exact h.once t
      starts := fun t => by
        rw [other (.start t) nofun, same.next, waitingOn_of_sameTasks same]
        exact h.starts t
      resumes := fun t s' => by
        rw [other _ fun he => hf t (Ready.follow.inj he).1.symm, waitingOn_of_sameTasks same]
        exact h.resumes t s'
      turn := fun t ht => by
        rw [waitingOn_of_sameTasks same]
        exact h.turn t ht
      raised := fun g s' hs => by
        rw [ending?_follow]
        rcases hs with hs | hs
        · exact h.raised g s' (.inl hs)
        · rcases ready_follow l s f hs with hs | hs
          · exact h.raised g s' (.inr hs)
          · exact hs
      ended := fun t ht => by
        rw [ending?_follow] at ht
        rw [same.next, same.task?]
        exact h.ended t ht }

end Punctual

/-! ## Turns -/

theorem waitingOn_setTask (l : Loop κ η ε ν) (t u : Nat) (st : TaskState κ) :
    (l.setTask t st).waitingOn u = if u = t then st.waiting else l.waitingOn u := by
  rw [waitingOn, task?_setTask]
  split <;> rfl

theorem pending_setTask (l : Loop κ η ε ν) (t : Nat) (st : TaskState κ) (i : Ready η) :
    pending Q (l.setTask t st) i = pending Q l i :=
  pending_congr (fun _ => rfl) i

namespace Punctual

/-- A task whose turn it is is not to be gone on with. -/
theorem not_resumed {own : Option Nat} (h : Punctual own Q l) {t : Nat} (ht : l.waitingOn t = none)
    (s : Signal) : ¬ 0 < pending Q l (.follow (.resume t) s) := by
  intro hs
  rw [(h.resumes t s hs).2] at ht
  cases ht

/-- A task begins its first turn.  It waited for nothing, so there was nothing to miss. -/
theorem begin {t : Nat} (h : Punctual none (.start t ::ₘ Q) l) : Punctual (some t) Q l := by
  have hcount := h.once t
  have hstart := h.starts t
  rw [pending_cons, if_pos rfl] at hcount hstart
  exact
    { h.drop with
      starts := fun u hu => by
        obtain ⟨hlt, -, hnone⟩ := h.drop.starts u hu
        refine ⟨hlt, ?_, hnone⟩
        intro htu
        obtain rfl := Option.some.inj htu
        omega
      turn := fun u hu => by
        obtain rfl := Option.some.inj hu
        exact (hstart (by omega)).2.2 }

/-- A task begins a turn after what it waited for. -/
theorem wake {t : Nat} {s : Signal} {st : TaskState κ}
    (h : Punctual none (.follow (.resume t) s ::ₘ Q) l)
    (hst : l.task? t = some st) :
    l.waitingOn t = some s ∧
      Punctual (some t) Q (l.setTask t { st with waiting := none, mustCancel := false }) := by
  obtain ⟨hcount, hwaiting⟩ := h.resumes t s (by rw [pending_cons, if_pos rfl]; omega)
  rw [pending_cons, if_pos rfl] at hcount
  -- A task waits for one signal and is woken once, so no other waking of it is pending.
  have hnone (s' : Signal) : ¬ 0 < pending Q l (.follow (.resume t) s') := by
    intro hs'
    have hsame := (h.drop.resumes t s' hs').2
    rw [hwaiting] at hsame
    obtain rfl := Option.some.inj hsame
    omega
  have hjob : l.jobOf t = some st.job := jobOf_of_task? hst
  have same : SameJobs l (l.setTask t { st with waiting := none, mustCancel := false }) :=
    .setTask (.refl l) hjob
  refine ⟨hwaiting, { h.drop with
    fresh := same.evolves.fresh h.fresh
    once := fun u => ?_
    starts := fun u hu => ?_
    resumes := fun u s' hu => ?_
    turn := fun u hu => ?_
    ended := fun u hu => ?_ }⟩
  · rw [pending_setTask]
    exact h.drop.once u
  · rw [pending_setTask] at hu
    obtain ⟨hlt, -, hw⟩ := h.drop.starts u hu
    have hne : u ≠ t := by
      rintro rfl
      rw [hwaiting] at hw
      cases hw
    refine ⟨hlt, fun he => hne (Option.some.inj he).symm, ?_⟩
    rw [waitingOn_setTask, if_neg hne]
    exact hw
  · rw [pending_setTask] at hu ⊢
    have hne : u ≠ t := by
      rintro rfl
      exact hnone s' hu
    rw [waitingOn_setTask, if_neg hne]
    exact h.drop.resumes u s' hu
  · rw [waitingOn_setTask, if_pos (Option.some.inj hu).symm]
  · obtain ⟨hlt, hended⟩ := h.ended u hu
    refine ⟨hlt, ?_⟩
    rw [task?_setTask, if_neg]
    · exact hended
    · rintro rfl
      rw [hst] at hended
      cases hended

end Punctual

/-- A loop in which a task waits for a signal from now on.  The task follows the signal, or goes on
at once if it has been raised. -/
def asleep (l : Loop κ η ε ν) (t : Nat) (st : TaskState κ) (s : Signal) : Loop κ η ε ν :=
  (l.setTask t { st with waiting := some s, mustCancel := false }).follow s (.resume t)

theorem waitingOn_asleep (l : Loop κ η ε ν) (t u : Nat) (st : TaskState κ) (s : Signal) :
    (l.asleep t st s).waitingOn u = if u = t then some s else l.waitingOn u := by
  rw [asleep, waitingOn_of_sameTasks (.follow (.refl _) s _), waitingOn_setTask]

open Classical in
theorem pending_asleep (l : Loop κ η ε ν) (t : Nat) (st : TaskState κ) (s : Signal) (i : Ready η) :
    pending Q (l.asleep t st s) i =
      pending Q l i + if i = .follow (.resume t) s then 1 else 0 := by
  rw [asleep, pending_follow, pending_setTask]

theorem ending?_asleep (l : Loop κ η ε ν) (t : Nat) (st : TaskState κ) (s s' : Signal) :
    (l.asleep t st s).ending? s' = l.ending? s' := by
  rw [asleep, ending?_follow]
  rfl

theorem sameJobs_asleep {t : Nat} {st : TaskState κ} (hst : l.task? t = some st) (s : Signal) :
    SameJobs l (l.asleep t st s) := by
  have hjob : l.jobOf t = some st.job := jobOf_of_task? hst
  exact ((SameJobs.refl l).setTask (w := { st with waiting := some s, mustCancel := false })
    hjob).follow s (.resume t)

theorem nextTicket_asleep (l : Loop κ η ε ν) (t : Nat) (st : TaskState κ) (s : Signal) :
    (l.asleep t st s).nextTicket = l.nextTicket := by
  rw [asleep, nextTicket_follow]
  rfl

/-- A task starts to wait, and if it is to be cancelled what it waits for is cancelled at once.
That is so because a mark that was made while it ran is acted upon when it waits next. -/
theorem mild_suspend {t : Nat} {st : TaskState κ} (hst : l.task? t = some st) (s : Signal) :
    Mild (fun s' e => e = .cancelled ∧ (∀ u, s' ≠ .ended u) ∧
        ∃ u, (l.asleep t st s).waitingOn u =
          some s') (l.asleep t st s) (Machine.suspend l t s) := by
  rw [Machine.suspend, hst]
  dsimp only
  split
  · split
    · exact mild_cancel (l.asleep t st _) _
    · next hne =>
      refine (mild_raise (l.asleep t st s) s .cancelled).mono ?_
      rintro s' e ⟨rfl, rfl⟩
      refine ⟨rfl, fun u hu => hne u hu, t, ?_⟩
      rw [waitingOn_asleep, if_pos rfl]
  · exact .refl (l.asleep t st s)

namespace Punctual

theorem asleep {t : Nat} (h : Punctual (some t) Q l) {st : TaskState κ} (hst : l.task? t = some st)
    (s : Signal) : Punctual none Q (l.asleep t st s) := by
  have hturn := h.turn t rfl
  have same := sameJobs_asleep hst s
  have other (i : Ready η) (hi : i ≠ .follow (.resume t) s) :
      pending Q (l.asleep t st s) i = pending Q l i := by
    rw [pending_asleep, if_neg hi, Nat.add_zero]
  exact
    { fresh := same.evolves.fresh h.fresh
      once := fun u => by
        rw [other (.start u) nofun]
        exact h.once u
      starts := fun u hu => by
        rw [other (.start u) nofun] at hu
        obtain ⟨hlt, hown, hw⟩ := h.starts u hu
        rw [same.next, waitingOn_asleep, if_neg fun he => hown (congrArg some he.symm)]
        exact ⟨hlt, nofun, hw⟩
      resumes := fun u s' hu => by
        rw [waitingOn_asleep]
        -- The task that falls asleep was in its turn, so no other waking of it is pending.
        by_cases hut : u = t
        · subst hut
          have hnone := h.not_resumed hturn s'
          by_cases hs : s' = s
          · subst hs
            rw [pending_asleep, if_pos rfl, if_pos rfl]
            exact ⟨by omega, rfl⟩
          · rw [other _ (by simpa using hs)] at hu
            exact absurd hu hnone
        · rw [other _ (by simp [hut])] at hu ⊢
          rw [if_neg hut]
          exact h.resumes u s' hu
      turn := nofun
      raised := fun f s' hs => by
        rw [ending?_asleep]
        rcases hs with hs | hs
        · exact h.raised f s' (.inl hs)
        · rcases ready_follow _ s _ hs with hs | hs
          · exact h.raised f s' (.inr hs)
          · exact hs
      ended := fun u hu => by
        rw [ending?_asleep] at hu
        obtain ⟨hlt, hnone⟩ := h.ended u hu
        have hjob := same.jobs u
        rw [jobOf, jobOf, hnone, Option.map_none, Option.map_eq_none_iff] at hjob
        exact ⟨same.next ▸ hlt, hjob⟩ }

/-- A task that waits for nothing and is not to be started can end. -/
theorem finish {own : Option Nat} {t : Nat} (h : Punctual own Q l) (hlt : t < l.nextTask)
    (hwaiting : l.waitingOn t = none) (e : Ending ε ν) : Punctual none Q (l.finish t e) := by
  have hrest : SameTasks { l with tasks := Assoc.erase t l.tasks } (l.finish t e) :=
    .raise (.refl _) (.ended t) e
  have hpending (i : Ready η) : pending Q (l.finish t e) i = pending Q l i :=
    pending_congr (fun i => expected_raise _ _ _ i) i
  have hnext : (l.finish t e).nextTask = l.nextTask := hrest.next
  have htask (u : Nat) : (l.finish t e).task? u = if u = t then none else l.task? u :=
    task?_finish l t u e
  -- The task that ends waited for nothing, so the waits of all others are all there are.
  have hwaits (u : Nat) : (l.finish t e).waitingOn u = l.waitingOn u := by
    rw [waitingOn, htask]
    split
    · next hu => rw [hu, hwaiting, Option.bind_none]
    · rfl
  have hraise := mild_raise { l with tasks := Assoc.erase t l.tasks } (.ended t) e
  have hstays (s : Signal) (hs : l.ending? s ≠ none) : (l.finish t e).ending? s ≠ none := by
    obtain ⟨e', he'⟩ := Option.ne_none_iff_exists'.1 hs
    have hm : (l.finish t e).ending? s = some e' := hraise.stays s e' he'
    simp [hm]
  exact
    { fresh := (evolves_finish l t e).fresh h.fresh
      once := fun u => by
        rw [hpending]
        exact h.once u
      starts := fun u hu => by
        rw [hpending] at hu
        obtain ⟨hu, -, hw⟩ := h.starts u hu
        rw [hnext, hwaits]
        exact ⟨hu, nofun, hw⟩
      resumes := fun u s hu => by
        rw [hpending] at hu ⊢
        rw [hwaits]
        exact h.resumes u s hu
      turn := nofun
      raised := fun f s hs => by
        rcases hs with hs | hs
        · exact hstays s (h.raised f s (.inl hs))
        · rcases hraise.ready f s hs with hs | hs
          · exact hstays s (h.raised f s (.inr hs))
          · exact hs
      ended := fun u hu => by
        rw [hnext, htask]
        obtain ⟨e', he'⟩ := Option.ne_none_iff_exists'.1 hu
        rcases hraise.raises _ e' he' with hl | hnew
        · have hl : l.ending? (.ended u) = some e' := hl
          obtain ⟨hu, hnone⟩ := h.ended u (by simp [hl])
          exact ⟨hu, by rw [hnone, ite_self]⟩
        · obtain rfl := Signal.ended.inj hnew.1
          exact ⟨hlt, if_pos rfl⟩ }

theorem empty : Punctual none 0 ({} : Loop κ η ε ν) := by
  have none_pending (i : Ready η) : ¬ 0 < pending 0 ({} : Loop κ η ε ν) i := by
    cases i <;> simp [pending, expected, signalState, Assoc.get?]
  exact
    { fresh := fun t ht => absurd rfl ht
      once := fun t => Nat.le_of_not_lt fun ht => none_pending _ (Nat.lt_of_succ_lt ht)
      starts := fun t ht => absurd ht (none_pending _)
      resumes := fun t s ht => absurd ht (none_pending _)
      turn := fun _ ht => by cases ht
      raised := fun f s hs => by
        rcases hs with hs | hs
        · exact absurd hs (Multiset.notMem_zero _)
        · cases hs
      ended := fun t ht => absurd rfl ht }

end Punctual

end Loop

end PikeAnalysis.Concurrency
