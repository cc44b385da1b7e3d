import PikeAnalysis.Proofs.Concurrency.Operations

/-!
# Tasks that wait for tickets of their own

In a loop whose tasks wait for nothing but tickets, each for one of its own (`Loop.Ticketed`), a
task that is cancelled takes no other along.  So the tasks that are alive (`Loop.Alive`), which have
neither ended nor been cancelled, are so until they end or are cancelled themselves, and go on with
a value.

The scheduler is of this kind: its tasks sleep, and that is all they wait for.  Cancelling a task
that sleeps raises its own ticket, and nobody else waits for that, so the effect of a cancellation
stays with the task.  In loops in which tasks wait for each other this fails, and
`Concurrency/Trust.lean` has what is needed there.

That a task is alive is not kept by the task but by everybody else, and so the module has one lemma
for each operation that says who is alive after it.

Changes of the clock and of the timers are collected in one relation (`Aside`), which leaves tasks
and signals alone, so that what happens in a turn besides its end has to be gone through only once.
-/

namespace PikeAnalysis.Concurrency

namespace Loop

variable {κ η ε ν : Type} {l m : Loop κ η ε ν} {Q : Multiset (Ready η)}
  {own : Option Nat} {t u n : Nat}
  {job job' : κ} {s : Signal} {e : Ending ε ν} {st : TaskState κ} {i : Ready η}

/-- A task with a job has neither ended nor been cancelled.  Such a task is going to go on with the
value of its ticket, so it will come to the end of its job. -/
def Alive (l : Loop κ η ε ν) (t : Nat) (job : κ) : Prop :=
  ∃ st, l.task? t = some st ∧ st.job = job ∧ st.mustCancel = false ∧
    ∀ s, st.waiting = some s → l.ending? s ≠ some .cancelled

/-- A punctual loop in which every task waits for a ticket of its own, and tickets are raised with
values or cancelled.  A ticket that somebody waits for has been given to nobody else, and timers
raise only tickets that have been given. -/
structure Ticketed (own : Option Nat) (Q : Multiset (Ready η)) (l : Loop κ η ε ν) : Prop extends
    Punctual own Q l where
  waits : ∀ t s, l.waitingOn t = some s → ∃ n, s = .ticket n ∧ n < l.nextTicket
  alone : ∀ (t u : Nat) (s : Signal), l.waitingOn t = some s → l.waitingOn u = some s → t = u
  given : ∀ n e, l.ending? (.ticket n) = some e → n < l.nextTicket ∧ ∀ x, e ≠ .error x
  alarms : ∀ x ∈ l.live, ∃ n, x.2 = .raise (.ticket n) ∧ n < l.nextTicket
  /-- Only waiting tasks, and hooks at the ends of tasks, follow a signal. -/
  follows : ∀ f s, 0 < pending Q l (.follow f s) → (∃ t, f = .resume t) ∨
    ∃ h t, f = .hook h ∧ s = .ended t

/-! ## Tasks that are alive -/

theorem Alive.jobOf (h : l.Alive t job) : l.jobOf t = some job := by
  obtain ⟨st, hst, rfl, -⟩ := h
  exact jobOf_of_task? hst

theorem Alive.unique (h : l.Alive t job) (h' : l.Alive t job') : job = job' :=
  Option.some.inj (h.jobOf.symm.trans h'.jobOf)

/-- A task is alive as before if it is as before and what it waits for is cancelled only if it
was. -/
theorem alive_congr (task : m.task? t = l.task? t)
    (ending : ∀ s, l.waitingOn t = some s →
      (m.ending? s = some .cancelled ↔ l.ending? s = some .cancelled)) :
    m.Alive t job ↔ l.Alive t job := by
  have waiting {st : TaskState κ} {s : Signal} (hst : l.task? t = some st)
    (hs : st.waiting = some s) :
      l.waitingOn t = some s := by
    rw [waitingOn_of_task? hst, hs]
  constructor
  · rintro ⟨st, hst, hjob, unmarked, calm⟩
    rw [task] at hst
    exact ⟨st, hst, hjob, unmarked, fun s hs he => calm s hs ((ending s (waiting hst hs)).mpr he)⟩
  · rintro ⟨st, hst, hjob, unmarked, calm⟩
    exact ⟨st, task.trans hst, hjob, unmarked,
      fun s hs he => calm s hs ((ending s (waiting hst hs)).mp he)⟩

theorem alive_raise (l : Loop κ η ε ν) (s : Signal) (he : e ≠ .cancelled) :
    (l.raise s e).Alive t job ↔ l.Alive t job := by
  refine alive_congr ((SameTasks.raise (.refl l) s e).task? t) fun s' _ => ?_
  rw [ending?_raise]
  split
  · next h =>
    obtain ⟨rfl, hnone⟩ := h
    rw [hnone]
    exact ⟨fun h => absurd (Option.some.inj h) he, nofun⟩
  · exact Iff.rfl

theorem alive_follow (l : Loop κ η ε ν) (s : Signal) (f : Follower η) :
    (l.follow s f).Alive t job ↔ l.Alive t job :=
  alive_congr ((SameTasks.follow (.refl l) s f).task? t) fun s' _ => by rw [ending?_follow]

theorem alive_create_self (fresh : l.Fresh) (job : κ) : (l.create job).1.Alive l.nextTask job := by
  refine ⟨{ job }, ?_, rfl, rfl, nofun⟩
  rw [task?_create l job fresh.task?_next, if_pos rfl]

theorem alive_create_of_ne (fresh : l.Fresh) (ht : t ≠ l.nextTask) :
    (l.create job').1.Alive t job ↔ l.Alive t job := by
  refine alive_congr ?_ fun _ _ => Iff.rfl
  rw [task?_create l job' fresh.task?_next, if_neg ht]

/-- It is the turn of a task that was waiting: it is alive for as long as it lasts. -/
theorem alive_wake_self (l : Loop κ η ε ν) (t : Nat) (st : TaskState κ) :
    (l.setTask t { st with waiting := none, mustCancel := false }).Alive t job ↔ st.job = job := by
  constructor
  · rintro ⟨st', hst', rfl, -⟩
    rw [task?_setTask, if_pos rfl] at hst'
    rw [← Option.some.inj hst']
  · rintro rfl
    exact ⟨{ st with waiting := none, mustCancel := false }, by rw [task?_setTask, if_pos rfl],
      rfl, rfl, nofun⟩

theorem alive_setTask_of_ne (hu : u ≠ t) : (l.setTask t st).Alive u job ↔ l.Alive u job :=
  alive_congr (by rw [task?_setTask, if_neg hu]) fun _ _ => Iff.rfl

/-- A task that is not to be cancelled falls asleep. -/
theorem suspend_of_unmarked (hst : l.task? t = some st) (unmarked : st.mustCancel = false) :
    Machine.suspend l t s = l.asleep t st s := by
  rw [Machine.suspend, hst]
  simp only [unmarked, Bool.false_eq_true, if_false]
  rfl

/-! ## Changes beside the tasks -/

/-- A change of the clock, of the timers and of the tickets that have been given.  It can make
timers ready and set up timers that will raise tickets, but no task begins, ends or is cancelled by
it, and no signal is raised. -/
structure Aside (l m : Loop κ η ε ν) : Prop where
  tasks : m.tasks = l.tasks
  next : m.nextTask = l.nextTask
  signals : m.signals = l.signals
  nextTicket : l.nextTicket ≤ m.nextTicket
  ready : ∃ ids : List Nat, m.ready = l.ready ++ ids.map .timer
  live : ∀ x ∈ m.live, x ∈ l.live ∨ ∃ n, x.2 = .raise (.ticket n) ∧ n < m.nextTicket

namespace Aside

theorem task? (h : Aside l m) (t : Nat) : m.task? t = l.task? t := by
  rw [Loop.task?, Loop.task?, h.tasks]

theorem jobOf (h : Aside l m) (t : Nat) : m.jobOf t = l.jobOf t := by
  rw [Loop.jobOf, Loop.jobOf, h.task?]

theorem waitingOn (h : Aside l m) (t : Nat) : m.waitingOn t = l.waitingOn t := by
  rw [Loop.waitingOn, Loop.waitingOn, h.task?]

theorem ending? (h : Aside l m) (s : Signal) : m.ending? s = l.ending? s := by
  rw [Loop.ending?, Loop.ending?, signalState, signalState, h.signals]

theorem expected (h : Aside l m) (i : Ready η) (hi : ∀ id, i ≠ .timer id) :
    m.expected i = l.expected i := by
  obtain ⟨ids, ready⟩ := h.ready
  exact expected_of_parts h.signals ready i hi

theorem alive (h : Aside l m) : m.Alive t job ↔ l.Alive t job :=
  alive_congr (h.task? t) fun s _ => by rw [h.ending?]

theorem still (h : Aside l m) : Still l m where
  jobs := h.jobOf
  waiting := h.waitingOn
  next := h.next
  starts t := h.expected _ fun _ he => by cases he
  follows f s := h.expected _ fun _ he => by cases he
  ready f s hs := by
    obtain ⟨ids, ready⟩ := h.ready
    rw [ready] at hs
    exact .inl ((List.mem_append.mp hs).resolve_right (by simp))
  stays s e he := by rwa [h.ending?]
  ends t e he := by rwa [← h.ending?]

theorem turnTo (l : Loop κ η ε ν) (t : Nat) : Aside l { l with current := t } :=
  ⟨rfl, rfl, rfl, Nat.le_refl _, ⟨[], (List.append_nil _).symm⟩, fun _ hx => .inl hx⟩

theorem clock (l : Loop κ η ε ν) (now : Instant) : Aside l { l with now } :=
  ⟨rfl, rfl, rfl, Nat.le_refl _, ⟨[], (List.append_nil _).symm⟩, fun _ hx => .inl hx⟩

theorem newTicket (l : Loop κ η ε ν) : Aside l l.newTicket.1 :=
  ⟨rfl, rfl, rfl, Nat.le_succ _, ⟨[], (List.append_nil _).symm⟩, fun _ hx => .inl hx⟩

theorem stopTimer (l : Loop κ η ε ν) (id : Nat) : Aside l (l.stopTimer id) :=
  ⟨rfl, rfl, rfl, Nat.le_refl _, ⟨[], (List.append_nil _).symm⟩,
    fun _ hx => .inl (Assoc.mem_erase.mp hx).1⟩

/-- A timer is started for a new ticket. -/
theorem sleep (l : Loop κ η ε ν) (d : Duration) :
    Aside l (l.newTicket.1.startTimer d (.raise (.ticket l.nextTicket))).1 := by
  refine ⟨rfl, rfl, rfl, Nat.le_succ _, ⟨[], (List.append_nil _).symm⟩, fun x hx => ?_⟩
  rcases List.mem_cons.mp hx with rfl | hx
  · exact .inr ⟨l.nextTicket, rfl, Nat.lt_succ_self _⟩
  · exact .inl hx

theorem trans {n : Loop κ η ε ν} (h : Aside l m) (k : Aside m n) : Aside l n where
  tasks := k.tasks.trans h.tasks
  next := k.next.trans h.next
  signals := k.signals.trans h.signals
  nextTicket := Nat.le_trans h.nextTicket k.nextTicket
  ready := by
    obtain ⟨ids, hids⟩ := h.ready
    obtain ⟨more, hmore⟩ := k.ready
    exact ⟨ids ++ more, by rw [hmore, hids, List.append_assoc, List.map_append]⟩
  live x hx := by
    rcases k.live x hx with hx | hx
    · rcases h.live x hx with hx | ⟨n, hn, lt⟩
      · exact .inl hx
      · exact .inr ⟨n, hn, Nat.lt_of_lt_of_le lt k.nextTicket⟩
    · exact .inr hx

/-- Another heap of timers, some of which have become ready. -/
theorem of_heap (l : Loop κ η ε ν) (timers : TimerHeap) (ids : List Nat) :
    Aside l { l with timers, ready := l.ready ++ ids.map .timer } :=
  ⟨rfl, rfl, rfl, Nat.le_refl _, ⟨ids, rfl⟩, fun _ hx => .inl hx⟩

theorem dropCancelled (fuel : Nat) (l : Loop κ η ε ν) : Aside l (Loop.dropCancelled fuel l) := by
  have same (l : Loop κ η ε ν) : Aside l l := turnTo l l.current
  induction fuel generalizing l with
  | zero => exact same l
  | succ fuel ih =>
    unfold Loop.dropCancelled
    split
    · split
      · exact same l
      · have popped := of_heap l l.timers.pop []
        rw [List.map_nil, List.append_nil] at popped
        exact popped.trans (ih _)
    · exact same l

theorem takeDue (fuel : Nat) (l : Loop κ η ε ν) : Aside l (Loop.takeDue fuel l) := by
  have same (l : Loop κ η ε ν) : Aside l l := turnTo l l.current
  induction fuel generalizing l with
  | zero => exact same l
  | succ fuel ih =>
    unfold Loop.takeDue
    split
    · next timer _ =>
      split
      · exact (of_heap l l.timers.pop [timer.id]).trans (ih _)
      · exact same l
    · exact same l

theorem due (l : Loop κ η ε ν) : Aside l (Moment.due l) :=
  (dropCancelled _ l).trans (takeDue _ _)

end Aside

/-! ## Loops with tickets -/

namespace Ticketed

/-- What raises no ticket but with a value, and leaves tasks and followers alone. -/
theorem still (h : Ticketed own Q l) (k : Still l m) (nextTicket : l.nextTicket ≤ m.nextTicket)
    (raises : ∀ n e, m.ending? (.ticket n) = some e →
      l.ending? (.ticket n) = some e ∨ n < m.nextTicket ∧ ∀ x, e ≠ .error x)
    (live : ∀ x ∈ m.live, x ∈ l.live ∨ ∃ n, x.2 = .raise (.ticket n) ∧ n < m.nextTicket) :
    Ticketed own Q m where
  toPunctual := h.toPunctual.still k
  waits t s hs := by
    rw [k.waiting] at hs
    obtain ⟨n, hn, lt⟩ := h.waits t s hs
    exact ⟨n, hn, Nat.lt_of_lt_of_le lt nextTicket⟩
  alone t u s ht hu := by
    rw [k.waiting] at ht hu
    exact h.alone t u s ht hu
  given n e he := by
    rcases raises n e he with old | new
    · obtain ⟨lt, value⟩ := h.given n e old
      exact ⟨Nat.lt_of_lt_of_le lt nextTicket, value⟩
    · exact new
  alarms x hx := by
    rcases live x hx with hx | new
    · obtain ⟨n, hn, lt⟩ := h.alarms x hx
      exact ⟨n, hn, Nat.lt_of_lt_of_le lt nextTicket⟩
    · exact new
  follows f s hs := by
    rw [k.pending_follow] at hs
    exact h.follows f s hs

theorem aside (h : Ticketed own Q l) (k : Aside l m) : Ticketed own Q m :=
  h.still k.still k.nextTicket (fun n e he => .inl (by rwa [← k.ending?])) k.live

theorem unraised (h : Ticketed own Q l) (le : l.nextTicket ≤ n) : l.ending? (.ticket n) = none := by
  cases he : l.ending? (.ticket n) with
  | none => rfl
  | some e => exact absurd (h.given n e he).1 (Nat.not_lt.mpr le)

/-- A ticket that has been given is raised. -/
theorem raise (h : Ticketed own Q l) (lt : n < l.nextTicket) (he : ∀ x, e ≠ .error x) :
    Ticketed own Q (l.raise (.ticket n) e) := by
  have mild := mild_raise l (.ticket n) e
  refine h.still (mild.still fun s e' hnew t ht => ?_) mild.nextTicket (fun n' e' hn' => ?_)
    fun x hx => ?_
  · rw [hnew.1] at ht
    cases ht
  · refine (mild.raises _ e' hn').imp_right fun ⟨hs, he'⟩ => ?_
    obtain rfl := Signal.ticket.inj hs
    exact ⟨Nat.lt_of_lt_of_le lt mild.nextTicket, he' ▸ he⟩
  · rw [live_raise] at hx
    exact .inl hx

/-- A timer that fires raises a ticket that has been given, unless it has been stopped. -/
theorem fireTimer_cases (h : Ticketed own Q l) (v : ν) (id : Nat) :
    Machine.fireTimer l v id = l ∨
      ∃ n, n < l.nextTicket ∧ Machine.fireTimer l v id =
        (l.stopTimer id).raise (.ticket n) (.value v) := by
  unfold Machine.fireTimer
  cases hid : Assoc.get? id l.live with
  | none => exact .inl rfl
  | some action =>
    obtain ⟨n, hn, lt⟩ := h.alarms _ (Assoc.mem_of_get? hid)
    obtain rfl : action = .raise (.ticket n) := hn
    exact .inr ⟨n, lt, rfl⟩

/-- A task begins. -/
theorem create (h : Ticketed own Q l) (job : κ) (hown : own ≠ some l.nextTask) :
    Ticketed own Q (l.create job).1 where
  toPunctual := h.toPunctual.create job hown
  waits t s hs := h.waits t s (by rwa [waitingOn_create h.fresh] at hs)
  alone t u s ht hu := by
    rw [waitingOn_create h.fresh] at ht hu
    exact h.alone t u s ht hu
  given := h.given
  alarms := h.alarms
  follows f s hs := h.follows f s (by rwa [pending_create, if_neg nofun, Nat.add_zero] at hs)

/-- The end of a task is followed by a hook.  Hooks hold no tickets. -/
theorem hook (h : Ticketed own Q l) (t : Nat) (k : η) :
    Ticketed own Q (l.follow (.ended t) (.hook k)) where
  toPunctual := h.toPunctual.follow _ fun _ => nofun
  waits u s hs := by
    rw [waitingOn_of_sameTasks (.follow (.refl l) _ _)] at hs
    rw [nextTicket_follow]
    exact h.waits u s hs
  alone u v s hu hv := by
    rw [waitingOn_of_sameTasks (.follow (.refl l) _ _)] at hu hv
    exact h.alone u v s hu hv
  given n e he := by
    rw [ending?_follow] at he
    rw [nextTicket_follow]
    exact h.given n e he
  alarms x hx := by
    rw [live_follow] at hx
    rw [nextTicket_follow]
    exact h.alarms x hx
  follows f s hs := by
    by_cases same : f = .hook k ∧ s = .ended t
    · exact .inr ⟨k, t, same⟩
    · rw [pending_follow, if_neg fun he => same (Ready.follow.inj he), Nat.add_zero] at hs
      exact h.follows f s hs

theorem drop (h : Ticketed own (i ::ₘ Q) l) : Ticketed own Q l :=
  { h with
    toPunctual := h.toPunctual.drop
    follows := fun f s hs => h.follows f s (by rw [pending_cons]; omega) }

theorem begin (h : Ticketed none (.start t ::ₘ Q) l) : Ticketed (some t) Q l :=
  { h.drop with toPunctual := h.toPunctual.begin }

theorem gather (h : Ticketed own Q l) :
    Ticketed own (Q + (l.ready : Multiset (Ready η))) { l with ready := [] } :=
  { h with
    toPunctual := h.toPunctual.gather
    follows := fun f s => by
      rw [pending_gather]
      exact h.follows f s }

/-- A task goes on after the ticket that it has been waiting for. -/
theorem wake (h : Ticketed none (.follow (.resume t) s ::ₘ Q) l) (hst : l.task? t = some st) :
    l.waitingOn t = some s ∧
      Ticketed (some t) Q (l.setTask t { st with waiting := none, mustCancel := false }) := by
  obtain ⟨waiting, punctual⟩ := h.toPunctual.wake hst
  have still {u : Nat} {s' : Signal} (hu : (l.setTask t { st with
      waiting := none, mustCancel := false }).waitingOn u = some s') : l.waitingOn u = some s' := by
    rw [waitingOn_setTask] at hu
    split at hu
    · cases hu
    · exact hu
  exact ⟨waiting, { h.drop with
    toPunctual := punctual
    waits := fun u s' hu => h.waits u s' (still hu)
    alone := fun u v s' hu hv => h.alone u v s' (still hu) (still hv)
    follows := fun f s' hs => h.drop.follows f s' (by rwa [pending_setTask] at hs) }⟩

/-- A task that is alive goes on with the value of the ticket that it has been waiting for.  This is
where a cancellation is told from an ordinary wake: who is not alive finds the ticket cancelled or
is marked. -/
theorem value_of_alive (h : Ticketed own (.follow (.resume t) s ::ₘ Q) l)
    (hst : l.task? t = some st) :
    (∃ v, (if st.mustCancel then Ending.cancelled else (l.ending? s).getD .cancelled) = .value v ∧
        l.Alive t st.job) ∨
      (if st.mustCancel then Ending.cancelled else (l.ending? s).getD .cancelled) = .cancelled ∧
        ∀ job, ¬ l.Alive t job := by
  have waiting := (h.resumes t s (by rw [pending_cons, if_pos rfl]; omega)).2
  have hs : st.waiting = some s := (waitingOn_of_task? hst).symm.trans waiting
  have same {st' : TaskState κ} (hst' : l.task? t = some st') : st = st' :=
    Option.some.inj (hst.symm.trans hst')
  -- The mark comes first: a task that is marked is cancelled whatever its ticket says.
  cases marked : st.mustCancel with
  | true =>
    refine .inr ⟨rfl, ?_⟩
    rintro job ⟨st', hst', -, unmarked, -⟩
    rw [← same hst', marked] at unmarked
    cases unmarked
  | false =>
    obtain ⟨n, rfl, -⟩ := h.waits t s waiting
    obtain ⟨e, he⟩ := Option.ne_none_iff_exists'.mp
      (h.raised (.resume t) (.ticket n) (.inl (Multiset.mem_cons_self _ _)))
    simp only [Bool.false_eq_true, if_false, he, Option.getD_some]
    cases e with
    | value v =>
      refine .inl ⟨v, rfl, st, hst, rfl, marked, fun s' hs' => ?_⟩
      obtain rfl := Option.some.inj (hs.symm.trans hs')
      rw [he]
      nofun
    | error x => exact absurd rfl ((h.given n _ he).2 x)
    | cancelled =>
      refine .inr ⟨rfl, ?_⟩
      rintro job ⟨st', hst', -, -, calm⟩
      exact calm _ (same hst' ▸ hs) he

/-- A task that is not to be cancelled starts to wait for a ticket that nobody else waits for. -/
theorem suspend (h : Ticketed (some t) Q l) (hst : l.task? t = some st)
    (unmarked : st.mustCancel = false)
    (lt : n < l.nextTicket) (free : ∀ u, l.waitingOn u ≠ some (.ticket n)) :
    Ticketed none Q (Machine.suspend l t (.ticket n)) := by
  have waiting (u : Nat) : (l.asleep t st (.ticket n)).waitingOn u =
      if u = t then some (.ticket n) else l.waitingOn u := waitingOn_asleep ..
  rw [suspend_of_unmarked hst unmarked]
  refine
    { toPunctual := h.toPunctual.asleep hst _
      waits := fun u s hu => ?_
      alone := fun u v s hu hv => ?_
      given := fun n' e he => ?_
      alarms := fun x hx => ?_
      follows := fun f s hs => ?_ }
  · rw [nextTicket_asleep]
    rw [waiting] at hu
    split at hu
    · exact ⟨n, (Option.some.inj hu).symm, lt⟩
    · exact h.waits u s hu
  · rw [waiting] at hu hv
    split at hu <;> split at hv
    · next hu' hv' => exact hu'.trans hv'.symm
    · exact absurd (hv.trans hu.symm) (free v)
    · exact absurd (hu.trans hv.symm) (free u)
    · exact h.alone u v s hu hv
  · rw [ending?_asleep] at he
    rw [nextTicket_asleep]
    exact h.given n' e he
  · rw [Loop.asleep, live_follow] at hx
    rw [nextTicket_asleep]
    exact h.alarms x hx
  · by_cases same : f = .resume t ∧ s = .ticket n
    · exact .inl ⟨t, same.1⟩
    · rw [pending_asleep, if_neg fun he => same (Ready.follow.inj he), Nat.add_zero] at hs
      exact h.follows f s hs

theorem alive_suspend (h : Ticketed (some t) Q l) (hst : l.task? t = some st)
    (unmarked : st.mustCancel = false) (unraised : l.ending? (.ticket n) = none) :
    (Machine.suspend l t (.ticket n)).Alive u job ↔ l.Alive u job := by
  rw [suspend_of_unmarked hst unmarked]
  refine (alive_follow _ _ _).trans ?_
  by_cases hu : u = t
  · subst hu
    have turn := h.turn u rfl
    rw [waitingOn_of_task? hst] at turn
    constructor
    · rintro ⟨st', hst', rfl, -⟩
      rw [task?_setTask, if_pos rfl] at hst'
      rw [← Option.some.inj hst']
      refine ⟨st, hst, rfl, unmarked, fun s hs => ?_⟩
      rw [turn] at hs
      cases hs
    · rintro ⟨st', hst', rfl, -⟩
      obtain rfl := Option.some.inj (hst.symm.trans hst')
      refine ⟨{ st with waiting := some (.ticket n), mustCancel := false },
        by rw [task?_setTask, if_pos rfl], rfl, rfl, fun s hs => ?_⟩
      obtain rfl := Option.some.inj hs
      change l.ending? _ ≠ _
      rw [unraised]
      nofun
  · exact alive_setTask_of_ne hu

/-- A task that waits for nothing ends. -/
theorem finish (h : Ticketed own Q l) (lt : t < l.nextTask) (waiting : l.waitingOn t = none)
    (e : Ending ε ν) : Ticketed none Q (l.finish t e) where
  toPunctual := h.toPunctual.finish lt waiting e
  waits u s hu := by
    rw [waitingOn_finish] at hu
    rw [nextTicket_finish]
    split at hu
    · cases hu
    · exact h.waits u s hu
  alone u v s hu hv := by
    rw [waitingOn_finish] at hu hv
    split at hu
    · cases hu
    · split at hv
      · cases hv
      · exact h.alone u v s hu hv
  given n e' he := by
    rw [ending?_finish l t e (by nofun)] at he
    rw [nextTicket_finish]
    exact h.given n e' he
  alarms x hx := by
    rw [Loop.finish, live_raise] at hx
    rw [nextTicket_finish]
    exact h.alarms x hx
  follows f s hs := h.follows f s (by rwa [pending_finish] at hs)

theorem alive_finish (h : Ticketed own Q l) (e : Ending ε ν) :
    (l.finish t e).Alive u job ↔ u ≠ t ∧ l.Alive u job := by
  by_cases hu : u = t
  · subst hu
    refine ⟨fun alive => ?_, fun alive => absurd rfl alive.1⟩
    have := alive.jobOf
    rw [jobOf_finish_self] at this
    cases this
  · rw [and_iff_right hu]
    refine alive_congr (by rw [task?_finish, if_neg hu]) fun s hs => ?_
    obtain ⟨n, rfl, -⟩ := h.waits u s hs
    rw [ending?_finish l t e (by nofun)]

/-! ### Cancelling -/

/-- What is cancelled is marked, or its ticket is raised as cancelled. -/
theorem cancel_cases (h : Ticketed own Q l) (t : Nat) :
    (l.task? t = none ∧ (l.cancel t).1 = l) ∨
    ∃ st st', l.task? t = some st ∧ st'.job = st.job ∧ st'.waiting = st.waiting ∧
      ((st'.mustCancel = true ∧ (l.cancel t).1 = l.setTask t st') ∨
        ∃ n, st.waiting = some (.ticket n) ∧ l.ending? (.ticket n) = none ∧
          (l.cancel t).1 = (l.setTask t st').raise (.ticket n) .cancelled) := by
  -- The loop may have set the task before it sets it again.
  have twice (a b : TaskState κ) : (l.setTask t a).setTask t b = l.setTask t b := by
    rw [setTask, setTask, setTask, Assoc.set_set]
  rw [cancel, cancelTask]
  cases hst : l.task? t with
  | none => exact .inl ⟨rfl, rfl⟩
  | some st =>
    refine .inr ⟨st, ?_⟩
    dsimp only
    rw [twice]
    cases hw : st.waiting with
    | none =>
      exact ⟨{ st with cancels := st.cancels + 1, mustCancel := true }, rfl, rfl, hw, .inl ⟨rfl, by
        simp only [hw]⟩⟩
    | some s =>
      obtain ⟨n, rfl, -⟩ := h.waits t s ((waitingOn_of_task? hst).trans hw)
      have same (st' : TaskState κ) : (l.setTask t st').ending? (.ticket n) =
        l.ending? (.ticket n) := rfl
      dsimp only
      rw [same]
      cases he : l.ending? (.ticket n) with
      | some e =>
        exact ⟨{ st with cancels := st.cancels + 1, mustCancel := true }, rfl,
          rfl, hw, .inl ⟨rfl, by
          simp only [hw]⟩⟩
      | none => exact ⟨{ st with cancels := st.cancels + 1 }, rfl, rfl, hw, .inr ⟨n, rfl, he, by
          simp only [hw]⟩⟩

theorem cancel (h : Ticketed own Q l) (t : Nat) : Ticketed own Q (l.cancel t).1 := by
  have mild := mild_cancel l t
  refine h.still (mild.still fun s e hnew => hnew.2.1) mild.nextTicket (fun n e he => ?_)
    fun x hx => .inl ?_
  · refine (mild.raises _ e he).imp_right fun ⟨he', _, u, hu⟩ => ?_
    obtain ⟨n', hn', lt⟩ := h.waits u _ hu
    obtain rfl := Signal.ticket.inj hn'
    exact ⟨Nat.lt_of_lt_of_le lt mild.nextTicket, fun x => by rw [he']; nofun⟩
  · rcases h.cancel_cases t with ⟨-, same⟩ | ⟨_, _, -, -, -, ⟨-, same⟩ | ⟨_, -, -, same⟩⟩
    · rwa [same] at hx
    · rwa [same] at hx
    · rw [same, live_raise] at hx
      exact hx

theorem not_alive_cancel (h : Ticketed own Q l) : ¬ (l.cancel t).1.Alive t job := by
  rintro ⟨st₁, hst₁, -, unmarked, calm⟩
  rcases h.cancel_cases t with ⟨hnone, same⟩ |
    ⟨st, st', hst, -, waiting, ⟨marked, same⟩ | ⟨n, hw, open', same⟩⟩
  · rw [same, hnone] at hst₁
    cases hst₁
  · rw [same, task?_setTask, if_pos rfl] at hst₁
    rw [← Option.some.inj hst₁, marked] at unmarked
    cases unmarked
  · rw [same] at hst₁ calm
    rw [(SameTasks.raise (.refl _) _ _).task?, task?_setTask, if_pos rfl] at hst₁
    refine calm (.ticket n) (by rw [← Option.some.inj hst₁, waiting, hw]) ?_
    have unraised : (l.setTask t st').ending? (.ticket n) = none := open'
    rw [ending?_raise, if_pos ⟨rfl, unraised⟩]

theorem alive_cancel_of_ne (h : Ticketed own Q l) (hu : u ≠ t) :
    (l.cancel t).1.Alive u job ↔ l.Alive u job := by
  rcases h.cancel_cases t with ⟨-, same⟩ | ⟨st, st', hst, -, waiting, ⟨-, same⟩ | ⟨n, hw, -, same⟩⟩
  · rw [same]
  · rw [same]
    exact alive_setTask_of_ne hu
  · rw [same]
    refine alive_congr ?_ fun s hs => ?_
    · rw [(SameTasks.raise (.refl _) _ _).task?, task?_setTask, if_neg hu]
    · -- The ticket that is raised is not the one that the other task waits for.
      have hne : s ≠ .ticket n := by
        rintro rfl
        exact hu (h.alone u t _ hs ((waitingOn_of_task? hst).trans hw))
      rw [ending?_raise, if_neg fun he => hne he.1]
      rfl

end Ticketed

theorem pending_empty (f : Follower η) (s : Signal) :
    pending 0 ({} : Loop κ η ε ν) (.follow f s) = 0 := by
  simp [pending, expected, signalState]

theorem Ticketed.empty : Ticketed none 0 ({} : Loop κ η ε ν) where
  toPunctual := .empty
  waits := nofun
  alone := nofun
  given := nofun
  alarms := nofun
  follows f s hs := by
    rw [pending_empty] at hs
    cases hs

end Loop

end PikeAnalysis.Concurrency
