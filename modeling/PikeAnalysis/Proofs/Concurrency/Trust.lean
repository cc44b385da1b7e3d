import PikeAnalysis.Proofs.Concurrency.Waking

/-!
# How what a task waits for may end

A task that waits for another one goes on with how that one ended.  `Terms` say how a task with a
job may end, how the outside may answer it, and whether it may be cancelled.  Whoever knows that a
signal is the end of a task with a job, a ticket to which that end is passed on, or the answer to
such a task, may count on how it ends (`Loop.Trusts`), whatever happens meanwhile.  A change is
`Loop.Faithful` if it lets nobody down.

Who is cancelled hears of it where he waits, as the signal is raised as cancelled.  No two tasks
wait for the same ticket or answer, so that concerns nobody else: a task that may not be cancelled
itself finds what it waits for cancelled only if that has been passed on to it.

To be trusted is a property of a signal at a moment: nobody has raised it otherwise so far, and all
who may still raise it will do so only as expected.  Being faithful is a property of a change, and
it is transitive; so what is trusted once is trusted for good, and a task that begins to wait may
forget about everything but its signal.

Three ways of waiting have to be told apart.  The end of a task is raised by the task, the answer to
a task is given by the outside, and a ticket is raised by whatever was bound to it.  `Trusts` has a
case for each, and the last refers to what the ticket follows.
-/

/-!
## Loops in order

A punctual loop is in order (`Loop.Orderly`) if it has no timers, if only the ends of tasks are
passed on, to tickets that have been given, if what follows the end of a task is done once, and if
each task waits for something of its own: its answer, or a ticket that nobody else waits for.
-/

namespace PikeAnalysis.Concurrency

namespace Loop

variable {κ η ε ν : Type} {l m : Loop κ η ε ν} {t u : Nat} {s : Signal}
  {f : Follower η} {i : Ready η}
  {job : κ} {Q Q' : Multiset (Ready η)} {new : Signal → Ending ε ν → Prop}

/-- A signal that a task may start to wait for: the answer to it, or a ticket that nobody waits
for. -/
def Reserved (l : Loop κ η ε ν) (t : Nat) (s : Signal) : Prop :=
  s = .answer t ∨ ∃ n, s = .ticket n ∧ n < l.nextTicket ∧ ∀ u, l.waitingOn u ≠ some s

theorem Reserved.not_ended (h : l.Reserved t s) (u : Nat) : s ≠ .ended u := by
  rcases h with rfl | ⟨n, rfl, -⟩ <;> exact nofun

theorem task?_asleep (l : Loop κ η ε ν) (t u : Nat) (st : TaskState κ) (s : Signal) :
    (l.asleep t st s).task? u =
      if u = t then some { st with waiting := some s, mustCancel := false } else l.task? u := by
  rw [asleep, (SameTasks.follow (.refl _) s _).task?, task?_setTask]

theorem task?_suspend {st : TaskState κ} (hst : l.task? t = some st) (apart : ∀ u, s ≠ .ended u)
    (u : Nat) :
    (Machine.suspend l t s).task? u = (l.asleep t st s).task? u := by
  rw [Machine.suspend, hst]
  dsimp only
  split
  · split
    · exact absurd rfl (apart _)
    · exact (SameTasks.raise (.refl _) s .cancelled).task? u
  · rfl

/-- A loop without timers in which everything happens once, in the turn of a task or between
turns. -/
structure Orderly (own : Option Nat) (Q : Multiset (Ready η)) (l : Loop κ η ε ν) : Prop extends
    Punctual own Q l where
  timeless : l.live = [] ∧ l.timers.slots = #[] ∧ l.missing = []
  /-- Only the ends of tasks are passed on, and only to tickets. -/
  relays : ∀ s s', 0 < pending Q l (.follow (.relay s) s') →
    ∃ n t, s = .ticket n ∧ n < l.nextTicket ∧ s' = .ended t
  /-- What follows the end of a task is done once. -/
  hooks : ∀ h s, 0 < pending Q l (.follow (.hook h) s) →
    pending Q l (.follow (.hook h) s) ≤ 1 ∧ ∃ t, s = .ended t ∧ t < l.nextTask
  tickets : ∀ n, l.ending? (.ticket n) ≠ none → n < l.nextTicket
  /-- What a task waits for is its own. -/
  waits : ∀ t s, l.waitingOn t = some s → s = .answer t ∨
    ∃ n, s = .ticket n ∧ n < l.nextTicket ∧ ∀ u, l.waitingOn u = some s → u = t

namespace Orderly

variable {own : Option Nat}

/-- No two tasks wait for the same signal. -/
theorem alone (h : Orderly own Q l) (ht : l.waitingOn t = some s) (hu : l.waitingOn u = some s) :
    t = u := by
  rcases h.waits u s hu with rfl | ⟨n, rfl, -, only⟩
  · rcases h.waits t _ ht with same | ⟨n, same, -⟩
    · exact (Signal.answer.inj same).symm
    · cases same
  · exact only t ht

/-- Nobody waits for the end of a task itself. -/
theorem not_ended (h : Orderly own Q l) (ht : l.waitingOn t = some s) (u : Nat) : s ≠ .ended u := by
  rcases h.waits t s ht with rfl | ⟨n, rfl, -⟩ <;> exact nofun

theorem drop (h : Orderly own (i ::ₘ Q) l) : Orderly own Q l := by
  have le (j : Ready η) : pending Q l j ≤ pending (i ::ₘ Q) l j := by
    rw [pending_cons]
    omega
  exact
    { h with
      toPunctual := h.toPunctual.drop
      relays := fun s s' hs => h.relays s s' (Nat.lt_of_lt_of_le hs (le _))
      hooks := fun k s hs =>
        let hk := h.hooks k s (Nat.lt_of_lt_of_le hs (le _))
        ⟨Nat.le_trans (le _) hk.1, hk.2⟩ }

theorem gather (h : Orderly own Q l) :
    Orderly own (Q + (l.ready : Multiset (Ready η))) { l with ready := [] } where
  toPunctual := h.toPunctual.gather
  timeless := h.timeless
  relays s s' := by
    rw [pending_gather]
    exact h.relays s s'
  hooks k s := by
    rw [pending_gather]
    exact h.hooks k s
  tickets := h.tickets
  waits := h.waits

end Orderly

/-- A loop stays in order if only tickets that are known, and signals that are no ends of tasks, are
raised. -/
theorem Orderly.mild {own : Option Nat} (h : Orderly own Q l) (k : Mild new l m)
    (tame : ∀ s e, new s e → (∀ t, s ≠ .ended t) ∧ ∀ n, s = .ticket n → n < l.nextTicket) :
    Orderly own Q m where
  toPunctual := h.toPunctual.still (k.still fun s e hnew => (tame s e hnew).1)
  timeless := k.timeless h.timeless
  relays s s' := by
    rw [k.pending]
    intro hs
    obtain ⟨n, t, hn, hlt, ht⟩ := h.relays s s' hs
    exact ⟨n, t, hn, Nat.lt_of_lt_of_le hlt k.nextTicket, ht⟩
  hooks a s := by
    rw [k.pending, k.next]
    exact h.hooks a s
  tickets n hn := by
    obtain ⟨e, he⟩ := Option.ne_none_iff_exists'.1 hn
    rcases k.raises _ e he with hl | hnew
    · exact Nat.lt_of_lt_of_le (h.tickets n (by simp [hl])) k.nextTicket
    · exact Nat.lt_of_lt_of_le ((tame _ _ hnew).2 n rfl) k.nextTicket
  waits t s hw := by
    rw [k.waiting] at hw
    refine (h.waits t s hw).imp_right fun ⟨n, hn, hlt, only⟩ => ?_
    exact ⟨n, hn, Nat.lt_of_lt_of_le hlt k.nextTicket, fun u hu => only u (by rwa [← k.waiting])⟩

/-! ### Changes that add something -/

theorem timeless_follow (l : Loop κ η ε ν) (s : Signal) (f : Follower η)
    (h : l.live = [] ∧ l.timers.slots = #[] ∧ l.missing = []) :
    (l.follow s f).live = [] ∧ (l.follow s f).timers.slots = #[] ∧ (l.follow s f).missing = [] := by
  cases hending : (l.signalState s).ending with
  | some e => rwa [follow_of_ended hending]
  | none =>
    rw [follow_of_open hending]
    exact h

namespace Orderly

variable {own : Option Nat}

theorem create (h : Orderly own Q l) (job : κ) (hown : own ≠ some l.nextTask) :
    Orderly own Q (l.create job).1 := by
  have hnext : (l.create job).1.nextTask = l.nextTask + 1 := rfl
  have follow (f : Follower η) (s : Signal) :
      pending Q (l.create job).1 (.follow f s) = pending Q l (.follow f s) := by
    rw [pending_create, if_neg nofun, Nat.add_zero]
  exact
    { toPunctual := h.toPunctual.create job hown
      timeless := h.timeless
      relays := fun s s' => by
        rw [follow]
        exact h.relays s s'
      hooks := fun k s hs => by
        rw [follow] at hs ⊢
        obtain ⟨hone, t, ht, hlt⟩ := h.hooks k s hs
        exact ⟨hone, t, ht, by omega⟩
      tickets := h.tickets
      waits := fun t s hw => by
        rw [waitingOn_create h.fresh] at hw
        refine (h.waits t s hw).imp_right fun ⟨n, hn, hlt, only⟩ =>
          ⟨n, hn, hlt, fun u hu => only u ?_⟩
        rwa [waitingOn_create h.fresh] at hu }

/-- A follower that is no wait of a task can be added if that leaves order among its like. -/
theorem follow (h : Orderly own Q l) (s : Signal) {f : Follower η} (hf : ∀ t, f ≠ .resume t)
    (relay : ∀ s', f = .relay s' → ∃ n t, s' = .ticket n ∧ n < l.nextTicket ∧ s = .ended t)
    (hook : ∀ k, f = .hook k → pending Q l (.follow f s) = 0 ∧ ∃ t, s = .ended t ∧ t < l.nextTask) :
    Orderly own Q (l.follow s f) := by
  have same : SameTasks l (l.follow s f) := .follow (.refl l) s f
  have other (i : Ready η) (hi : i ≠ .follow f s) : pending Q (l.follow s f) i = pending Q l i := by
    rw [pending_follow, if_neg hi, Nat.add_zero]
  exact
    { toPunctual := h.toPunctual.follow s hf
      timeless := timeless_follow l s f h.timeless
      relays := fun a s' hs => by
        rw [nextTicket_follow]
        by_cases he : Ready.follow (.relay a) s' = .follow f s
        · obtain ⟨rfl, rfl⟩ := Ready.follow.inj he
          exact relay a rfl
        · rw [other _ he] at hs
          exact h.relays a s' hs
      hooks := fun k s' hs => by
        rw [same.next]
        by_cases he : Ready.follow (.hook k) s' = .follow f s
        · obtain ⟨rfl, rfl⟩ := Ready.follow.inj he
          obtain ⟨hzero, ht⟩ := hook k rfl
          refine ⟨?_, ht⟩
          rw [pending_follow, hzero, if_pos rfl]
        · rw [other _ he] at hs ⊢
          exact h.hooks k s' hs
      tickets := fun n hn => by
        rw [ending?_follow] at hn
        rw [nextTicket_follow]
        exact h.tickets n hn
      waits := fun t s' hw => by
        rw [waitingOn_of_sameTasks same] at hw
        rw [nextTicket_follow]
        refine (h.waits t s' hw).imp_right fun ⟨n, hn, hlt, only⟩ =>
          ⟨n, hn, hlt, fun u hu => only u ?_⟩
        rwa [waitingOn_of_sameTasks same] at hu }

/-! ### Turns -/

/-- A task begins its first turn. -/
theorem begin {t : Nat} (h : Orderly none (.start t ::ₘ Q) l) : Orderly (some t) Q l :=
  { h.drop with toPunctual := h.toPunctual.begin }

/-- A task begins a turn after what it waited for. -/
theorem wake {t : Nat} {s : Signal} {st : TaskState κ}
    (h : Orderly none (.follow (.resume t) s ::ₘ Q) l)
    (hst : l.task? t = some st) :
    l.waitingOn t = some s ∧
      Orderly (some t) Q (l.setTask t { st with waiting := none, mustCancel := false }) := by
  obtain ⟨hwaiting, hpunctual⟩ := h.toPunctual.wake hst
  refine ⟨hwaiting, { h.drop with
    toPunctual := hpunctual
    relays := fun a s' hs => ?_
    hooks := fun k s' hs => ?_
    waits := fun u s' hw => ?_ }⟩
  · rw [pending_setTask] at hs
    exact h.drop.relays a s' hs
  · rw [pending_setTask] at hs ⊢
    exact h.drop.hooks k s' hs
  · have earlier (v : Nat)
      (hv : (l.setTask t { st with waiting := none, mustCancel := false }).waitingOn v =
        some s') : l.waitingOn v = some s' := by
      rw [waitingOn_setTask] at hv
      split at hv
      · cases hv
      · exact hv
    refine (h.waits u s' (earlier u hw)).imp_right fun ⟨n, hn, hlt, only⟩ => ?_
    exact ⟨n, hn, hlt, fun v hv => only v (earlier v hv)⟩

theorem asleep {t : Nat} (h : Orderly (some t) Q l) {st : TaskState κ} (hst : l.task? t = some st)
    {s : Signal} (reserved : l.Reserved t s) : Orderly none Q (l.asleep t st s) := by
  have same := sameJobs_asleep hst s
  have other (i : Ready η) (hi : i ≠ .follow (.resume t) s) :
      pending Q (l.asleep t st s) i = pending Q l i := by
    rw [pending_asleep, if_neg hi, Nat.add_zero]
  exact
    { toPunctual := h.toPunctual.asleep hst s
      timeless := timeless_follow _ s _ h.timeless
      relays := fun a s' hs => by
        rw [other (.follow (.relay a) s') nofun] at hs
        rw [nextTicket_asleep]
        exact h.relays a s' hs
      hooks := fun k s' hs => by
        rw [other (.follow (.hook k) s') nofun] at hs ⊢
        rw [same.next]
        exact h.hooks k s' hs
      tickets := fun n hn => by
        rw [ending?_asleep] at hn
        rw [nextTicket_asleep]
        exact h.tickets n hn
      waits := fun u s' hw => by
        rw [waitingOn_asleep] at hw
        rw [nextTicket_asleep]
        split at hw
        · next hut =>
          obtain rfl := Option.some.inj hw
          rw [hut]
          refine reserved.imp_right fun ⟨n, hn, hlt, free⟩ => ⟨n, hn, hlt, fun v hv => ?_⟩
          rw [waitingOn_asleep] at hv
          by_contra hvt
          rw [if_neg hvt] at hv
          exact free v hv
        · refine (h.waits u s' hw).imp_right fun ⟨n, hn, hlt, only⟩ => ⟨n, hn, hlt, fun v hv => ?_⟩
          rw [waitingOn_asleep] at hv
          split at hv
          · -- The ticket is not the one that the task starts to wait for, for which nobody waited.
            obtain rfl := Option.some.inj hv
            rcases reserved with answer | ⟨_, -, -, free⟩
            · rw [hn] at answer
              cases answer
            · exact absurd hw (free u)
          · exact only v hv }

/-- A ticket that a task waits for has been given. -/
theorem given_of_waitingOn (h : Orderly own Q l) {n : Nat} (ht : l.waitingOn t = some (.ticket n)) :
    n < l.nextTicket := by
  rcases h.waits t _ ht with he | ⟨n', he, hlt, -⟩
  · cases he
  · exact Signal.ticket.inj he ▸ hlt

/-- A task that is to be cancelled cancels what it starts to wait for, which is its own. -/
theorem mild_suspend {t : Nat} {st : TaskState κ} (hst : l.task? t = some st) {s : Signal}
    (reserved : l.Reserved t s) :
    Mild (fun s' e => e = .cancelled ∧ s' = s ∧ st.mustCancel = true) (l.asleep t st s)
      (Machine.suspend l t s) := by
  rw [Machine.suspend, hst]
  dsimp only
  split
  · next marked =>
    split
    · rcases reserved with he | ⟨n, he, -⟩ <;> cases he
    · refine (mild_raise (l.asleep t st s) s .cancelled).mono ?_
      rintro s' e ⟨rfl, rfl⟩
      exact ⟨rfl, rfl, marked⟩
  · exact .refl (l.asleep t st s)

theorem suspend {t : Nat} (h : Orderly (some t) Q l) {st : TaskState κ} (hst : l.task? t = some st)
    {s : Signal} (reserved : l.Reserved t s) : Orderly none Q (Machine.suspend l t s) := by
  have hasleep := h.asleep hst reserved
  refine hasleep.mild (mild_suspend hst reserved) ?_
  rintro s' e ⟨-, rfl, -⟩
  have waits : (l.asleep t st s').waitingOn t = some s' := by rw [waitingOn_asleep, if_pos rfl]
  refine ⟨hasleep.not_ended waits, fun n hn => ?_⟩
  subst hn
  exact hasleep.given_of_waitingOn waits

/-- A task that waits for nothing can end. -/
theorem finish {own : Option Nat} {t : Nat} (h : Orderly own Q l) (hlt : t < l.nextTask)
    (hwaiting : l.waitingOn t = none) (e : Ending ε ν) : Orderly none Q (l.finish t e) := by
  have hpending (i : Ready η) : pending Q (l.finish t e) i = pending Q l i :=
    pending_congr (fun i => expected_raise _ _ _ i) i
  have hnext : (l.finish t e).nextTask = l.nextTask := nextTask_finish l t e
  have hraise := mild_raise { l with tasks := Assoc.erase t l.tasks } (.ended t) e
  exact
    { toPunctual := h.toPunctual.finish hlt hwaiting e
      timeless := hraise.timeless h.timeless
      relays := fun a s hs => by
        rw [hpending] at hs
        obtain ⟨n, u, ha, hn, hu⟩ := h.relays a s hs
        exact ⟨n, u, ha, Nat.lt_of_lt_of_le hn hraise.nextTicket, hu⟩
      hooks := fun k s hs => by
        rw [hpending] at hs ⊢
        rw [hnext]
        exact h.hooks k s hs
      tickets := fun n hn => by
        obtain ⟨e', he'⟩ := Option.ne_none_iff_exists'.1 hn
        rcases hraise.raises _ e' he' with hl | hnew
        · have hl : l.ending? (.ticket n) = some e' := hl
          exact Nat.lt_of_lt_of_le (h.tickets n (by simp [hl])) hraise.nextTicket
        · cases hnew.1
      waits := fun u s hw => by
        have earlier (v : Nat) (hv : (l.finish t e).waitingOn v = some s) :
            l.waitingOn v = some s := by
          rw [waitingOn, task?_finish] at hv
          split at hv
          · cases hv
          · exact hv
        refine (h.waits u s (earlier u hw)).imp_right ?_
        rintro ⟨n, hn, hlt, only⟩
        exact ⟨n, hn, Nat.lt_of_lt_of_le hlt hraise.nextTicket, fun v hv => only v (earlier v hv)⟩ }

/-- Who is cancelled hears of it where he waits, or else later, and nobody else does. -/
theorem mild_cancel {own : Option Nat} (h : Orderly own Q l) (t : Nat) :
    Mild (fun s e => e = .cancelled ∧ l.waitingOn t = some s) l (l.cancel t).1 := by
  rw [cancel, cancelTask]
  split
  · exact .refl l
  · next st hst =>
    have counted : Mild (fun s e => e = .cancelled ∧ l.waitingOn t = some s) l
        (l.setTask t { st with cancels := st.cancels + 1 }) := mild_setTask hst rfl rfl
    have hset : (l.setTask t { st with cancels := st.cancels + 1 }).task? t =
        some { st with cancels := st.cancels + 1 } := by
      rw [task?_setTask, if_pos rfl]
    have marked : Mild (fun s e => e = .cancelled ∧ l.waitingOn t = some s) l
        ((l.setTask t { st with cancels := st.cancels + 1 }).setTask t
          { st with cancels := st.cancels + 1, mustCancel := true }) :=
      counted.trans (mild_setTask hset rfl rfl)
    have hwaiting (s : Signal) (hs : st.waiting = some s) : l.waitingOn t = some s := by
      rw [waitingOn, hst, Option.bind_some, hs]
    dsimp only
    split
    · exact marked
    · next other hs => exact absurd rfl (h.not_ended (hwaiting _ hs) other)
    · next s _ hs =>
      split
      · exact marked
      · refine counted.trans ((mild_raise _ s .cancelled).mono ?_)
        rintro s' e ⟨rfl, rfl⟩
        exact ⟨rfl, hwaiting s' hs⟩

/-- Only who is cancelled is marked as such.  All other tasks are as they were. -/
theorem marked_cancel {own : Option Nat} (h : Orderly own Q l) {t u : Nat} {st : TaskState κ}
    (hst : (l.cancel t).1.task? u = some st) :
    (u = t ∧ l.jobOf t = some st.job) ∨ l.task? u = some st := by
  have jobs := (h.mild_cancel t).jobs u
  rw [jobOf_of_task? hst] at jobs
  by_cases hut : u = t
  · exact .inl ⟨hut, hut ▸ jobs.symm⟩
  · right
    rw [cancel, cancelTask] at hst
    split at hst
    · exact hst
    · next st' hst' =>
      dsimp only at hst
      split at hst
      · rwa [task?_setTask, if_neg hut, task?_setTask, if_neg hut] at hst
      · next other hs =>
        exact absurd rfl (h.not_ended (by rw [waitingOn, hst', Option.bind_some, hs]) other)
      · next s _ hs =>
        split at hst
        · rwa [task?_setTask, if_neg hut, task?_setTask, if_neg hut] at hst
        · rwa [(SameTasks.raise (.refl _) s .cancelled).task?, task?_setTask, if_neg hut] at hst

theorem empty : Orderly none 0 ({} : Loop κ η ε ν) := by
  have none_pending (i : Ready η) : ¬ 0 < pending 0 ({} : Loop κ η ε ν) i := by
    cases i <;> simp [pending, expected, signalState, Assoc.get?]
  exact
    { toPunctual := .empty
      timeless := ⟨rfl, rfl, rfl⟩
      relays := fun s s' hs => absurd hs (none_pending _)
      hooks := fun k s hs => absurd hs (none_pending _)
      tickets := fun n hn => absurd rfl hn
      waits := fun _ _ hw => by cases hw }

end Orderly

end Loop

end PikeAnalysis.Concurrency

/-! ## Counting on an ending -/

namespace PikeAnalysis.Concurrency

/-- How a task may end, and what may befall it.  They depend on the job, so they have to be agreed
on before anything is known about the state. -/
structure Terms (κ ε ν : Type) where
  /-- How a task with a job may end. -/
  comes : Nat → κ → Ending ε ν → Prop
  /-- How the outside may answer a task with a job. -/
  answered : κ → Ending ε ν → Prop
  /-- Whether a task with a job may be cancelled. -/
  cancels : Nat → κ → Prop
  comes_cancelled : ∀ {t job}, cancels t job → comes t job .cancelled

namespace Loop

variable {κ η ε ν : Type} {l m n : Loop κ η ε ν} {Q Q' Q'' : Multiset (Ready η)} {t : Nat} {job : κ}
  {terms : Terms κ ε ν} {X : Signal → Prop} {W : Ending ε ν → Prop} {i : Ready η}

/-- A task may end, or has ended, only in one of some ways. -/
def Expects (terms : Terms κ ε ν) (l : Loop κ η ε ν) (t : Nat) (W : Ending ε ν → Prop) : Prop :=
  (∃ job, l.jobOf t = some job ∧ ∀ e, terms.comes t job e → W e) ∨
    ∃ e, l.ending? (.ended t) = some e ∧ W e

/-- A signal may be raised, or has been raised, only with one of some endings.  For a ticket it says
that the end of a task, or the answer to one, is going to be passed on to it. -/
def Trusts (terms : Terms κ ε ν) (Q : Multiset (Ready η)) (l : Loop κ η ε ν) :
    Signal → (Ending ε ν → Prop) → Prop
  | .ended t, W => l.Expects terms t W
  | .ticket n, W => n < l.nextTicket ∧ (∀ e, l.ending? (.ticket n) = some e → W e) ∧
      ∀ t, 0 < pending Q l (.follow (.relay (.ticket n)) (.ended t)) → l.Expects terms t W
  | .answer id, W => id < l.nextTask ∧ (∀ e, l.ending? (.answer id) = some e → W e) ∧
      ∀ job e, l.jobOf id = some job → terms.answered job e → W e
  | .joint _, _ | .outside _, _ | .turn _, _ => False

/-- Tasks have been answered and cancelled only as they may be.  An answer that a task has been
given is one that its job allows, or it was cancelled and its job allows that; a mark by which it
will be cancelled in its next turn is subject to the same terms. -/
structure Fair (terms : Terms κ ε ν) (l : Loop κ η ε ν) : Prop where
  answered : ∀ id e, l.ending? (.answer id) = some e → id < l.nextTask ∧
    ∀ job, l.jobOf id = some job → (e = .cancelled ∧ terms.cancels id job) ∨ terms.answered job e
  marked : ∀ t st, l.task? t = some st → st.mustCancel = true → terms.cancels t st.job

theorem Expects.of_jobOf (h : l.jobOf t = some job) : l.Expects terms t (terms.comes t job) :=
  .inl ⟨job, h, fun _ he => he⟩

theorem Expects.mono {W' : Ending ε ν → Prop} (h : l.Expects terms t W) (le : ∀ e, W e → W' e) :
    l.Expects terms t W' :=
  h.imp (fun ⟨job, hjob, comes⟩ => ⟨job, hjob, fun e he => le e (comes e he)⟩)
    fun ⟨e, he, hW⟩ => ⟨e, he, le e hW⟩

/-- A task has ended in one of the ways that were expected. -/
theorem Expects.ending {own : Option Nat} (h : l.Expects terms t W) (order : Orderly own Q l)
    {e : Ending ε ν} (he : l.ending? (.ended t) = some e) : W e := by
  rcases h with ⟨job, hjob, -⟩ | ⟨e', he', hW⟩
  · rw [order.open_of_jobOf hjob] at he
    cases he
  · rw [he] at he'
    rwa [Option.some.inj he']

theorem Trusts.ending {own : Option Nat} {s : Signal} (h : l.Trusts terms Q s W)
    (order : Orderly own Q l) {e : Ending ε ν} (he : l.ending? s = some e) : W e := by
  cases s with
  | ended t => exact Expects.ending h order he
  | ticket n => exact h.2.1 e he
  | answer id => exact h.2.1 e he
  | joint | outside | turn => exact h.elim

/-! ## Faithful changes -/

/-- A change that ends tasks only as they may end, answers them only as they may be answered, and
passes on only what is to be passed on.  Of the signals that tasks wait for it raises only those in
`X` as cancelled.  What is in `X` may be raised as cancelled: these are the signals of tasks that
may be cancelled. -/
structure Faithful (terms : Terms κ ε ν) (X : Signal → Prop) (own : Option Nat)
    (Q Q' : Multiset (Ready η))
    (l m : Loop κ η ε ν) : Prop where
  evolves : Evolves l m
  waiting : ∀ t, own ≠ some t → t < l.nextTask → m.jobOf t ≠ none → m.waitingOn t = l.waitingOn t
  expects : ∀ t W, l.Expects terms t W → m.Expects terms t W
  trusts : ∀ s W, (X s → W .cancelled) → l.Trusts terms Q s W → m.Trusts terms Q' s W
  fair : l.Fair terms → m.Fair terms

/-- Nothing is cancelled.  It stands where a change raises no signal as cancelled at all. -/
abbrev Nothing : Signal → Prop :=
  fun _ => False

namespace Faithful

variable {own : Option Nat}

theorem refl (l : Loop κ η ε ν) : Faithful terms X own Q Q l l :=
  ⟨.refl l, fun _ _ _ _ => rfl, fun _ _ h => h, fun _ _ _ h => h, id⟩

theorem trans (h : Faithful terms X own Q Q' l m) (k : Faithful terms X own Q' Q'' m n) :
    Faithful terms X own Q Q'' l n where
  evolves := h.evolves.trans k.evolves
  waiting t hown ht hjob := by
    obtain ⟨job, hj⟩ := Option.ne_none_iff_exists'.1 hjob
    have hlt := Nat.lt_of_lt_of_le ht h.evolves.next
    rw [k.waiting t hown hlt hjob]
    exact h.waiting t hown ht (by simp [k.evolves.jobs t job hlt hj])
  expects t W ht := k.expects t W (h.expects t W ht)
  trusts s W hW hs := k.trusts s W hW (h.trusts s W hW hs)
  fair hl := k.fair (h.fair hl)

theorem mono {X' : Signal → Prop} (h : Faithful terms X own Q Q' l m) (le : ∀ s, X s → X' s) :
    Faithful terms X' own Q Q' l m :=
  { h with trusts := fun s W hW => h.trusts s W fun hs => hW (le s hs) }

theorem weaken (h : Faithful terms X none Q Q' l m) (own : Option Nat) :
    Faithful terms X own Q Q' l m :=
  { h with waiting := fun t _ => h.waiting t nofun }

/-- What has to be seen of a change so that it lets nobody down. -/
theorem of_loops {turn : Option Nat} (order : Orderly turn Q l) (evolves : Evolves l m)
    (waiting : ∀ t, own ≠ some t → t < l.nextTask → m.jobOf t ≠ none →
      m.waitingOn t = l.waitingOn t)
    (nextTicket : l.nextTicket ≤ m.nextTicket)
    (jobs : ∀ t job, l.jobOf t = some job →
      m.jobOf t = some job ∨ ∃ e, m.ending? (.ended t) = some e ∧ terms.comes t job e)
    (stays : ∀ t e, l.ending? (.ended t) = some e → m.ending? (.ended t) = some e)
    (raises : ∀ s e, (∀ t, s ≠ .ended t) → m.ending? s = some e → l.ending? s = some e ∨
      (e = .cancelled ∧ X s) ∨
      (∃ id job, s = .answer id ∧ l.jobOf id = some job ∧ terms.answered job e) ∨
      ∃ n t, s = .ticket n ∧ 0 < pending Q l (.follow (.relay (.ticket n)) (.ended t)) ∧
        l.ending? (.ended t) = some e)
    (relays : ∀ n t, n < l.nextTicket →
      0 < pending Q' m (.follow (.relay (.ticket n)) (.ended t)) →
        0 < pending Q l (.follow (.relay (.ticket n)) (.ended t)))
    (cancels : ∀ id, X (.answer id) → ∃ job, l.jobOf id = some job ∧ terms.cancels id job)
    (marks : ∀ t st, m.task? t = some st → st.mustCancel = true → terms.cancels t st.job ∨
      ∃ st', l.task? t = some st' ∧ st'.job = st.job ∧ st'.mustCancel = true) :
    Faithful terms X own Q Q' l m := by
  have expects (t : Nat) (W : Ending ε ν → Prop) (h : l.Expects terms t W) :
      m.Expects terms t W := by
    rcases h with ⟨job, hjob, hcomes⟩ | ⟨e, he, hW⟩
    · rcases jobs t job hjob with hjob | ⟨e, he, hcame⟩
      · exact .inl ⟨job, hjob, hcomes⟩
      · exact .inr ⟨e, he, hcomes e hcame⟩
    · exact .inr ⟨e, stays t e he, hW⟩
  -- What is raised for a task with a job is raised for that task, which keeps its job.
  have known {id : Nat} {job : κ} {V : κ → Prop} (hjob : l.jobOf id = some job) (h : V job) :
      id < m.nextTask ∧ ∀ job', m.jobOf id = some job' → V job' := by
    have hid := order.fresh.lt_of_jobOf hjob
    refine ⟨Nat.lt_of_lt_of_le hid evolves.next, fun job' hj => ?_⟩
    have hold := evolves.jobs id job' hid hj
    rw [hjob] at hold
    exact Option.some.inj hold ▸ h
  have answered (fair : l.Fair terms) (id : Nat) (e : Ending ε ν)
    (he : m.ending? (.answer id) = some e) :
      id < m.nextTask ∧ ∀ job, m.jobOf id = some job →
        (e = .cancelled ∧ terms.cancels id job) ∨ terms.answered job e := by
    rcases raises (.answer id) e nofun he with
      he | ⟨rfl, hX⟩ | ⟨id', job, h, hjob, hcame⟩ | ⟨n', t, h, -⟩
    · obtain ⟨hid, hjobs⟩ := fair.answered id e he
      exact ⟨Nat.lt_of_lt_of_le hid evolves.next,
        fun job hj => hjobs job (evolves.jobs id job hid hj)⟩
    · obtain ⟨job, hjob, hcancels⟩ := cancels id hX
      exact known hjob (.inl ⟨rfl, hcancels⟩)
    · obtain rfl := Signal.answer.inj h
      exact known hjob (.inr hcame)
    · cases h
  have marked (fair : l.Fair terms) (t : Nat) (st : TaskState κ) (hst : m.task? t = some st)
      (hmust : st.mustCancel = true) : terms.cancels t st.job := by
    rcases marks t st hst hmust with hcancels | ⟨st', hst', hjob, hmust⟩
    · exact hcancels
    · exact hjob ▸ fair.marked t st' hst' hmust
  refine ⟨evolves, waiting, expects, fun s W hW hs => ?_, fun fair => ⟨answered fair, marked fair⟩⟩
  cases s with
  | ended t => exact expects t W hs
  | joint | outside | turn => exact hs
  | ticket n =>
    obtain ⟨hn, hended, hrelays⟩ := hs
    refine ⟨Nat.lt_of_lt_of_le hn nextTicket, fun e he => ?_, fun t ht => ?_⟩
    · rcases raises (.ticket n) e
        nofun he with he | ⟨rfl, hX⟩ | ⟨id, job, h, -⟩ | ⟨n', t, h, ht, he⟩
      · exact hended e he
      · exact hW hX
      · cases h
      · obtain rfl := Signal.ticket.inj h
        exact (hrelays t ht).ending order he
    · exact expects t W (hrelays t (relays n t hn ht))
  | answer id =>
    obtain ⟨hid, hended, hanswered⟩ := hs
    refine ⟨Nat.lt_of_lt_of_le hid evolves.next, fun e he => ?_, fun job e hjob => ?_⟩
    · rcases raises (.answer id) e nofun he with
        he | ⟨rfl, hX⟩ | ⟨id', job, h, hjob, hcame⟩ | ⟨n', t, h, -⟩
      · exact hended e he
      · exact hW hX
      · obtain rfl := Signal.answer.inj h
        exact hanswered job e hjob hcame
      · cases h
    · exact hanswered job e (evolves.jobs id job hid hjob)

/-- Nobody is let down by a change that adds nothing and raises only as it may. -/
theorem of_mild {new : Signal → Ending ε ν → Prop} (order : Orderly own Q l) (h : Mild new l m)
    (hnew : ∀ s e, new s e → (e = .cancelled ∧ X s) ∨
      (∃ id job, s = .answer id ∧ l.jobOf id = some job ∧ terms.answered job e) ∨
      ∃ n t, s = .ticket n ∧ 0 < pending Q l (.follow (.relay (.ticket n)) (.ended t)) ∧
        l.ending? (.ended t) = some e)
    (le : ∀ n t, pending Q' l (.follow (.relay (.ticket n)) (.ended t)) ≤
      pending Q l (.follow (.relay (.ticket n)) (.ended t)))
    (cancels : ∀ id, X (.answer id) → ∃ job, l.jobOf id = some job ∧ terms.cancels id job)
    (marks : ∀ t st, m.task? t = some st → st.mustCancel = true → terms.cancels t st.job ∨
      ∃ st', l.task? t = some st' ∧ st'.job = st.job ∧ st'.mustCancel = true) :
    Faithful terms X own Q Q' l m := by
  refine of_loops order ?_ (fun t _ _ _ => h.waiting t) h.nextTicket (fun t job hjob => .inl ?_)
    (fun t e => h.stays _ e) (fun s e hs he => ?_) (fun n t _ ht => ?_) cancels marks
  · refine ⟨Nat.le_of_eq h.next.symm, fun t job _ hj => by rwa [← h.jobs t], fun hf t ht => ?_⟩
    rw [h.next]
    exact hf t (by rwa [← h.jobs t])
  · rw [h.jobs t]
    exact hjob
  · exact (h.raises s e he).imp_right (hnew s e)
  · rw [h.pending] at ht
    exact Nat.lt_of_lt_of_le ht (le n t)

/-- A change of the loop alone that marks nobody. -/
theorem unmarked (same : ∀ t, m.task? t = l.task? t) (t : Nat) (st : TaskState κ)
    (hst : m.task? t = some st) (hmust : st.mustCancel = true) : terms.cancels t st.job ∨
      ∃ st', l.task? t = some st' ∧ st'.job = st.job ∧ st'.mustCancel = true :=
  .inr ⟨st, (same t).symm.trans hst, rfl, hmust⟩

theorem of_same (order : Orderly own Q l) (h : Mild (fun _ _ => False) l m)
    (same : ∀ t, m.task? t = l.task? t) : Faithful terms Nothing own Q Q l m :=
  of_mild order h nofun (fun _ _ => Nat.le_refl _) nofun (unmarked same)

theorem drop (order : Orderly own (i ::ₘ Q) l) : Faithful terms Nothing own (i ::ₘ Q) Q l l := by
  have still : Mild (fun _ _ => False) l l := .refl l
  refine of_mild order still nofun (fun n t => ?_) nofun (unmarked fun _ => rfl)
  rw [pending_cons]
  omega

/-- A task is cancelled that may be. -/
theorem cancel (order : Orderly own Q l) {t : Nat}
    (may : ∀ job, l.jobOf t = some job → terms.cancels t job) :
    Faithful terms (fun s => l.waitingOn t = some s) own Q Q l (l.cancel t).1 := by
  refine of_mild order (order.mild_cancel t) (fun _ _ h => .inl h) (fun _ _ => Nat.le_refl _)
    (fun id hid => ?_) fun u st hst marked => ?_
  · obtain rfl : id = t := by
      rcases order.waits t _ hid with same | ⟨n, same, -⟩
      · exact Signal.answer.inj same
      · cases same
    cases hst : l.task? id with
    | none =>
      rw [waitingOn_eq_none_of_task? hst] at hid
      cases hid
    | some st => exact ⟨st.job, jobOf_of_task? hst, may st.job (jobOf_of_task? hst)⟩
  · rcases order.marked_cancel hst with ⟨rfl, hjob⟩ | hst
    · exact .inl (may _ hjob)
    · exact .inr ⟨st, hst, rfl, marked⟩

theorem create (order : Orderly own Q l) (job : κ) :
    Faithful terms Nothing own Q Q l (l.create job).1 := by
  refine of_loops order (evolves_create l job) (fun t _ _ _ => waitingOn_create order.fresh job t)
    (Nat.le_refl _) (fun t j hj => .inl ?_) (fun t e h => h) (fun s e _ h => .inl h)
      (fun n t _ ht => ?_)
    nofun fun t st hst marked => ?_
  · rw [order.fresh.jobOf_create, if_neg]
    · exact hj
    · exact Nat.ne_of_lt (order.fresh.lt_of_jobOf hj)
  · rw [pending_create, if_neg nofun] at ht
    exact ht
  · rw [task?_create l job order.fresh.task?_next] at hst
    split at hst
    · obtain rfl := Option.some.inj hst
      cases marked
    · exact .inr ⟨st, hst, rfl, marked⟩

/-- A follower may be added unless it passes something on to a ticket that is known. -/
theorem follow (order : Orderly own Q l) (s : Signal) {f : Follower η}
    (unknown : ∀ n, f = .relay (.ticket n) → ¬ n < l.nextTicket) :
    Faithful terms Nothing own Q Q l (l.follow s f) := by
  have same : SameTasks l (l.follow s f) := .follow (.refl l) s f
  refine of_loops order same.evolves (fun t _ _ _ => waitingOn_of_sameTasks same t)
    (Nat.le_of_eq (nextTicket_follow l s f).symm) (fun t j hj => .inl ?_) (fun t e h => ?_)
    (fun s' e _ h => .inl ?_) (fun n t hn ht => ?_) nofun (unmarked same.task?)
  · rwa [same.sameJobs.jobs]
  · rwa [ending?_follow]
  · rwa [ending?_follow] at h
  · rw [pending_follow, if_neg] at ht
    · exact ht
    · intro he
      exact unknown n (Ready.follow.inj he).1.symm hn

theorem asleep (order : Orderly (some t) Q l) {st : TaskState κ} (hst : l.task? t = some st)
    (s : Signal) : Faithful terms Nothing (some t) Q Q l (l.asleep t st s) := by
  have same := sameJobs_asleep hst s
  refine of_loops order same.evolves (fun u hu _ _ => ?_) (Nat.le_of_eq (nextTicket_asleep ..).symm)
    (fun u j hj => .inl ?_) (fun u e h => ?_) (fun s' e _ h => .inl ?_) (fun n u _ hu => ?_) nofun
    fun u st' hst' marked => ?_
  · rw [waitingOn_asleep, if_neg fun he => hu (congrArg some he.symm)]
  · rwa [same.jobs]
  · rwa [ending?_asleep]
  · rwa [ending?_asleep] at h
  · rw [pending_asleep, if_neg nofun] at hu
    exact hu
  · rw [task?_asleep] at hst'
    split at hst'
    · obtain rfl := Option.some.inj hst'
      cases marked
    · exact .inr ⟨st', hst', rfl, marked⟩

theorem suspend (order : Orderly (some t) Q l) {st : TaskState κ} (hst : l.task? t = some st)
    {s : Signal} (reserved : l.Reserved t s) (fair : l.Fair terms) :
    Faithful terms (fun s' => s' = s ∧ terms.cancels t st.job) (some t) Q Q l
      (Machine.suspend l t s) := by
  have hmild := Orderly.mild_suspend hst reserved
  have hasleep := order.asleep hst reserved
  have slept : Faithful terms Nothing (some t) Q Q l (l.asleep t st s) := asleep order hst s
  refine (slept.mono fun _ no => no.elim).trans
    ((of_mild hasleep hmild ?_ (fun _ _ => Nat.le_refl _) ?_ fun u st' hst' marked => ?_).weaken _)
  · rintro s' e ⟨he, hs, marked⟩
    exact .inl ⟨he, hs, fair.marked t st hst marked⟩
  · rintro asker ⟨hs, hcancels⟩
    obtain rfl : asker = t := by
      rcases reserved with same | ⟨n, same, -⟩
      · exact Signal.answer.inj (hs.trans same)
      · exact absurd (hs.trans same) nofun
    exact ⟨st.job, by rw [(sameJobs_asleep hst s).jobs, jobOf_of_task? hst], hcancels⟩
  · have same := task?_suspend hst reserved.not_ended u
    exact .inr ⟨st', same.symm.trans hst', rfl, marked⟩

/-- A task that has not ended may end as tasks with its job may. -/
theorem finish (order : Orderly own Q l) (hjob : l.jobOf t = some job) {e : Ending ε ν}
    (hcomes : terms.comes t job e) : Faithful terms Nothing own Q Q l (l.finish t e) := by
  have hraise := mild_raise { l with tasks := Assoc.erase t l.tasks } (.ended t) e
  have hopen : l.ending? (.ended t) = none := order.open_of_jobOf hjob
  have hended : (l.finish t e).ending? (.ended t) = some e := by
    refine (ending?_raise _ _ _ e).trans (if_pos ⟨rfl, hopen⟩)
  have htask (u : Nat) (hu : u ≠ t) : (l.finish t e).task? u = l.task? u := by
    rw [task?_finish, if_neg hu]
  refine of_loops order (evolves_finish l t e) (fun u _ _ hu => ?_) hraise.nextTicket
    (fun u j hj => ?_) (fun u e' h => hraise.stays _ e' h) (fun s e' hs h => ?_)
      (fun n u _ hu => ?_) nofun
    fun u st hst marked => ?_
  · have hut : u ≠ t := by
      rintro rfl
      exact hu (jobOf_finish_self l u e)
    rw [waitingOn, waitingOn, htask u hut]
  · by_cases hut : u = t
    · subst hut
      rw [hjob] at hj
      obtain rfl := Option.some.inj hj
      exact .inr ⟨e, hended, hcomes⟩
    · left
      rw [jobOf, htask u hut]
      exact hj
  · rcases hraise.raises s e' h with h | h
    · exact .inl h
    · exact absurd h.1 (hs t)
  · rwa [show pending Q (l.finish t e) _ = pending Q l _ from
      pending_congr (fun i => expected_raise _ _ _ i) _] at hu
  · rw [task?_finish] at hst
    split at hst
    · cases hst
    · exact .inr ⟨st, hst, rfl, marked⟩

/-- The end of a task is passed on to a ticket. -/
theorem relay {s s' : Signal} (order : Orderly own (.follow (.relay s) s' ::ₘ Q) l) :
    Faithful terms Nothing own (.follow (.relay s) s' ::ₘ Q) Q l
      (l.raise s ((l.ending? s').getD .cancelled)) := by
  have hpending : 0 < pending (.follow (.relay s) s' ::ₘ Q) l (.follow (.relay s) s') := by
    rw [pending_cons, if_pos rfl]
    omega
  obtain ⟨n, t, rfl, -, rfl⟩ := order.relays s s' hpending
  refine of_mild order (mild_raise l _ _) ?_ (fun n' t' => ?_) nofun
    (unmarked (SameTasks.raise (.refl l) _ _).task?)
  · rintro s e ⟨rfl, rfl⟩
    have hraised := order.raised _ _ (.inl (Multiset.mem_cons_self _ _))
    obtain ⟨e, he⟩ := Option.ne_none_iff_exists'.1 hraised
    refine .inr (.inr ⟨n, t, rfl, hpending, ?_⟩)
    rw [he, Option.getD_some]
  · rw [pending_cons]
    omega

/-- The outside answers a task as it may. -/
theorem answer (order : Orderly own Q l) {id : Nat} (hjob : l.jobOf id = some job) {e : Ending ε ν}
    (hanswered : terms.answered job e) :
    Faithful terms Nothing own Q Q l (l.raise (.answer id) e) := by
  refine of_mild order (mild_raise l _ e) ?_ (fun _ _ => Nat.le_refl _) nofun
    (unmarked (SameTasks.raise (.refl l) _ _).task?)
  rintro s e' ⟨rfl, rfl⟩
  exact .inr (.inl ⟨id, job, rfl, hjob, hanswered⟩)

theorem gather (order : Orderly own Q l) :
    Faithful terms Nothing own Q (Q + (l.ready : Multiset (Ready η))) l { l with ready := [] } := by
  refine of_loops order ⟨Nat.le_refl _, fun _ _ _ h => h, fun h => h⟩ (fun _ _ _ _ => rfl)
    (Nat.le_refl _) (fun _ _ h => .inl h) (fun _ _ h => h) (fun _ _ _ h => .inl h)
      (fun n t _ ht => ?_) nofun
    (unmarked fun _ => rfl)
  rwa [pending_gather] at ht

/-- A task begins a turn after what it waited for. -/
theorem wake (order : Orderly own (i ::ₘ Q) l) {st : TaskState κ} (hst : l.task? t = some st) :
    Faithful terms Nothing (some t) (i ::ₘ Q) Q l
      (l.setTask t { st with waiting := none, mustCancel := false }) := by
  have hjob : l.jobOf t = some st.job := jobOf_of_task? hst
  have same : SameJobs l (l.setTask t { st with waiting := none, mustCancel := false }) :=
    .setTask (.refl l) hjob
  refine of_loops order same.evolves (fun u hu _ _ => ?_) (Nat.le_refl _)
    (fun u j hj => .inl ((same.jobs u).trans hj)) (fun _ _ h => h) (fun _ _ _ h => .inl h)
    (fun n u _ hu => ?_) nofun fun u st' hst' marked => ?_
  · rw [waitingOn_setTask, if_neg fun he => hu (congrArg some he.symm)]
  · rw [pending_setTask] at hu
    rw [pending_cons]
    omega
  · rw [task?_setTask] at hst'
    split at hst'
    · obtain rfl := Option.some.inj hst'
      cases marked
    · exact .inr ⟨st', hst', rfl, marked⟩

end Faithful

/-! ## Tasks with something to do after their end -/

/-- A loop with a new task, and with something that is to be done when it ends. -/
def hooked (l : Loop κ η ε ν) (job : κ) (h : η) : Loop κ η ε ν :=
  (l.create job).1.follow (.ended l.nextTask) (.hook h)

theorem Fresh.jobOf_hooked (fresh : l.Fresh) (job : κ) (h : η) (u : Nat) :
    (l.hooked job h).jobOf u = if u = l.nextTask then some job else l.jobOf u := by
  have same : SameTasks (l.create job).1 (l.hooked job h) := .follow (.refl _) _ _
  rw [same.sameJobs.jobs, fresh.jobOf_create]

open Classical in
theorem pending_hooked (Q : Multiset (Ready η)) (l : Loop κ η ε ν) (job : κ)
    (h k : η) (s : Signal) :
    pending Q (l.hooked job h) (.follow (.hook k) s) =
      pending Q l (.follow (.hook k) s) + if k = h ∧ s = .ended l.nextTask then 1 else 0 := by
  rw [hooked, pending_follow, pending_create, if_neg nofun, Nat.add_zero]
  simp

theorem Orderly.hooked {own : Option Nat} (order : Orderly own Q l) (job : κ) (h : η)
    (hown : own ≠ some l.nextTask) : Orderly own Q (l.hooked job h) := by
  refine (order.create job hown).follow _ nofun nofun fun k hk => ⟨?_, l.nextTask, rfl, ?_⟩
  · rw [pending_create, if_neg nofun, Nat.add_zero]
    refine Nat.eq_zero_of_not_pos fun hpos => ?_
    obtain ⟨-, t, ht, hlt⟩ := order.hooks h _ hpos
    have := Signal.ended.inj ht
    omega
  · exact Nat.lt_succ_self _

theorem Faithful.hooked {own : Option Nat} (order : Orderly own Q l) (job : κ) (h : η)
    (hown : own ≠ some l.nextTask) : Faithful terms Nothing own Q Q l (l.hooked job h) :=
  (Faithful.create order job).trans (.follow (order.create job hown) _ nofun)

/-! ## Passing on -/

/-- A loop in which the end of a task is passed on to a new ticket.  The caller waits for the
ticket, so cancelling the caller does not reach the task. -/
def passingOn (l : Loop κ η ε ν) (t : Nat) : Loop κ η ε ν :=
  l.newTicket.1.follow (.ended t) (.relay (.ticket l.nextTicket))

theorem sameTasks_passingOn (l : Loop κ η ε ν) (t : Nat) : SameTasks l (l.passingOn t) :=
  have same : SameTasks l l.newTicket.1 := ⟨rfl, rfl, fun _ h => h⟩
  same.follow _ _

open Classical in
theorem pending_passingOn (Q : Multiset (Ready η)) (l : Loop κ η ε ν) (t : Nat) (i : Ready η) :
    pending Q (l.passingOn t) i = pending Q l i +
      if i = .follow (.relay (.ticket l.nextTicket)) (.ended t) then 1 else 0 := by
  have mild : Mild (fun _ _ => False) l l.newTicket.1 := mild_newTicket l
  rw [passingOn, pending_follow, mild.pending]

theorem ending?_passingOn (l : Loop κ η ε ν) (t : Nat) (s : Signal) :
    (l.passingOn t).ending? s = l.ending? s :=
  ending?_follow _ _ _ _

theorem nextTicket_passingOn (l : Loop κ η ε ν) (t : Nat) :
    (l.passingOn t).nextTicket = l.nextTicket + 1 :=
  nextTicket_follow _ _ _

variable {own : Option Nat}

theorem Orderly.passingOn (h : Orderly own Q l) (t : Nat) : Orderly own Q (l.passingOn t) := by
  have mild : Mild (fun _ _ => False) l l.newTicket.1 := mild_newTicket l
  refine (h.mild mild nofun).follow (.ended t) nofun (fun s hs => ?_) nofun
  exact ⟨l.nextTicket, t, (Follower.relay.inj hs).symm, Nat.lt_succ_self _, rfl⟩

theorem Faithful.passingOn (order : Orderly own Q l) (t : Nat) :
    Faithful terms Nothing own Q Q l (l.passingOn t) := by
  have same := sameTasks_passingOn l t
  refine of_loops order same.evolves (fun u _ _ _ => waitingOn_of_sameTasks same u) ?_
    (fun u j hj => .inl ((same.sameJobs.jobs u).trans hj)) (fun u e h => ?_)
    (fun s e _ h => .inl ?_) (fun n u hn hu => ?_) nofun (unmarked same.task?)
  · rw [nextTicket_passingOn]
    exact Nat.le_succ _
  · rwa [ending?_passingOn]
  · rwa [ending?_passingOn] at h
  · rw [pending_passingOn, if_neg] at hu
    · exact hu
    · intro he
      obtain ⟨hf, -⟩ := Ready.follow.inj he
      have := Signal.ticket.inj (Follower.relay.inj hf)
      omega

/-- The ticket to which the end of a task is passed on has not been raised. -/
theorem Orderly.open_passingOn (order : Orderly own Q l) (t : Nat) :
    (l.passingOn t).ending? (.ticket l.nextTicket) = none := by
  rw [ending?_passingOn]
  by_contra raised
  exact Nat.lt_irrefl _ (order.tickets _ raised)

/-- Nobody waits for the ticket to which the end of a task is passed on. -/
theorem Orderly.reserved_passingOn (order : Orderly own Q l) (t u : Nat) :
    (l.passingOn t).Reserved u (.ticket l.nextTicket) := by
  refine .inr ⟨l.nextTicket, rfl, ?_, fun v hv => ?_⟩
  · rw [nextTicket_passingOn]
    exact Nat.lt_succ_self _
  · rw [waitingOn_of_sameTasks (sameTasks_passingOn l t)] at hv
    exact Nat.lt_irrefl _ (order.given_of_waitingOn hv)

/-- The ticket to which the end of a task is passed on is raised as the task ends. -/
theorem trusts_passingOn (order : Orderly own Q l) {t : Nat} (h : l.Expects terms t W) :
    (l.passingOn t).Trusts terms Q (.ticket l.nextTicket) W := by
  refine ⟨?_, fun e he => ?_, fun u hu => ?_⟩
  · rw [nextTicket_passingOn]
    exact Nat.lt_succ_self _
  · rw [ending?_passingOn] at he
    have := order.tickets l.nextTicket (by simp [he])
    omega
  · rw [pending_passingOn] at hu
    split at hu
    · next he =>
      obtain rfl := Signal.ended.inj (Ready.follow.inj he).2
      exact (Faithful.passingOn order u).expects u W h
    · obtain ⟨n, -, hn, hlt, -⟩ := order.relays _ _ hu
      have := Signal.ticket.inj hn
      omega

end Loop

end PikeAnalysis.Concurrency
