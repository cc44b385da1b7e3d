import PikeAnalysis.Proofs.Concurrency.Waking

/-!
# Tasks that nobody cancels

Some tasks are firm: nobody cancels them, and whoever waits for the end of one waits with a ticket
of his own, to which the end is passed on.  A loop is guarded (`Loop.Guarded`) if nothing in it can
cancel a firm task, and sane (`Loop.Sane`) if besides every ticket is raised for one purpose only.

Who is cancelled hears of it where he waits: the signal is raised as cancelled.  Since no two tasks
wait for the same ticket, turn or the like, that concerns nobody else.  So what a firm task waits
for is not cancelled, and a ticket that is bound to a signal (`Loop.Bound`) is raised as that signal
is, unless it was given to a task that is not firm and that was cancelled.

Three strengths of change are told apart.  A soft change (`Soft`) raises signals as cancelled only
for tasks that may be cancelled, and nothing else of what is raised surprises anybody; a gentle one
(`Gentle`) is soft and besides every cancellation that a waiting task will hear of has been counted
for it; a calm one (`Calm`) is any change that keeps the loop guarded and sane and the firm tasks as
they were.  Gentle changes are calm (`Gentle.calm`), and calm ones compose, so the proofs about a
program only ever use that its steps are calm.

Which tasks are firm, and which tickets are claimed by others than the loop, is a parameter: the
custom (`Custom`) says the first, and the predicates `C` and `C'` the second, for a lock or a queue
of the program's own.
-/

namespace PikeAnalysis.Concurrency

/-- Which jobs are firm, and which hooks may follow which signals.  A custom belongs to a program
and does not change while it runs. -/
structure Custom (κ η : Type) where
  /-- Whether a task with a job is firm. -/
  firm : Nat → κ → Prop
  hooks : η → Signal → Prop

/-- What may follow a signal: only the ends of tasks are passed on, and only to tickets.  Everything
else that follows a signal goes on with a task, or is a hook that the custom allows there. -/
def Follower.Fits {κ η : Type} (c : Custom κ η) (f : Follower η) (s : Signal) : Prop :=
  match f with
  | .resume _ | .part _ => True
  | .relay s' => ∃ n t, s' = .ticket n ∧ s = .ended t
  | .hook h => c.hooks h s

namespace Signal

/-- Whether a signal is for one task alone and is never raised in the way in which another one
was. -/
def Lone : Signal → Prop
  | .joint _ | .outside _ | .turn _ => True
  | .ended _ | .ticket _ | .answer _ => False

/-- Whether a signal is for one task alone.  A ticket is known to whoever drew it, so at most one
task ever waits for it; the end of a task and an answer may be waited for by many. -/
def Private : Signal → Prop
  | .ticket _ | .joint _ | .outside _ | .turn _ => True
  | .ended _ | .answer _ => False

/-- Whether a signal has a number that a loop has given out, if it has such a number. -/
def Given (limit : Nat) : Signal → Prop
  | .ticket n | .joint n | .outside n => n < limit
  | .ended _ | .turn _ | .answer _ => True

theorem Given.mono {s : Signal} {limit limit' : Nat} (h : s.Given limit) (le : limit ≤ limit') :
    s.Given limit' := by
  cases s with
  | ticket | joint | outside => exact Nat.lt_of_lt_of_le h le
  | ended | turn | answer => trivial

theorem Lone.isPrivate {s : Signal} (h : s.Lone) : s.Private := by
  cases s with
  | joint | outside | turn => trivial
  | ended | ticket | answer => exact h.elim

end Signal

namespace Loop

variable {κ η ε ν : Type} {c : Custom κ η} {l m n : Loop κ η ε ν} {Q : Multiset (Ready η)}
  {own : Option Nat} {t : Nat} {job : κ} {C C' : Nat → Prop} {A : Signal → Prop} {i : Ready η}

/-! ## Guarded loops -/

/-- A task that has a number and is not firm, if it has not ended.  It is what a cancellation may be
aimed at: a number that was never given or belongs to a firm task is not exposed. -/
def Exposed (c : Custom κ η) (l : Loop κ η ε ν) (t : Nat) : Prop :=
  t < l.nextTask ∧ ∀ job, l.jobOf t = some job → ¬ c.firm t job

/-- A signal that a task waits for which may be cancelled.  Raising it as cancelled harms nobody but
the task that waits for it. -/
def Borne (c : Custom κ η) (l : Loop κ η ε ν) (s : Signal) : Prop :=
  ∃ t, l.waitingOn t = some s ∧ l.Exposed c t

/-- A signal that a firm task waits for.  Raising such a signal as cancelled would end a task that
must not be. -/
def Firmly (c : Custom κ η) (l : Loop κ η ε ν) (s : Signal) : Prop :=
  ∃ t job, l.waitingOn t = some s ∧ l.jobOf t = some job ∧ c.firm t job

/-- A ticket that is raised by a timer.  Whoever waits for it can count on its being raised, as long
as time passes. -/
def Promised (l : Loop κ η ε ν) (n : Nat) : Prop :=
  ∃ id, (id, TimerAction.raise (.ticket n)) ∈ l.live

/-- A loop in which nothing can cancel a firm task.  A task can be cancelled in few ways: by one
that waits for its end, by a timer that limits it, by being marked before its turn, or by finding
what it waits for cancelled.  Each field closes one of them, or says that what is about to be given
out has not been used before. -/
structure Guarded (c : Custom κ η) (l : Loop κ η ε ν) : Prop where
  fresh : l.Fresh
  marks : ∀ t st, l.task? t = some st → c.firm t st.job → st.mustCancel = false
  /-- Whoever waits for the end of a task itself cancels it when he is cancelled. -/
  targets : ∀ t u, l.waitingOn t = some (.ended u) → l.Exposed c u
  /-- Only firm tasks wait for answers. -/
  askers : ∀ t id, l.waitingOn t = some (.answer id) → ∃ job, l.jobOf t = some job ∧ c.firm t job
  limits : ∀ id t, (id, TimerAction.expire t) ∈ l.live → l.Exposed c t
  alarms : ∀ id s, (id, TimerAction.raise s) ∈ l.live → ∃ n, s = .ticket n
  missing : ∀ n, Assoc.get? n l.missing ≠ none → n < l.nextTicket
  promised : ∀ n, l.Promised n → n < l.nextTicket
  raised : ∀ s, l.ending? s ≠ none → s.Given l.nextTicket
  waits : ∀ t s, l.waitingOn t = some s → s.Given l.nextTicket
  alone : ∀ t u s, s.Private → l.waitingOn t = some s → l.waitingOn u = some s → t = u
  /-- A firm task does not find what it waits for cancelled, unless that was passed on to it. -/
  steady : ∀ s, s.Lone → l.Firmly c s → l.ending? s ≠ some .cancelled
  answers : ∀ id, l.ending? (.answer id) ≠ some .cancelled

theorem Exposed.evolve (h : l.Exposed c t) (evolves : Evolves l m) : m.Exposed c t :=
  ⟨Nat.lt_of_lt_of_le h.1 evolves.next, fun job hjob => h.2 job (evolves.jobs t job h.1 hjob)⟩

theorem Guarded.exposed (h : Guarded c l) (hjob : l.jobOf t = some job) (loose : ¬ c.firm t job) :
    l.Exposed c t :=
  ⟨h.fresh.lt_of_jobOf hjob, fun _ hj => Option.some.inj (hjob.symm.trans hj) ▸ loose⟩

/-- What is for one task alone is not for a firm one if it is for another. -/
theorem Guarded.not_firmly (h : Guarded c l) {s : Signal} (alone : s.Private)
    (borne : l.Borne c s) :
    ¬ l.Firmly c s := by
  rintro ⟨t, job, ht, hjob, firm⟩
  obtain ⟨u, hu, exposed⟩ := borne
  obtain rfl := h.alone t u s alone ht hu
  exact exposed.2 job hjob firm

/-- A number that has not been given out is nobody's. -/
theorem Guarded.unclaimed (h : Guarded c l) {s : Signal} (fresh : ¬ s.Given l.nextTicket)
    (t : Nat) :
    l.waitingOn t ≠ some s :=
  fun ht => fresh (h.waits t s ht)

/-- The firm tasks are the same, and of the answers and turns only those in `A` have been added to
what has been raised or is waited for, those of others that are cancelled aside.  What has been
raised stays so.  This is what a firm task may rely on while others run. -/
structure SameFirm (c : Custom κ η) (A : Signal → Prop) (l m : Loop κ η ε ν) : Prop where
  evolves : Evolves l m
  tickets : l.nextTicket ≤ m.nextTicket
  jobs : ∀ t job, c.firm t job → (m.jobOf t = some job ↔ l.jobOf t = some job)
  stays : ∀ s e, l.ending? s = some e → m.ending? s = some e
  answers : ∀ id, m.ending? (.answer id) ≠ none → l.ending? (.answer id) ≠ none ∨ A (.answer id)
  turns : ∀ n, m.ending? (.turn n) ≠ none →
    l.ending? (.turn n) ≠ none ∨ A (.turn n) ∨ ∃ t, l.waitingOn t = some (.turn n)
  waits : ∀ t n, m.waitingOn t = some (.turn n) → l.waitingOn t = some (.turn n) ∨ A (.turn n)

namespace SameFirm

/-- Nothing has been raised, and nobody has started to wait. -/
theorem of_endings (evolves : Evolves l m) (tickets : l.nextTicket ≤ m.nextTicket)
    (jobs : ∀ t job, c.firm t job → (m.jobOf t = some job ↔ l.jobOf t = some job))
    (endings : ∀ s, m.ending? s = l.ending? s)
    (waits : ∀ t s, m.waitingOn t = some s → l.waitingOn t = some s) : SameFirm c A l m where
  evolves := evolves
  tickets := tickets
  jobs := jobs
  stays s e hs := by rwa [endings]
  answers id hid := .inl (by rwa [← endings])
  turns n hn := .inl (by rwa [← endings])
  waits t n ht := .inl (waits t _ ht)

theorem refl (l : Loop κ η ε ν) : SameFirm c A l l :=
  of_endings (.refl l) (Nat.le_refl _) (fun _ _ _ => Iff.rfl) (fun _ => rfl) fun _ _ h => h

theorem trans (h : SameFirm c A l m) (k : SameFirm c A m n) : SameFirm c A l n where
  evolves := h.evolves.trans k.evolves
  tickets := Nat.le_trans h.tickets k.tickets
  jobs t job firm := (k.jobs t job firm).trans (h.jobs t job firm)
  stays s e hs := k.stays s e (h.stays s e hs)
  answers id hid := by
    rcases k.answers id hid with hid | hid
    · exact h.answers id hid
    · exact .inr hid
  turns n hn := by
    rcases k.turns n hn with hn | hn | ⟨t, ht⟩
    · exact h.turns n hn
    · exact .inr (.inl hn)
    · exact .inr ((h.waits t n ht).symm.imp_right fun ht => ⟨t, ht⟩)
  waits t n ht := by
    rcases k.waits t n ht with ht | ht
    · exact h.waits t n ht
    · exact .inr ht

theorem mono {A' : Signal → Prop} (h : SameFirm c A l m) (le : ∀ s, A s → A' s) :
    SameFirm c A' l m :=
  { h with
    answers := fun id hid => (h.answers id hid).imp_right (le _)
    turns := fun n hn => (h.turns n hn).imp_right (.imp_left (le _))
    waits := fun t n ht => (h.waits t n ht).imp_right (le _) }

end SameFirm

/-- A task that waits for a signal is going to hear of a cancellation.  It is marked, or what it
waits for has been raised as cancelled. -/
def Warned (l : Loop κ η ε ν) (t : Nat) (s : Signal) : Prop :=
  (∃ st, l.task? t = some st ∧ st.mustCancel = true) ∨ l.ending? s = some .cancelled

/-- Of the cancellations that a task which waits for a signal is going to hear of, those that are
new have been counted.  The count of cancellations is never taken back, so from two counts one can
tell whether a task was cancelled in between. -/
structure Counts (l m : Loop κ η ε ν) (t : Nat) (s : Signal) : Prop where
  more : l.cancelCount t ≤ m.cancelCount t
  warned : m.Warned t s → l.Warned t s ∨ l.cancelCount t < m.cancelCount t

namespace Counts

variable {s : Signal}

theorem of_same (task : m.task? t = l.task? t) (ending : m.ending? s = l.ending? s) :
    Counts l m t s where
  more := by rw [cancelCount, cancelCount, task]
  warned h := .inl (by rwa [Warned, task, ending] at h)

theorem refl (l : Loop κ η ε ν) (t : Nat) (s : Signal) : Counts l l t s :=
  of_same rfl rfl

theorem trans (h : Counts l m t s) (k : Counts m n t s) : Counts l n t s where
  more := Nat.le_trans h.more k.more
  warned w := by
    rcases k.warned w with w | lt
    · exact (h.warned w).imp_right fun lt => Nat.lt_of_lt_of_le lt k.more
    · exact .inr (Nat.lt_of_le_of_lt h.more lt)

end Counts

/-- It is the turn of the same task, and no task has ended, gone on or begun.  Those that wait hear
of no cancellation that is not counted. -/
structure SameTurn (l m : Loop κ η ε ν) : Prop where
  current : m.current = l.current
  next : l.nextTask ≤ m.nextTask
  stays : ∀ t job, l.jobOf t = some job → m.jobOf t = some job
  waiting : ∀ t, m.waitingOn t = l.waitingOn t
  starts : ∀ t, t < l.nextTask → m.expected (.start t) = l.expected (.start t)
  counts : ∀ t s, s.Private → l.waitingOn t = some s → Counts l m t s

namespace SameTurn

theorem refl (l : Loop κ η ε ν) : SameTurn l l :=
  ⟨rfl, Nat.le_refl _, fun _ _ h => h, fun _ => rfl, fun _ _ => rfl, fun t s _ _ => .refl l t s⟩

theorem trans (h : SameTurn l m) (k : SameTurn m n) : SameTurn l n where
  current := k.current.trans h.current
  next := Nat.le_trans h.next k.next
  stays t job hj := k.stays t job (h.stays t job hj)
  waiting t := (k.waiting t).trans (h.waiting t)
  starts t ht := (k.starts t (Nat.lt_of_lt_of_le ht h.next)).trans (h.starts t ht)
  counts t s hs ht := (h.counts t s hs ht).trans (k.counts t s hs ((h.waiting t).trans ht))

end SameTurn

/-! ## Sane loops -/

/-- A ticket that is raised as a signal is, unless who waits for it is not firm and has been
cancelled.  `C` says which tickets are raised by others.  Neither a timer nor anybody who claims
tickets raises it, and nothing but the end of that signal is passed on to it. -/
structure Bound (c : Custom κ η) (C : Nat → Prop) (Q : Multiset (Ready η))
    (l : Loop κ η ε ν) (n : Nat) (s : Signal) : Prop where
  given : n < l.nextTicket
  free : ¬ l.Promised n
  unclaimed : ¬ C n
  only : ∀ s', 0 < pending Q l (.follow (.relay (.ticket n)) s') → s' = s
  raised : ∀ e, l.ending? (.ticket n) = some e →
    e = .cancelled ∧ ¬ l.Firmly c (.ticket n) ∨ l.ending? s = some e

/-- A punctual loop in which every ticket is for one purpose.  It is what makes a ticket a private
matter between who waits for it and who raises it. -/
structure Sane (c : Custom κ η) (C : Nat → Prop) (own : Option Nat) (Q : Multiset (Ready η))
    (l : Loop κ η ε ν) : Prop extends Punctual own Q l where
  fits : ∀ f s, 0 < pending Q l (.follow f s) → f.Fits c s
  claimed : ∀ n, C n → n < l.nextTicket
  relays : ∀ n s, 0 < pending Q l (.follow (.relay (.ticket n)) s) → Bound c C Q l n s

/-- A change in the turn of a task that leaves everything in order, and the firm tasks alone but for
the answers and turns in `A`, while others claim the tickets `C` before and `C'` after it.  Calm
changes compose, which is all that the proofs about routines need of them. -/
def Calm (c : Custom κ η) (A : Signal → Prop) (C C' : Nat → Prop) (l m : Loop κ η ε ν) : Prop :=
  Guarded c l → Guarded c m ∧ SameFirm c A l m ∧ SameTurn l m ∧
    ∀ own Q, (∀ t, own = some t → t < l.nextTask) → Sane c C own Q l →
      Sane c C' own Q m ∧ ∀ n s, Bound c C Q l n s → Bound c C' Q m n s

namespace Calm

variable {C'' : Nat → Prop}

/-- Nobody else claims a ticket. -/
theorem same (l : Loop κ η ε ν) (claims : ∀ n, C' n → C n) : Calm c A C C' l l := by
  have bound (Q : Multiset (Ready η)) (n : Nat) (s : Signal) (b : Bound c C Q l n s) :
      Bound c C' Q l n s :=
    { b with unclaimed := fun hn => b.unclaimed (claims n hn) }
  exact fun g => ⟨g, .refl l, .refl l, fun _ Q _ k => ⟨{ k with
    claimed := fun n hn => k.claimed n (claims n hn)
    relays := fun n s hs => bound Q n s (k.relays n s hs) }, bound Q⟩⟩

theorem refl (l : Loop κ η ε ν) : Calm c A C C l l :=
  same l fun _ h => h

theorem mono {A' : Signal → Prop} (h : Calm c A C C' l m) (le : ∀ s, A s → A' s) :
    Calm c A' C C' l m :=
  fun guarded => ⟨(h guarded).1, (h guarded).2.1.mono le, (h guarded).2.2⟩

theorem trans (h : Calm c A C C' l m) (k : Calm c A C' C'' m n) : Calm c A C C'' l n := by
  intro guarded
  obtain ⟨guarded', same, turn, sane⟩ := h guarded
  obtain ⟨guarded'', same', turn', sane'⟩ := k guarded'
  refine ⟨guarded'', same.trans same', turn.trans turn', fun own Q hown hsane => ?_⟩
  obtain ⟨hsane', bound⟩ := sane own Q hown hsane
  obtain ⟨hsane'', bound'⟩ :=
    sane' own Q (fun t ht => Nat.lt_of_lt_of_le (hown t ht) same.evolves.next) hsane'
  exact ⟨hsane'', fun n s hb => bound' n s (bound n s hb)⟩

end Calm

/-! ## Soft changes -/

/-- How a change may raise a signal: as cancelled only if a task waits for it that may be cancelled,
a ticket only if it is a new one, promised or claimed, or the wait for it is cancelled, and the
answers and turns in `A`.  Ends of tasks are not among it: a task ends in its own turn only. -/
def MayRaise (c : Custom κ η) (C : Nat → Prop) (A : Signal → Prop) (l : Loop κ η ε ν) (limit : Nat)
    (s : Signal) (e : Ending ε ν) : Prop :=
  (e = .cancelled → l.Borne c s) ∧
    match s with
    | .ended _ => False
    | .answer _ | .turn _ => A s ∨ e = .cancelled
    | .joint n | .outside n => n < limit
    | .ticket n => n < limit ∧ (l.nextTicket ≤ n ∨ e = .cancelled ∨ l.Promised n ∨ C n)

/-- A change that leaves tasks and followers alone, cancels no firm task and raises only what it
may.  A guarded loop stays guarded by it, and a sane one sane. -/
structure Soft (c : Custom κ η) (C : Nat → Prop) (A : Signal → Prop) (l m : Loop κ η ε ν) :
    Prop extends
    Still l m where
  current : m.current = l.current
  nextTicket : l.nextTicket ≤ m.nextTicket
  raises : ∀ s e, m.ending? s = some e → l.ending? s = some e ∨ MayRaise c C A l m.nextTicket s e
  marks : ∀ t st, m.task? t = some st → c.firm t st.job → st.mustCancel = true →
    ∃ st', l.task? t = some st' ∧ st'.job = st.job ∧ st'.mustCancel = true
  missing : ∀ n, Assoc.get? n m.missing ≠ none →
    Assoc.get? n l.missing ≠ none ∨ l.nextTicket ≤ n ∧ n < m.nextTicket
  live : ∀ x ∈ m.live, x ∈ l.live ∨ (∃ t, x.2 = .expire t ∧ l.Exposed c t) ∨
    ∃ n, x.2 = .raise (.ticket n) ∧ l.nextTicket ≤ n ∧ n < m.nextTicket

namespace Soft

theorem refl (l : Loop κ η ε ν) : Soft c C A l l :=
  { Still.refl l with
    current := rfl
    nextTicket := Nat.le_refl _
    raises := fun _ _ h => .inl h
    marks := fun _ st h _ hm => ⟨st, h, rfl, hm⟩
    missing := fun _ h => .inl h
    live := fun _ h => .inl h }

theorem promised (h : Soft c C A l m) {n : Nat} (hn : m.Promised n) :
    l.Promised n ∨ l.nextTicket ≤ n ∧ n < m.nextTicket := by
  obtain ⟨id, hn⟩ := hn
  rcases h.live _ hn with hn | ⟨t, ht, -⟩ | ⟨n', hn', hfresh⟩
  · exact .inl ⟨id, hn⟩
  · cases ht
  · cases hn'
    exact .inr hfresh

/-- Who may be cancelled afterwards could be so before. -/
theorem borne (h : Soft c C A l m) {s : Signal} (borne : m.Borne c s) : l.Borne c s := by
  obtain ⟨t, ht, hlt, loose⟩ := borne
  exact ⟨t, by rwa [← h.waiting], h.next ▸ hlt, fun job hjob => loose job (by rwa [h.jobs t])⟩

theorem firmly (h : Soft c C A l m) {s : Signal} (firmly : m.Firmly c s) : l.Firmly c s := by
  obtain ⟨t, job, ht, hjob, firm⟩ := firmly
  exact ⟨t, job, by rwa [← h.waiting], by rwa [← h.jobs t], firm⟩

/-- The second change may claim what the first one has promised or given out. -/
theorem trans (h : Soft c C A l m) (k : Soft c C' A m n)
    (claims : ∀ x, C' x → C x ∨ l.Promised x ∨ l.nextTicket ≤ x) : Soft c C A l n :=
  { h.toStill.trans k.toStill with
    current := k.current.trans h.current
    nextTicket := Nat.le_trans h.nextTicket k.nextTicket
    raises := fun s e hs => by
      have hle := k.nextTicket
      rcases k.raises s e hs with hs | ⟨cancels, hs⟩
      · refine (h.raises s e hs).imp_right fun ⟨cancels, may⟩ => ⟨cancels, ?_⟩
        cases s with
        | ticket x => exact ⟨Nat.lt_of_lt_of_le may.1 hle, may.2⟩
        | joint x | outside x => exact Nat.lt_of_lt_of_le may hle
        | ended | answer | turn => exact may
      · refine .inr ⟨fun he => h.borne (cancels he), ?_⟩
        cases s with
        | ticket x =>
          refine ⟨hs.1, ?_⟩
          rcases hs.2 with hfresh | hcancelled | hpromised | hclaimed
          · exact .inl (Nat.le_trans h.nextTicket hfresh)
          · exact .inr (.inl hcancelled)
          · rcases h.promised hpromised with hp | hfresh
            · exact .inr (.inr (.inl hp))
            · exact .inl hfresh.1
          · rcases claims x hclaimed with hc | hp | hfresh
            · exact .inr (.inr (.inr hc))
            · exact .inr (.inr (.inl hp))
            · exact .inl hfresh
        | ended | joint | outside | answer | turn => exact hs
    marks := fun t st hst firm hm => by
      obtain ⟨st', hst', hjob', hm'⟩ := k.marks t st hst firm hm
      obtain ⟨st'', hst'', hjob'', hm''⟩ := h.marks t st' hst' (by rwa [hjob']) hm'
      exact ⟨st'', hst'', hjob''.trans hjob', hm''⟩
    missing := fun x hx => by
      have hle := h.nextTicket
      have hle' := k.nextTicket
      rcases k.missing x hx with hx | hx
      · rcases h.missing x hx with hx | hx
        · exact .inl hx
        · exact .inr (by omega)
      · exact .inr (by omega)
    live := fun x hx => by
      have hle := h.nextTicket
      have hle' := k.nextTicket
      rcases k.live x hx with hx | ⟨t, ht, hexposed⟩ | ⟨y, hy, hfresh⟩
      · rcases h.live x hx with hx | hx | ⟨y, hy, hfresh⟩
        · exact .inl hx
        · exact .inr (.inl hx)
        · exact .inr (.inr ⟨y, hy, by omega⟩)
      · refine .inr (.inl ⟨t, ht, ?_, fun job hjob => hexposed.2 job ?_⟩)
        · rw [← h.next]
          exact hexposed.1
        · rwa [h.jobs t]
      · exact .inr (.inr ⟨y, hy, by omega⟩) }

/-- The second change claims no more than both may. -/
theorem andThen (h : Soft c C A l m) (k : Soft c C A m n) : Soft c C A l n :=
  h.trans k fun _ hx => .inl hx

theorem exposed (h : Soft c C A l m) (ht : l.Exposed c t) : m.Exposed c t :=
  ht.evolve h.evolves

theorem guarded (h : Soft c C A l m) (g : Guarded c l) : Guarded c m where
  fresh := h.fresh g.fresh
  marks t st hst firm := by
    refine Bool.eq_false_iff.mpr fun hm => ?_
    -- A mark that is there now was there before, and a firm task had none.
    obtain ⟨st', hst', hjob, hm'⟩ := h.marks t st hst firm hm
    have hfalse := g.marks t st' hst' (by rwa [hjob])
    rw [hm'] at hfalse
    cases hfalse
  targets t u ht := by
    rw [h.waiting] at ht
    exact h.exposed (g.targets t u ht)
  askers t id ht := by
    rw [h.waiting] at ht
    obtain ⟨job, hjob, firm⟩ := g.askers t id ht
    exact ⟨job, by rwa [h.jobs t], firm⟩
  limits id t ht := by
    -- A limit that is alive was alive before, or it is set for a task that may be cancelled.
    rcases h.live _ ht with ht | ⟨u, hu, hexposed⟩ | ⟨x, hx, -⟩
    · exact h.exposed (g.limits id t ht)
    · cases hu
      exact h.exposed hexposed
    · cases hx
  alarms id s hs := by
    rcases h.live _ hs with hs | ⟨u, hu, -⟩ | ⟨x, hx, -⟩
    · exact g.alarms id s hs
    · cases hu
    · cases hx
      exact ⟨x, rfl⟩
  missing x hx := by
    rcases h.missing x hx with hx | hx
    · exact Nat.lt_of_lt_of_le (g.missing x hx) h.nextTicket
    · exact hx.2
  promised x hx := by
    rcases h.promised hx with hx | hx
    · exact Nat.lt_of_lt_of_le (g.promised x hx) h.nextTicket
    · exact hx.2
  raised s hs := by
    obtain ⟨e, he⟩ := Option.ne_none_iff_exists'.1 hs
    rcases h.raises _ e he with hl | ⟨-, may⟩
    · exact (g.raised s (by simp [hl])).mono h.nextTicket
    · cases s with
      | ticket x => exact may.1
      | joint x | outside x => exact may
      | ended | turn | answer => trivial
  waits t s ht := by
    rw [h.waiting] at ht
    exact (g.waits t s ht).mono h.nextTicket
  alone t u s alone ht hu := g.alone t u s alone (by rwa [← h.waiting]) (by rwa [← h.waiting])
  steady s lone firmly hs := by
    rcases h.raises _ _ hs with hl | ⟨cancels, -⟩
    · exact g.steady s lone (h.firmly firmly) hl
    · exact g.not_firmly lone.isPrivate (cancels rfl) (h.firmly firmly)
  answers id hs := by
    rcases h.raises _ _ hs with hl | ⟨cancels, -⟩
    · exact g.answers id hl
    · obtain ⟨t, ht, exposed⟩ := cancels rfl
      obtain ⟨job, hjob, firm⟩ := g.askers t id ht
      exact exposed.2 job hjob firm

theorem bound (h : Soft c C A l m) (g : Guarded c l) {x : Nat} {s : Signal}
    (b : Bound c C Q l x s) :
    Bound c C Q m x s where
  given := Nat.lt_of_lt_of_le b.given h.nextTicket
  free hx := by
    rcases h.promised hx with hx | hx
    · exact b.free hx
    · exact absurd b.given (Nat.not_lt.mpr hx.1)
  unclaimed := b.unclaimed
  only s' hs' := by
    rw [pending, h.follows] at hs'
    exact b.only s' hs'
  raised e he := by
    rcases h.raises _ e he with hl | ⟨cancels, -, hfresh | hcancelled | hpromised | hclaimed⟩
    · exact (b.raised e hl).imp (And.imp_right fun loose k => loose (h.firmly k)) (h.stays s e)
    · exact absurd b.given (Nat.not_lt.mpr hfresh)
    · exact .inl
        ⟨hcancelled, fun k => g.not_firmly (s := .ticket x) trivial
          (cancels hcancelled) (h.firmly k)⟩
    · exact absurd hpromised b.free
    · exact absurd hclaimed b.unclaimed

theorem sane (h : Soft c C A l m) (g : Guarded c l) (k : Sane c C own Q l) : Sane c C own Q m :=
  { k.toPunctual.still h.toStill with
    fits := fun f s hs => by
      rw [pending, h.follows] at hs
      exact k.fits f s hs
    claimed := fun x hx => Nat.lt_of_lt_of_le (k.claimed x hx) h.nextTicket
    relays := fun x s hs => by
      rw [pending, h.follows] at hs
      exact h.bound g (k.relays x s hs) }

theorem sameFirm (h : Soft c C A l m) (g : Guarded c l) : SameFirm c A l m where
  evolves := h.evolves
  tickets := h.nextTicket
  jobs t job _ := by rw [h.jobs t]
  stays := h.stays
  answers id hid := by
    obtain ⟨e, he⟩ := Option.ne_none_iff_exists'.1 hid
    rcases h.raises _ e he with hl | ⟨cancels, may | rfl⟩
    · exact .inl (by simp [hl])
    · exact .inr may
    · exact absurd he ((h.guarded g).answers id)
  turns x hx := by
    obtain ⟨e, he⟩ := Option.ne_none_iff_exists'.1 hx
    rcases h.raises _ e he with hl | ⟨cancels, may | rfl⟩
    · exact .inl (by simp [hl])
    · exact .inr (.inl may)
    · obtain ⟨t, ht, -⟩ := cancels rfl
      exact .inr (.inr ⟨t, ht⟩)
  waits t x ht := .inl (by rwa [← h.waiting])

end Soft

/-- A soft change by which those that wait hear of no cancellation that is not counted.  So a task
that ends as cancelled was counted as cancelled, or had to expect it. -/
structure Gentle (c : Custom κ η) (C : Nat → Prop) (A : Signal → Prop) (l m : Loop κ η ε ν) :
    Prop extends
    Soft c C A l m where
  counts : ∀ t s, s.Private → l.waitingOn t = some s → Counts l m t s

namespace Gentle

theorem refl (l : Loop κ η ε ν) : Gentle c C A l l :=
  { Soft.refl l with counts := fun t s _ _ => .refl l t s }

/-- The second change may claim what the first one has promised or given out. -/
theorem trans (h : Gentle c C A l m) (k : Gentle c C' A m n)
    (claims : ∀ x, C' x → C x ∨ l.Promised x ∨ l.nextTicket ≤ x) : Gentle c C A l n :=
  { h.toSoft.trans k.toSoft claims with
    counts := fun t s hs ht =>
      (h.counts t s hs ht).trans (k.counts t s hs ((h.waiting t).trans ht)) }

/-- The second change claims no more than both may. -/
theorem andThen (h : Gentle c C A l m) (k : Gentle c C A m n) : Gentle c C A l n :=
  h.trans k fun _ hx => .inl hx

theorem sameTurn (h : Gentle c C A l m) : SameTurn l m :=
  ⟨h.current, Nat.le_of_eq h.next.symm, fun t job hj => by rwa [h.jobs t], h.waiting,
    fun t _ => h.starts t, h.counts⟩

theorem calm (h : Gentle c C A l m) : Calm c A C C l m :=
  fun g =>
    ⟨h.guarded g, h.sameFirm g, h.sameTurn, fun _ _ _ k => ⟨h.sane g k, fun _ _ b => h.bound g b⟩⟩

end Gentle

end Loop

end PikeAnalysis.Concurrency
