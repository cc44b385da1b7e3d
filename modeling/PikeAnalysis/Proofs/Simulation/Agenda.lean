import Mathlib.Logic.Function.Basic
import PikeAnalysis.Proofs.Concurrency.Timers
import PikeAnalysis.Proofs.Simulation.Books

/-!
# The agenda of a rehearsal

While documents are only edited, every task of a rehearsal is that of a timer or of a run, and all
it ever waits for is the end of one sleep.  An agenda says what each task is at: it is to begin, it
sleeps until some time, its sleep is over, or it has been cancelled and is to end.  `Agrees` ties an
agenda to the loop: every task gets exactly the turn that it has coming, a sleep ends when its timer
is due and not before, and nobody else's doings touch it.

The agenda is what makes time a matter of the documents alone.  The loop keeps signals, followers, a
heap of timers and a queue, and each of them can be changed by every task; an agenda forgets all of
that and keeps for each task what it is for (`Errand`), what it is at (`Plan`) and, if it sleeps,
when that ends (`Nap`).  What `Agrees` asks of the loop is split accordingly: `Stands` is what a
task depends on, task by task, and the rest says that numbers which have not been given are unused,
that no two tasks share a ticket or a timer, and that nothing is ready but turns that tasks have
coming, timers and the hooks of runs that are gone.

An operation of the loop touches one task, one ticket and one timer at most (`Touches`), so it moves
the agenda of one task and leaves that of the others alone (`Agrees.touch`).  That frame lemma is
used in two forms: `Agrees.replan`, for a task that goes over from one plan to another, and, in the
next module, for a task that sleeps neither before nor after.  Nothing here is about what a task
does in its turn; how it goes on after a sleep is a parameter (`Sequels`).
-/

namespace PikeAnalysis.Simulation.Scheduling

open PikeAnalysis.Concurrency
open Function (update)

/-! ## Agendas -/

/-- A sleep: the ticket that its end raises, the timer that ends it, and when that is due.  A sleep
that is not due at any time never ends by itself. -/
structure Nap where
  ticket : Nat
  timer : Nat
  due : Option Instant

/-- What a task is at.  A plan says which turn the task has coming, if any: a fresh, a woken and a
doomed task are ready, one that is asleep is not, and at most one task is acting. -/
inductive Plan where
  /-- It is to begin. -/
  | fresh
  /-- It is its turn; it may have been marked as cancelled before it began. -/
  | acting (marked : Bool)
  | asleep (nap : Nap)
  /-- Its sleep is past and it is to go on. -/
  | woken (nap : Nap)
  /-- It has been cancelled, before it began or in a sleep, and is to end. -/
  | doomed (nap : Option Nap)

def Plan.nap? : Plan → Option Nap
  | .asleep nap | .woken nap => some nap
  | .doomed nap => nap
  | _ => none

/-- The turn that a task has coming.  A task that sleeps has none before its timer is taken, and a
task whose turn it is has none either: the loop holds each turn once, and drops it when it
begins. -/
def Plan.turn? (t : Nat) : Plan → Option (Ready Nat)
  | .fresh | .doomed none => some (.start t)
  | .woken nap | .doomed (some nap) => some (.follow (.resume t) (.ticket nap.ticket))
  | _ => none

/-- What a task is for.  The task of a run is not told apart by the number of the run alone, as the
run is forgotten by the machine before its task has ended; so the run goes with it. -/
inductive Errand where
  | timer (id : Nat)
  | run (id : Nat) (subject : Scheduler.Run)

def Errand.job : Errand → Job
  | .timer id => .timer id
  | .run id _ => .run id

/-- What is to be done when a task ends.  At the end of a run's task a hook forgets it, and drops
the run if that never began; the task of a timer has none. -/
def Errand.hooks : Errand → List (Follower Nat)
  | .timer _ => []
  | .run id _ => [.hook id]

/-- What the tasks that have not ended are for and at. -/
abbrev Agenda := Nat → Option (Errand × Plan)

/-- The task whose turn something ready is. -/
def taskOf? : Ready Nat → Option Nat
  | .start t => some t
  | .follow (.resume t) _ => some t
  | _ => none

/-- The tasks whose turns are ready, in order. -/
def turns (items : List (Ready Nat)) : List Nat :=
  items.filterMap taskOf?

/-- A time has come.  A sleep without a time is never past. -/
def Reached (now : Instant) (due : Option Instant) : Prop :=
  ∃ d, due = some d ∧ d ≤ now

/-- What is still to be done by tasks that sleep. -/
abbrev Rests := List (Nat × Rest State Unit Unit Job)

/-! ## The agenda and the loop -/

/-- How a task goes on that is for something and has a timer of its own: what is kept of it while it
sleeps has to be one of these.  That the rest is the right one is not the agenda's business. -/
abbrev Sequels := Errand → Nat → Rest State Unit Unit Job → Prop

/-- Whether a task is marked as cancelled that is at something.  A task that is doomed in a sleep
need not be marked: it is cancelled as well if its ticket has been raised as cancelled. -/
def Plan.Marked (l : Tasks) (marked : Bool) : Plan → Prop
  | .acting m => marked = m
  | .doomed none => marked = true
  | .doomed (some nap) => marked = true ∨ l.ending? (.ticket nap.ticket) = some .cancelled
  | _ => marked = false

/-- How the ticket of a task is that is at something.  In a sleep it is followed by the task and by
nobody else, so that whoever raises it makes exactly one turn ready. -/
def Plan.Raised (t : Nat) (st : SignalState Nat Unit Unit) : Plan → Prop
  | .asleep _ => st = { followers := [.resume t] }
  | .woken _ => st.ending = some (.value ())
  | _ => st.ending ≠ none

/-- The timer of a sleep is running, or it has been taken and is ready.  In either case it is alive,
it is the only one of its number, and it is taken no earlier than it is due. -/
structure Rings (items : List (Ready Nat)) (l : Tasks) (nap : Nap) : Prop where
  live : Assoc.get? nap.timer l.live = some (.raise (.ticket nap.ticket))
  kept : .timer nap.timer ∈ items ∨ ⟨nap.due, nap.timer⟩ ∈ l.timers.elements
  only : ∀ x ∈ l.timers.elements, x.id = nap.timer → x.due = nap.due
  due : .timer nap.timer ∈ items → Reached l.now nap.due

/-- What of its loop a task depends on that is for something and at something.  Every field is about
the task's own number, ticket and timer, which is why a change that touches another task keeps it
(`Stands.touch`). -/
structure Stands (goesOn : Sequels) (items : List (Ready Nat)) (l : Tasks) (rests : Rests) (t : Nat)
    (errand : Errand) (plan : Plan) : Prop where
  task : ∃ mustCancel cancels, plan.Marked l mustCancel ∧ l.task? t = some
    { job := errand.job, waiting := plan.nap?.map (.ticket ·.ticket), mustCancel, cancels }
  ended : l.signalState (.ended t) = { followers := errand.hooks }
  due : ∀ i, plan.turn? t = some i → i ∈ items
  idle : plan.turn? t = none → t ∉ turns items
  known : ∀ nap, plan.nap? = some nap → nap.ticket < l.nextTicket ∧ nap.timer < l.nextTimer
  rest : ∀ nap, plan.nap? = some nap → ∃ rest, Assoc.get? t rests = some rest ∧
    goesOn errand nap.timer rest
  raised : ∀ nap, plan.nap? = some nap → plan.Raised t (l.signalState (.ticket nap.ticket))
  rings : ∀ nap, plan = .asleep nap → Rings items l nap
  past : ∀ nap, plan = .woken nap → Reached l.now nap.due
  kind : ∀ nap, plan = .doomed nap → ∃ id, errand = .timer id

/-- What may be ready: a turn that its task has coming, a timer, or the hook of a run that is gone.
Which runs are gone is known to the scheduler, and so it is a parameter here. -/
def Suits (gone : Nat → Prop) (l : Tasks) (A : Agenda) (i : Ready Nat) : Prop :=
  (∀ t, taskOf? i = some t → ∃ errand plan, A t = some (errand, plan) ∧ plan.turn? t = some i) ∧
  (taskOf? i = none → (∃ id, i = .timer id ∧ id < l.nextTimer) ∨
    ∃ r s, i = .follow (.hook r) s ∧ gone r)

/-- The loop, what is ready, and what the tasks still have to do agree with an agenda.  The items
are those of the round that is being worked off, with what has become ready since at their end. -/
structure Agrees (goesOn : Sequels) (gone : Nat → Prop) (items : List (Ready Nat))
    (l : Tasks) (rests : Rests) (A : Agenda) : Prop where
  taskLt : ∀ t, A t ≠ none → t < l.nextTask
  endedLt : ∀ t, l.nextTask ≤ t → l.signalState (.ended t) = {}
  ticketLt : ∀ n, l.nextTicket ≤ n → l.signalState (.ticket n) = {}
  timerLt : ∀ x ∈ l.timers.elements, x.id < l.nextTimer
  ordered : l.timers.Ordered
  absent : ∀ t, A t = none → l.task? t = none
  stands : ∀ t errand plan, A t = some (errand, plan) → Stands goesOn items l rests t errand plan
  apart : ∀ t errand plan nap u errand' plan' nap', A t = some (errand, plan) →
    plan.nap? = some nap →
    A u = some (errand', plan') → plan'.nap? = some nap' →
    nap.ticket = nap'.ticket ∨ nap.timer = nap'.timer → t = u
  once : (turns items).Nodup
  suits : ∀ i ∈ items, Suits gone l A i
  /-- A timer that is alive ends a sleep, or the sleep has been ended otherwise. -/
  live : ∀ id action, Assoc.get? id l.live = some action → id < l.nextTimer ∧
    ∃ n, action = .raise (.ticket n) ∧ n < l.nextTicket ∧
      ((∃ t errand nap, A t = some (errand, .asleep nap) ∧ nap.ticket = n ∧ nap.timer = id) ∨
        l.ending? (.ticket n) ≠ none)

variable {goesOn : Sequels} {gone gone' : Nat → Prop} {items items' : List (Ready Nat)}
  {l m : Tasks}
  {rests rests' : Rests} {A A' : Agenda} {t u n id : Nat} {errand : Errand}
  {plan : Plan} {nap : Nap}

theorem mem_turns_of_mem {i : Ready Nat} (hi : i ∈ items) (ht : taskOf? i = some t) :
    t ∈ turns items :=
  List.mem_filterMap.mpr ⟨i, hi, ht⟩

theorem turns_append (items more : List (Ready Nat)) :
    turns (items ++ more) = turns items ++ turns more :=
  List.filterMap_append

theorem Plan.taskOf?_turn {i : Ready Nat} (h : plan.turn? t = some i) : taskOf? i = some t := by
  cases plan with
  | fresh | woken =>
    obtain rfl := Option.some.inj h
    rfl
  | doomed nap =>
    cases nap <;> obtain rfl := Option.some.inj h <;> rfl
  | acting | asleep => cases h

theorem Reached.mono {now now' : Instant} {due : Option Instant}
    (h : Reached now due) (le : now ≤ now') :
    Reached now' due := by
  obtain ⟨d, hd, hle⟩ := h
  exact ⟨d, hd, Int.le_trans hle le⟩

theorem reached_iff_isDue {now : Instant} {x : Timer} : Reached now x.due ↔ x.isDue now = true := by
  unfold Reached Timer.isDue
  cases x.due <;> simp

theorem Agrees.mono (h : Agrees goesOn gone items l rests A) (le : ∀ r, gone r → gone' r) :
    Agrees goesOn gone' items l rests A :=
  { h with
    suits := fun i hi => (h.suits i hi).imp_right fun k hn =>
      (k hn).imp_right fun ⟨r, s, hs, hr⟩ => ⟨r, s, hs, le r hr⟩ }

/-! ## Touching one task -/

/-- A change that touches one task, one ticket and one timer at most.  Numbers may be given, but the
clock stands; what is ready may differ in turns of that task, in that timer, and in hooks. -/
structure Touches (t n id : Nat) (items : List (Ready Nat)) (l : Tasks) (rests : Rests)
    (items' : List (Ready Nat)) (m : Tasks) (rests' : Rests) : Prop where
  nextTask : l.nextTask ≤ m.nextTask
  nextTicket : l.nextTicket ≤ m.nextTicket
  nextTimer : l.nextTimer ≤ m.nextTimer
  now : m.now = l.now
  task : ∀ u, u ≠ t → m.task? u = l.task? u
  ended : ∀ u, u ≠ t → m.signalState (.ended u) = l.signalState (.ended u)
  ticket : ∀ k, k ≠ n → m.signalState (.ticket k) = l.signalState (.ticket k)
  live : ∀ k, k ≠ id → Assoc.get? k m.live = Assoc.get? k l.live
  timers : ∀ x, x.id ≠ id → (x ∈ m.timers.elements ↔ x ∈ l.timers.elements)
  rest : ∀ u, u ≠ t → Assoc.get? u rests' = Assoc.get? u rests
  turn : ∀ i u, taskOf? i = some u → u ≠ t → (i ∈ items' ↔ i ∈ items)
  timer : ∀ k, k ≠ id → (.timer k ∈ items' ↔ .timer k ∈ items)

theorem mem_turns_iff {items items' : List (Ready Nat)}
    (same : ∀ i, taskOf? i = some u → (i ∈ items' ↔ i ∈ items)) :
    u ∈ turns items' ↔ u ∈ turns items := by
  simp only [turns, List.mem_filterMap]
  exact ⟨fun ⟨i, hi, hu⟩ => ⟨i, (same i hu).mp hi, hu⟩,
    fun ⟨i, hi, hu⟩ => ⟨i, (same i hu).mpr hi, hu⟩⟩

theorem Rings.touch (h : Rings items l nap) (k : Touches t n id items l rests items' m rests')
    (foreign : nap.timer ≠ id) : Rings items' m nap where
  live := (k.live _ foreign).trans h.live
  kept := h.kept.imp (k.timer _ foreign).mpr (k.timers ⟨nap.due, nap.timer⟩ foreign).mpr
  only x hx hid := h.only x ((k.timers x (hid ▸ foreign)).mp hx) hid
  due hi := k.now ▸ h.due ((k.timer _ foreign).mp hi)

/-- Other tasks are not touched. -/
theorem Stands.touch (h : Stands goesOn items l rests u errand plan)
    (k : Touches t n id items l rests items' m rests') (hu : u ≠ t)
    (foreign : ∀ nap, plan.nap? = some nap → nap.ticket ≠ n ∧ nap.timer ≠ id) :
    Stands goesOn items' m rests' u errand plan := by
  have ticket : ∀ nap, plan.nap? = some nap →
      m.signalState (.ticket nap.ticket) = l.signalState (.ticket nap.ticket) :=
    fun nap hnap => k.ticket _ (foreign nap hnap).1
  obtain ⟨mustCancel, cancels, marked, task⟩ := h.task
  refine
    { task := ⟨mustCancel, cancels, ?_, (k.task u hu).trans task⟩
      ended := (k.ended u hu).trans h.ended
      due := fun i hi => (k.turn i u (Plan.taskOf?_turn hi) hu).mpr (h.due i hi)
      idle := fun hi => fun ht => h.idle hi ((mem_turns_iff fun i hiu => k.turn i u hiu hu).mp ht)
      known := fun nap hnap => ⟨Nat.lt_of_lt_of_le (h.known nap hnap).1 k.nextTicket,
        Nat.lt_of_lt_of_le (h.known nap hnap).2 k.nextTimer⟩
      rest := fun nap hnap => by
        rw [k.rest u hu]
        exact h.rest nap hnap
      raised := fun nap hnap => by
        rw [ticket nap hnap]
        exact h.raised nap hnap
      rings := fun nap hplan => (h.rings nap hplan).touch k (foreign nap (by rw [hplan]; rfl)).2
      past := fun nap hplan => k.now ▸ h.past nap hplan
      kind := h.kind }
  -- Only a plan that is doomed in its sleep says something of a ticket, which is not the touched
  -- one.
  cases plan with
  | doomed nap =>
    cases nap with
    | none => exact marked
    | some nap =>
      refine marked.imp_right fun hending => ?_
      rw [Loop.ending?, ticket nap rfl]
      exact hending
  | fresh | acting | asleep | woken => exact marked

/-- What has to be shown for a task that is touched, and for what becomes ready.  It is what
`Agrees` says of that task before or after the change, and no more. -/
structure Moves (goesOn : Sequels) (gone : Nat → Prop) (t n id : Nat) (l : Tasks) (A : Agenda)
    (items' : List (Ready Nat)) (m : Tasks) (rests' : Rests) (A' : Agenda) : Prop where
  others : ∀ u, u ≠ t → A' u = A u
  /-- The nap of the task is the one that is touched, before and after. -/
  before : ∀ errand plan nap, A t = some (errand, plan) → plan.nap? = some nap →
    nap.ticket = n ∧ nap.timer = id
  after : ∀ errand plan nap, A' t = some (errand, plan) → plan.nap? = some nap →
    nap.ticket = n ∧ nap.timer = id
  foreign : ∀ u errand plan nap, u ≠ t → A u = some (errand, plan) → plan.nap? = some nap →
    nap.ticket ≠ n ∧ nap.timer ≠ id
  taskLt : t < m.nextTask
  ticketLt : m.nextTicket ≤ n → m.signalState (.ticket n) = {}
  timerLt : ∀ x ∈ m.timers.elements, x.id = id → id < m.nextTimer
  ordered : m.timers.Ordered
  absent : A' t = none → m.task? t = none
  stands : ∀ errand plan, A' t = some (errand, plan) → Stands goesOn items' m rests' t errand plan
  once : (turns items').Nodup
  turn : ∀ i ∈ items', taskOf? i = some t → ∃ errand plan, A' t = some (errand, plan) ∧
    plan.turn? t = some i
  suits : ∀ i ∈ items', taskOf? i = none →
    (∃ id, i = .timer id ∧ id < m.nextTimer) ∨ ∃ r s, i = .follow (.hook r) s ∧ gone r
  raised : l.ending? (.ticket n) ≠ none → m.ending? (.ticket n) ≠ none
  live : ∀ action, Assoc.get? id m.live = some action → id < m.nextTimer ∧
    ∃ n, action = .raise (.ticket n) ∧ n < m.nextTicket ∧
      ((∃ t errand nap, A' t = some (errand, .asleep nap) ∧ nap.ticket = n ∧ nap.timer = id) ∨
        m.ending? (.ticket n) ≠ none)

/-- A change that touches one task moves its agenda and leaves that of the others alone.  This is
the one place where the invariant is taken apart for every task; all that is shown of a single
operation goes through it. -/
theorem Agrees.touch (h : Agrees goesOn gone items l rests A)
    (k : Touches t n id items l rests items' m rests')
    (moves : Moves goesOn gone t n id l A items' m rests' A') :
    Agrees goesOn gone items' m rests' A' := by
  have other {u : Nat} {errand : Errand} {plan : Plan} (hu : u ≠ t)
    (hA : A' u = some (errand, plan)) :
      A u = some (errand, plan) := (moves.others u hu).symm.trans hA
  refine
    { taskLt := fun u hu => ?_
      endedLt := fun u hu => ?_
      ticketLt := fun j hj => ?_
      timerLt := fun x hx => ?_
      ordered := moves.ordered
      absent := fun u hu => ?_
      stands := fun u errand plan hA => ?_
      apart := fun u errand plan nap v errand' plan' nap' hu hnap hv hnap' same => ?_
      once := moves.once
      suits := fun i hi => ⟨fun u hu => ?_, moves.suits i hi⟩
      live := fun key action hlive => ?_ }
  · by_cases hut : u = t
    · exact hut ▸ moves.taskLt
    · rw [moves.others u hut] at hu
      exact Nat.lt_of_lt_of_le (h.taskLt u hu) k.nextTask
  · have hut : u ≠ t := fun he => Nat.lt_irrefl t (Nat.lt_of_lt_of_le moves.taskLt (he ▸ hu))
    rw [k.ended u hut]
    exact h.endedLt u (Nat.le_trans k.nextTask hu)
  · by_cases hjn : j = n
    · subst hjn
      exact moves.ticketLt hj
    · rw [k.ticket j hjn]
      exact h.ticketLt j (Nat.le_trans k.nextTicket hj)
  · by_cases hid : x.id = id
    · exact hid ▸ moves.timerLt x hx hid
    · exact Nat.lt_of_lt_of_le (h.timerLt x ((k.timers x hid).mp hx)) k.nextTimer
  · by_cases hut : u = t
    · subst hut
      exact moves.absent hu
    · rw [k.task u hut]
      exact h.absent u (moves.others u hut ▸ hu)
  · by_cases hut : u = t
    · subst hut
      exact moves.stands errand plan hA
    · exact (h.stands u errand plan (other hut hA)).touch k hut
        fun nap hnap => moves.foreign u errand plan nap hut (other hut hA) hnap
  -- Two tasks that share a ticket or a timer are the same: one of them is the task that is touched,
  -- and what is touched was not the other's.
  · by_cases hut : u = t <;> by_cases hvt : v = t
    · rw [hut, hvt]
    · subst hut
      obtain ⟨hn, hid⟩ := moves.after errand plan nap hu hnap
      obtain ⟨hn', hid'⟩ := moves.foreign v errand' plan' nap' hvt (other hvt hv) hnap'
      rcases same with same | same
      · exact absurd (same.symm.trans hn) hn'
      · exact absurd (same.symm.trans hid) hid'
    · subst hvt
      obtain ⟨hn, hid⟩ := moves.after errand' plan' nap' hv hnap'
      obtain ⟨hn', hid'⟩ := moves.foreign u errand plan nap hut (other hut hu) hnap
      rcases same with same | same
      · exact absurd (same.trans hn) hn'
      · exact absurd (same.trans hid) hid'
    · exact h.apart u errand plan nap v errand' plan' nap' (other hut hu) hnap
        (other hvt hv) hnap' same
  · by_cases hut : u = t
    · subst hut
      exact moves.turn i hi hu
    · obtain ⟨errand, plan, hA, hturn⟩ := (h.suits i ((k.turn i u hu hut).mp hi)).1 u hu
      exact ⟨errand, plan, (moves.others u hut).trans hA, hturn⟩
  -- A timer that is alive is the one that was touched, or it is for what it was for; then the sleep
  -- that it ends is another task's, since the task that is touched had the touched timer.
  · by_cases hkey : key = id
    · subst hkey
      exact moves.live action hlive
    · rw [k.live key hkey] at hlive
      obtain ⟨hlt, n', hn', hlt', hwhy⟩ := h.live key action hlive
      refine ⟨Nat.lt_of_lt_of_le hlt k.nextTimer, n', hn', Nat.lt_of_lt_of_le hlt' k.nextTicket, ?_⟩
      rcases hwhy with ⟨u, errand, nap, hA, hticket, htimer⟩ | hraised
      · refine .inl ⟨u, errand, nap, ?_, hticket, htimer⟩
        by_cases hut : u = t
        · subst hut
          exact absurd (htimer.symm.trans (moves.before errand _ nap hA rfl).2) hkey
        · exact (moves.others u hut).trans hA
      · right
        by_cases hnn : n' = n
        · subst hnn
          exact moves.raised hraised
        · rw [Loop.ending?, k.ticket n' hnn]
          exact hraised

/-- The plan has no nap but this one.  A plan without a nap keeps any. -/
def Plan.Keeps (nap : Nap) (plan : Plan) : Prop :=
  ∀ nap', plan.nap? = some nap' → nap' = nap

/-- What has to be shown when a task goes over from one plan to another and all that is touched is
its own nap: the nap that it has before, after, or both.  Falling asleep, going on, the end of a
sleep and a cancellation are such changes. -/
structure Replans (goesOn : Sequels) (gone : Nat → Prop) (t : Nat) (errand : Errand)
    (nap : Nap) (l : Tasks)
    (A : Agenda) (items' : List (Ready Nat)) (m : Tasks) (rests' : Rests) (plan plan' : Plan) :
    Prop where
  before : plan.Keeps nap
  after : plan'.Keeps nap
  foreign : ∀ u errand plan nap', u ≠ t → A u = some (errand, plan) → plan.nap? = some nap' →
    nap'.ticket ≠ nap.ticket ∧ nap'.timer ≠ nap.timer
  ticketLt : nap.ticket < m.nextTicket
  timerLt : nap.timer < m.nextTimer
  ordered : m.timers.Ordered
  stands : Stands goesOn items' m rests' t errand plan'
  once : (turns items').Nodup
  turn : ∀ i ∈ items', taskOf? i = some t → plan'.turn? t = some i
  suits : ∀ i ∈ items', taskOf? i = none →
    (∃ id, i = .timer id ∧ id < m.nextTimer) ∨ ∃ r s, i = .follow (.hook r) s ∧ gone r
  raised : l.ending? (.ticket nap.ticket) ≠ none → m.ending? (.ticket nap.ticket) ≠ none
  live : ∀ action, Assoc.get? nap.timer m.live = some action →
    ∃ n, action = .raise (.ticket n) ∧ n < m.nextTicket ∧
      (plan' = .asleep nap ∧ nap.ticket = n ∨ m.ending? (.ticket n) ≠ none)

/-- A task goes over to another plan.  What is known of the plan before and after is that both keep
the nap, so that the ticket and the timer which are touched are its own. -/
theorem Agrees.replan {plan' : Plan} (h : Agrees goesOn gone items l rests A)
    (hA : A t = some (errand, plan))
    (k : Touches t nap.ticket nap.timer items l rests items' m rests')
    (r : Replans goesOn gone t errand nap l A items' m rests' plan plan') :
    Agrees goesOn gone items' m rests' (update A t (some (errand, plan'))) := by
  have self {y : Option (Errand × Plan)} (hy : update A t (some (errand, plan')) t = y) :
      some (errand, plan') = y := by rwa [Function.update_self] at hy
  refine h.touch k
    { others := fun u hu => Function.update_of_ne hu _ _
      before := fun errand' plan₁ nap' hA' hnap => ?_
      after := fun errand' plan₁ nap' hA' hnap => ?_
      foreign := r.foreign
      taskLt := Nat.lt_of_lt_of_le (h.taskLt t (by simp [hA])) k.nextTask
      ticketLt := fun hle => absurd r.ticketLt (Nat.not_lt.mpr hle)
      timerLt := fun _ _ _ => r.timerLt
      ordered := r.ordered
      absent := fun hA' => absurd (self hA') (Option.some_ne_none _)
      stands := fun errand' plan₁ hA' => ?_
      once := r.once
      turn := fun i hi ht => ⟨errand, plan', Function.update_self .., r.turn i hi ht⟩
      suits := r.suits
      raised := r.raised
      live := fun action haction => ?_ }
  · obtain ⟨-, rfl⟩ := Prod.mk.inj (Option.some.inj (hA.symm.trans hA'))
    rw [r.before nap' hnap]
    exact ⟨rfl, rfl⟩
  · obtain ⟨-, rfl⟩ := Prod.mk.inj (Option.some.inj (self hA'))
    rw [r.after nap' hnap]
    exact ⟨rfl, rfl⟩
  · obtain ⟨rfl, rfl⟩ := Prod.mk.inj (Option.some.inj (self hA'))
    exact r.stands
  · obtain ⟨n, rfl, hn, hwhy⟩ := r.live action haction
    refine ⟨r.timerLt, n, rfl, hn, hwhy.imp_left ?_⟩
    rintro ⟨rfl, hticket⟩
    exact ⟨t, errand, nap, Function.update_self .., hticket, rfl⟩

/-- A loop without tasks.  Nothing is ready in it, and no rest is kept. -/
theorem agrees_start (goesOn : Sequels) (gone : Nat → Prop) :
    Agrees goesOn gone [] {} [] fun _ => none :=
  { taskLt := fun _ h => absurd rfl h
    endedLt := fun _ _ => rfl
    ticketLt := fun _ _ => rfl
    timerLt := fun _ h => absurd h (Multiset.notMem_zero _)
    ordered := TimerHeap.ordered_empty
    absent := fun _ _ => rfl
    stands := fun _ _ _ h => absurd h (Option.some_ne_none _).symm
    apart := fun _ _ _ _ _ _ _ _ h => absurd h (Option.some_ne_none _).symm
    once := List.nodup_nil
    suits := fun _ h => absurd h List.not_mem_nil
    live := fun _ action h => absurd h (Option.some_ne_none action).symm }

end PikeAnalysis.Simulation.Scheduling
