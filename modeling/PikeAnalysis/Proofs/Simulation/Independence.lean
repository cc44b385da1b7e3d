import PikeAnalysis.Proofs.Simulation.Moves

/-!
# Independence of documents

A rehearsal does what is ready, round by round, until time has to pass (`Keeps.settle`); then the
clock is moved to when the next timer is due, and so on (`Keeps.advance`).  Every document is seen
to move along its own track meanwhile, and only so much is ever done, which is bounded by what is
ready, the timers and what documents still begin by themselves.

So, where documents are edited and time passes, and how a validation turns out depends only on what
is validated, what is seen of a document, and when, is the same as if no other document were ever
edited (`trace_of_own_steps`).  No edit, failure or closing of one document delays, cancels or
starts a validation of another.

The premise is that how long a validation takes, and whether it fails, is a matter of the document,
version and text that are validated.  If it were not, such as when validations share a queue with
room for a few, the statement would be false, so what is shown is that the scheduler adds no
dependence of its own.

A rehearsal with many documents and one with a single document do different things in different
orders, and have different numbers for their tasks and timers.  So the two are not compared with
each other: each is compared with what becomes of the document by itself (`Evolves`), and that is
the same for both, as steps that do not concern a document may be left out (`Evolves.filter`) and
what becomes of it is unique (`Evolves.unique`).

The bound on what is still to be done (`credits`, `backlog`) is needed since the clock moves only
when nothing is left: a rehearsal that went on for ever in one instant would satisfy any statement
about later ones.
-/

namespace PikeAnalysis.Simulation.Scheduling

open PikeAnalysis.Concurrency
open PikeAnalysis.Scheduler (Doc)
open Function (update)

/-! ## What is done on the way -/

/-- The rehearsals after each of some things that are done one after the other. -/
def doings (r : Rules State Unit Unit Job Nat) : List (Ready Nat) → Rehearsal → List Rehearsal
  | [], _ => []
  | i :: queue, m => m.runReady r i :: doings r queue (m.runReady r i)

/-- The rehearsals within a round. -/
def roundVisits (r : Rules State Unit Unit Job Nat) (m : Rehearsal) : List Rehearsal :=
  doings r (Moment.gather ⟨m, []⟩).queue (Moment.gather ⟨m, []⟩).machine

/-- The rehearsals within the rounds that are done until nothing is ready. -/
def settleVisits (r : Rules State Unit Unit Job Nat) : Nat → Rehearsal → List Rehearsal
  | 0, _ => []
  | limit + 1, m => if m.isBusy then roundVisits r m ++ settleVisits r limit (m.round r) else []

/-- Moves the clock to each timer that is due up to a time, and then to that time, with given rules
and no more than so many rounds without time passing. -/
def advanceWith (r : Rules State Unit Unit Job Nat) (limit : Nat) (target : Instant) :
    Nat → Rehearsal → Rehearsal
  | 0, m => m.setClock target
  | fuel + 1, m =>
    match m.state.loop.nextDue? with
    | some due =>
      if due ≤ target then
        advanceWith r limit target fuel
          (Machine.settle r limit (m.setClock (max m.state.loop.now due)))
      else m.setClock target
    | none => m.setClock target

/-- The rehearsals on the way.  They are listed as `advanceWith` goes through them, the last one
being that with the clock at its target. -/
def advanceVisits (r : Rules State Unit Unit Job Nat) (limit : Nat) (target : Instant) :
    Nat → Rehearsal → List Rehearsal
  | 0, m => [m.setClock target]
  | fuel + 1, m =>
    match m.state.loop.nextDue? with
    | some due =>
      if due ≤ target then
        let moved := m.setClock (max m.state.loop.now due)
        moved :: settleVisits r limit moved ++
          advanceVisits r limit target fuel (Machine.settle r limit moved)
      else [m.setClock target]
    | none => [m.setClock target]

/-! ## Between two things that are done -/

/-- How many tasks some documents still begin by themselves.  It goes down with every task that
begins without an edit, and so bounds how many rounds there can be at one instant. -/
def credits (U : Finset String) (D : String → Doc Nat) : Nat :=
  ∑ uri ∈ U, (D uri).credit

/-- One document owes something else than before.  The sum changes by the difference and the others
are not looked at. -/
theorem credits_update {U : Finset String} {D : String → Doc Nat}
    (known : ∀ uri ∉ U, D uri = .absent) (uri : String) (d : Doc Nat) :
    credits (insert uri U) (update D uri d) + (D uri).credit = credits U D + d.credit := by
  have grown : credits (insert uri U) D = credits U D := by
    by_cases mem : uri ∈ U
    · rw [Finset.insert_eq_of_mem mem]
    · rw [credits, Finset.sum_insert mem, known uri mem]
      exact Nat.zero_add _
  have mem : uri ∈ insert uri U := Finset.mem_insert_self uri U
  have others : ∑ other ∈ (insert uri U).erase uri, (update D uri d other).credit =
      ∑ other ∈ (insert uri U).erase uri, (D other).credit :=
    Finset.sum_congr rfl fun other ho => by rw [Function.update_of_ne (Finset.ne_of_mem_erase ho)]
  have before := Finset.add_sum_erase _ (fun other => (D other).credit) mem
  have after := Finset.add_sum_erase _ (fun other => (update D uri d other).credit) mem
  simp only [Function.update_self, others] at after
  rw [← grown, credits, credits, ← before, ← after]
  omega

variable {choice : Choice} {quiet : Duration} {target : Instant} {items queue : List (Ready Nat)}
  {m m' m'' : Rehearsal} {A : Agenda} {D : String → Doc Nat} {T T' T'' : String → Track}
  {uri : String} {n fuel limit : Nat} {seen more : List Rehearsal} {i : Ready Nat}

/-- A rehearsal between two things that it does: each document has come to some point of its track,
and no more than so much is still done before time has to pass.  Here `n` bounds how many things
that is; every one that is done takes one off it. -/
def Keeps (quiet : Duration) (queue : List (Ready Nat)) (m : Rehearsal)
    (T : String → Track) (n : Nat) : Prop :=
  ∃ A D U, Holds quiet none (queue ++ m.state.loop.ready) m.state m.suspended A D T ∧
    (∀ uri ∉ U, D uri = .absent) ∧
    backlog (queue ++ m.state.loop.ready) m.state.loop + 4 * credits U D ≤ n

/-- What is seen of a document in a rehearsal.  Whatever else is in the rehearsal does not show in
it. -/
def sight (uri : String) (m : Rehearsal) : Sight :=
  (m.state.loop.now, m.state.view uri)

/-- Every document is seen to move along its own track.  It is seen so at every rehearsal on the
way, and not only at the end. -/
def Fare (choice : Choice) (quiet : Duration) (target : Instant) (m : Rehearsal)
    (T : String → Track) (seen : List Rehearsal) (m' : Rehearsal) (T' : String → Track) : Prop :=
  ∀ uri, Drifts (lengthsBy choice uri) quiet target m.state.loop.now (T uri) (seen.map (sight uri))
    m'.state.loop.now (T' uri)

theorem Fare.trans (h : Fare choice quiet target m T seen m' T')
    (k : Fare choice quiet target m' T' more m'' T'') :
    Fare choice quiet target m T (seen ++ more) m'' T'' := fun uri => by
  rw [List.map_append]
  exact (h uri).trans (k uri)

theorem Fare.refl (now : m'.state.loop.now = m.state.loop.now) :
    Fare choice quiet target m T [] m' T := fun uri => by
  rw [now]
  exact .refl _

/-- A document is seen as its track says. -/
theorem Holds.view (h : Holds quiet none items m.state m.suspended A D T) (uri : String) :
    m.state.view uri = (T uri).view := by
  have phase : (T uri).doc.phase = (D uri).phase := by
    have tied := h.tied uri nofun
    generalize (T uri).doc = k at tied
    cases tied <;> exact Doc.phase_map ..
  rw [State.view, Track.view, (h.shows uri).phaseOf, phase, h.marks uri]

theorem Keeps.sees (h : Keeps quiet queue m T n) (uri : String) :
    sight uri m = (m.state.loop.now, (T uri).view) := by
  obtain ⟨A, D, U, holds, -⟩ := h
  rw [sight, holds.view uri]

/-! ## Rounds -/

/-- One thing is done, and each document moves on by one move or stays where it was. -/
theorem Keeps.turn (h : Keeps quiet (i :: queue) m T n) (choice : Choice) :
    ∃ T' n', n' < n ∧ Keeps quiet queue (m.runReady (rulesBy choice) i) T' n' ∧
      (m.runReady (rulesBy choice) i).state.loop.now = m.state.loop.now ∧
      ∀ uri, T' uri = T uri ∨ Next (lengthsBy choice uri) quiet m.state.loop.now
        (T uri) (T' uri) := by
  obtain ⟨A, D, U, holds, known, le⟩ := h
  obtain ⟨A', uri, d, k, turned⟩ := Holds.turn holds choice
  have owes := credits_update known uri d
  have less := turned.less
  rw [List.cons_append] at le
  have keeps : Keeps quiet queue (m.runReady (rulesBy choice) i) (update T uri k) (n - 1) := by
    refine ⟨A', update D uri d, insert uri U, turned.holds, fun other ho => ?_, by omega⟩
    rw [Finset.mem_insert, not_or] at ho
    rw [Function.update_of_ne ho.1]
    exact known other ho.2
  refine ⟨_, n - 1, by omega, keeps, turned.now, fun other => ?_⟩
  by_cases ho : other = uri
  · subst ho
    rw [Function.update_self]
    exact turned.moves
  · exact .inl (Function.update_of_ne ho ..)

/-- What one thing comes to is seen of every document. -/
theorem Keeps.fare (h : Keeps quiet queue m' T' n) (now : m'.state.loop.now = m.state.loop.now)
    (moves : ∀ uri, T' uri = T uri ∨
      Next (lengthsBy choice uri) quiet m.state.loop.now (T uri) (T' uri))
    (target : Instant) : Fare choice quiet target m T [m'] m' T' := fun uri => by
  rw [List.map_singleton, h.sees uri, now]
  rcases moves uri with same | next
  · rw [same]
    exact .still _ _
  · exact .next next

/-- What is ready is done.  Each turn takes something from the bound on those that can follow. -/
theorem Keeps.turns (h : Keeps quiet queue m T n) (choice : Choice) (target : Instant) :
    ∃ T' n', n' + queue.length ≤ n ∧
      Keeps quiet [] (queue.foldl (Machine.runReady (rulesBy choice)) m) T' n' ∧
      (queue.foldl (Machine.runReady (rulesBy choice)) m).state.loop.now = m.state.loop.now ∧
      Fare choice quiet target m T (doings (rulesBy choice) queue m)
        (queue.foldl (Machine.runReady (rulesBy choice)) m) T' := by
  induction queue generalizing m T n with
  | nil => exact ⟨T, n, Nat.le_refl n, h, rfl, .refl rfl⟩
  | cons i queue ih =>
    obtain ⟨T₁, n₁, lt, keeps₁, now₁, moves⟩ := h.turn choice
    obtain ⟨T₂, n₂, le, keeps₂, now₂, fare₂⟩ := ih keeps₁
    refine ⟨T₂, n₂, ?_, keeps₂, now₂.trans now₁, (keeps₁.fare now₁ moves target).trans fare₂⟩
    rw [List.length_cons]
    omega

/-- What is ready when a round begins is as much to do as before, and it is something if anything
could be done.  No time passes. -/
theorem Keeps.gather (h : Keeps quiet [] m T n) :
    Keeps quiet (Moment.gather ⟨m, []⟩).queue (Moment.gather ⟨m, []⟩).machine T n ∧
      (Moment.gather ⟨m, []⟩).machine.state.loop.now = m.state.loop.now ∧
      (m.isBusy = true → 0 < (Moment.gather ⟨m, []⟩).queue.length) := by
  obtain ⟨A, D, U, holds, known, le⟩ := h
  obtain ⟨taken, gathers⟩ := gathers_due holds.agrees.ordered
  have ready : (Moment.due m.state.loop).ready = m.state.loop.ready ++ taken.map fun x =>
    .timer x.id := by
    rw [gathers.eq]
  have now : (Moment.due m.state.loop).now = m.state.loop.now := by rw [gathers.eq]
  have fewer := Multiset.card_le_card gathers.fewer
  -- A timer weighs as much when it is ready as it did in the heap.
  have weighs : weigh (taken.map fun x => .timer x.id) = 3 * taken.length := by
    rw [weigh, List.map_map, show weight ∘ (fun x : Timer => .timer x.id) = fun _ => 3 from rfl,
      List.map_const', List.sum_replicate]
    exact Nat.mul_comm ..
  have queue : (Moment.gather ⟨m, []⟩).queue = m.state.loop.ready ++ taken.map fun x =>
    .timer x.id := ready
  have agrees := (holds.agrees.gather gathers).aside [] (Moment.due m.state.loop).current
  rw [← List.append_nil (_ ++ _)] at agrees
  rw [queue]
  refine ⟨⟨A, D, U, ?_, known, ?_⟩, now, fun busy => ?_⟩
  · exact holds.alter (Moment.gather ⟨m, []⟩).machine.state rfl agrees
      (congrArg (A.stages quiet) now) (fun _ => rfl) holds.marks
  · have same : backlog (m.state.loop.ready ++ taken.map (fun x => .timer x.id) ++ [])
        { Moment.due m.state.loop with ready := [] } ≤ backlog m.state.loop.ready m.state.loop := by
      rw [Multiset.card_add, Multiset.coe_card] at fewer
      rw [backlog, backlog, List.append_nil, weigh_append, weighs]
      dsimp only
      omega
    exact Nat.le_trans (Nat.add_le_add_right same _) le
  · rw [List.length_append, List.length_map]
    by_contra none
    have taken : taken = [] := List.eq_nil_of_length_eq_zero (by omega)
    have ready : m.state.loop.ready = [] := List.eq_nil_of_length_eq_zero (by omega)
    refine gathers.some ?_ taken
    have busy :
        (!m.state.loop.ready.isEmpty || m.state.loop.nextDue?.any (· ≤ m.state.loop.now)) = true :=
      busy
    rwa [ready] at busy

/-- A round is done. -/
theorem Keeps.round (h : Keeps quiet [] m T n) (busy : m.isBusy = true) (choice : Choice)
    (target : Instant) :
    ∃ T' n', n' < n ∧ Keeps quiet [] (m.round (rulesBy choice)) T' n' ∧
      (m.round (rulesBy choice)).state.loop.now = m.state.loop.now ∧
      Fare choice quiet target m T (roundVisits (rulesBy choice) m)
        (m.round (rulesBy choice)) T' := by
  obtain ⟨keeps, now, some⟩ := h.gather
  obtain ⟨T', n', le, keeps', now', fare⟩ := keeps.turns choice target
  have less := some busy
  exact ⟨T', n', by omega, keeps', now'.trans now, (Fare.refl now).trans fare⟩

/-- What can be done without time passing is done, if enough rounds are allowed. -/
theorem Keeps.settle (h : Keeps quiet [] m T n) (limit : Nat) (choice : Choice) (target : Instant) :
    ∃ T' n', n' ≤ n ∧ Keeps quiet [] (Machine.settle (rulesBy choice) limit m) T' n' ∧
      (Machine.settle (rulesBy choice) limit m).state.loop.now = m.state.loop.now ∧
      (n < limit → (Machine.settle (rulesBy choice) limit m).isBusy = false ∧
        (m.isBusy = true → n' < n)) ∧
      Fare choice quiet target m T (settleVisits (rulesBy choice) limit m)
        (Machine.settle (rulesBy choice) limit m) T' := by
  -- Every round that has something to do takes at least one off the bound, so it runs out before
  -- the rounds do.
  induction limit generalizing m T n with
  | zero =>
    exact ⟨T, n, Nat.le_refl n, h, rfl, fun enough => absurd enough (Nat.not_lt_zero n), .refl rfl⟩
  | succ limit ih =>
    rw [Machine.settle, settleVisits]
    cases busy : m.isBusy with
    | false =>
      exact ⟨T, n, Nat.le_refl n, h, rfl, fun _ => ⟨busy, (absurd · Bool.false_ne_true)⟩, .refl rfl⟩
    | true =>
      obtain ⟨T₁, n₁, lt, keeps₁, now₁, fare₁⟩ := h.round busy choice target
      obtain ⟨T₂, n₂, le, keeps₂, now₂, done, fare₂⟩ := ih keeps₁
      rw [if_pos rfl, if_pos rfl]
      refine ⟨T₂, n₂, by omega, keeps₂, now₂.trans now₁, fun enough => ?_, fare₁.trans fare₂⟩
      exact ⟨(done (by omega)).1, fun _ => by omega⟩

/-! ## The clock -/

/-- While nothing is ready a document waits only for its task, which is asleep. -/
theorem Holds.asleep (h : Holds quiet none [] m.state m.suspended A D T) {stage : Stage}
    (staged : (T uri).doc.stage? = some stage) :
    ∃ t errand nap, A t = some (errand, .asleep nap) ∧ stage = .until nap.due := by
  have tied := h.tied uri nofun
  generalize (T uri).doc = k at tied staged
  cases tied with
  | still still => rw [Doc.stage?_map, still] at staged; cases staged
  | @busy t errand stage' task hB purpose =>
    obtain rfl : stage' = stage := by
      rw [Doc.stage?_map] at staged
      obtain ⟨_, -, same⟩ := Option.map_eq_some_iff.mp staged
      exact same
    obtain ⟨plan, hA, hstage⟩ := of_stages hB
    have stands := h.agrees.stands t errand plan hA
    cases plan with
    | fresh => exact absurd (stands.due _ rfl) List.not_mem_nil
    | woken nap => exact absurd (stands.due _ rfl) List.not_mem_nil
    | asleep nap => exact ⟨t, errand, nap, hA, (Option.some.inj hstage).symm⟩
    | acting | doomed => cases hstage

/-- Nothing is ready or due. -/
theorem rests_of_done (done : m.isBusy = false) :
    m.state.loop.ready = [] ∧ ∀ next, m.state.loop.nextDue? = some next →
      m.state.loop.now < next := by
  have quiet : (!m.state.loop.ready.isEmpty || m.state.loop.nextDue?.any (· ≤ m.state.loop.now)) =
    false := done
  obtain ⟨ready, due⟩ := Bool.or_eq_false_iff.mp quiet
  refine ⟨List.isEmpty_iff.mp ((Bool.not_eq_false' _).mp ready), fun next hnext => ?_⟩
  rw [hnext] at due
  exact Int.not_le.mp (of_decide_eq_false due)

/-- Nothing becomes of a document before the next timer is due. -/
theorem Holds.until (h : Holds quiet none [] m.state m.suspended A D T) {later : Instant}
    (early : ∀ next, m.state.loop.nextDue? = some next → later ≤ next) (uri : String) :
    (T uri).Until later := fun d staged => by
  obtain ⟨t, errand, nap, hA, hstage⟩ := h.asleep staged
  obtain ⟨next, hnext, le⟩ := h.agrees.nextDue hA (Stage.until.inj hstage).symm
  exact Int.le_trans (early next hnext) le

/-- Nothing becomes of a document while nothing is ready or due. -/
theorem Holds.idle (h : Holds quiet none [] m.state m.suspended A D T)
    (early : ∀ next, m.state.loop.nextDue? = some next → m.state.loop.now < next) (uri : String) :
    (T uri).Idle m.state.loop.now := fun stage staged past => by
  obtain ⟨t, errand, nap, hA, rfl⟩ := h.asleep staged
  obtain ⟨d, due, reached⟩ := past
  obtain ⟨next, hnext, le⟩ := h.agrees.nextDue hA due
  exact Int.lt_irrefl _ (Int.lt_of_lt_of_le (early next hnext) (Int.le_trans le reached))

/-- While nothing is ready the clock does not matter to how far tasks have come. -/
theorem Agrees.stages {gone : Nat → Prop} {l : Tasks} {rests : Rests}
    (h : Agrees goesOn gone [] l rests A) (quiet : Duration) (now now' : Instant) :
    A.stages quiet now = A.stages quiet now' := by
  funext t
  cases hA : A t with
  | none => rw [Agenda.stages, Agenda.stages, hA]; rfl
  | some e =>
    obtain ⟨errand, plan⟩ := e
    rw [stages_of _ _ hA, stages_of _ _ hA]
    cases plan with
    | fresh => exact absurd ((h.stands t errand _ hA).due _ rfl) List.not_mem_nil
    | acting | asleep | woken | doomed => rfl

/-- Nothing becomes of a document while nothing is ready or due. -/
theorem Keeps.idle (h : Keeps quiet [] m T n) (done : m.isBusy = false) (uri : String) :
    (T uri).Idle m.state.loop.now := by
  obtain ⟨A, D, U, holds, -⟩ := h
  obtain ⟨ready, ahead⟩ := rests_of_done done
  rw [List.nil_append, ready] at holds
  exact holds.idle ahead uri

/-- Nothing becomes of a document before the next timer is due. -/
theorem Keeps.until (h : Keeps quiet [] m T n) (done : m.isBusy = false) {later : Instant}
    (early : ∀ next, m.state.loop.nextDue? = some next → later ≤ next) (uri : String) :
    (T uri).Until later := by
  obtain ⟨A, D, U, holds, -⟩ := h
  rw [List.nil_append, (rests_of_done done).1] at holds
  exact holds.until early uri

/-- The clock may be moved on while nothing can be done. -/
theorem Keeps.setClock (h : Keeps quiet [] m T n) (done : m.isBusy = false) {later : Instant}
    (le : m.state.loop.now ≤ later) : Keeps quiet [] (m.setClock later) T n := by
  obtain ⟨A, D, U, holds, known, bound⟩ := h
  have ready := (rests_of_done done).1
  rw [List.nil_append, ready] at holds bound
  refine ⟨A, D, U, ?_, known, ?_⟩
  · rw [List.nil_append, show (m.setClock later).state.loop.ready = [] from ready]
    exact holds.alter (m.setClock later).state rfl (holds.agrees.clock le)
      (holds.agrees.stages ..) (fun _ => rfl) holds.marks
  · rw [List.nil_append, show (m.setClock later).state.loop.ready = [] from ready]
    exact bound

/-- The clock is moved on, to no later than the next timer is due. -/
theorem Keeps.clock (h : Keeps quiet [] m T n) (done : m.isBusy = false) {later : Instant}
    (le : m.state.loop.now ≤ later) (le_target : later ≤ target)
    (early : ∀ next, m.state.loop.nextDue? = some next → later ≤ next) :
    Keeps quiet [] (m.setClock later) T n ∧
      Fare choice quiet target m T [m.setClock later] (m.setClock later) T := by
  have keeps := h.setClock done le
  refine ⟨keeps, fun uri => ?_⟩
  rw [List.map_singleton, keeps.sees uri]
  exact .clock (h.idle done uri) le le_target (h.until done early uri)

/-- The clock is moved to a time before which no timer is due. -/
theorem Keeps.arrive (h : Keeps quiet [] m T n) (done : m.isBusy = false)
    (le : m.state.loop.now ≤ target)
    (early : ∀ next, m.state.loop.nextDue? = some next → target < next) :
    Keeps quiet [] (m.setClock target) T n ∧
      Fare choice quiet target m T [m.setClock target] (m.setClock target) T ∧
      ∀ uri, (T uri).Idle target := by
  obtain ⟨keeps, fare⟩ := h.clock done le (Int.le_refl _) fun next hnext =>
    Int.le_of_lt (early next hnext)
  exact ⟨keeps, fare, fun uri => (h.idle done uri).later (Int.lt_succ target)
    (h.until done early uri)⟩

/-- Time passes.  In the end the clock stands at its target and nothing is due. -/
theorem Keeps.advance (h : Keeps quiet [] m T n) (done : m.isBusy = false) (choice : Choice)
    (enough : n < fuel) (enough' : n < limit) (le : m.state.loop.now ≤ target) :
    ∃ T' n', n' ≤ n ∧ Keeps quiet [] (advanceWith (rulesBy choice) limit target fuel m) T' n' ∧
      (advanceWith (rulesBy choice) limit target fuel m).state.loop.now = target ∧
      (∀ uri, (T' uri).Idle target) ∧
      Fare choice quiet target m T (advanceVisits (rulesBy choice) limit target fuel m)
        (advanceWith (rulesBy choice) limit target fuel m) T' := by
  -- Each time the clock stops something is due, and doing it takes one off the bound.
  induction fuel generalizing m T n with
  | zero => exact absurd enough (Nat.not_lt_zero n)
  | succ fuel ih =>
    rw [advanceWith, advanceVisits]
    cases hnext : m.state.loop.nextDue? with
    | none =>
      obtain ⟨keeps, fare, idle⟩ := h.arrive done le (by rw [hnext]; exact nofun)
      exact ⟨T, n, Nat.le_refl n, keeps, rfl, idle, fare⟩
    | some due =>
      dsimp only
      split
      · next within =>
        have moves : m.state.loop.now ≤ max m.state.loop.now due := Int.le_max_left ..
        obtain ⟨-, ahead⟩ := rests_of_done done
        have early (next : Instant) (he : m.state.loop.nextDue? = some next) :
            max m.state.loop.now due ≤ next := by
          have lt := ahead next he
          rw [hnext] at he
          obtain rfl := Option.some.inj he
          exact Int.max_le.mpr ⟨Int.le_of_lt lt, Int.le_refl _⟩
        have in_time : max m.state.loop.now due ≤ target := Int.max_le.mpr ⟨le, within⟩
        obtain ⟨keeps₁, fare₁⟩ := h.clock done moves in_time early
        have busy : (m.setClock (max m.state.loop.now due)).isBusy = true := by
          refine Bool.or_eq_true_iff.mpr (.inr ?_)
          change Option.any _ ({ m.state.loop with now := _ } : Tasks).nextDue? = true
          rw [Loop.nextDue?_clock, hnext]
          exact decide_eq_true (Int.le_max_right ..)
        obtain ⟨T₂, n₂, -, keeps₂, now₂, settles, fare₂⟩ := keeps₁.settle limit choice target
        obtain ⟨done₂, less⟩ := settles enough'
        have lt := less busy
        obtain ⟨T₃, n₃, le₃, keeps₃, now₃, idle, fare₃⟩ :=
          ih keeps₂ done₂ (by omega) (by omega) (now₂ ▸ in_time)
        exact ⟨T₃, n₃, by omega, keeps₃, now₃, idle, (fare₁.trans fare₂).trans fare₃⟩
      · next late =>
        obtain ⟨keeps, fare, idle⟩ := h.arrive done le fun next he => by
          rw [hnext] at he
          exact Option.some.inj he ▸ Int.not_le.mp late
        exact ⟨T, n, Nat.le_refl n, keeps, rfl, idle, fare⟩

/-! ## Steps of a rehearsal -/

/-- What a step comes to.  Before time passes, all is done that can be done at once. -/
def Step.after (r : Rules State Unit Unit Job Nat) (limit : Nat) : Step → Rehearsal → Rehearsal
  | .edit e, m => m.tell e.event
  | .pass micros, m =>
    let settled := Machine.settle r limit m
    advanceWith r limit (settled.state.loop.now + micros) limit settled

/-- The rehearsals on the way through a step.  A step of time passes through every instant at which
a timer is due. -/
def Step.visits (r : Rules State Unit Unit Job Nat) (limit : Nat) :
    Step → Rehearsal → List Rehearsal
  | .edit e, m => [m.tell e.event]
  | .pass micros, m =>
    let settled := Machine.settle r limit m
    settleVisits r limit m ++ advanceVisits r limit (settled.state.loop.now + micros) limit settled

/-- The rehearsals on the way through some steps. -/
def visits (r : Rules State Unit Unit Job Nat) (limit : Nat) :
    List Step → Rehearsal → List Rehearsal
  | [], _ => []
  | step :: steps, m => step.visits r limit m ++ visits r limit steps (step.after r limit m)

/-- How a document is seen to change along steps: its phases, and the begins and ends of its
validations, each with the time at which it is first seen so.  Only changes are listed, so a
document that is seen more often than another has no longer trace for it. -/
def trace (outcome : Outcomes) (debounce : Int) (watchesClosing : Bool)
    (limit : Nat) (steps : List Step) (uri : String) : List Sight :=
  let m := Rehearsal.start debounce [] watchesClosing
  changes (m.state.view uri) ((visits (rulesAs outcome) limit steps m).map (sight uri))

variable {steps : List Step} {e : Edit}

/-- Every edit is of a document. -/
theorem Edit.edits (e : Edit) : ∃ uri, e.event.edits = some uri := by
  cases e <;> exact ⟨_, rfl⟩

/-- An edit moves the track of its document and nothing else, and leads to no more than ten things
to do. -/
theorem Keeps.tell (h : Keeps quiet queue m T n) (edits : e.event.edits = some uri) :
    Keeps quiet queue (m.tell e.event)
        (update T uri ((T uri).told quiet m.state.loop.now e.event)) (n + 10) ∧
      (m.tell e.event).state.loop.now = m.state.loop.now := by
  obtain ⟨A, D, U, holds, known, bound⟩ := h
  obtain ⟨A', d, new, holds', adds, less⟩ := holds.tell edits
  have owes := credits_update known uri d
  have ready : (m.tell e.event).state.loop.ready = m.state.loop.ready ++ new := adds.ready
  have timers : (m.tell e.event).state.loop.timers = m.state.loop.timers := adds.timers
  refine ⟨⟨A', update D uri d, insert uri U, ?_, fun other ho => ?_, ?_⟩, adds.now⟩
  · rw [ready, ← List.append_assoc]
    exact holds'
  · rw [Finset.mem_insert, not_or] at ho
    rw [Function.update_of_ne ho.1]
    exact known other ho.2
  · rw [backlog, weigh_append] at bound ⊢
    rw [ready, timers, weigh_append]
    omega

/-- While time passes every document is seen to become what it would by itself. -/
theorem Keeps.pass (h : Keeps quiet [] m T n) (enough : n < limit)
    (choice : Choice) (micros : Nat) :
    ∃ T' n', n' ≤ n ∧ Keeps quiet [] ((Step.pass micros).after (rulesBy choice) limit m) T' n' ∧
      ((Step.pass micros).after (rulesBy choice) limit m).state.loop.now =
        m.state.loop.now + micros ∧
      ∀ uri, ∃ seen, seen = ((Step.pass micros).visits (rulesBy choice) limit m).map (sight uri) ∧
        Unfolds (lengthsBy choice uri) quiet (m.state.loop.now + micros) m.state.loop.now (T uri)
          (changes (T uri).view seen) (T' uri) ∧
        lastView (T uri).view seen = (T' uri).view := by
  obtain ⟨T₁, n₁, le₁, keeps₁, now₁, settles, fare₁⟩ :=
    h.settle limit choice (m.state.loop.now + micros)
  have done := (settles enough).1
  have forward : (Machine.settle (rulesBy choice) limit m).state.loop.now ≤
    m.state.loop.now + micros :=
    now₁ ▸ Int.le_add_of_nonneg_right (Int.natCast_nonneg micros)
  have enough₁ : n₁ < limit := by omega
  obtain ⟨T₂, n₂, le₂, keeps₂, now₂, idle, fare₂⟩ :=
    keeps₁.advance done choice enough₁ enough₁ forward
  refine ⟨T₂, n₂, by omega, ?_, ?_, fun uri => ⟨_, rfl, ?_⟩⟩
  · rw [Step.after, now₁]
    exact keeps₂
  · rw [Step.after, now₁]
    exact now₂
  · have fare := fare₁.trans fare₂ uri
    rw [now₂] at fare
    rw [Step.visits, now₁]
    exact ⟨fare.rests (idle uri), fare.last⟩

/-- Along steps a document is seen to evolve as it would by itself. -/
theorem Keeps.evolves (h : Keeps quiet [] m T n) (enough : 10 * steps.length + n < limit)
    (choice : Choice) (uri : String) :
    Evolves uri (lengthsBy choice uri) quiet steps m.state.loop.now (T uri)
      (changes (T uri).view ((visits (rulesBy choice) limit steps m).map (sight uri))) := by
  -- An edit adds no more than ten things that are still to be done, and time that passes adds none.
  induction steps generalizing m T n with
  | nil => exact .nil
  | cons step steps ih =>
    rw [List.length_cons] at enough
    rw [visits, List.map_append, changes_append]
    cases step with
    | edit e =>
      obtain ⟨about, edits⟩ := e.edits
      obtain ⟨keeps, now⟩ := h.tell edits
      have rest := ih keeps (by omega)
      rw [Step.visits, List.map_singleton, keeps.sees uri, now]
      rw [now] at rest
      by_cases own : uri = about
      · subst own
        rw [Function.update_self] at rest ⊢
        exact .own edits rest
      · rw [Function.update_of_ne own] at rest ⊢
        rw [changes, if_pos rfl]
        exact .other (fun he => own (Option.some.inj (he.symm.trans edits))) rest
    | pass micros =>
      have few : n < limit := by omega
      obtain ⟨T', n', le, keeps, now, unfolds⟩ := h.pass few choice micros
      have rest := ih keeps (by omega)
      rw [now] at rest
      obtain ⟨_, rfl, unfolds, last⟩ := unfolds uri
      exact .pass unfolds (last ▸ rest)

/-! ## The start -/

/-- Nothing has happened yet.  All documents are absent. -/
theorem keeps_start (debounce : Int) (behaviours : List Behaviour) (watchesClosing : Bool) :
    Keeps (Duration.milliseconds (Scheduler.State.start debounce).debounce) []
      (Rehearsal.start debounce behaviours watchesClosing) (fun _ => ⟨.absent, []⟩) 0 := by
  refine ⟨fun _ => none, fun _ => .absent, ∅, ?_, fun _ _ => rfl, Nat.le_refl 0⟩
  exact
    { inv := .start debounce
      nobody := fun _ ⟨_, mem, _⟩ => absurd mem List.not_mem_nil
      debounce := rfl
      shows := fun _ => .absent rfl rfl rfl
      agrees := agrees_start _ _
      tied := fun _ _ => .still rfl
      owned := nofun
      marks := fun _ => rfl }

/-- The trace of a document is how it evolves by itself. -/
theorem evolves_trace (outcome : Outcomes) (debounce : Int) (watchesClosing : Bool)
    (enough : 10 * steps.length < limit) (uri : String) :
    Evolves uri (lengths (outcome uri))
      (Duration.milliseconds (Scheduler.State.start debounce).debounce) steps 0
      ⟨.absent, []⟩ (trace outcome debounce watchesClosing limit steps uri) := by
  rw [trace, ← rulesBy_given, ← lengthsBy_given]
  exact (keeps_start debounce [] watchesClosing).evolves enough _ uri

/-- Documents are independent.  If how long a validation takes, and whether it fails, depends only
on what is validated, then along any steps of any documents each document is seen to change just as
along those steps alone that concern it: it is in the same phases, and validations of the same
versions and texts of it begin and end, all at the same times.  How many rounds are allowed does not
matter if they are enough. -/
theorem trace_of_own_steps (outcome : Outcomes) (debounce : Int)
    (watchesClosing : Bool) (steps : List Step)
    (uri : String) {limit limit' : Nat} (enough : 10 * steps.length < limit)
    (enough' : 10 * steps.length < limit') :
    trace outcome debounce watchesClosing limit steps uri =
      trace outcome debounce watchesClosing limit' (steps.filter (Step.concerns uri)) uri := by
  have fewer : (steps.filter (Step.concerns uri)).length ≤ steps.length := List.length_filter_le ..
  exact (evolves_trace outcome debounce watchesClosing enough uri).filter.unique
    (evolves_trace outcome debounce watchesClosing (by omega) uri)

/-- Validations of the first document take three tenths of a second, those of others fail at
once. -/
def slowFirst : Outcomes := fun uri _ _ =>
  if uri = "file:///a.pike" then { length := some (Duration.milliseconds 300) }
    else { fails := true }

/-- Two documents are opened, the second is closed while the first is validated, and the first is
changed. -/
def twoDocuments : List Step :=
  [.edit (.opened "file:///a.pike" 1 "int x;"), .edit (.opened "file:///b.pike" 1 "int y;"),
    .pass 100000,
    .edit (.change "file:///a.pike" 2 "int z;"), .edit (.close "file:///b.pike"), .pass 1000000]

/-- The first of two documents is validated when it would be were there no second. -/
theorem trace_of_first_of_two :
    trace slowFirst 250 true Rehearsal.fuel twoDocuments "file:///a.pike" =
      [(0, ⟨.running, []⟩),
        (0, ⟨.running, [.began 0 1 "int x;"]⟩),
        (300000, ⟨.pending, [.began 0 1 "int x;", .ended 300000 1]⟩),
        (550000, ⟨.running, [.began 0 1 "int x;", .ended 300000 1]⟩),
        (550000, ⟨.running, [.began 0 1 "int x;", .ended 300000 1, .began 550000 2 "int z;"]⟩),
        (850000, ⟨.idle,
          [.began 0 1 "int x;", .ended 300000 1, .began 550000 2 "int z;", .ended 850000 2]⟩)] := by
  have own : trace slowFirst 250 true Rehearsal.fuel twoDocuments "file:///a.pike" =
      trace slowFirst 250 true Rehearsal.fuel (twoDocuments.filter (Step.concerns "file:///a.pike"))
        "file:///a.pike" := trace_of_own_steps _ _ _ _ _ (by decide) (by decide)
  rw [own]
  decide +kernel

end PikeAnalysis.Simulation.Scheduling
