import PikeAnalysis.Proofs.Concurrency.Clockwork
import PikeAnalysis.Proofs.Concurrency.Operations
import PikeAnalysis.Proofs.Simulation.Agenda

/-!
# What moves an agenda

The operations of the loop that a rehearsal makes use of, each with what it does to the agenda: a
task begins, falls asleep, goes on and ends (`Agrees.begin`, `Agrees.sleep`, `Agrees.wake`,
`Agrees.finish`), a task is created or cancelled (`Agrees.create`, `Agrees.cancel`), and a timer
ends a sleep (`Agrees.fire`).  A round begins with the timers that are due (`Agrees.gather`), and
while nothing is ready the clock may go on to when the next of them is (`Agrees.nextDue`).

Each of these is proved in the same three steps.  First comes what the loop is like afterwards, by
fields, in a structure of its own or by equations: `Dozes` for a loop in which a task has fallen
asleep, `Ends` for one in which a sleep is about to end, `Gathers` for one in which timers have been
taken.  From that follows that nothing was touched but the task and its nap (`Dozes.touches`,
`touches_roused`, `Ends.touches`), and that the task stands at its new plan (`Dozes.stands`,
`stands_acting`, `Ends.stands`).  Then `Agrees.replan` does the rest, or `Agrees.turn` where the
task does not sleep.

A sleep can end in two ways, by its timer and by a cancellation, and both are one lemma
(`Agrees.endSleep`), since in either case the ticket is raised and the task has its turn coming;
they differ in what the sleep has led to (`Nap.LeadsTo`).  A task that is cancelled when it has not
begun, or when its sleep is over and it has not gone on yet, is only marked (`Agrees.forestall`,
`Agrees.mark`).  Only tasks of timers are ever cancelled here: nobody cancels a run while documents
are edited.
-/

namespace PikeAnalysis.Concurrency.Loop

variable {κ η ε ν : Type}

/-! ## Open signals -/

theorem ready_raise_of_open {l : Loop κ η ε ν} {s : Signal} (h : (l.signalState s).ending = none)
    (e : Ending ε ν) :
    (l.raise s e).ready = l.ready ++ (l.signalState s).followers.map fun f => .follow f s := by
  rw [raise_of_open h]
  rfl

theorem follow_eq_of_open {l : Loop κ η ε ν} {s : Signal} (h : l.signalState s = {})
    (f : Follower η) :
    l.follow s f = { l with signals := Assoc.set s { followers := [f] } l.signals } := by
  rw [follow_of_open (by rw [h]), h]
  rfl

end PikeAnalysis.Concurrency.Loop

namespace PikeAnalysis.Simulation.Scheduling

open PikeAnalysis.Concurrency
open Function (update)

variable {goesOn : Sequels} {gone gone' : Nat → Prop} {items items' : List (Ready Nat)}
  {l m : Tasks}
  {rests rests' : Rests} {A A' : Agenda} {t u n id : Nat} {errand : Errand}
  {plan : Plan} {nap : Nap} {i : Ready Nat} {x : Option (Errand × Plan)}

/-! ## Numbers -/

/-- What others wait for is not what the task waits for.  So whatever is done to its nap concerns
nobody else. -/
theorem Agrees.foreign (h : Agrees goesOn gone items l rests A) (hA : A t = some (errand, plan))
    (hnap : plan.nap? = some nap) (u : Nat) (errand' : Errand) (plan' : Plan)
    (nap' : Nap) (hu : u ≠ t)
    (hA' : A u = some (errand', plan')) (hnap' : plan'.nap? = some nap') :
    nap'.ticket ≠ nap.ticket ∧ nap'.timer ≠ nap.timer :=
  ⟨fun same => hu (h.apart u _ _ _ t _ _ _ hA' hnap' hA hnap (.inl same)),
    fun same => hu (h.apart u _ _ _ t _ _ _ hA' hnap' hA hnap (.inr same))⟩

/-- Nobody waits for what is yet to be given.  A task that falls asleep gets a ticket and a timer
that are nobody else's. -/
theorem Agrees.unknown (h : Agrees goesOn gone items l rests A) (hA : A t = some (errand, plan))
    (hnap : plan.nap? = some nap) : nap.ticket ≠ l.nextTicket ∧ nap.timer ≠ l.nextTimer := by
  obtain ⟨hticket, htimer⟩ := (h.stands t errand plan hA).known nap hnap
  exact ⟨Nat.ne_of_lt hticket, Nat.ne_of_lt htimer⟩

theorem Agrees.lt (h : Agrees goesOn gone items l rests A) (hA : A t = some (errand, plan)) :
    t < l.nextTask :=
  h.taskLt t (by simp [hA])

/-- The next ticket has not been raised. -/
theorem Agrees.unraised (h : Agrees goesOn gone items l rests A) :
    l.ending? (.ticket l.nextTicket) = none := by
  rw [Loop.ending?, h.ticketLt _ (Nat.le_refl _)]

/-! ## Tasks that do not sleep -/

/-- What changes about a task that sleeps neither before nor after: all tickets and timers stay as
they are, and the task comes, goes, or changes its plan.  `x` is what is known of it afterwards,
nothing if it has ended. -/
structure Turns (goesOn : Sequels) (gone : Nat → Prop) (t : Nat) (items : List (Ready Nat))
    (l : Tasks) (rests : Rests) (items' : List (Ready Nat)) (m : Tasks) (rests' : Rests)
    (x : Option (Errand × Plan)) : Prop where
  nextTask : l.nextTask ≤ m.nextTask
  nextTicket : m.nextTicket = l.nextTicket
  nextTimer : m.nextTimer = l.nextTimer
  timers : m.timers = l.timers
  live : m.live = l.live
  now : m.now = l.now
  tickets : ∀ n, m.signalState (.ticket n) = l.signalState (.ticket n)
  task : ∀ u, u ≠ t → m.task? u = l.task? u
  ended : ∀ u, u ≠ t → m.signalState (.ended u) = l.signalState (.ended u)
  rest : ∀ u, u ≠ t → Assoc.get? u rests' = Assoc.get? u rests
  turn : ∀ i u, taskOf? i = some u → u ≠ t → (i ∈ items' ↔ i ∈ items)
  timer : ∀ k, .timer k ∈ items' ↔ .timer k ∈ items
  taskLt : t < m.nextTask
  absent : x = none → m.task? t = none
  stands : ∀ errand plan, x = some (errand, plan) →
    plan.nap? = none ∧ Stands goesOn items' m rests' t errand plan
  once : (turns items').Nodup
  own : ∀ i ∈ items', taskOf? i = some t → ∃ errand plan, x = some (errand, plan) ∧
    plan.turn? t = some i
  hook : ∀ f s, .follow f s ∈ items' → taskOf? (.follow f s) = none →
    .follow f s ∈ items ∨ ∃ r, f = .hook r ∧ gone r

/-- The agenda of a task moves that does not sleep.  The ticket and the timer that are touched are
in that case the next ones, which nobody has. -/
theorem Agrees.turn (h : Agrees goesOn gone items l rests A)
    (before : ∀ errand plan, A t = some (errand, plan) → plan.nap? = none)
    (k : Turns goesOn gone t items l rests items' m rests' x) :
    Agrees goesOn gone items' m rests' (update A t x) := by
  -- Nothing is said of the ticket and the timer with these numbers but that they are new.
  have touches : Touches t l.nextTicket l.nextTimer items l rests items' m rests' :=
    { nextTask := k.nextTask, nextTicket := Nat.le_of_eq k.nextTicket.symm
      nextTimer := Nat.le_of_eq k.nextTimer.symm, now := k.now, task := k.task, ended := k.ended
      ticket := fun n _ => k.tickets n, live := fun _ _ => by rw [k.live]
      timers := fun _ _ => by rw [k.timers], rest := k.rest, turn := k.turn,
      timer := fun j _ => k.timer j }
  have self {y : Option (Errand × Plan)} (hy : update A t x t = y) : x = y := by
    rwa [Function.update_self] at hy
  refine h.touch touches
    { others := fun u hu => Function.update_of_ne hu _ _
      before := fun errand plan nap hA hnap => ?_
      after := fun errand plan nap hA hnap => ?_
      foreign := fun u _ _ _ _ hA hnap => h.unknown hA hnap
      taskLt := k.taskLt
      ticketLt := fun _ => (k.tickets _).trans (h.ticketLt _ (Nat.le_refl _))
      timerLt := fun y hy hid => ?_
      ordered := by rw [k.timers]; exact h.ordered
      absent := fun hA => k.absent (self hA)
      stands := fun errand plan hA => (k.stands errand plan (self hA)).2
      once := k.once
      turn := fun i hi ht => ?_
      suits := fun i hi hn => ?_
      raised := fun hraised => by rwa [Loop.ending?, k.tickets]
      live := fun action hlive => ?_ }
  · rw [before errand plan hA] at hnap
    cases hnap
  · rw [(k.stands errand plan (self hA)).1] at hnap
    cases hnap
  · rw [k.timers] at hy
    exact absurd (h.timerLt y hy) (hid ▸ Nat.lt_irrefl _)
  · obtain ⟨errand, plan, hx, hturn⟩ := k.own i hi ht
    exact ⟨errand, plan, by rw [Function.update_self, hx], hturn⟩
  · cases i with
    | start u => cases hn
    | timer j =>
      rcases (h.suits _ ((k.timer j).mp hi)).2 rfl with ⟨j', hj, hlt⟩ | ⟨r, s, hs, -⟩
      · exact .inl ⟨j', hj, k.nextTimer ▸ hlt⟩
      · cases hs
    | follow f s =>
      rcases k.hook f s hi hn with hold | ⟨r, rfl, hr⟩
      · rcases (h.suits _ hold).2 hn with ⟨j, hj, -⟩ | hhook
        · cases hj
        · exact .inr hhook
      · exact .inr ⟨r, s, rfl, hr⟩
  · rw [k.live] at hlive
    exact absurd (h.live _ action hlive).1 (Nat.lt_irrefl _)

/-! ## Beginnings and ends -/

theorem not_mem_turns_of_cons (hi : taskOf? i = some t) (once : (turns (i :: items)).Nodup) :
    t ∉ turns items ∧ (turns items).Nodup := by
  have heq : turns (i :: items) = t :: turns items := List.filterMap_cons_some hi
  rw [heq, List.nodup_cons] at once
  exact once

theorem mem_cons_of_task (hi : taskOf? i = some t) {j : Ready Nat} (hj : taskOf? j ≠ some t) :
    j ∈ items ↔ j ∈ i :: items := by
  refine ⟨List.mem_cons_of_mem _, fun h => (List.mem_cons.mp h).resolve_left ?_⟩
  rintro rfl
  exact hj hi

/-- A turn that becomes ready for a task that has none is a new one. -/
theorem nodup_turns_concat (hi : taskOf? i = some t) (once : (turns items).Nodup)
    (idle : t ∉ turns items) :
    (turns (items ++ [i])).Nodup := by
  rw [turns_append, turns, turns, List.filterMap_cons_some hi]
  exact List.nodup_append.mpr ⟨once, List.nodup_singleton _, fun u hu v hv => by
    rw [List.mem_singleton.mp hv]
    rintro rfl
    exact idle hu⟩

theorem ended_ne_ticket (t n : Nat) : Signal.ended t ≠ .ticket n := nofun

/-- Nothing is awaited by a task whose turn it is. -/
theorem stands_acting {marked : Bool} {cancels : Nat}
    (task : l.task? t = some { job := errand.job, waiting := none, mustCancel := marked, cancels })
    (ended : l.signalState (.ended t) = { followers := errand.hooks }) (idle : t ∉ turns items) :
    Stands goesOn items l rests t errand (.acting marked) where
  task := ⟨marked, cancels, rfl, task⟩
  ended := ended
  due := nofun
  idle _ := idle
  known := nofun
  rest := nofun
  raised := nofun
  rings := nofun
  past := nofun
  kind := nofun

/-- A task begins its first turn, unless it was cancelled before.  Which of the two it is can be
told from its mark, and the turn is the same: it ends at once if it is marked. -/
theorem Agrees.begin (h : Agrees goesOn gone (.start t :: items) l rests A) :
    ∃ errand marked, A t = some (errand, if marked then .doomed none else .fresh) ∧
      Agrees goesOn gone items l rests (update A t (some (errand, .acting marked))) := by
  obtain ⟨errand, plan, hA, hturn⟩ := (h.suits _ List.mem_cons_self).1 t rfl
  have stands := h.stands t errand plan hA
  obtain ⟨hnot, honce⟩ := not_mem_turns_of_cons rfl h.once
  obtain ⟨mustCancel, cancels, marked, task⟩ := stands.task
  -- A task that is to be started has not begun, or was cancelled before it could.
  have hplan : plan.nap? = none ∧ plan = if mustCancel then .doomed none else .fresh := by
    cases plan with
    | fresh =>
      obtain rfl : mustCancel = false := marked
      exact ⟨rfl, rfl⟩
    | doomed nap =>
      cases nap with
      | none =>
        obtain rfl : mustCancel = true := marked
        exact ⟨rfl, rfl⟩
      | some nap => cases hturn
    | acting | asleep | woken => cases hturn
  obtain ⟨hnap, hplan⟩ := hplan
  rw [hnap] at task
  refine ⟨errand, mustCancel, hplan ▸ hA, h.turn (fun errand' plan' hA' => ?_)
    { nextTask := Nat.le_refl _, nextTicket := rfl, nextTimer := rfl, timers := rfl,
      live := rfl, now := rfl
      tickets := fun _ => rfl, task := fun _ _ => rfl, ended := fun _ _ => rfl,
      rest := fun _ _ => rfl
      turn := fun j u hj hu => mem_cons_of_task rfl fun he =>
        hu (Option.some.inj (hj.symm.trans he))
      timer := fun k => mem_cons_of_task (t := t) rfl nofun
      taskLt := h.lt hA
      absent := nofun
      stands := fun errand' plan' hx => ?_
      once := honce
      own := fun i hi ht => absurd (mem_turns_of_mem hi ht) hnot
      hook := fun f s hi _ => .inl (List.mem_cons_of_mem _ hi) }⟩
  · rw [hA] at hA'
    obtain ⟨-, rfl⟩ := Prod.mk.inj (Option.some.inj hA')
    exact hnap
  · obtain ⟨rfl, rfl⟩ := Prod.mk.inj (Option.some.inj hx)
    exact ⟨rfl, stands_acting task stands.ended hnot⟩

/-- What is ready once a task has ended.  Nobody waits for these tasks but the hook of a run. -/
def Errand.left (errand : Errand) (t : Nat) : List (Ready Nat) :=
  errand.hooks.map fun f => .follow f (.ended t)

theorem Errand.mem_left {i : Ready Nat} (hi : i ∈ errand.left t) :
    ∃ r subject, errand = .run r subject ∧ i = .follow (.hook r) (.ended t) := by
  cases errand with
  | timer id => cases hi
  | run r subject => exact ⟨r, subject, rfl, List.mem_singleton.mp hi⟩

theorem Errand.taskOf?_left {i : Ready Nat} (hi : i ∈ errand.left t) : taskOf? i = none := by
  obtain ⟨r, subject, -, rfl⟩ := errand.mem_left hi
  rfl

theorem turns_left (errand : Errand) (t : Nat) : turns (errand.left t) = [] := by
  cases errand <;> rfl

theorem mem_append_left {i : Ready Nat} (hi : i ∉ errand.left t) :
    i ∈ items ++ errand.left t ↔ i ∈ items :=
  ⟨fun h => (List.mem_append.mp h).resolve_right hi, List.mem_append_left _⟩

/-- A task ends in its turn; its run is gone by then.  What becomes ready is the hook that tells the
scheduler, and no turn of anybody. -/
theorem Agrees.finish {marked : Bool} (h : Agrees goesOn gone items l rests A)
    (hA : A t = some (errand, .acting marked))
    (past : ∀ r subject, errand = .run r subject → gone r) (e : Ending Unit Unit) :
    Agrees goesOn gone (items ++ errand.left t) (l.finish t e) rests (update A t none) ∧
      (l.finish t e).ready = l.ready ++ errand.left t := by
  have stands := h.stands t errand _ hA
  have hended : ({ l with tasks := Assoc.erase t l.tasks } : Tasks).signalState (.ended t) =
      { followers := errand.hooks } := stands.ended
  -- The task has not ended before, so its followers are still waiting to be told.
  have hopen : (({ l with tasks := Assoc.erase t l.tasks } : Tasks).signalState (.ended t)).ending =
    none := by
    rw [hended]
  have hstate (s : Signal) (hs : s ≠ .ended t) : (l.finish t e).signalState s =
    l.signalState s := by
    rw [Loop.finish, Loop.signalState_raise, if_neg fun hand => hs hand.1]
    rfl
  have htask := Loop.task?_finish l t
  refine ⟨h.turn (fun errand' plan' hA' => ?_)
    { nextTask := Nat.le_of_eq (Loop.nextTask_finish l t e).symm
      nextTicket := Loop.nextTicket_raise _ _ _, nextTimer := Loop.nextTimer_raise _ _ _
      timers := Loop.timers_raise _ _ _, live := Loop.live_raise _ _ _, now := Loop.now_raise _ _ _
      tickets := fun n => hstate _ (ended_ne_ticket t n).symm
      task := fun u hu => by rw [htask, if_neg hu]
      ended := fun u hu => hstate _ fun he => hu (Signal.ended.inj he)
      rest := fun _ _ => rfl
      turn := fun i u hi hu => mem_append_left fun hmem => by
        rw [Errand.taskOf?_left hmem] at hi
        cases hi
      timer := fun k => mem_append_left fun hmem => by
        obtain ⟨r, subject, -, hi⟩ := Errand.mem_left hmem
        cases hi
      taskLt := Loop.nextTask_finish l t e ▸ h.lt hA
      absent := fun _ => by rw [htask, if_pos rfl]
      stands := fun _ _ hx => absurd hx (Option.some_ne_none _).symm
      once := by rw [turns_append, turns_left, List.append_nil]; exact h.once
      own := fun i hi ht => ?_
      hook := fun f s hi hn => ?_ }, ?_⟩
  · rw [hA] at hA'
    obtain ⟨-, rfl⟩ := Prod.mk.inj (Option.some.inj hA')
    rfl
  · rcases List.mem_append.mp hi with hi | hi
    · exact absurd (mem_turns_of_mem hi ht) (stands.idle rfl)
    · rw [Errand.taskOf?_left hi] at ht
      cases ht
  · refine (List.mem_append.mp hi).imp_right fun hi => ?_
    obtain ⟨r, subject, herrand, hf⟩ := Errand.mem_left hi
    obtain ⟨rfl, -⟩ := Ready.follow.inj hf
    exact ⟨r, rfl, past r subject herrand⟩
  · rw [Loop.finish, Loop.ready_raise_of_open hopen, hended]
    rfl

/-- A loop with a new task, and with what is to be done when it ends. -/
def commissioned (l : Tasks) (errand : Errand) : Tasks :=
  errand.hooks.foldl (fun l' f => l'.follow (.ended l.nextTask) f) (l.create errand.job).1

@[simp] theorem timers_commissioned (l : Tasks) (errand : Errand) :
    (commissioned l errand).timers = l.timers := by
  cases errand <;> simp [commissioned, Errand.hooks, Loop.create, Loop.enqueue]

@[simp] theorem now_commissioned (l : Tasks) (errand : Errand) :
    (commissioned l errand).now = l.now := by
  cases errand <;> simp [commissioned, Errand.hooks, Loop.create, Loop.enqueue]

/-- A task is created for an errand.  It has the next number, which nobody has had, and its first
turn is the last of what is ready. -/
theorem Agrees.create (h : Agrees goesOn gone items l rests A) (errand : Errand) :
    Agrees goesOn gone (items ++ [.start l.nextTask]) (commissioned l errand) rests
        (update A l.nextTask (some (errand, .fresh))) ∧
      (commissioned l errand).ready = l.ready ++ [.start l.nextTask] := by
  have hnone : A l.nextTask = none := by
    by_contra hne
    exact Nat.lt_irrefl _ (h.taskLt _ hne)
  have hnew : (l.create errand.job).1.signalState (.ended l.nextTask) = {} :=
    h.endedLt _ (Nat.le_refl _)
  have htask := Loop.task?_create l errand.job (h.absent _ hnone)
  -- The hook of a run is added besides.  In either case the signal of the end of the new task is
  -- the only one that is another.
  have hcommissioned : ∃ signals, commissioned l errand = { (l.create errand.job).1 with signals } ∧
      ∀ s, (commissioned l errand).signalState s =
        if s = .ended l.nextTask then { followers := errand.hooks } else l.signalState s := by
    cases errand with
    | timer id =>
      refine ⟨_, rfl, fun s => ?_⟩
      split
      · next hs => rw [hs]; exact hnew
      · rfl
    | run r subject =>
      have hnew : (l.create (.run r)).1.signalState (.ended l.nextTask) = {} := hnew
      have hfollow : commissioned l (.run r subject) =
          (l.create (.run r)).1.follow (.ended l.nextTask) (.hook r) := rfl
      rw [hfollow]
      refine ⟨_, Loop.follow_eq_of_open hnew _, fun s => ?_⟩
      rw [Loop.signalState_follow, hnew]
      by_cases hs : s = .ended l.nextTask
      · rw [if_pos ⟨hs, rfl⟩, if_pos hs]
        rfl
      · rw [if_neg fun hand => hs hand.1, if_neg hs]
        rfl
  obtain ⟨signals, heq, hstate⟩ := hcommissioned
  have htask' (u : Nat) : (commissioned l errand).task? u =
      if u = l.nextTask then some { job := errand.job } else l.task? u := by
    rw [heq]
    exact htask u
  have fresh {i : Ready Nat} (hi : i ∈ items) : taskOf? i ≠ some l.nextTask := by
    intro ht
    obtain ⟨errand', plan', hA, -⟩ := (h.suits i hi).1 _ ht
    rw [hnone] at hA
    cases hA
  have hnot : l.nextTask ∉ turns items := by
    intro hmem
    obtain ⟨i, hi, ht⟩ := List.mem_filterMap.mp hmem
    exact fresh hi ht
  -- Nobody has had the number, so the new task shares neither a ticket nor a timer with another.
  refine ⟨h.turn (fun errand' plan' hA' => ?_)
    { nextTask := by rw [heq]; exact Nat.le_succ _
      nextTicket := by rw [heq]; rfl
      nextTimer := by rw [heq]; rfl
      timers := by rw [heq]; rfl
      live := by rw [heq]; rfl
      now := by rw [heq]; rfl
      tickets := fun n => by rw [hstate, if_neg nofun]
      task := fun u hu => by rw [htask', if_neg hu]
      ended := fun u hu => by rw [hstate, if_neg fun he => hu (Signal.ended.inj he)]
      rest := fun _ _ => rfl
      turn := fun i u hi hu => ?_
      timer := fun k => by simp
      taskLt := by rw [heq]; exact Nat.lt_succ_self _
      absent := nofun
      stands := fun errand' plan' hx => ?_
      once := nodup_turns_concat rfl h.once hnot
      own := fun i hi ht => ?_
      hook := fun f s hi _ => .inl (by simpa using hi) }, by rw [heq]; rfl⟩
  · rw [hnone] at hA'
    cases hA'
  · refine ⟨fun hi' => (List.mem_append.mp hi').resolve_right fun hmem => ?_,
      List.mem_append_left _⟩
    rw [List.mem_singleton.mp hmem] at hi
    exact hu (Option.some.inj hi).symm
  · obtain ⟨rfl, rfl⟩ := Prod.mk.inj (Option.some.inj hx)
    exact ⟨rfl,
      { task := ⟨false, 0, rfl, by rw [htask', if_pos rfl]; rfl⟩
        ended := by rw [hstate, if_pos rfl]
        due := fun i hi => by
          obtain rfl := Option.some.inj hi
          exact List.mem_append_right _ (List.mem_singleton_self _)
        idle := nofun, known := nofun, rest := nofun, raised := nofun
        rings := nofun, past := nofun, kind := nofun }⟩
  · rcases List.mem_append.mp hi with hi | hi
    · exact absurd ht (fresh hi)
    · rw [List.mem_singleton.mp hi]
      exact ⟨errand, .fresh, rfl, rfl⟩

/-! ## Sleeps -/

/-- A loop in which a sleep has been set up: a ticket has been given, and a timer is running that
raises it. -/
def lying (l : Tasks) (d : Duration) : Tasks :=
  (l.newTicket.1.startTimer d (.raise (.ticket l.nextTicket))).1

/-- A loop in which a task starts to sleep in its turn: it follows the ticket of the sleep and
waits. -/
def napping (l : Tasks) (t : Nat) (d : Duration) : Tasks :=
  Machine.suspend (lying { l with current := t } d) t (.ticket l.nextTicket)

theorem elements_napping (ordered : l.timers.Ordered) (t : Nat) (d : Duration) :
    (napping l t d).timers.elements = ⟨l.now.after d, l.nextTimer⟩ ::ₘ l.timers.elements := by
  rw [napping, (Loop.clock_suspend ..).1]
  exact (ordered.push ⟨l.now.after d, l.nextTimer⟩).2

theorem now_napping (l : Tasks) (t : Nat) (d : Duration) : (napping l t d).now = l.now :=
  (Loop.clock_suspend ..).2

/-- What a loop is like in which a task has fallen asleep: it waits with a state for the ticket of a
nap, whose timer has been added to those of the loop before. -/
structure Dozes (l m : Tasks) (t : Nat) (st : TaskState Job) (nap : Nap) : Prop where
  state : ∀ s, m.signalState s = if s = .ticket nap.ticket then { followers := [.resume t] }
    else l.signalState s
  task : ∀ u, m.task? u = if u = t then some st else l.task? u
  live : ∀ k, Assoc.get? k m.live =
    if nap.timer = k then some (.raise (.ticket nap.ticket)) else Assoc.get? k l.live
  elements : m.timers.elements = ⟨nap.due, nap.timer⟩ ::ₘ l.timers.elements
  ordered : m.timers.Ordered
  now : m.now = l.now
  ready : m.ready = l.ready
  nextTask : m.nextTask = l.nextTask
  nextTicket : m.nextTicket = nap.ticket + 1
  nextTimer : m.nextTimer = nap.timer + 1

/-- A task that goes to sleep in its turn waits for the next ticket and for the next timer.  The
ticket has no followers and has not been raised, so the task is suspended and not gone on with. -/
theorem dozes_napping {cancels : Nat} {job : Job} (task : l.task? t = some { job, cancels })
    (new : l.signalState (.ticket l.nextTicket) = {}) (ordered : l.timers.Ordered) (d : Duration) :
    Dozes l (napping l t d) t { job, waiting := some (.ticket l.nextTicket), cancels }
      ⟨l.nextTicket, l.nextTimer, l.now.after d⟩ := by
  let started : Tasks := lying { l with current := t } d
  let slept : Tasks := started.setTask t { job, waiting := some (.ticket l.nextTicket), cancels }
  have newly : slept.signalState (.ticket l.nextTicket) = {} := new
  -- The task is not marked, so to suspend it means to let it follow its ticket.
  have suspended : napping l t d = slept.follow (.ticket l.nextTicket) (.resume t) := by
    have known : started.task? t = some { job, cancels } := task
    change Machine.suspend started t _ = _
    rw [Machine.suspend, known]
    rfl
  have eq := suspended
  rw [Loop.follow_eq_of_open newly] at eq
  refine
    { state := fun s => ?_
      task := fun u => by rw [eq]; exact Loop.task?_setTask started t u _
      live := fun k => by rw [eq]; rfl
      elements := elements_napping ordered t d
      ordered := by rw [eq]; exact (ordered.push ⟨l.now.after d, l.nextTimer⟩).1
      now := now_napping l t d
      ready := by rw [eq]; rfl
      nextTask := by rw [eq]; rfl
      nextTicket := by rw [eq]; rfl
      nextTimer := by rw [eq]; rfl }
  rw [suspended, Loop.signalState_follow, newly]
  by_cases hs : s = .ticket l.nextTicket
  · rw [if_pos ⟨hs, rfl⟩, if_pos hs]
    rfl
  · rw [if_neg fun hand => hs hand.1, if_neg hs]
    rfl

namespace Dozes

variable {st : TaskState Job} {rest : Rest State Unit Unit Job}

theorem touches (k : Dozes l m t st nap) (ticket : nap.ticket = l.nextTicket)
    (timer : nap.timer = l.nextTimer)
    (items : List (Ready Nat)) (rests : Rests) (rest : Rest State Unit Unit Job) :
    Touches t nap.ticket nap.timer items l rests items m ((t, rest) :: rests) where
  nextTask := Nat.le_of_eq k.nextTask.symm
  nextTicket := by rw [k.nextTicket, ticket]; exact Nat.le_succ _
  nextTimer := by rw [k.nextTimer, timer]; exact Nat.le_succ _
  now := k.now
  task u hu := by rw [k.task, if_neg hu]
  ended u _ := by rw [k.state, if_neg (ended_ne_ticket _ _)]
  ticket j hj := by rw [k.state, if_neg fun he => hj (Signal.ticket.inj he)]
  live j hj := by rw [k.live, if_neg hj.symm]
  timers x hx := by
    rw [k.elements, Multiset.mem_cons, or_iff_right]
    rintro rfl
    exact hx rfl
  rest u hu := by rw [Assoc.get?, if_neg hu.symm]
  turn _ _ _ _ := .rfl
  timer _ _ := .rfl

/-- The timer of the nap is the only one of its number, as that has just been given. -/
theorem rings (k : Dozes l m t st nap) (timerLt : ∀ x ∈ l.timers.elements, x.id < nap.timer)
    (silent : .timer nap.timer ∉ items) : Rings items m nap where
  live := (k.live _).trans (if_pos rfl)
  kept := .inr (k.elements ▸ Multiset.mem_cons_self _ _)
  only x hx hid := by
    rw [k.elements, Multiset.mem_cons] at hx
    rcases hx with rfl | hx
    · rfl
    · exact absurd (timerLt x hx) (hid ▸ Nat.lt_irrefl _)
  due hi := absurd hi silent

theorem stands {cancels : Nat}
    (k : Dozes l m t { job := errand.job, waiting := some (.ticket nap.ticket), cancels } nap)
    (ended : l.signalState (.ended t) = { followers := errand.hooks }) (idle : t ∉ turns items)
    (rings : Rings items m nap) (sequel : goesOn errand nap.timer rest) :
    Stands goesOn items m ((t, rest) :: rests) t errand (.asleep nap) where
  task := ⟨false, cancels, rfl, by rw [k.task, if_pos rfl]; rfl⟩
  ended := by rw [k.state, if_neg (ended_ne_ticket _ _)]; exact ended
  due _ hi := absurd hi (Option.some_ne_none _).symm
  idle _ := idle
  known _ hnap := by
    obtain rfl := Option.some.inj hnap
    exact ⟨k.nextTicket ▸ Nat.lt_succ_self _, k.nextTimer ▸ Nat.lt_succ_self _⟩
  rest _ hnap := by
    obtain rfl := Option.some.inj hnap
    exact ⟨rest, if_pos rfl, sequel⟩
  raised _ hnap := by
    obtain rfl := Option.some.inj hnap
    exact (k.state _).trans (if_pos rfl)
  rings _ hplan := by
    obtain rfl := Plan.asleep.inj hplan
    exact rings
  past _ hplan := by cases hplan
  kind _ hplan := by cases hplan

end Dozes

/-- A task falls asleep in its turn.  A timer wakes it after that time, by a ticket that is new. -/
theorem Agrees.sleep (h : Agrees goesOn gone items l rests A)
    (hA : A t = some (errand, .acting false))
    (d : Duration) (rest : Rest State Unit Unit Job) (hrest : goesOn errand l.nextTimer rest) :
    Agrees goesOn gone items (napping l t d) ((t, rest) :: rests)
        (update A t (some (errand, .asleep ⟨l.nextTicket, l.nextTimer, l.now.after d⟩))) ∧
      (napping l t d).ready = l.ready := by
  have stands := h.stands t errand _ hA
  obtain ⟨mustCancel, cancels, rfl, task⟩ := stands.task
  have dozes := dozes_napping task (h.ticketLt _ (Nat.le_refl _)) h.ordered d
  -- The timer is a new one, so that it cannot be ready yet.
  have silent : .timer l.nextTimer ∉ items := by
    intro hi
    rcases (h.suits _ hi).2 rfl with ⟨id, hid, hlt⟩ | ⟨r, s, hs, -⟩
    · rw [← Ready.timer.inj hid] at hlt
      exact Nat.lt_irrefl _ hlt
    · cases hs
  refine ⟨h.replan hA (dozes.touches rfl rfl items rests rest)
    { before := fun _ hnap => by cases hnap
      after := fun _ hnap => (Option.some.inj hnap).symm
      foreign := fun u _ _ _ _ hA' hnap => h.unknown hA' hnap
      ticketLt := dozes.nextTicket ▸ Nat.lt_succ_self _
      timerLt := dozes.nextTimer ▸ Nat.lt_succ_self _
      ordered := dozes.ordered
      stands := dozes.stands stands.ended (stands.idle rfl) (dozes.rings h.timerLt silent) hrest
      once := h.once
      turn := fun i hi ht => absurd (mem_turns_of_mem hi ht) (stands.idle rfl)
      suits := fun i hi hn => ((h.suits i hi).2 hn).imp_left fun ⟨id, he, hlt⟩ =>
        ⟨id, he, Nat.lt_of_lt_of_le hlt (dozes.nextTimer ▸ Nat.le_succ _)⟩
      raised := fun hraised => absurd h.unraised hraised
      live := fun action haction => ?_ }, dozes.ready⟩
  rw [dozes.live, if_pos rfl] at haction
  obtain rfl := Option.some.inj haction
  exact ⟨_, rfl, dozes.nextTicket ▸ Nat.lt_succ_self _, .inl ⟨rfl, rfl⟩⟩

/-- A loop in which a task goes on after a sleep: it waits no more, its mark is gone, and the timer
of the sleep is stopped, which matters only if the sleep was cancelled before its time. -/
def roused (l : Tasks) (t : Nat) (st : TaskState Job) (id : Nat) : Tasks :=
  (l.setTask t { st with waiting := none, mustCancel := false }).stopTimer id

/-- How a task goes on that sleeps no more.  What it is told of its sleep is in `ending`: that the
time has come, or that it has been cancelled, and which of the two depends on the plan alone. -/
structure Resumes (goesOn : Sequels) (gone : Nat → Prop) (items : List (Ready Nat)) (l : Tasks)
    (rests : Rests) (A : Agenda) (t : Nat) (s : Signal) (errand : Errand)
    (nap : Nap) (cancelled : Bool)
    (st : TaskState Job) (rest : Rest State Unit Unit Job) : Prop where
  plan : A t = some (errand, if cancelled then .doomed (some nap) else .woken nap)
  task : l.task? t = some st
  kept : Assoc.get? t rests = some rest
  sequel : goesOn errand nap.timer rest
  ending :
    (if st.mustCancel then .cancelled else (l.ending? s).getD .cancelled : Ending Unit Unit) =
    if cancelled then .cancelled else .value ()
  reached : cancelled = false → Reached l.now nap.due
  kind : cancelled = true → ∃ id, errand = .timer id
  agrees : Agrees goesOn gone items (roused l t st nap.timer) (Assoc.erase t rests)
    (update A t (some (errand, .acting false)))

/-- What a task is at that is about to go on: its sleep is over, or was cancelled. -/
theorem Plan.of_resume {s : Signal} (h : plan.turn? t = some (.follow (.resume t) s)) :
    ∃ (nap : Nap) (cancelled : Bool), plan =
      (if cancelled then .doomed (some nap) else .woken nap) ∧
      s = .ticket nap.ticket := by
  cases plan with
  | woken nap => exact ⟨nap, false, rfl, (Ready.follow.inj (Option.some.inj h)).2.symm⟩
  | doomed nap =>
    cases nap with
    | none => cases h
    | some nap => exact ⟨nap, true, rfl, (Ready.follow.inj (Option.some.inj h)).2.symm⟩
  | fresh | acting | asleep => cases h

/-- A task that goes on is cancelled if it is marked, or its ticket has been raised as cancelled.  A
task whose sleep is over is neither, since a mark would have doomed it. -/
theorem Plan.ending_of_raised {cancelled mustCancel : Bool}
    (marked : (if cancelled then .doomed (some nap) else .woken nap : Plan).Marked l mustCancel)
    (raised : (if cancelled then .doomed (some nap) else .woken nap : Plan).Raised t
      (l.signalState (.ticket nap.ticket))) :
    (if mustCancel then .cancelled else (l.ending? (.ticket nap.ticket)).getD .cancelled :
      Ending Unit Unit) =
      if cancelled then .cancelled else .value () := by
  cases cancelled with
  | false =>
    obtain rfl : mustCancel = false := marked
    have hvalue : l.ending? (.ticket nap.ticket) = some (.value ()) := raised
    simp [hvalue]
  | true =>
    rcases marked with rfl | hcancelled
    · rfl
    · simp [hcancelled]

theorem task?_roused (l : Tasks) (t : Nat) (st : TaskState Job) (id u : Nat) :
    (roused l t st id).task? u =
    if u = t then some { st with waiting := none, mustCancel := false } else l.task? u :=
  Loop.task?_setTask l t u _

theorem touches_roused {s : Signal} (n : Nat) (items : List (Ready Nat)) (l : Tasks)
    (rests : Rests) (t : Nat) (st : TaskState Job) (id : Nat) :
    Touches t n id (.follow (.resume t) s :: items) l rests items (roused l t st id)
      (Assoc.erase t rests) where
  nextTask := Nat.le_refl _
  nextTicket := Nat.le_refl _
  nextTimer := Nat.le_refl _
  now := rfl
  task u hu := by rw [task?_roused, if_neg hu]
  ended _ _ := rfl
  ticket _ _ := rfl
  live _ hk := Assoc.get?_erase_of_ne hk _
  timers _ _ := .rfl
  rest u hu := Assoc.get?_erase_of_ne hu _
  turn j u hj hu := mem_cons_of_task rfl fun he => hu (Option.some.inj (hj.symm.trans he))
  timer k _ := mem_cons_of_task (t := t) rfl (Option.some_ne_none t).symm

/-- A task goes on whose sleep is over or was cancelled. -/
theorem Agrees.wake {s : Signal}
    (h : Agrees goesOn gone (.follow (.resume t) s :: items) l rests A) :
    ∃ errand nap cancelled st rest,
      Resumes goesOn gone items l rests A t s errand nap cancelled st rest := by
  obtain ⟨errand, plan, hA, hturn⟩ := (h.suits _ List.mem_cons_self).1 t rfl
  have stands := h.stands t errand plan hA
  obtain ⟨hnot, honce⟩ := not_mem_turns_of_cons rfl h.once
  obtain ⟨mustCancel, cancels, marked, task⟩ := stands.task
  obtain ⟨nap, cancelled, hplan, rfl⟩ := Plan.of_resume hturn
  have hnap : plan.nap? = some nap := by
    rw [hplan]
    cases cancelled <;> rfl
  have raised := stands.raised nap hnap
  obtain ⟨rest, hrest, sequel⟩ := stands.rest nap hnap
  rw [hplan] at marked raised
  refine ⟨errand, nap, cancelled, _, rest, hplan ▸ hA, task, hrest, sequel,
    Plan.ending_of_raised marked raised,
    ?_, ?_, h.replan hA (touches_roused nap.ticket items l rests t _ nap.timer)
      { before := fun nap' hnap' => Option.some.inj (hnap'.symm.trans hnap)
        after := fun _ hnap' => by cases hnap'
        foreign := h.foreign hA hnap
        ticketLt := (stands.known nap hnap).1
        timerLt := (stands.known nap hnap).2
        ordered := h.ordered
        stands := stands_acting (by rw [task?_roused, if_pos rfl]) stands.ended hnot
        once := honce
        turn := fun i hi ht => absurd (mem_turns_of_mem hi ht) hnot
        suits := fun i hi => (h.suits i (List.mem_cons_of_mem _ hi)).2
        raised := id
        live := fun action haction => ?_ }⟩
  · rintro rfl
    exact stands.past nap hplan
  · rintro rfl
    exact stands.kind _ hplan
  · -- The timer of the nap is stopped with it.
    rw [roused, Loop.stopTimer, Assoc.get?_erase_self] at haction
    cases haction

/-! ## Ends of sleeps -/

/-- What is different about a loop in which a sleep is about to end: the signals are as before, and
all that may have changed is the task, its timer, and whether that timer is ready. -/
structure Ends (t id : Nat) (items : List (Ready Nat)) (l : Tasks) (items' : List (Ready Nat))
    (m : Tasks) :
    Prop where
  signals : m.signals = l.signals
  timers : m.timers = l.timers
  nextTask : m.nextTask = l.nextTask
  nextTicket : m.nextTicket = l.nextTicket
  nextTimer : m.nextTimer = l.nextTimer
  now : m.now = l.now
  task : ∀ u, u ≠ t → m.task? u = l.task? u
  live : ∀ k, k ≠ id → Assoc.get? k m.live = Assoc.get? k l.live
  alive : ∀ action, Assoc.get? id m.live = some action → Assoc.get? id l.live = some action
  turn : ∀ i u, taskOf? i = some u → (i ∈ items' ↔ i ∈ items)
  turns : turns items' = turns items
  timer : ∀ k, k ≠ id → (.timer k ∈ items' ↔ .timer k ∈ items)
  mem : ∀ i ∈ items', i ∈ items

/-- What a sleep has led to that ends in some way: the task goes on when the time has come, or it
ends, as the task of a timer does that has been cancelled. -/
def Nap.LeadsTo (nap : Nap) (now : Instant) (errand : Errand) (plan : Plan)
    (e : Ending Unit Unit) : Prop :=
  plan = .woken nap ∧ e = .value () ∧ Reached now nap.due ∨
    plan = .doomed (some nap) ∧ e = .cancelled ∧ ∃ id, errand = .timer id

/-- The turn that a task has coming when its sleep has ended. -/
def Nap.next (nap : Nap) (t : Nat) : Ready Nat :=
  .follow (.resume t) (.ticket nap.ticket)

theorem Nap.LeadsTo.nap_and_turn {e : Ending Unit Unit} {now : Instant}
    (h : nap.LeadsTo now errand plan e) :
    plan.nap? = some nap ∧ plan.turn? t = some (nap.next t) := by
  rcases h with ⟨rfl, -⟩ | ⟨rfl, -⟩ <;> exact ⟨rfl, rfl⟩

theorem mem_append_next {i : Ready Nat} (hi : i ≠ nap.next t) :
    i ∈ items ++ [nap.next t] ↔ i ∈ items :=
  ⟨fun h => (List.mem_append.mp h).resolve_right fun he => hi (List.mem_singleton.mp he),
    List.mem_append_left _⟩

namespace Ends

variable {e : Ending Unit Unit}

/-- The ticket of the sleep is the only signal that is raised, and nobody follows it any more. -/
theorem signalState_raise (k : Ends t nap.timer items l items' m)
    (slept : l.signalState (.ticket nap.ticket) = { followers := [.resume t] }) (s : Signal) :
    (m.raise (.ticket nap.ticket) e).signalState s =
      if s = .ticket nap.ticket then { ending := some e } else l.signalState s := by
  have same (s : Signal) : m.signalState s = l.signalState s := by
    rw [Loop.signalState, Loop.signalState, k.signals]
  rw [Loop.signalState_raise, same, same, slept]
  by_cases hs : s = .ticket nap.ticket
  · rw [if_pos ⟨hs, rfl⟩, if_pos hs]
  · rw [if_neg fun hand => hs hand.1, if_neg hs]

theorem touches (k : Ends t nap.timer items l items' m)
    (slept : l.signalState (.ticket nap.ticket) = { followers := [.resume t] }) (rests : Rests) :
    Touches t nap.ticket nap.timer items l rests (items' ++ [nap.next t])
      (m.raise (.ticket nap.ticket) e)
      rests where
  nextTask := by simp [k.nextTask]
  nextTicket := by rw [Loop.nextTicket_raise, k.nextTicket]
  nextTimer := by simp [k.nextTimer]
  now := by simp [k.now]
  task u hu := (Loop.task?_raise m _ e u).trans (k.task u hu)
  ended u _ := by rw [k.signalState_raise slept, if_neg (ended_ne_ticket _ _)]
  ticket j hj := by rw [k.signalState_raise slept, if_neg fun he => hj (Signal.ticket.inj he)]
  live j hj := by rw [Loop.live_raise, k.live j hj]
  timers _ _ := by rw [Loop.timers_raise, k.timers]
  rest _ _ := rfl
  turn i u hi hu := by
    rw [mem_append_next, k.turn i u hi]
    rintro rfl
    exact hu (Option.some.inj hi).symm
  timer j hj := (mem_append_next fun he => by cases he).trans (k.timer j hj)

/-- The task stands as before but for its plan, and has its turn coming. -/
theorem stands (k : Ends t nap.timer items l items' m)
    (slept : l.signalState (.ticket nap.ticket) = { followers := [.resume t] }) {cancels : Nat}
    (task : m.task? t = some { job := errand.job, waiting := some (.ticket nap.ticket), cancels })
    (leads : nap.LeadsTo l.now errand plan e)
    (h : Stands goesOn items l rests t errand (.asleep nap)) :
    Stands goesOn (items' ++ [nap.next t]) (m.raise (.ticket nap.ticket) e)
      rests t errand plan := by
  obtain ⟨hnap, hturn⟩ := leads.nap_and_turn (t := t)
  have only {nap' : Nap} (hnap' : plan.nap? = some nap') : nap' = nap :=
    Option.some.inj (hnap'.symm.trans hnap)
  have state := k.signalState_raise (e := e) slept
  exact
    { task := ⟨false, cancels, by
        rcases leads with ⟨rfl, -⟩ | ⟨rfl, rfl, -⟩
        · rfl
        · exact .inr (by rw [Loop.ending?, state, if_pos rfl]),
        by rw [Loop.task?_raise, task, hnap]; rfl⟩
      ended := by rw [state, if_neg (ended_ne_ticket _ _)]; exact h.ended
      due := fun i hi => by
        obtain rfl := Option.some.inj (hturn.symm.trans hi)
        exact List.mem_append_right _ (List.mem_singleton_self _)
      idle := fun none => by rw [hturn] at none; cases none
      known := fun nap' hnap' => by
        obtain rfl := only hnap'
        simpa [Loop.nextTicket_raise, k.nextTicket, k.nextTimer] using h.known nap' rfl
      rest := fun nap' hnap' => by
        obtain rfl := only hnap'
        exact h.rest nap' rfl
      raised := fun nap' hnap' => by
        obtain rfl := only hnap'
        rw [state, if_pos rfl]
        rcases leads with ⟨rfl, rfl, -⟩ | ⟨rfl, rfl, -⟩
        · rfl
        · exact Option.some_ne_none _
      rings := fun nap' hplan => by rcases leads with ⟨rfl, -⟩ | ⟨rfl, -⟩ <;> cases hplan
      past := fun nap' hplan => by
        rcases leads with ⟨rfl, -, reached⟩ | ⟨rfl, -⟩
        · obtain rfl := Plan.woken.inj hplan
          rw [Loop.now_raise, k.now]
          exact reached
        · cases hplan
      kind := fun nap' hplan => by
        rcases leads with ⟨rfl, -⟩ | ⟨-, -, kind⟩
        · cases hplan
        · exact kind }

end Ends

/-- A sleep ends: the task goes on, or it ends as it has been cancelled.  The ticket is raised, and
as the task alone follows it, its turn is all that becomes ready. -/
theorem Agrees.endSleep (h : Agrees goesOn gone items l rests A)
    (hA : A t = some (errand, .asleep nap))
    (k : Ends t nap.timer items l items' m) (plan' : Plan) (e : Ending Unit Unit) {cancels : Nat}
    (task : m.task? t =
      some { job := errand.job, waiting := some (.ticket nap.ticket),
             mustCancel := false, cancels })
    (leads : nap.LeadsTo l.now errand plan' e) :
    Agrees goesOn gone (items' ++ [nap.next t]) (m.raise (.ticket nap.ticket) e) rests
        (update A t (some (errand, plan'))) ∧
      (m.raise (.ticket nap.ticket) e).ready = m.ready ++ [nap.next t] := by
  have stands := h.stands t errand _ hA
  have slept : l.signalState (.ticket nap.ticket) = { followers := [.resume t] } :=
    stands.raised nap rfl
  have idle := stands.idle rfl
  obtain ⟨hnap, hturn⟩ := leads.nap_and_turn (t := t)
  have ended : (m.raise (.ticket nap.ticket) e).ending? (.ticket nap.ticket) ≠ none := by
    rw [Loop.ending?, k.signalState_raise slept, if_pos rfl]
    exact Option.some_ne_none _
  refine ⟨h.replan hA (k.touches slept rests)
    { before := fun _ hnap' => (Option.some.inj hnap').symm
      after := fun _ hnap' => Option.some.inj (hnap'.symm.trans hnap)
      foreign := h.foreign hA rfl
      ticketLt := by rw [Loop.nextTicket_raise, k.nextTicket]; exact (stands.known nap rfl).1
      timerLt := by rw [Loop.nextTimer_raise, k.nextTimer]; exact (stands.known nap rfl).2
      ordered := by rw [Loop.timers_raise, k.timers]; exact h.ordered
      stands := k.stands slept task leads stands
      once := nodup_turns_concat rfl (k.turns ▸ h.once) (k.turns ▸ idle)
      turn := fun i hi ht => ?_
      suits := fun i hi hn => ?_
      raised := fun _ => ended
      live := fun action haction => ?_ }, ?_⟩
  · rcases List.mem_append.mp hi with hi | hi
    · exact absurd (k.turns ▸ mem_turns_of_mem hi ht) idle
    · rw [List.mem_singleton.mp hi]
      exact hturn
  · rcases List.mem_append.mp hi with hi | hi
    · simpa [k.nextTimer] using (h.suits i (k.mem i hi)).2 hn
    · rw [List.mem_singleton.mp hi] at hn
      cases hn
  · -- If the timer is alive still, it is for a ticket that has been raised by now.
    rw [Loop.live_raise] at haction
    have own := (stands.rings nap rfl).live
    rw [k.alive action haction] at own
    rw [Loop.nextTicket_raise, k.nextTicket]
    exact ⟨nap.ticket, Option.some.inj own, (stands.known nap rfl).1, .inr ended⟩
  · have open' : m.signalState (.ticket nap.ticket) = { followers := [.resume t] } := by
      rw [Loop.signalState, k.signals]
      exact slept
    rw [Loop.ready_raise_of_open (by rw [open']), open']
    rfl

/-- A timer that ends no sleep is of no account.  Such a timer is left where a sleep was cancelled
and had been taken from the heap in the same round. -/
theorem Agrees.dropTimer (h : Agrees goesOn gone (.timer id :: items) l rests A)
    (idle : ∀ t errand nap, A t = some (errand, .asleep nap) → nap.timer ≠ id) :
    Agrees goesOn gone items (l.stopTimer id) rests A := by
  have htimer {i : Ready Nat} (hi : i ≠ .timer id) : i ∈ items ↔ i ∈ Ready.timer id :: items :=
    ⟨List.mem_cons_of_mem _, fun hmem => (List.mem_cons.mp hmem).resolve_left hi⟩
  refine { h with
    stands := fun t errand plan hA => ?_
    suits := fun i hi => h.suits i (List.mem_cons_of_mem _ hi)
    live := fun k action hlive => h.live k action (Assoc.of_get?_erase hlive).2 }
  have stands := h.stands t errand plan hA
  refine
    { task := stands.task, ended := stands.ended, known := stands.known, rest := stands.rest
      raised := stands.raised, past := stands.past, kind := stands.kind
      due := fun i hi => (htimer ?_).mpr (stands.due i hi)
      idle := stands.idle
      rings := fun nap hplan => ?_ }
  · rintro rfl
    have htask := Plan.taskOf?_turn hi
    cases htask
  · have hne := idle t errand nap (hplan ▸ hA)
    have rings := stands.rings nap hplan
    have hring : (.timer nap.timer : Ready Nat) ≠ .timer id := fun he => hne (Ready.timer.inj he)
    exact
      { live := (Assoc.get?_erase_of_ne hne _).trans rings.live
        kept := rings.kept.imp_left (htimer hring).mpr
        only := rings.only
        due := fun hi => rings.due ((htimer hring).mp hi) }

/-- A hook is of no account to tasks. -/
theorem Agrees.dropHook {r : Nat} {s : Signal}
    (h : Agrees goesOn gone (.follow (.hook r) s :: items) l rests A) :
    Agrees goesOn gone items l rests A := by
  have hook {i : Ready Nat} (hi : i ≠ .follow (.hook r) s) :
      i ∈ items ↔ i ∈ Ready.follow (.hook r) s :: items :=
    ⟨List.mem_cons_of_mem _, fun hmem => (List.mem_cons.mp hmem).resolve_left hi⟩
  refine { h with
    stands := fun t errand plan hA => ?_
    suits := fun i hi => h.suits i (List.mem_cons_of_mem _ hi) }
  have stands := h.stands t errand plan hA
  refine { stands with
    due := fun i hi => (hook ?_).mpr (stands.due i hi)
    rings := fun nap hplan => ?_ }
  · rintro rfl
    have htask := Plan.taskOf?_turn hi
    cases htask
  · have rings := stands.rings nap hplan
    have timer := hook (i := .timer nap.timer) nofun
    exact
      { rings with
        kept := rings.kept.imp_left timer.mpr
        due := fun hi => rings.due (timer.mp hi) }

/-- A timer that is ready ends a sleep, unless the sleep has been ended otherwise.  In the second
case it is not alive any more, or the ticket that it would raise has been raised. -/
theorem Agrees.fire (h : Agrees goesOn gone (.timer id :: items) l rests A) :
    ∃ A' new, Agrees goesOn gone (items ++ new) (Machine.fireTimer l () id) rests A' ∧
      (Machine.fireTimer l () id).ready = l.ready ++ new ∧
      ((A' = A ∧ new = []) ∨ ∃ t errand nap, A t = some (errand, .asleep nap) ∧
        A' = update A t (some (errand, .woken nap)) ∧
        new = [.follow (.resume t) (.ticket nap.ticket)]) := by
  rw [Machine.fireTimer]
  cases hlive : Assoc.get? id l.live with
  | none =>
    -- The timer has been stopped, so it is the timer of no sleep.
    have agrees := h.dropTimer fun t errand nap hA hid => by
      have hown := ((h.stands t errand _ hA).rings nap rfl).live
      rw [hid, hlive] at hown
      cases hown
    have hsame : l.stopTimer id = l := by rw [Loop.stopTimer, Assoc.erase_of_get?_eq_none hlive]
    rw [hsame] at agrees
    exact ⟨A, [], by rwa [List.append_nil], (List.append_nil _).symm, .inl ⟨rfl, rfl⟩⟩
  | some action =>
    obtain ⟨hid, n, rfl, hn, ⟨t, errand, nap, hA, rfl, rfl⟩ | hraised⟩ := h.live id action hlive
    · -- The timer is alive and raises the ticket of a sleep that goes on, which is ended by it.
      have stands := h.stands t errand _ hA
      obtain ⟨mustCancel, cancels, rfl, task⟩ := stands.task
      have rings := stands.rings nap rfl
      have ends : Ends t nap.timer (.timer nap.timer :: items) l items (l.stopTimer nap.timer) :=
        { signals := rfl, timers := rfl, nextTask := rfl, nextTicket := rfl,
          nextTimer := rfl, now := rfl
          task := fun _ _ => rfl
          live := fun k hk => Assoc.get?_erase_of_ne hk _
          alive := fun action haction => by
            rw [Loop.stopTimer, Assoc.get?_erase_self] at haction
            cases haction
          turn := fun i u hi =>
            ⟨List.mem_cons_of_mem _, fun hmem => (List.mem_cons.mp hmem).resolve_left (by
            rintro rfl
            cases hi)⟩
          turns := rfl
          timer := fun k hk =>
            ⟨List.mem_cons_of_mem _, fun hmem => (List.mem_cons.mp hmem).resolve_left
            fun he => hk (Ready.timer.inj he)⟩
          mem := fun _ hi => List.mem_cons_of_mem _ hi }
      obtain ⟨agrees, ready⟩ := h.endSleep hA ends (.woken nap) (.value ()) task
        (.inl ⟨rfl, rfl, rings.due List.mem_cons_self⟩)
      exact ⟨_, _, agrees, ready, .inr ⟨t, errand, nap, hA, rfl, rfl⟩⟩
    · have agrees := h.dropTimer fun t errand nap hA hid => by
        have stands := h.stands t errand _ hA
        have hown := (stands.rings nap rfl).live
        rw [hid, hlive] at hown
        obtain rfl := Signal.ticket.inj (TimerAction.raise.inj (Option.some.inj hown))
        exact hraised (by rw [Loop.ending?, show l.signalState _ = _ from stands.raised nap rfl])
      obtain ⟨e, he⟩ := Option.ne_none_iff_exists'.mp hraised
      have hsame : (l.stopTimer id).raise (.ticket n) (.value ()) = l.stopTimer id :=
        Loop.raise_of_ended (show ((l.stopTimer id).signalState _).ending = some e from he) _
      refine ⟨A, [], ?_, ?_, .inl ⟨rfl, rfl⟩⟩
      · rw [List.append_nil]
        dsimp only
        rw [hsame]
        exact agrees
      · dsimp only
        rw [hsame, List.append_nil]
        rfl

/-! ## Cancellation -/

/-- A task is as good as ended once it is marked while it is about to go on.  Its turn is ready
already, and will find the mark. -/
theorem Agrees.mark (h : Agrees goesOn gone items l rests A) (hA : A t = some (errand, .woken nap))
    (kind : ∃ id, errand = .timer id) {cancels : Nat} :
    Agrees goesOn gone items (l.setTask t { job := errand.job, waiting := some (.ticket nap.ticket)
                                            mustCancel := true, cancels }) rests
      (update A t (some (errand, .doomed (some nap)))) := by
  have stands := h.stands t errand _ hA
  let st : TaskState Job :=
    { job := errand.job, waiting := some (.ticket nap.ticket), mustCancel := true, cancels }
  have htask (u : Nat) : (l.setTask t st).task? u = if u = t then some st else l.task? u :=
    Loop.task?_setTask l t u st
  have touches : Touches t nap.ticket nap.timer items l rests items (l.setTask t st) rests :=
    { nextTask := Nat.le_refl _, nextTicket := Nat.le_refl _, nextTimer := Nat.le_refl _, now := rfl
      task := fun u hu => by rw [htask, if_neg hu]
      ended := fun _ _ => rfl, ticket := fun _ _ => rfl, live := fun _ _ => rfl,
      timers := fun _ _ => .rfl
      rest := fun _ _ => rfl, turn := fun _ _ _ _ => .rfl, timer := fun _ _ => .rfl }
  have hvalue : l.ending? (.ticket nap.ticket) = some (.value ()) := stands.raised nap rfl
  -- The sleep is over, so the timer of it is not alive on its account any more.
  have ended : l.ending? (.ticket nap.ticket) ≠ none := by
    rw [hvalue]
    exact Option.some_ne_none _
  refine h.replan hA touches
    { before := fun _ hnap => (Option.some.inj hnap).symm
      after := fun _ hnap => (Option.some.inj hnap).symm
      foreign := h.foreign hA rfl
      ticketLt := (stands.known nap rfl).1
      timerLt := (stands.known nap rfl).2
      ordered := h.ordered
      stands :=
        { task := ⟨true, cancels, .inl rfl, by rw [htask, if_pos rfl]; rfl⟩
          ended := stands.ended
          due := stands.due, idle := nofun, known := stands.known, rest := stands.rest
          raised := fun nap' hnap' => by
            obtain rfl := Option.some.inj hnap'
            exact ended
          rings := nofun, past := nofun, kind := fun _ _ => kind }
      once := h.once
      turn := fun i hi ht => ?_
      suits := fun i hi => (h.suits i hi).2
      raised := id
      live := fun action haction => ?_ }
  · obtain ⟨errand', plan', hA', hturn⟩ := (h.suits i hi).1 t ht
    obtain ⟨-, rfl⟩ := Prod.mk.inj (Option.some.inj (hA.symm.trans hA'))
    exact hturn
  · obtain ⟨-, n, hn, hlt, hwhy⟩ := h.live _ action haction
    refine ⟨n, hn, hlt, .inr ?_⟩
    rcases hwhy with ⟨u, errand', nap', hu, rfl, htimer⟩ | hraised
    · have hut := h.apart u _ _ _ t _ _ _ hu rfl hA rfl (.inr htimer)
      rw [hut, hA] at hu
      cases hu
    · exact hraised

/-- What becomes of a task that is cancelled before it begins.  It is going to end without having
begun. -/
theorem Agrees.forestall (h : Agrees goesOn gone items l rests A) (hA : A t = some (errand, .fresh))
    (kind : ∃ id, errand = .timer id) {cancels : Nat} :
    Agrees goesOn gone items (l.setTask t { job := errand.job, mustCancel := true, cancels }) rests
      (update A t (some (errand, .doomed none))) := by
  have stands := h.stands t errand _ hA
  have htask (u : Nat) := Loop.task?_setTask l t u
    { job := errand.job, mustCancel := true, cancels }
  refine h.turn (fun errand' plan' hA' => ?_)
    { nextTask := Nat.le_refl _, nextTicket := rfl, nextTimer := rfl, timers := rfl,
      live := rfl, now := rfl
      tickets := fun _ => rfl
      task := fun u hu => by rw [htask, if_neg hu]
      ended := fun _ _ => rfl, rest := fun _ _ => rfl
      turn := fun _ _ _ _ => .rfl, timer := fun _ => .rfl
      taskLt := h.lt hA
      absent := nofun
      stands := fun errand' plan' hx => ?_
      once := h.once
      own := fun i hi ht => ⟨errand, _, rfl, ?_⟩
      hook := fun f s hi _ => .inl hi }
  · rw [hA] at hA'
    obtain ⟨-, rfl⟩ := Prod.mk.inj (Option.some.inj hA')
    rfl
  · obtain ⟨rfl, rfl⟩ := Prod.mk.inj (Option.some.inj hx)
    exact ⟨rfl,
      { task := ⟨true, cancels, rfl, by rw [htask, if_pos rfl]; rfl⟩
        ended := stands.ended, due := stands.due, idle := nofun, known := nofun, rest := nofun
        raised := nofun, rings := nofun, past := nofun, kind := fun _ _ => kind }⟩
  · obtain ⟨errand', plan', hA', hturn⟩ := (h.suits i hi).1 t ht
    rw [hA] at hA'
    obtain ⟨-, rfl⟩ := Prod.mk.inj (Option.some.inj hA')
    exact hturn

/-- The task of a timer that is cancelled before its sleep has led to anything is to end.  If it
sleeps, the sleep ends now and its turn becomes ready; otherwise its turn was ready before. -/
theorem Agrees.cancel (h : Agrees goesOn gone items l rests A) (hA : A t = some (.timer id, plan))
    (hplan : plan = .fresh ∨ ∃ nap, plan = .asleep nap ∨ plan = .woken nap) :
    ∃ new, Agrees goesOn gone (items ++ new) (l.cancel t).1 rests
        (update A t (some (.timer id, .doomed plan.nap?))) ∧
      (l.cancel t).1.ready = l.ready ++ new ∧
      (new = [] ∨ ∃ s, new = [.follow (.resume t) s]) := by
  have stands := h.stands t _ plan hA
  obtain ⟨mustCancel, cancels, marked, task⟩ := stands.task
  rw [Loop.cancel, Loop.cancelTask, task]
  -- The loop may have set the task before it sets it again.
  have twice (a b : TaskState Job) : (l.setTask t a).setTask t b = l.setTask t b := by
    rw [Loop.setTask, Loop.setTask, Loop.setTask, Assoc.set_set]
  rcases hplan with rfl | ⟨nap, rfl | rfl⟩
  · refine ⟨[], ?_, (List.append_nil _).symm, .inl rfl⟩
    rw [List.append_nil]
    dsimp only [Plan.nap?, Option.map_none]
    rw [twice]
    exact h.forestall hA ⟨id, rfl⟩
  · obtain rfl : mustCancel = false := marked
    have hopen : l.ending? (.ticket nap.ticket) = none := by
      rw [Loop.ending?, show l.signalState _ = _ from stands.raised nap rfl]
    let st : TaskState Job :=
      { job := .timer id, waiting := some (.ticket nap.ticket), mustCancel := false,
        cancels := cancels + 1 }
    have ends : Ends t nap.timer items l items (l.setTask t st) :=
      { signals := rfl, timers := rfl, nextTask := rfl, nextTicket := rfl,
        nextTimer := rfl, now := rfl
        task := fun u hu => by rw [Loop.task?_setTask, if_neg hu]
        live := fun _ _ => rfl, alive := fun _ h => h, turn := fun _ _ _ => .rfl, turns := rfl
        timer := fun _ _ => .rfl, mem := fun _ hi => hi }
    have task' : (l.setTask t st).task? t = some st := by rw [Loop.task?_setTask, if_pos rfl]
    obtain ⟨agrees, ready⟩ := h.endSleep hA ends (.doomed (some nap)) .cancelled task'
      (.inr ⟨rfl, rfl, id, rfl⟩)
    refine ⟨[.follow (.resume t) (.ticket nap.ticket)], ?_, ?_, .inr ⟨_, rfl⟩⟩
    · dsimp only [Plan.nap?, Option.map_some]
      rw [show (l.setTask t _).ending? (.ticket nap.ticket) = _ from hopen]
      exact agrees
    · dsimp only [Plan.nap?, Option.map_some]
      rw [show (l.setTask t _).ending? (.ticket nap.ticket) = _ from hopen]
      exact ready
  · have hvalue : l.ending? (.ticket nap.ticket) = some (.value ()) := stands.raised nap rfl
    refine ⟨[], ?_, ?_, .inl rfl⟩
    · rw [List.append_nil]
      dsimp only [Plan.nap?, Option.map_some]
      rw [show (l.setTask t _).ending? (.ticket nap.ticket) = _ from hvalue, twice]
      exact h.mark hA ⟨id, rfl⟩
    · dsimp only [Plan.nap?, Option.map_some]
      rw [show (l.setTask t _).ending? (.ticket nap.ticket) = _ from hvalue, List.append_nil]
      rfl

/-! ## Rounds -/

/-- Whose turn it is and what is ready besides is of no account. -/
theorem Agrees.aside (h : Agrees goesOn gone items l rests A) (ready : List (Ready Nat))
    (current : Nat) :
    Agrees goesOn gone items { l with ready, current } rests A :=
  { h with
    stands := fun u errand plan hA =>
      { h.stands u errand plan hA with
        rings := fun nap hplan => { (h.stands u errand plan hA).rings nap hplan with } } }

/-- The clock goes on. -/
theorem Agrees.clock (h : Agrees goesOn gone items l rests A) {now : Instant} (le : l.now ≤ now) :
    Agrees goesOn gone items { l with now } rests A :=
  { h with
    stands := fun u errand plan hA =>
      { h.stands u errand plan hA with
        rings := fun nap hplan =>
          { (h.stands u errand plan hA).rings nap hplan with
            due := fun hi => (((h.stands u errand plan hA).rings nap hplan).due hi).mono le }
        past := fun nap hplan => ((h.stands u errand plan hA).past nap hplan).mono le } }

/-- What is ready when a round begins, with what has been left of the timers.  Those that are taken
are due, those that are alive are taken or left, and something is taken if any timer was due. -/
structure Gathers (l m : Tasks) (taken : List Timer) : Prop where
  eq : m = { l with timers := m.timers, ready := l.ready ++ taken.map fun x => .timer x.id }
  ordered : m.timers.Ordered
  kept : ∀ x ∈ l.timers.elements, Assoc.has x.id l.live = true → x ∈ taken ∨ x ∈ m.timers.elements
  fewer : (taken : Multiset Timer) + m.timers.elements ≤ l.timers.elements
  due : ∀ x ∈ taken, x.isDue l.now = true
  some : l.nextDue?.any (· ≤ l.now) = true → taken ≠ []

theorem gathers_due (ordered : l.timers.Ordered) : ∃ taken, Gathers l (Moment.due l) taken := by
  obtain ⟨heap, dropped, eq, ordered', elements, dead⟩ :=
    Loop.dropCancelled_spec ordered l.timers.size
  obtain ⟨taken, takes⟩ : ∃ taken,
      Loop.Takes { l with timers := heap } (Loop.takeDue heap.size { l with timers := heap })
        taken :=
    Loop.takes_takeDue ordered' (Nat.le_refl _)
  have hdue : Moment.due l = Loop.takeDue heap.size { l with timers := heap } := by
    rw [Moment.due, eq]
  rw [← hdue] at takes
  refine ⟨taken, takes.eq, takes.ordered, fun x hx live => ?_, ?_, takes.due, fun next => ?_⟩
  · rw [← elements] at hx
    rcases Multiset.mem_add.mp hx with gone | left
    · rw [dead x gone] at live
      cases live
    · rw [← takes.elements] at left
      exact Multiset.mem_add.mp left
  · rw [takes.elements, ← elements]
    exact Multiset.le_add_left _ _
  · rintro rfl
    have same : (Moment.due l).timers.elements = heap.elements := by
      rw [← takes.elements, Multiset.coe_nil, Multiset.zero_add]
    rw [Loop.nextDue?, eq] at next
    obtain ⟨d, first, reached⟩ := (Option.any_eq_true _ _).mp next
    obtain ⟨x, top, hd⟩ := Option.bind_eq_some_iff.mp first
    have hx : x ∈ (Moment.due l).timers.elements := by
      rw [same, ← (ordered'.pop top).2]
      exact Multiset.mem_cons_self ..
    -- The first of the timers was due, but none that is left is.
    have late : x.isDue l.now = false := takes.late x hx
    rw [reached_iff_isDue.mp ⟨d, hd, of_decide_eq_true reached⟩] at late
    cases late

theorem mem_gathered {taken : List Timer} {i : Ready Nat} :
    i ∈ items ++ taken.map (fun x => .timer x.id) ↔ i ∈ items ∨ ∃ x ∈ taken, i = .timer x.id := by
  simp [eq_comm]

theorem turns_gathered (items : List (Ready Nat)) (taken : List Timer) :
    turns (items ++ taken.map fun x => .timer x.id) = turns items := by
  have none : turns (taken.map fun x => .timer x.id) = [] := by
    rw [turns, List.filterMap_map]
    exact List.filterMap_eq_nil_iff.mpr fun _ _ => rfl
  rw [turns_append, none, List.append_nil]

/-- The timers that are due become ready. -/
theorem Agrees.gather {taken : List Timer} (h : Agrees goesOn gone items l rests A)
    (gathers : Gathers l m taken) :
    Agrees goesOn gone (items ++ taken.map fun x => .timer x.id) m rests A := by
  have eq := gathers.eq
  have state (s : Signal) : m.signalState s = l.signalState s := by rw [eq]; rfl
  have task (u : Nat) : m.task? u = l.task? u := by rw [eq]; rfl
  have now : m.now = l.now := by rw [eq]
  have live : m.live = l.live := by rw [eq]
  have nextTask : m.nextTask = l.nextTask := by rw [eq]
  have nextTicket : m.nextTicket = l.nextTicket := by rw [eq]
  have nextTimer : m.nextTimer = l.nextTimer := by rw [eq]
  have old {x : Timer} (hx : x ∈ taken ∨ x ∈ m.timers.elements) : x ∈ l.timers.elements :=
    Multiset.mem_of_le gathers.fewer (Multiset.mem_add.mpr hx)
  -- Only timers become ready, so it is nobody's turn by it.
  have mem {i : Ready Nat} (hi : taskOf? i ≠ none) :
      i ∈ items ++ taken.map (fun x => .timer x.id) ↔ i ∈ items := by
    rw [mem_gathered, or_iff_left]
    rintro ⟨x, -, rfl⟩
    exact hi rfl
  refine
    { taskLt := by rw [nextTask]; exact h.taskLt
      endedLt := fun u hu => by rw [state]; exact h.endedLt u (nextTask ▸ hu)
      ticketLt := fun k hk => by rw [state]; exact h.ticketLt k (nextTicket ▸ hk)
      timerLt := fun x hx => by rw [nextTimer]; exact h.timerLt x (old (.inr hx))
      ordered := gathers.ordered
      absent := fun u hu => by rw [task]; exact h.absent u hu
      stands := fun u errand plan hA => ?_
      apart := h.apart
      once := by rw [turns_gathered]; exact h.once
      suits := fun i hi => ?_
      live := fun k action hk => ?_ }
  · have stands := h.stands u errand plan hA
    obtain ⟨mustCancel, cancels, marked, found⟩ := stands.task
    refine
      { task := ⟨mustCancel, cancels, ?_, by rw [task]; exact found⟩
        ended := by rw [state]; exact stands.ended
        due := fun i hi =>
          (mem (by rw [Plan.taskOf?_turn hi]; exact Option.some_ne_none _)).mpr (stands.due i hi)
        idle := fun hi => by rw [turns_gathered]; exact stands.idle hi
        known := by rw [nextTicket, nextTimer]; exact stands.known
        rest := stands.rest
        raised := fun nap hnap => by rw [state]; exact stands.raised nap hnap
        rings := fun nap hplan => ?_
        past := by rw [now]; exact stands.past
        kind := stands.kind }
    · cases plan with
      | doomed nap =>
        cases nap with
        | none => exact marked
        | some nap => exact marked.imp_right fun he => by rw [Loop.ending?, state]; exact he
      | fresh | acting | asleep | woken => exact marked
    · have rings := stands.rings nap hplan
      refine
        { live := by rw [live]; exact rings.live
          kept := ?_
          only := fun x hx => rings.only x (old (.inr hx))
          due := fun hi => ?_ }
      · -- The timer of a sleep is taken out of the heap or stays in it; it is not lost.
        rcases rings.kept with hi | hx
        · exact .inl (List.mem_append_left _ hi)
        · rcases gathers.kept _ hx (by rw [Assoc.has, rings.live]; rfl) with htaken | hleft
          · exact .inl (mem_gathered.mpr (.inr ⟨_, htaken, rfl⟩))
          · exact .inr hleft
      · rw [now]
        rcases mem_gathered.mp hi with hi | ⟨x, hx, hid⟩
        · exact rings.due hi
        · rw [← rings.only x (old (.inl hx)) (Ready.timer.inj hid).symm]
          exact reached_iff_isDue.mpr (gathers.due x hx)
  · rcases mem_gathered.mp hi with hi | ⟨x, hx, rfl⟩
    · obtain ⟨hturn, hother⟩ := h.suits i hi
      exact ⟨hturn, by rw [nextTimer]; exact hother⟩
    · refine ⟨fun _ he => absurd he (Option.some_ne_none _).symm, fun _ => .inl ⟨x.id, rfl, ?_⟩⟩
      rw [nextTimer]
      exact h.timerLt x (old (.inl hx))
  · rw [live] at hk
    obtain ⟨hid, n, hn, hlt, hwhy⟩ := h.live k action hk
    rw [nextTimer, nextTicket]
    refine ⟨hid, n, hn, hlt, hwhy.imp_right fun hraised => ?_⟩
    rw [Loop.ending?, state]
    exact hraised

/-- While nothing is ready, the clock may be set to when the next timer is due, and no later than
any sleep ends.  So no sleep is overslept when time passes to the next due timer. -/
theorem Agrees.nextDue (h : Agrees goesOn gone [] l rests A) (hA : A t = some (errand, .asleep nap))
    {d : Instant} (due : nap.due = some d) : ∃ next, l.nextDue? = some next ∧ next ≤ d := by
  have rings := (h.stands t errand _ hA).rings nap rfl
  have hx := rings.kept.resolve_left List.not_mem_nil
  exact Loop.nextDue?_le h.ordered hx (by rw [Assoc.has, rings.live]; rfl) due

end PikeAnalysis.Simulation.Scheduling
