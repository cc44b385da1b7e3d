import PikeAnalysis.Proofs.Bridge.Attended

/-!
# What a step leaves of a thread

Whatever is decided in a step of the bridge, the threads are left alone until the last decision: the
thread whose step it is then ends, or waits.  A thread that is for a request has the request from
when it numbers it until it ends, whatever it waits for meanwhile, and when it ends the request is
closed (`Leaves`).  So a request that is open always has a thread, be it that this waits for its
turn to write, for the pipe or for the answer.

The stages of a thread are in an order, and a thread that goes on leaves its stage for a later one
or ends; that is why it waits only so often (`Stage.rank`).

`Within` says what a step has made of the state before its last decision.  Its lemmas follow the
definitions of the machine from the inside out; those about operations that end with the thread's
decision conclude with `Leaves`.

The module knows nothing of histories: its statements are about one step from any state in which
numbers and tickets that are in use have been given out (`State.Numbered`).  The engine uses them to
tie threads to tasks, as a task that drives a thread has to know what it will be waiting for next
and whether it can be the end.
-/

namespace PikeAnalysis.Bridge

/-! ## Waits and stages -/

/-- How many waits a thread can still have that is at a stage, this one included.  It bounds the
loop with which a task drives its thread. -/
def Stage.rank : Stage → Nat
  | .queued _ => 6
  | .reaping => 5
  | .launching .. => 4
  | .lined .. | .terminating _ => 3
  | .writing .. | .killing _ => 2
  | .answering _ | .draining => 1

/-- What a thread waits for at a stage.  A stage and what is waited for at it say the same thing
twice, once in the state and once to the outside; this is the table that ties the two. -/
def Wait.Fits (on : Wait) : Stage → Prop
  | .queued n | .lined _ _ n => on = .turn n
  | .reaping | .draining => ∃ w, on = .readers w
  | .launching .. => on = .launch
  | .writing _ w => on = .pipe w
  | .answering id => on = .answer id
  | .terminating w => on = .exit w true
  | .killing w => on = .exit w false

/-- Whether a thread at a stage has told a worker to end.  Only a stop comes to these stages, and it
keeps the start lock through all three. -/
def Stage.stops : Stage → Bool
  | .terminating _ | .killing _ | .draining => true
  | .queued _ | .reaping | .launching .. | .lined .. | .writing .. | .answering _ => false

/-- Whether a thread is for a request. -/
def Job.IsRequest : Job → Prop
  | .request .. => True
  | .start | .stop => False

/-- Only a thread that is for a request has one, and such a thread stops no worker.  The stages of a
thread do not say this of themselves: a stage that carries the number of a request is a constructor
like any other, and it is by the steps alone that only a call comes to it. -/
structure Thread.Proper (thread : Thread) : Prop where
  asks : ∀ id, thread.stage.request? = some id → thread.job.IsRequest
  starts : thread.job.IsRequest → thread.stage.stops = false

/-- The numbers of requests and the tickets that are in use have been given out.  So a number or a
ticket that is given out next is in nobody's hands yet, which is what the theorems about new
requests and new waiters start from. -/
structure State.Numbered (s : State) : Prop where
  pending : ∀ id, Assoc.get? id s.pending ≠ none → id ≤ s.nextId
  queues : ∀ g, ∀ n ∈ (s.lock g).queue, n < s.nextTicket

/-! ## Within a step -/

/-- What a step has made of a state so far, before its last decision; `mine` is the number and the
method of the request that has been numbered in it.  Threads are as they were, and requests are
either as they were, answered, or new. -/
structure Within (first : State) (mine : Option (Nat × String)) (out : List Effect) (s : State) :
    Prop where
  outset : first.Numbered
  threads : s.threads = first.threads
  inflight : s.inflight = first.inflight
  nextId : first.nextId ≤ s.nextId
  nextTicket : first.nextTicket ≤ s.nextTicket
  queues : ∀ g, ∀ n ∈ (s.lock g).queue, n < s.nextTicket
  numbered : ∀ id method, mine = some (id, method) → first.nextId < id ∧ id ≤ s.nextId
  pending : ∀ id entry, Assoc.get? id s.pending = some entry →
    Assoc.get? id first.pending = some entry ∨ mine = some (id, entry.method)
  settled : ∀ id answer, .settle id answer ∈ out →
    Assoc.get? id first.pending ≠ none ∧ Assoc.get? id s.pending = none
  granted : ∀ n, .grant n ∈ out → n < s.nextTicket
  running : ∀ u, (∀ on, .waits u on ∉ out) ∧ ∀ outcome, .ends u outcome ∉ out

/-- The request that a thread has: the one that it has numbered in the step, or the one that it
had. -/
def held (first : State) (t : Nat) (mine : Option (Nat × String)) : Option Nat :=
  (mine.map (·.1)).or ((Assoc.get? t first.threads).bind (·.stage.request?))

/-- A thread has a request in a step: the one that it had before, or else the one that it has
numbered. -/
structure Has (first : State) (t : Nat) (mine : Option (Nat × String)) (id : Nat) : Prop where
  held : held first t mine = some id
  free : mine ≠ none → Bridge.held first t none = none

/-- What a step leaves in which a thread with a job decides last, given how many waits it can have
and whether it may end as cancelled.  The two cases are that the thread ends and that it waits; in
the second its stage is a later one. -/
inductive Leaves (first : State) (t : Nat) (job : Job) (limit : Nat) (may : Prop) :
    State.Step → Prop
  | ends {mine : Option (Nat × String)} {out : List Effect} {s : State}
    (within : Within first mine out s)
      (free : mine ≠ none → held first t none = none) (outcome : Outcome)
      (closed : ∀ id, held first t mine = some id → Assoc.get? id s.pending = none)
      (asked : ∀ id, outcome = .answered id → held first t mine = some id ∧ mine = none)
      (cancelled : outcome = .cancelled → may) :
    Leaves first t job limit may
      ({ s with threads := Assoc.erase t s.threads }, out ++ [.ends t outcome])
  | waits {mine : Option (Nat × String)} {out : List Effect} {s : State}
    (within : Within first mine out s)
      (free : mine ≠ none → held first t none = none) (thread : Thread) (on : Wait)
      (same : thread.job = job ∨ ¬ job.IsRequest ∧ ¬ thread.job.IsRequest) (proper : thread.Proper)
      (fits : on.Fits thread.stage)
      (turn : ∀ n, on = .turn n → first.nextTicket ≤ n ∧ n < s.nextTicket ∧ .grant n ∉ out)
      (request : thread.stage.request? = held first t mine)
      (named : ∀ id method, mine = some (id, method) →
        ∃ params, thread.job = .request method params)
      (rank : thread.stage.rank ≤ limit) :
    Leaves first t job limit may
      ({ s with threads := Assoc.set t thread s.threads }, out ++ [.waits t on])

variable {first s s' : State} {mine : Option (Nat × String)} {t id w limit : Nat} {may : Prop}
  {job : Job} {g : Gate}
  {out more : List Effect} {p : State.Step} {method : String} {params : List (String × Json)}

theorem Within.refl (h : s.Numbered) : Within s none [] s where
  outset := h
  threads := rfl
  inflight := rfl
  nextId := Nat.le_refl _
  nextTicket := Nat.le_refl _
  queues := h.queues
  numbered := nofun
  pending _ _ h := .inl h
  settled _ _ h := absurd h List.not_mem_nil
  granted _ h := absurd h List.not_mem_nil
  running _ := ⟨fun _ => List.not_mem_nil, fun _ => List.not_mem_nil⟩

/-- The numbers in use after a step have been given out, too. -/
theorem Within.after (h : Within first mine out s) : s.Numbered where
  pending id hid := by
    obtain ⟨entry, hentry⟩ := Option.ne_none_iff_exists'.mp hid
    rcases h.pending id entry hentry with old | new
    · exact Nat.le_trans (h.outset.pending id (by simp [old])) h.nextId
    · exact (h.numbered id _ new).2
  queues := h.queues

/-- Two states with the same threads and requests, and the same tickets in the queues.  What else is
in the state, such as the worker in use and what is known of its lines, may differ: whatever is said
of requests and of the order of waiters carries over. -/
structure Level (s s' : State) : Prop where
  threads : s'.threads = s.threads
  inflight : s'.inflight = s.inflight
  nextId : s'.nextId = s.nextId
  nextTicket : s'.nextTicket = s.nextTicket
  pending : s'.pending = s.pending
  queues : ∀ g, (s'.lock g).queue = (s.lock g).queue

theorem Level.refl (s : State) : Level s s :=
  ⟨rfl, rfl, rfl, rfl, rfl, fun _ => rfl⟩

/-- Effects that concern neither threads nor the answers to requests nor tickets. -/
def Effect.IsOutward : Effect → Prop
  | .waits .. | .ends .. | .settle .. | .grant _ => False
  | .register .. | .send .. | .launched | .startReaders _ | .stopReaders _ | .terminate
    _ | .kill _ | .log _ =>
    True

/-- A change that concerns neither requests nor threads nor the queues. -/
theorem Within.aside (h : Within first mine out s) (same : Level s s')
    (outward : ∀ x ∈ more, x.IsOutward) :
    Within first mine (out ++ more) s' where
  outset := h.outset
  threads := same.threads.trans h.threads
  inflight := same.inflight.trans h.inflight
  nextId := by
    rw [same.nextId]
    exact h.nextId
  nextTicket := by
    rw [same.nextTicket]
    exact h.nextTicket
  queues g := by
    rw [same.queues, same.nextTicket]
    exact h.queues g
  numbered := by
    rw [same.nextId]
    exact h.numbered
  pending id entry := by
    rw [same.pending]
    exact h.pending id entry
  -- What is said besides goes outward, so it is neither an answer nor a turn nor an end.
  settled id answer hmem := by
    rw [same.pending]
    exact h.settled id answer ((List.mem_append.mp hmem).resolve_right fun hx => outward _ hx)
  granted n hmem := by
    rw [same.nextTicket]
    exact h.granted n ((List.mem_append.mp hmem).resolve_right fun hx => outward _ hx)
  running u := by
    refine ⟨fun on hmem => ?_, fun outcome hmem => ?_⟩
    · exact (List.mem_append.mp hmem).elim ((h.running u).1 on) fun hx => outward _ hx
    · exact (List.mem_append.mp hmem).elim ((h.running u).2 outcome) fun hx => outward _ hx

/-- A change of which nothing is told. -/
theorem Within.quiet (h : Within first mine out s) (same : Level s s') :
    Within first mine out s' := by
  have changed := h.aside same (List.forall_mem_nil _)
  rwa [List.append_nil] at changed

/-- Requests are answered, and are no longer without an answer.  Each of them was pending before and
is so no longer, and besides the pending requests the state is as it was. -/
theorem Within.settle (h : Within first none out s) (gone : List (Nat × Pending))
    (answer : Nat × Pending → Except BridgeFailure Json)
    (same : Level s { s' with pending := s.pending })
    (left : ∀ id entry, Assoc.get? id s'.pending = some entry →
      Assoc.get? id s.pending = some entry)
    (found : ∀ e ∈ gone, Assoc.get? e.1 s.pending ≠ none ∧ Assoc.get? e.1 s'.pending = none) :
    Within first none (out ++ gone.map fun e => .settle e.1 (answer e)) s' := by
  have stays := h.quiet same
  -- In the turn no request is pending that was not so at its start, since none is being asked.
  have old (id : Nat) (entry : Pending) (hentry : Assoc.get? id s'.pending = some entry) :
      Assoc.get? id first.pending = some entry :=
    (h.pending id entry (left id entry hentry)).resolve_right nofun
  refine
    { stays with
      pending := fun id entry hentry => .inl (old id entry hentry)
      queues := fun g n hn => stays.queues g n (by cases g <;> exact hn)
      settled := fun id a hmem => ?_
      granted := fun n hmem => ?_
      running := fun u => ⟨fun on hmem => ?_, fun outcome hmem => ?_⟩ }
  · rcases List.mem_append.mp hmem with hmem | hmem
    · obtain ⟨hfirst, hnone⟩ := h.settled id a hmem
      refine ⟨hfirst, ?_⟩
      by_contra hsome
      obtain ⟨entry, hentry⟩ := Option.ne_none_iff_exists'.mp hsome
      rw [left id entry hentry] at hnone
      cases hnone
    · obtain ⟨e, he, hsettle⟩ := List.mem_map.mp hmem
      obtain ⟨rfl, -⟩ := Effect.settle.inj hsettle
      obtain ⟨hsome, hnone⟩ := found e he
      obtain ⟨entry, hentry⟩ := Option.ne_none_iff_exists'.mp hsome
      have hfirst := (h.pending _ entry hentry).resolve_right nofun
      exact ⟨by simp [hfirst], hnone⟩
  · rcases List.mem_append.mp hmem with hmem | hmem
    · exact stays.granted n hmem
    · obtain ⟨e, -, he⟩ := List.mem_map.mp hmem
      cases he
  · rcases List.mem_append.mp hmem with hmem | hmem
    · exact (h.running u).1 on hmem
    · obtain ⟨e, -, he⟩ := List.mem_map.mp hmem
      cases he
  · rcases List.mem_append.mp hmem with hmem | hmem
    · exact (h.running u).2 outcome hmem
    · obtain ⟨e, -, he⟩ := List.mem_map.mp hmem
      cases he

/-! ## Operations without a thread -/

/-- A step that leaves the threads alone, after what has been decided before it. -/
abbrev Within.After (first : State) (mine : Option (Nat × String)) (out : List Effect)
    (p : State.Step) : Prop :=
  Within first mine (out ++ p.2) p.1

theorem Within.thenDo {mine' : Option (Nat × String)} {f : State → State.Step}
    (h : Within.After first mine out p)
    (next : ∀ out, Within first mine out p.1 → Within.After first mine' out (f p.1)) :
    Within.After first mine' out (State.thenDo p f) := by
  have hnext := next _ h
  rw [Within.After, List.append_assoc] at hnext
  exact hnext

theorem Within.still (h : Within first mine out s) : Within.After first mine out (s, []) :=
  h.aside (.refl s) (List.forall_mem_nil _)

theorem Within.reject (h : Within first none out s) (why : String → BridgeFailure) :
    Within.After first none out (s.rejectPending why) :=
  h.settle s.pending (fun e => .error (why e.2.method))
    ⟨rfl, rfl, rfl, rfl, rfl, fun g => by cases g <;> rfl⟩
    nofun fun _ he => ⟨Assoc.get?_ne_none_of_mem he, rfl⟩

theorem Within.detach (h : Within first mine out s) : Within first mine out s.detach :=
  h.quiet ⟨rfl, rfl, rfl, rfl, rfl, fun g => by cases g <;> rfl⟩

theorem Within.crash (h : Within first none out s) (w : Nat) (why : String → BridgeFailure) :
    Within.After first none out (s.crash w why) := by
  unfold State.crash
  split
  · have detached : Within.After first none out (s.detach, [.log ⟨.warning, "bridge_crashed"⟩]) :=
      h.detach.aside (.refl _) (List.forall_mem_singleton.mpr trivial)
    exact detached.thenDo fun _ hd => hd.reject why
  · exact h.still

theorem Within.stdoutLine (h : Within first none out s) (line : String) :
    Within.After first none out (s.stdoutLine line) := by
  unfold State.stdoutLine
  split
  · exact h.still
  · next id entry payload hfound =>
    have hpending : Assoc.get? id s.pending = some entry := by
      unfold State.answered? at hfound
      simp only [Option.bind_eq_bind, Option.bind_eq_some_iff] at hfound
      obtain ⟨v, -, n, -, hn⟩ := hfound
      split at hn
      · cases hn
      · obtain ⟨e, he, hsame⟩ := Option.bind_eq_some_iff.mp hn
        cases hsame
        exact he
    refine h.settle [(id, entry)] (fun _ => State.answerOf entry.method payload)
      ⟨rfl, rfl, rfl, rfl, rfl, fun g => by cases g <;> rfl⟩
      (fun other e he => (Assoc.of_get?_erase he).2) (List.forall_mem_singleton.mpr ⟨?_, ?_⟩)
    · simp [hpending]
    · exact Assoc.get?_erase_self _ _

theorem Within.stderrLine (h : Within first none out s) (w : Nat) (line : String) :
    Within.After first none out (s.stderrLine w line) := by
  have remembers (u : State) (h : Within first none out u) :
      Within first none out (u.remember line) :=
    h.quiet ⟨rfl, rfl, rfl, rfl, rfl, fun g => by cases g <;> rfl⟩
  have noted : Within first none out
      (if Text.containsLowered "error" line.toList then s.remember line else s) := by
    split
    · exact remembers s h
    · exact h
  unfold State.stderrLine
  generalize (if Text.containsLowered "error" line.toList then s.remember line else s) =
    u at noted ⊢
  dsimp only
  split
  · refine Within.thenDo ?_ fun _ hs => hs.crash w _
    refine (remembers u noted).aside (.refl _) fun x hx => ?_
    split at hx
    · rw [List.mem_singleton.mp hx]
      trivial
    · cases hx
  · exact noted.still

theorem Within.exited (h : Within first mine out s) (w : Nat) (code : Int) :
    Within first mine out (s.exited w code) := by
  unfold State.exited
  split
  · exact h
  · exact h.quiet ⟨rfl, rfl, rfl, rfl, rfl, fun g => by cases g <;> rfl⟩

/-! ## The locks -/

/-- A lock in the queue of which there is no new ticket.  Only its queue matters here, so it may be
taken or given back. -/
theorem Within.setLock (h : Within first mine out s) {l : Lock}
    (queue : ∀ n ∈ l.queue, n ∈ (s.lock g).queue) : Within first mine out (s.setLock g l) where
  outset := h.outset
  threads := (threads_setLock s g l).trans h.threads
  inflight := by cases g <;> exact h.inflight
  nextId := by
    rw [nextId_setLock]
    exact h.nextId
  nextTicket := by
    rw [nextTicket_setLock]
    exact h.nextTicket
  queues g' n hn := by
    rw [nextTicket_setLock]
    by_cases hg : g' = g
    · subst hg
      rw [lock_setLock_self] at hn
      exact h.queues g' n (queue n hn)
    · rw [lock_setLock_of_ne hg] at hn
      exact h.queues g' n hn
  numbered := by
    rw [nextId_setLock]
    exact h.numbered
  pending := by
    rw [pending_setLock]
    exact h.pending
  settled := by
    rw [pending_setLock]
    exact h.settled
  granted := by
    rw [nextTicket_setLock]
    exact h.granted
  running := h.running

theorem Within.take (h : Within first mine out s) (g : Gate) : Within first mine out (s.take g) :=
  h.setLock fun _ hn => hn

theorem Within.leaveQueue (h : Within first mine out s) (g : Gate) (n : Nat) :
    Within first mine out (s.leaveQueue g n) :=
  h.setLock fun _ hn => List.mem_of_mem_filter hn

/-- The first in a queue has a ticket that has been given out. -/
theorem Within.wakeFirst (h : Within first mine out s) (g : Gate) :
    Within.After first mine out (s.wakeFirst g) := by
  have granted (n : Nat) (hn : Effect.grant n ∈ (s.lock g).queue.head?.toList.map Effect.grant) :
      n ∈ (s.lock g).queue := by
    obtain ⟨m, hm, heq⟩ := List.mem_map.mp hn
    obtain rfl := Effect.grant.inj heq
    exact List.mem_of_head? (Option.mem_toList.mp hm)
  refine
    { h with
      settled := fun id answer hmem =>
        h.settled id answer ((List.mem_append.mp hmem).resolve_right ?_)
      granted := fun n hmem => (List.mem_append.mp hmem).elim (h.granted n) fun hn =>
        h.queues g n (granted n hn)
      running := fun u => ⟨fun on hmem => ?_, fun outcome hmem => ?_⟩ }
  · rintro hx
    obtain ⟨n, -, hn⟩ := List.mem_map.mp hx
    cases hn
  · rcases List.mem_append.mp hmem with hmem | hmem
    · exact (h.running u).1 on hmem
    · obtain ⟨n, -, hn⟩ := List.mem_map.mp hmem
      cases hn
  · rcases List.mem_append.mp hmem with hmem | hmem
    · exact (h.running u).2 outcome hmem
    · obtain ⟨n, -, hn⟩ := List.mem_map.mp hmem
      cases hn

theorem Within.release (h : Within first mine out s) (g : Gate) :
    Within.After first mine out (s.release g) :=
  (h.setLock (g := g) (l := { s.lock g with held := false }) fun _ hn => hn).wakeFirst g

/-! ## Operations of a thread -/

/-- A step that a thread leaves, after what has been decided before it. -/
abbrev Leaves.After (first : State) (t : Nat) (job : Job) (limit : Nat)
    (may : Prop) (out : List Effect) (p : State.Step) : Prop :=
  Leaves first t job limit may (p.1, out ++ p.2)

theorem Leaves.thenDo {f : State → State.Step} (h : Within.After first mine out p)
    (next : ∀ out, Within first mine out p.1 → Leaves.After first t job limit may out (f p.1)) :
    Leaves.After first t job limit may out (State.thenDo p f) := by
  have hnext := next _ h
  rw [Leaves.After, List.append_assoc] at hnext
  exact hnext

/-- A thread that has no request ends in any way but with the answer to one. -/
theorem Within.finish (h : Within first none out s) (free : held first t none = none)
    {outcome : Outcome}
    (unasked : ∀ id, outcome ≠ .answered id) (cancelled : outcome = .cancelled → may) :
    Leaves.After first t job limit may out (s.finish t outcome) :=
  .ends h (fun _ => free) outcome (fun id hid => by rw [free] at hid; cases hid)
    (fun id hid => absurd hid (unasked id)) cancelled

/-- A thread waits that has no request.  What it waits for fits its stage, and a turn for which it
waits has been drawn in this very step. -/
theorem Within.wait (h : Within first none out s) (free : held first t none = none)
    (thread : Thread) {on : Wait}
    (same : thread.job = job ∨ ¬ job.IsRequest ∧ ¬ thread.job.IsRequest)
    (none : thread.stage.request? = none)
    (starts : thread.job.IsRequest → thread.stage.stops = false) (fits : on.Fits thread.stage)
    (turn : ∀ n, on = .turn n → first.nextTicket ≤ n ∧ n < s.nextTicket ∧ .grant n ∉ out)
    (rank : thread.stage.rank ≤ limit) :
    Leaves.After first t job limit may out (s.wait t thread.job thread.stage on) :=
  .waits h (fun _ => free) thread on same
    { asks := fun id hid => by
        rw [none] at hid
        cases hid
      starts } fits turn (none.trans free.symm) nofun rank

/-- Takes a lock, or queues with a new ticket.  Both ways go on by what is assumed of them, so the
lemmas about stages never look into a lock. -/
theorem Within.acquire (h : Within first mine out s) (env : Outside) (g : Gate)
    {stage : Nat → Stage} {go : State → State.Step}
    (goesOn : Leaves.After first t job limit may out (go (s.take g)))
    (queues : ∀ u, Within first mine out u →
      first.nextTicket ≤ s.nextTicket ∧ s.nextTicket < u.nextTicket ∧ .grant s.nextTicket ∉ out →
      Leaves.After first t job limit may out
        (u.wait t job (stage s.nextTicket) (.turn s.nextTicket))) :
    Leaves.After first t job limit may out (s.acquire env g t job stage go) := by
  unfold State.acquire
  split
  · exact goesOn
  · -- The queue has grown by a ticket which nobody has had, and which has not been granted.
    have queued : Within first mine out (s.draw g) :=
      { h with
        threads := (threads_setLock s g _).trans h.threads
        inflight := by cases g <;> exact h.inflight
        nextId := by cases g <;> exact h.nextId
        nextTicket := Nat.le_succ_of_le h.nextTicket
        queues := fun g' n hn => by
          by_cases hg : g' = g
          · subst hg
            have hmem : n ∈ (s.lock g').queue ++ [s.nextTicket] := by cases g' <;> exact hn
            rcases List.mem_append.mp hmem with hmem | hmem
            · exact Nat.lt_succ_of_lt (h.queues g' n hmem)
            · rw [List.mem_singleton.mp hmem]
              exact Nat.lt_succ_self _
          · have hmem : n ∈ (s.lock g').queue := by
              cases g <;> cases g' <;> first | exact hn | exact absurd rfl hg
            exact Nat.lt_succ_of_lt (h.queues g' n hmem)
        numbered := by cases g <;> exact h.numbered
        pending := by cases g <;> exact h.pending
        settled := by cases g <;> exact h.settled
        granted := fun n hn => Nat.lt_succ_of_lt (h.granted n hn) }
    exact queues _ queued
      ⟨h.nextTicket, Nat.lt_succ_self _, fun hn => Nat.lt_irrefl _ (h.granted _ hn)⟩

/-! ## Requests -/

/-- The request of a thread that could not be written is closed: by the thread, or it has been
before. -/
theorem Within.unwritten (h : Within first mine out s) (has : Has first t mine id)
    (fresh : mine ≠ none → Assoc.get? id s.pending ≠ none) (w : Nat) (method : String) :
    Leaves.After first t job limit may out (s.unwritten t id w method) := by
  unfold State.unwritten
  split
  · have closed : Within first mine out { s with pending := Assoc.erase id s.pending } :=
      { h with
        pending := fun id' entry hentry => h.pending id' entry (Assoc.of_get?_erase hentry).2
        queues := fun g n hn => h.queues g n (by cases g <;> exact hn)
        settled := fun id' answer hmem => by
          obtain ⟨hfirst, hnone⟩ := h.settled id' answer hmem
          exact ⟨hfirst, by rw [Assoc.get?_erase, hnone, ite_self]⟩ }
    refine .ends closed has.free _ (fun id' hid => ?_) (by simp) (by simp)
    obtain rfl := Option.some.inj (has.held.symm.trans hid)
    exact Assoc.get?_erase_self _ _
  · next gone =>
    have gone : Assoc.get? id s.pending = none := by simpa [Assoc.has] using gone
    refine .ends h has.free _ (fun id' hid => ?_)
      (fun id' hid => ⟨Outcome.answered.inj hid ▸ has.held, ?_⟩) (by simp)
    · rwa [← Option.some.inj (has.held.symm.trans hid)]
    · by_contra new
      exact fresh new gone

/-- A thread waits that has a request. -/
theorem Within.attend (h : Within first mine out s) (has : Has first t mine id)
    (named : ∀ id method', mine = some (id, method') → method' = method) {stage : Stage} {on : Wait}
    (request : stage.request? = some id) (fits : on.Fits stage)
    (turn : ∀ n, on = .turn n → first.nextTicket ≤ n ∧ n < s.nextTicket ∧ .grant n ∉ out)
    (rank : stage.rank ≤ limit) :
    Leaves.After first t (.request method params) limit may out
      (s.wait t (.request method params) stage on) :=
  .waits h has.free { job := .request method params, stage } on (.inl rfl)
    ⟨fun _ _ => trivial, fun _ => by cases stage <;> first | rfl | cases request⟩ fits turn
    (request.trans has.held.symm) (fun id method' hm => ⟨params, by rw [named id method' hm]⟩) rank

theorem Within.written (h : Within first mine out s) (has : Has first t mine id)
    (named : ∀ id method', mine = some (id, method') → method' = method) (rank : 1 ≤ limit) :
    Leaves.After first t (.request method params) limit may out
      (s.written t (.request method params) id) :=
  Leaves.thenDo (h.release .write) fun _ hs => hs.attend has named rfl rfl nofun rank

theorem Within.write (h : Within first mine out s) (env : Outside) (has : Has first t mine id)
    (fresh : mine ≠ none → Assoc.get? id s.pending ≠ none)
    (named : ∀ id method', mine = some (id, method') → method' = method) (w : Nat)
    (rank : 2 ≤ limit) :
    Leaves.After first t (.request method params) limit may out
      (s.write env t (.request method params) id w) := by
  have sent : Within.After first mine out (s, [.send w { id, method, params }]) :=
    h.aside (.refl s) (List.forall_mem_singleton.mpr trivial)
  unfold State.write
  dsimp only
  split
  · exact Leaves.thenDo sent fun _ hs => hs.written has named (Nat.le_of_succ_le rank)
  · exact Leaves.thenDo sent fun _ hs => hs.attend has named rfl rfl nofun rank
  · refine Leaves.thenDo (h.release .write) fun _ hs => hs.unwritten has (fun new => ?_) w method
    exact pending_setLock s .write _ ▸ fresh new

/-- A thread that has no request numbers one, and has it from then on. -/
theorem Within.ask (h : Within first none out s) (env : Outside) (free : held first t none = none)
    (rank : 3 ≤ limit) :
    Leaves.After first t (.request method params) limit may out
      (s.ask env t (.request method params) method params) := by
  unfold State.ask
  split
  · exact h.finish free (by simp) (by simp)
  · next w _ =>
    have registered : Within.After first (some (s.nextId + 1, method)) out
        ({ s with
          nextId := s.nextId + 1
          pending := Assoc.set (s.nextId + 1) { method, worker := w } s.pending },
          [.register t w { id := (s.nextId + 1 : Nat), method, params }]) := by
      have lt := Nat.lt_succ_of_le h.nextId
      have told : Within first none
          (out ++ [.register t w { id := (s.nextId + 1 : Nat), method, params }]) s :=
        h.aside (.refl s) (List.forall_mem_singleton.mpr trivial)
      refine
        { told with
          nextId := Nat.le_of_lt lt
          queues := fun g n hn => h.queues g n (by cases g <;> exact hn)
          numbered := fun id' method' hm => ?_
          pending := fun id' entry hentry => ?_
          settled := fun id' answer hmem => ?_ }
      · obtain ⟨rfl, -⟩ := Prod.mk.inj (Option.some.inj hm)
        exact ⟨lt, Nat.le_refl _⟩
      · dsimp only at hentry
        rw [Assoc.get?_set] at hentry
        split at hentry
        · next here =>
          rw [here, ← Option.some.inj hentry]
          exact .inr rfl
        · exact .inl ((h.pending id' entry hentry).resolve_right (by simp))
      · -- What has been answered had an earlier number.
        obtain ⟨hfirst, hnone⟩ := told.settled id' answer hmem
        have earlier := h.outset.pending id' hfirst
        refine ⟨hfirst, ?_⟩
        dsimp only
        rw [Assoc.get?_set_of_ne (by omega), hnone]
    refine Leaves.thenDo registered fun _ hs => ?_
    have has : Has first t (some (s.nextId + 1, method)) (s.nextId + 1) := ⟨rfl, fun _ => free⟩
    have named (id : Nat) (method' : String)
      (hm : some (s.nextId + 1, method) = some (id, method')) :
        method' = method := (Prod.mk.inj (Option.some.inj hm)).2.symm
    refine hs.acquire env .write ((hs.take .write).write env has (fun _ => ?_) named w
      (Nat.le_of_succ_le rank)) fun u hu turn => hu.attend has named rfl rfl (fun n hn => ?_) rank
    · rw [State.take, pending_setLock]
      simp
    · rw [← Wait.turn.inj hn]
      exact turn

/-- The pipe has taken the request of a thread, or broken. -/
theorem Within.pipeOver (h : Within first none out s) (has : Has first t none id) {how : Resume}
    (goesOn : how ≠ .cancelled) (w : Nat) (rank : 1 ≤ limit) :
    Leaves.After first t (.request method params) limit may out
      (s.pipeOver t (.request method params) id w how) := by
  cases how with
  | cancelled => exact absurd rfl goesOn
  | failed => exact Leaves.thenDo (h.release .write) fun _ hs => hs.unwritten has nofun w method
  | done | timedOut => exact h.written has nofun rank

/-! ## Starting -/

section Starting

variable (free : held first t none = none)
include free

theorem Within.started (h : Within first none out s) (env : Outside) (rank : 3 ≤ limit) :
    Leaves.After first t job limit may out (s.started env t job) := by
  cases job with
  | request method params => exact h.ask env free rank
  | start | stop => exact h.finish free nofun nofun

theorem Within.spawnFailed (h : Within first none out s) (why : SpawnFailure) :
    Leaves.After first t job limit may out (s.spawnFailed t why) := by
  have noted : Within first none out { s with spawnError := some why } :=
    h.quiet ⟨rfl, rfl, rfl, rfl, rfl, fun g => by cases g <;> rfl⟩
  refine Leaves.thenDo (Within.thenDo ?_ fun _ hs => hs.release .start) fun _ hs =>
    hs.finish free nofun nofun
  refine noted.aside (.refl _) fun x hx => ?_
  split at hx
  · cases hx
  · rw [List.mem_singleton.mp hx]
    trivial

theorem Within.launched (h : Within first none out s) (env : Outside) (command : List String)
    (outcome : Launch) (rank : 3 ≤ limit) :
    Leaves.After first t job limit may out (s.launched env t job command outcome) := by
  cases outcome with
  | notFound => exact h.spawnFailed free _
  | refused reason => exact h.spawnFailed free _
  | started pid =>
    refine Leaves.thenDo (Within.thenDo ?_ fun _ hs => hs.release .start) fun _ hs =>
      hs.started free env rank
    exact h.aside ⟨rfl, rfl, rfl, rfl, rfl, fun g => by cases g <;> rfl⟩
      (List.forall_mem_singleton.mpr trivial)

theorem Within.spawn (h : Within first none out s) (env : Outside) (rank : 4 ≤ limit) :
    Leaves.After first t job limit may out (s.spawn env t job) := by
  unfold State.spawn
  split
  · exact h.spawnFailed free _
  · refine Leaves.thenDo (h.aside (.refl s) (List.forall_mem_singleton.mpr trivial)) fun _ hs => ?_
    dsimp only
    split
    · exact hs.wait free { job, stage := .launching _ _ } (.inl rfl) rfl
        (fun _ => rfl) rfl nofun rank
    · exact hs.launched free env _ _ (Nat.le_of_succ_le rank)

/-- The readers are told to end, and the thread waits for their end. -/
theorem Within.stopReaders (h : Within first none out s) (r : Nat) (thread : Thread)
    (same : thread.job = job ∨ ¬ job.IsRequest ∧ ¬ thread.job.IsRequest)
    (none : thread.stage.request? = none)
    (starts : thread.job.IsRequest → thread.stage.stops = false)
    (fits : (Wait.readers r).Fits thread.stage) (rank : thread.stage.rank ≤ limit) :
    Leaves.After first t job limit may out
      (State.thenDo ({ s with readers := .none }, [.stopReaders r]) fun s =>
        s.wait t thread.job thread.stage (.readers r)) := by
  refine Leaves.thenDo ?_ fun _ hs => hs.wait free thread same none starts fits nofun rank
  exact h.aside ⟨rfl, rfl, rfl, rfl, rfl, fun g => by cases g <;> rfl⟩
    (List.forall_mem_singleton.mpr trivial)

theorem Within.startLocked (h : Within first none out s) (env : Outside) (rank : 5 ≤ limit) :
    Leaves.After first t job limit may out (s.startLocked env t job) := by
  have later : 4 ≤ limit := Nat.le_of_succ_le rank
  unfold State.startLocked
  split
  · exact Leaves.thenDo (h.release .start) fun _ hs => hs.started free env (Nat.le_of_succ_le later)
  · split
    · exact h.spawn free env later
    · refine Leaves.thenDo (h.crash _ _) fun _ hs => ?_
      split
      · exact hs.spawn free env later
      · next r _ =>
        exact hs.stopReaders free r { job, stage := .reaping } (.inl rfl) rfl (fun _ => rfl)
          ⟨r, rfl⟩ rank

/-! ## Stopping -/

theorem Within.stopped (h : Within first none out s) :
    Leaves.After first t job limit may out (s.stopped t) :=
  Leaves.thenDo (h.release .start) fun _ hs => hs.finish free nofun nofun

theorem Within.drain (h : Within first none out s) (other : ¬ job.IsRequest) (rank : 1 ≤ limit) :
    Leaves.After first t job limit may out (s.drain t) := by
  unfold State.drain
  split
  · exact h.stopped free
  · next r _ =>
    exact h.stopReaders free r { job := .stop, stage := .draining }
      (.inr ⟨other, id⟩) rfl nofun ⟨r, rfl⟩ rank

theorem Within.stopLocked (h : Within first none out s) (other : ¬ job.IsRequest)
    (rank : 3 ≤ limit) :
    Leaves.After first t job limit may out (s.stopLocked t) := by
  unfold State.stopLocked
  split
  · exact h.stopped free
  · next w _ =>
    refine Leaves.thenDo (h.detach.reject _) fun _ hs => ?_
    split
    · refine Leaves.thenDo (hs.aside (.refl _) (List.forall_mem_singleton.mpr trivial))
        fun _ hs => ?_
      exact hs.wait free { job := .stop, stage := .terminating w }
        (.inr ⟨other, id⟩) rfl nofun rfl nofun rank
    · exact hs.drain free other (Nat.le_trans (by decide) rank)

/-! ## Steps of a thread -/

theorem Within.haveLock (h : Within first none out s) (env : Outside) (rank : 5 ≤ limit) :
    Leaves.After first t job limit may out (s.haveLock env t job) := by
  cases job with
  | stop => exact h.stopLocked free id (Nat.le_trans (by decide) rank)
  | request | start => exact h.startLocked free env rank

theorem Within.startOrStop (h : Within first none out s) (env : Outside) (rank : 6 ≤ limit) :
    Leaves.After first t job limit may out (s.startOrStop env t job) := by
  refine h.acquire env .start ((h.take .start).haveLock free env (Nat.le_of_succ_le rank))
    fun u hu turn => ?_
  refine hu.wait free { job, stage := .queued s.nextTicket } (.inl rfl) rfl (fun _ => rfl) rfl
    (fun n hn => ?_) rank
  rw [← Wait.turn.inj hn]
  exact turn

/-- A thread that has no request gives a lock back and ends. -/
theorem Within.giveUp (h : Within first none out s) (g : Gate) (cancelled : may) :
    Leaves.After first t job limit may out (s.giveUp g t) :=
  Leaves.thenDo (h.release g) fun _ hs => hs.finish free nofun fun _ => cancelled

end Starting

/-- A thread begins in a task that has no request of its own. -/
theorem leaves_begin (env : Outside) (numbered : s.Numbered) (free : held s t none = none)
    (job : Job) :
    Leaves s t job 6 False (s.begin env t job) := by
  have h := Within.refl numbered
  cases job with
  | request method params =>
    rw [State.begin]
    split
    · exact h.ask env free (by decide)
    · split
      · exact h.finish free nofun nofun
      · exact h.startOrStop free env (Nat.le_refl _)
  | start | stop => exact h.startOrStop free env (Nat.le_refl _)

/-- A thread that goes on leaves its stage for a later one.  If it has a request it is not
cancelled, and when it goes on with the answer there is one.  This is the lemma about
`State.resume`, with one case for each stage. -/
theorem leaves_resume (env : Outside) (numbered : s.Numbered) {thread : Thread} (how : Resume)
    (hthread : Assoc.get? t s.threads = some thread) (proper : thread.Proper)
    (kept : ∀ id, thread.stage.request? = some id → how ≠ .cancelled)
    (answered : ∀ id, thread.stage = .answering id → Assoc.get? id s.pending = none) :
    Leaves s t thread.job (thread.stage.rank - 1) (how = .cancelled) (s.resume env t how) := by
  have h := Within.refl numbered
  have has : held s t none = thread.stage.request? := by
    rw [held, hthread]
    rfl
  obtain ⟨job, stage⟩ := thread
  change Leaves.After s t job (stage.rank - 1) (how = .cancelled) [] (s.resume env t how)
  rw [State.resume, hthread]
  cases stage with
  | queued n =>
    dsimp only [State.enter]
    split
    · next cancelled =>
      refine Leaves.thenDo ?_ fun _ hs => hs.finish has nofun fun _ => cancelled
      split
      · exact (h.leaveQueue .start n).still
      · exact (h.leaveQueue .start n).wakeFirst .start
    · exact ((h.leaveQueue .start n).take .start).haveLock has env (Nat.le_refl _)
  | reaping =>
    dsimp only
    split
    · next cancelled => exact h.giveUp has .start cancelled
    · exact h.spawn has env (Nat.le_refl _)
  | launching command outcome =>
    dsimp only
    split
    · next cancelled => exact h.giveUp has .start cancelled
    · exact h.launched has env command outcome (Nat.le_refl _)
  | lined id w n =>
    -- A thread that has a request is not cancelled, and neither a start nor a stop has one.
    have goesOn := kept id rfl
    cases job with
    | start | stop => exact absurd (proper.asks id rfl) fun no => no
    | request method params =>
      dsimp only [State.enter]
      rw [if_neg goesOn]
      exact ((h.leaveQueue .write n).take .write).write env
        ⟨has, fun new => absurd rfl new⟩ nofun nofun w (Nat.le_refl _)
  | writing id w =>
    cases job with
    | start | stop => exact absurd (proper.asks id rfl) fun no => no
    | request method params =>
      exact h.pipeOver ⟨has, fun new => absurd rfl new⟩ (kept id rfl) w (Nat.le_refl _)
  | answering id =>
    dsimp only
    rw [if_neg (kept id rfl)]
    refine .ends h (fun new => absurd rfl new) _ (fun id' hid => ?_)
      (fun id' hid => ⟨Outcome.answered.inj hid ▸ has, rfl⟩) nofun
    obtain rfl := Option.some.inj (has.symm.trans hid)
    exact answered id rfl
  | terminating w =>
    -- A request never waits for a worker to end, so the thread is that of a stop.
    have other : ¬ job.IsRequest := fun request => by cases proper.starts request
    cases how with
    | cancelled => exact h.giveUp has .start rfl
    | timedOut =>
      refine Leaves.thenDo (h.aside (.refl s) fun x hx => ?_) fun _ hs =>
        hs.wait has { job, stage := .killing w } (.inl rfl) rfl
          (fun request => absurd request other) rfl nofun
          (Nat.le_refl _)
      rcases List.mem_cons.mp hx with rfl | hx
      · trivial
      · rw [List.mem_singleton.mp hx]
        trivial
    | done | failed => exact h.drain has other (Nat.le_succ 1)
  | killing w =>
    have other : ¬ job.IsRequest := fun request => by cases proper.starts request
    dsimp only
    split
    · next cancelled => exact h.giveUp has .start cancelled
    · exact h.drain has other (Nat.le_refl _)
  | draining =>
    dsimp only
    split
    · next cancelled => exact h.giveUp has .start cancelled
    · exact h.stopped has

end PikeAnalysis.Bridge
