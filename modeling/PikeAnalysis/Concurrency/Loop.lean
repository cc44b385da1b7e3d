import PikeAnalysis.Assoc
import PikeAnalysis.Concurrency.Timers

/-!
# The task loop

Tasks take turns: one runs until it waits, and when what it waits for happens it is queued again.
Everything that is ready runs in the order in which it became ready.  Timers become ready when they
are due.  The loop only keeps the books; what a job does is not known here.

Jobs are of type `κ`, and hooks, of type `η`, are what else is to be done when a task ends.

A task never runs here.  `create`, `finish`, `cancel` and the rest change the books that decide what
is run next, and say nothing of what it will do, so that the same loop serves the scheduler, the
bridge and the engine, whose jobs and hooks have nothing in common.

Waiting and following are one thing.  A signal has followers, and raising it makes them ready in the
order in which they came; a task that waits is a follower of the kind `Follower.resume`, and what is
to be done when a task ends, such as a callback that was added to it, is one of the kind
`Follower.hook`.  A follower that comes late, after the signal has been raised, is ready at once, so
that nothing depends on who came first.

Cancelling does not end a task.  It ends what the task waits for as cancelled, or marks the task so
that it hears of it at its next wait; a task that waits for the end of another one passes the
cancellation on to it.  Whoever wants to wait for a task without cancelling it waits for a ticket to
which its end is relayed.
-/

namespace PikeAnalysis.Concurrency

/-! ## Signals

What a task can wait for, and how what it waits for can end.  A signal is raised at most once. -/

/-- Something that happens once.  The kinds differ in who may raise them and who may know of them,
which the loop itself does not look at. -/
inductive Signal where
  /-- A task has ended. -/
  | ended (task : Nat)
  /-- An event that only those who hold the ticket know of. -/
  | ticket (n : Nat)
  /-- That all of several signals have been raised. -/
  | joint (n : Nat)
  /-- That the outside has done what somebody waits for. -/
  | outside (n : Nat)
  /-- A turn at the lock of the worker's start. -/
  | turn (n : Nat)
  /-- The answer to a request. -/
  | answer (request : Nat)
  deriving DecidableEq, Repr

/-- How a task, or what a task waits for, ends: with a value, with an error, or cancelled. -/
inductive Ending (ε ν : Type) where
  | value (v : ν)
  | error (e : ε)
  | cancelled

/-- What happens when a signal is raised.  Followers are run in the order in which they were added,
each as one thing that is ready. -/
inductive Follower (η : Type) where
  /-- A task that waits for it goes on. -/
  | resume (task : Nat)
  /-- Another signal is raised in the same way. -/
  | relay (signal : Signal)
  /-- One part fewer is missing of several signals. -/
  | part (n : Nat)
  | hook (h : η)

/-- The state of a signal.  Once there is an ending there are no followers any more. -/
structure SignalState (η ε ν : Type) where
  ending : Option (Ending ε ν) := none
  followers : List (Follower η) := []

/-- What a timer does. -/
inductive TimerAction where
  /-- Raises a signal. -/
  | raise (signal : Signal)
  /-- Cancels a task that has taken too long. -/
  | expire (task : Nat)
  deriving DecidableEq, Repr

/-- Something that is ready to happen.  What is ready is done in the order in which it became so;
that order is all the loop decides. -/
inductive Ready (η : Type) where
  | start (task : Nat)
  | follow (follower : Follower η) (signal : Signal)
  | timer (id : Nat)

/-- A task that has not ended.  What the task still has to do is not here but with the machine, as a
loop knows nothing of routines. -/
structure TaskState (κ : Type) where
  job : κ
  /-- What it waits for, while it waits. -/
  waiting : Option Signal := none
  /-- Whether its next wait, or the one it is in, ends cancelled. -/
  mustCancel : Bool := false
  /-- How often it was cancelled. -/
  cancels : Nat := 0

/-- The tasks, signals and timers.  It is a value like any other, and all of its operations are
total functions; nothing happens unless one of them is applied. -/
structure Loop (κ η ε ν : Type) where
  now : Instant := 0
  ready : List (Ready η) := []
  timers : TimerHeap := {}
  /-- The timers that have neither fired nor been cancelled. -/
  live : List (Nat × TimerAction) := []
  /-- The timers that have cancelled a task. -/
  expired : List Nat := []
  signals : List (Signal × SignalState η ε ν) := []
  /-- How many parts are missing of several signals. -/
  missing : List (Nat × Nat) := []
  tasks : List (Nat × TaskState κ) := []
  current : Nat := 0
  nextTask : Nat := 0
  nextTicket : Nat := 0
  nextTimer : Nat := 0

namespace Loop

variable {κ η ε ν : Type}

/-! ## Signals -/

def signalState (l : Loop κ η ε ν) (s : Signal) : SignalState η ε ν :=
  (Assoc.get? s l.signals).getD {}

/-- How a signal ended, if it has been raised.  A signal keeps its ending for good, so whoever comes
late sees how it ended. -/
def ending? (l : Loop κ η ε ν) (s : Signal) : Option (Ending ε ν) :=
  (l.signalState s).ending

def enqueue (l : Loop κ η ε ν) (items : List (Ready η)) : Loop κ η ε ν :=
  { l with ready := l.ready ++ items }

/-- Raises a signal unless it has been raised.  Its followers become ready behind whatever is ready
already, in the order in which they were added. -/
def raise (l : Loop κ η ε ν) (s : Signal) (e : Ending ε ν) : Loop κ η ε ν :=
  let st := l.signalState s
  match st.ending with
  | some _ => l
  | none =>
    { l with signals := Assoc.set s { ending := some e } l.signals }.enqueue
      (st.followers.map fun f => .follow f s)

/-- Adds a follower.  If the signal has been raised the follower is ready at once. -/
def follow (l : Loop κ η ε ν) (s : Signal) (f : Follower η) : Loop κ η ε ν :=
  let st := l.signalState s
  match st.ending with
  | some _ => l.enqueue [.follow f s]
  | none => { l with signals := Assoc.set s { st with followers := st.followers ++ [f] } l.signals }

/-- A number that nobody else has, for a ticket or the like. -/
def newTicket (l : Loop κ η ε ν) : Loop κ η ε ν × Nat :=
  ({ l with nextTicket := l.nextTicket + 1 }, l.nextTicket)

/-- The number under which all the given signals count as one; none if there are no signals.  It is
raised with the last of them, however each of them ends. -/
def joinAll (l : Loop κ η ε ν) (parts : List Signal) : Loop κ η ε ν × Option Nat :=
  if parts.isEmpty then (l, none)
  else
    let (l, n) := l.newTicket
    let l := { l with missing := Assoc.set n parts.length l.missing }
    (parts.foldl (fun l s => l.follow s (.part n)) l, some n)

/-- Counts one of several signals, and raises them all with the last.  How each of them ended is not
kept. -/
def countPart (l : Loop κ η ε ν) (v : ν) (n : Nat) : Loop κ η ε ν :=
  match Assoc.get? n l.missing with
  | none => l
  | some left =>
    if left ≤ 1 then
      { l with missing := Assoc.erase n l.missing }.raise (.joint n) (.value v)
    else { l with missing := Assoc.set n (left - 1) l.missing }

/-! ## Tasks -/

/-- Creates a task, ready to start.  It does not begin at once: its start is queued behind whatever
is ready. -/
def create (l : Loop κ η ε ν) (job : κ) : Loop κ η ε ν × Nat :=
  let t := l.nextTask
  ({ l with nextTask := t + 1, tasks := l.tasks ++ [(t, { job := job : TaskState κ })] }.enqueue
    [.start t], t)

def task? (l : Loop κ η ε ν) (t : Nat) : Option (TaskState κ) :=
  Assoc.get? t l.tasks

def setTask (l : Loop κ η ε ν) (t : Nat) (st : TaskState κ) : Loop κ η ε ν :=
  { l with tasks := Assoc.set t st l.tasks }

/-- Whether a task has ended. -/
def isEnded (l : Loop κ η ε ν) (t : Nat) : Bool :=
  (l.ending? (.ended t)).isSome

/-- Ends a task.  It is no task any more, and whoever has followed its end is ready. -/
def finish (l : Loop κ η ε ν) (t : Nat) (e : Ending ε ν) : Loop κ η ε ν :=
  { l with tasks := Assoc.erase t l.tasks }.raise (.ended t) e

/-- Cancels a task: what it waits for ends cancelled, and if that has been raised already the task
sees the cancellation when it goes on.  The flag tells whether the task had not ended.  A task that
waits for another task's end cancels that one; `fuel` bounds the length of such a chain. -/
def cancelTask : Nat → Loop κ η ε ν → Nat → Loop κ η ε ν × Bool
  | 0, l, _ => (l, false)
  | fuel + 1, l, t =>
    match l.task? t with
    | none => (l, false)
    | some st =>
      let st := { st with cancels := st.cancels + 1 }
      let l := l.setTask t st
      let marked := l.setTask t { st with mustCancel := true }
      match st.waiting with
      | none => (marked, true)
      | some (.ended other) =>
        let (m, hit) := cancelTask fuel l other
        if hit then (m, true) else (marked, true)
      | some s =>
        match l.ending? s with
        | some _ => (marked, true)
        | none => (l.raise s .cancelled, true)

/-- Cancels a task.  A chain of tasks that wait for one another is no longer than there are tasks,
so the bound is never met. -/
def cancel (l : Loop κ η ε ν) (t : Nat) : Loop κ η ε ν × Bool :=
  cancelTask (l.tasks.length + 1) l t

/-! ## Timers -/

/-- Starts a timer. -/
def startTimer (l : Loop κ η ε ν) (delay : Duration) (action : TimerAction) : Loop κ η ε ν × Nat :=
  let id := l.nextTimer
  ({ l with
    nextTimer := id + 1
    timers := l.timers.push { due := l.now.after delay, id }
    live := (id, action) :: l.live }, id)

/-- Cancels a timer that has not fired.  It stays in the heap until it gets to the top, and is
skipped then. -/
def stopTimer (l : Loop κ η ε ν) (id : Nat) : Loop κ η ε ν :=
  { l with live := Assoc.erase id l.live }

/-- Starts a timer that cancels the current task; one without any time left is ready at once. -/
def startLimit (l : Loop κ η ε ν) (delay : Duration) : Loop κ η ε ν × Nat :=
  match delay with
  | some d =>
    if d ≤ 0 then
      let id := l.nextTimer
      ({ l with nextTimer := id + 1, live := (id, .expire l.current) :: l.live }.enqueue
        [.timer id], id)
    else l.startTimer delay (.expire l.current)
  | none => l.startTimer delay (.expire l.current)

/-- How often a task was cancelled, limits that were exceeded and have ended aside. -/
def cancelCount (l : Loop κ η ε ν) (t : Nat) : Nat :=
  (l.task? t).elim 0 (·.cancels)

/-- Ends a time limit of the current task; the flag tells whether it was exceeded.  The cancellation
by which it was enforced no longer counts. -/
def stopLimit (l : Loop κ η ε ν) (id : Nat) : Loop κ η ε ν × Bool :=
  if l.expired.contains id then
    let l := { l with expired := l.expired.filter (· != id) }
    match l.task? l.current with
    | some st => (l.setTask l.current { st with cancels := st.cancels - 1 }, true)
    | none => (l, true)
  else (l.stopTimer id, false)

/-- Takes cancelled timers off the top of the heap.  It is done before the heap is asked for the
next timer, so that one which was stopped does not move the clock. -/
def dropCancelled : Nat → Loop κ η ε ν → Loop κ η ε ν
  | 0, l => l
  | fuel + 1, l =>
    match l.timers.top? with
    | some t =>
      if Assoc.has t.id l.live then l else dropCancelled fuel { l with timers := l.timers.pop }
    | none => l

/-- Makes the timers ready that are due.  They are queued behind what is ready, in the order in
which they leave the heap. -/
def takeDue : Nat → Loop κ η ε ν → Loop κ η ε ν
  | 0, l => l
  | fuel + 1, l =>
    match l.timers.top? with
    | some t =>
      if t.isDue l.now then
        takeDue fuel ({ l with timers := l.timers.pop }.enqueue [.timer t.id])
      else l
    | none => l

/-- When the next timer is due that has not been cancelled. -/
def nextDue? (l : Loop κ η ε ν) : Option Instant :=
  ((dropCancelled l.timers.size l).timers.top?).bind (·.due)

end Loop

end PikeAnalysis.Concurrency
