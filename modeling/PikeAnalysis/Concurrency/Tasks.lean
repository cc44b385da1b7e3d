import PikeAnalysis.Concurrency.Loop

/-!
# What tasks do

A routine is what a task does: it reads and replaces the state `σ`, waits for signals, and ends with
a result, an error, or as cancelled.  A routine is a finite tree, so running it up to its next wait
always ends.  What goes on for ever does so by starting over: after a wait a task may become a job
from that job's beginning.  Sleeping, time limits, and waiting for other tasks are routines over any
state that contains a loop.

Reading and replacing the state are the only effects, and each may be followed by others without a
wait; a turn is what lies between two waits.  So what is done in one turn cannot be interrupted, and
where a turn ends can be read off the text of a routine.

`onEnd` is the way in which routines are put together: it goes on with however a routine has ended,
a cancellation included.  Going on with a result, handling errors, and doing something in any case
are special cases of it (`andThen`, `catching`, `always`).
-/

namespace PikeAnalysis.Concurrency

/-! ## Routines -/

/-- What a task does.  A leaf is one of the three ways to end, or a wait after which the task starts
over as another job. -/
inductive Routine (σ ε ν κ α : Type) where
  | done (a : α)
  | fail (e : ε)
  | cancelled
  /-- Reads the state. -/
  | get (k : σ → Routine σ ε ν κ α)
  /-- Replaces the state. -/
  | set (s : σ) (next : Routine σ ε ν κ α)
  /-- Waits for a signal and goes on with how it ended. -/
  | wait (signal : Signal) (k : Ending ε ν → Routine σ ε ν κ α)
  /-- Waits for a signal that is still to be raised, and then goes on as a job from its beginning.
  An error or a cancellation is passed on. -/
  | renew (signal : Signal) (job : κ)

namespace Routine

variable {σ ε ν κ α β : Type}

/-- Goes on with the result of a routine.  It is `bind` of the monad, by recursion over the first
routine. -/
def andThen : Routine σ ε ν κ α → (α → Routine σ ε ν κ β) → Routine σ ε ν κ β
  | .done a, f => f a
  | .fail e, _ => .fail e
  | .cancelled, _ => .cancelled
  | .get k, f => .get fun s => andThen (k s) f
  | .set s next, f => .set s (andThen next f)
  | .wait signal k, f => .wait signal fun e => andThen (k e) f
  | .renew signal job, _ => .renew signal job

instance : Monad (Routine σ ε ν κ) where
  pure := .done
  bind := andThen

/-- Goes on with how a routine ended.  A routine that starts over as another job does not get there,
and what was to follow is dropped. -/
def onEnd : Routine σ ε ν κ α → (Ending ε α → Routine σ ε ν κ β) → Routine σ ε ν κ β
  | .done a, f => f (.value a)
  | .fail e, f => f (.error e)
  | .cancelled, f => f .cancelled
  | .get k, f => .get fun s => onEnd (k s) f
  | .set s next, f => .set s (onEnd next f)
  | .wait signal k, f => .wait signal fun e => onEnd (k e) f
  | .renew signal job, _ => .renew signal job

/-- The routine that ends in a given way. -/
def ofEnding : Ending ε α → Routine σ ε ν κ α
  | .value a => .done a
  | .error e => .fail e
  | .cancelled => .cancelled

/-- The error of a routine, if it ends with one that `handle` takes.  A cancellation is no error and
is not handled by this. -/
def catching (r : Routine σ ε ν κ α) (handle : ε → Option (Routine σ ε ν κ α)) :
    Routine σ ε ν κ α :=
  r.onEnd fun
    | .error e => (handle e).getD (.fail e)
    | ending => ofEnding ending

/-- Changes the state, with a result.  Nothing else can happen between its reading and its writing,
as there is no wait in it. -/
def act (f : σ → σ × α) : Routine σ ε ν κ α :=
  .get fun s => let (t, a) := f s; .set t (.done a)

/-- Changes the state. -/
def modify (f : σ → σ) : Routine σ ε ν κ Unit :=
  .get fun s => .set (f s) (.done ())

/-- Reads from the state. -/
def read (f : σ → α) : Routine σ ε ν κ α :=
  .get fun s => .done (f s)

/-- Waits for a signal; an error or a cancellation is passed on.  If the signal has been raised
already, this takes no turn. -/
def await (signal : Signal) : Routine σ ε ν κ ν :=
  .wait signal ofEnding

/-- Does something after a routine, however it ends.  It happens in the same turn in which the
routine has ended. -/
def always (r : Routine σ ε ν κ α) (f : σ → σ) : Routine σ ε ν κ α :=
  r.onEnd fun ending => .get fun s => .set (f s) (ofEnding ending)

end Routine

/-! ## Over a loop -/

/-- A state that contains a loop. -/
class HasLoop (σ : Type) (κ η ε ν : outParam Type) where
  loop : σ → Loop κ η ε ν
  withLoop : σ → Loop κ η ε ν → σ
  /-- The value of signals that have nothing to say. -/
  unit : ν

variable {σ κ η ε ν α β : Type} [HasLoop σ κ η ε ν]

/-- Changes the loop in a state. -/
def HasLoop.update (s : σ) (f : Loop κ η ε ν → Loop κ η ε ν) : σ :=
  HasLoop.withLoop s (f (HasLoop.loop s))

/-- Changes the loop in a state, with a result. -/
def HasLoop.act (s : σ) (f : Loop κ η ε ν → Loop κ η ε ν × α) : σ × α :=
  let (l, a) := f (HasLoop.loop s)
  (HasLoop.withLoop s l, a)

namespace Routine

/-- Changes the loop, with a result. -/
def onLoop (f : Loop κ η ε ν → Loop κ η ε ν × α) : Routine σ ε ν κ α :=
  .act fun s => HasLoop.act s f

/-- The time. -/
def now : Routine σ ε ν κ Instant :=
  .read fun s => (HasLoop.loop s).now

/-- Waits for a length of time.  The timer raises a ticket of its own; however the wait ends the
timer is stopped, so none is left behind. -/
def sleep (d : Duration) : Routine σ ε ν κ Unit := do
  let (n, timer) ← onLoop fun l =>
    let (l, n) := l.newTicket
    let (l, timer) := l.startTimer d (.raise (.ticket n))
    (l, (n, timer))
  .wait (.ticket n) fun ending =>
    ((onLoop fun l => (l.stopTimer timer, ()) : Routine σ ε ν κ Unit).andThen fun _ =>
      (ofEnding ending).andThen fun _ => .done ())

/-- Ends a routine with an error once a length of time has passed, unless it has ended before or is
cancelled otherwise.  The limit cancels the task, and a cancellation becomes an error only if it
came from the limit and nobody else has cancelled the task since. -/
def within (d : Duration) (late : ε) (r : Routine σ ε ν κ α) : Routine σ ε ν κ α := do
  let (before, limit) ← onLoop fun l =>
    let before := l.cancelCount l.current
    let (l, limit) := l.startLimit d
    (l, (before, limit))
  r.onEnd fun ending => do
    let (left, expired) ← onLoop fun l =>
      let (l, expired) := l.stopLimit limit
      (l, (l.cancelCount l.current, expired))
    match ending with
    | .cancelled => if expired && left ≤ before then .fail late else .cancelled
    | ending => ofEnding ending

/-- Waits for a task without being able to cancel it.  The end of the task is passed on to a ticket,
and it is the ticket that a cancellation ends. -/
def awaitTask (task : Nat) : Routine σ ε ν κ ν := do
  match ← onLoop fun l =>
      if l.isEnded task then (l, none)
      else
        let (l, n) := l.newTicket
        (l.follow (.ended task) (.relay (.ticket n)), some n) with
  | none => await (.ended task)
  | some n => await (.ticket n)

/-- Waits until all the given signals have been raised.  None of them is cancelled when this wait
is. -/
def awaitAll (signals : List Signal) : Routine σ ε ν κ Unit := do
  match ← onLoop fun l => l.joinAll signals with
  | none => return ()
  | some n => (await (.joint n)).andThen fun _ => .done ()

end Routine

end PikeAnalysis.Concurrency
