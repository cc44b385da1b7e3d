import PikeAnalysis.Log
import PikeAnalysis.Concurrency.Machine
import PikeAnalysis.Scheduler.Live

/-!
# Simulated scheduling

The scheduler with validations that only take time or fail, on a clock that only moves when it is
told to.

This is the scheduler without the rest of the engine: the same machine, the same live timers and
runs, and a validation that does nothing but sleep for a given time and perhaps fail.  What its runs
do is taken down as a list of happenings with their times, which is what statements about timing
speak of.  The clock goes from one due timer to the next; between two of them everything that is
ready is run to the end.
-/

namespace PikeAnalysis.Simulation.Scheduling

open PikeAnalysis.Concurrency
open PikeAnalysis.Scheduler (Live HasScheduler)

/-- How a validation turns out: how long it takes, if it takes any time, and whether it then
fails. -/
structure Behaviour where
  length : Option Duration := none
  fails : Bool := false

/-- What a task is for. -/
inductive Job where
  | timer (id : Nat)
  | run (id : Nat)
  | awaitIdle (uris : List String)
  | awaitAllIdle
  | stop

/-- What happens over time. -/
inductive Happening where
  | started (t : Instant) (uri : String) (version : Int) (text : String)
  | ended (t : Instant) (uri : String) (version : Int)
  | closed (uri : String)
  | told (entry : LogEntry)

/-- The scheduler, how its next validations turn out, and what has happened since last collected. -/
structure State where
  loop : Loop Job Nat Unit Unit := {}
  scheduler : Live
  behaviours : List Behaviour := []
  /-- Whether the closing of documents is of interest. -/
  watchesClosing : Bool := true
  happenings : List Happening := []

namespace State

/-- Takes down what happens. -/
def note (s : State) (h : Happening) : State :=
  { s with happenings := s.happenings ++ [h] }

end State

instance : HasScheduler State Job Nat Unit Unit where
  loop := State.loop
  withLoop s l := { s with loop := l }
  unit := ()
  scheduler := State.scheduler
  withScheduler s l := { s with scheduler := l }
  timerJob := .timer
  runJob := .run
  runOver := id
  closed uri s := if s.watchesClosing then s.note (.closed uri) else s

/-- What a task does. -/
abbrev Act := Routine State Unit Unit Job

/-- A validation.  One that is cancelled does not get to its end, and one that fails is told of. -/
def validate (r : Scheduler.Run) : Act Unit := do
  let b ← Routine.act fun (s : State) =>
    ({ s with behaviours := s.behaviours.tail }.note
      (.started s.loop.now r.uri r.version r.text), s.behaviours.headD {})
  match b.length with
  | some d => Routine.sleep d
  | none => pure ()
  Routine.modify fun (s : State) =>
    let s := s.note (.ended s.loop.now r.uri r.version)
    if b.fails then s.note (.told ⟨.error, "validation_run_failed"⟩) else s

/-- Waits until documents are idle, one after the other. -/
def awaitIdle : List String → Act Unit
  | [] => return ()
  | uri :: rest => do
    match ← (Scheduler.busyTicket uri : Act (Option Nat)) with
    | none => awaitIdle rest
    | some n => .renew (.ticket n) (.awaitIdle (uri :: rest))

def body : Job → Act Unit
  | .timer id => Scheduler.timerBody id
  | .run id => Scheduler.runBody validate id
  | .awaitIdle uris => awaitIdle uris
  | .awaitAllIdle => do
    awaitIdle (← Routine.read fun (s : State) => s.scheduler.machine.docs.map (·.1))
  | .stop => Scheduler.stopBody

def rules : Rules State Unit Unit Job Nat :=
  { body, hook := Scheduler.afterRunTask }

/-! ## Rehearsals -/

/-- A scheduler with its tasks. -/
abbrev Rehearsal := Machine State Unit Unit Job

namespace Rehearsal

/-- A scheduler without documents. -/
def start (debounce : Int) (behaviours : List Behaviour) (watchesClosing : Bool) : Rehearsal :=
  { state := {
      scheduler := { machine := Scheduler.State.start debounce }
      behaviours
      watchesClosing } }

/-- How many rounds may follow one another without any time passing. -/
def fuel : Nat := 100000

/-- Lets the tasks run until none can without time passing. -/
def settle (m : Rehearsal) : Rehearsal :=
  Machine.settle rules fuel m

def setClock (m : Rehearsal) (t : Instant) : Rehearsal :=
  { m with state := { m.state with loop := { m.state.loop with now := t } } }

/-- Moves the clock to each timer that is due up to a time, and then to that time. -/
def advanceTo (target : Instant) : Nat → Rehearsal → Rehearsal
  | 0, m => m.setClock target
  | fuel + 1, m =>
    match m.state.loop.nextDue? with
    | some due =>
      if due ≤ target then advanceTo target fuel (m.setClock (max m.state.loop.now due)).settle
      else m.setClock target
    | none => m.setClock target

/-- Lets a number of milliseconds pass. -/
def advance (m : Rehearsal) (ms : Int) : Rehearsal :=
  advanceTo (m.state.loop.now + ms * 1000) fuel m

/-- Lets something happen to the scheduler. -/
def tell (m : Rehearsal) (e : Scheduler.Event) : Rehearsal :=
  { m with state := Scheduler.tell m.state e }

/-- Starts a task. -/
def launch (m : Rehearsal) (job : Job) : Rehearsal × Nat :=
  let (loop, task) := m.state.loop.create job
  ({ m with state := { m.state with loop } }, task)

/-- What has happened since last collected. -/
def collect (m : Rehearsal) : Rehearsal × List Happening :=
  ({ m with state := { m.state with happenings := [] } }, m.state.happenings)

end Rehearsal

end PikeAnalysis.Simulation.Scheduling
