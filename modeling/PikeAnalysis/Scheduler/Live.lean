import PikeAnalysis.Concurrency.Tasks
import PikeAnalysis.Scheduler.Machine

/-!
# Scheduling with tasks

Carries out what the scheduling machine decides.  Each timer and each run is a task of a loop; what
a run does is left open.

The machine counts timers and runs, and here each of these numbers gets a task, kept in a table.  A
timer's task sleeps and then tells the machine; a run's task validates and then tells it.  A run
that is cancelled before its task has begun would never be told of by its own task, so a hook at
the end of every run's task drops it if it is still there.
-/

namespace PikeAnalysis.Scheduler

open PikeAnalysis.Concurrency

/-- The machine together with the tasks of its timers and runs.  The tables are what cancelling goes
through. -/
structure Live where
  machine : State
  timerTasks : List (Nat × Nat) := []
  runTasks : List (Nat × Nat) := []

/-- A state with a loop and a scheduler in it. -/
class HasScheduler (σ : Type) (κ η ε ν : outParam Type) extends HasLoop σ κ η ε ν where
  scheduler : σ → Live
  withScheduler : σ → Live → σ
  /-- The job of a timer's task. -/
  timerJob : Nat → κ
  /-- The job of a run's task. -/
  runJob : Nat → κ
  /-- What follows the end of a run's task. -/
  runOver : Nat → η
  /-- What follows the closing of a document. -/
  closed : String → σ → σ

variable {σ κ η ε ν : Type} [HasScheduler σ κ η ε ν]

/-- The scheduling machine in a state. -/
def machineIn (s : σ) : State :=
  (HasScheduler.scheduler s).machine

/-! ## Effects -/

/-- Starts the task of a timer.  The table keeps its number, for the case that the timer is
cancelled. -/
def startTimerTask (s : σ) (timer : Nat) : σ :=
  let (s, task) := HasLoop.act s fun l => l.create (HasScheduler.timerJob σ timer)
  let live := HasScheduler.scheduler s
  HasScheduler.withScheduler s { live with timerTasks := Assoc.set timer task live.timerTasks }

/-- Starts the task of a run.  What follows its end is attached to it here, since a task that is
cancelled before its first turn does nothing by itself. -/
def startRunTask (s : σ) (run : Nat) : σ :=
  let (s, task) := HasLoop.act s fun l =>
    let (l, task) := l.create (HasScheduler.runJob σ run)
    (l.follow (.ended task) (.hook (HasScheduler.runOver σ run)), task)
  let live := HasScheduler.scheduler s
  HasScheduler.withScheduler s { live with runTasks := Assoc.set run task live.runTasks }

/-- Cancels a task, if there is one. -/
def cancelTask (s : σ) (task : Option Nat) : σ :=
  match task with
  | none => s
  | some t => HasLoop.update s fun l => (l.cancel t).1

/-- Carries out an effect.  This is the only place at which decisions of the machine reach the
loop. -/
def carryOut (s : σ) : Effect → σ
  | .armTimer timer => startTimerTask s timer
  | .cancelTimer timer => cancelTask s (Assoc.get? timer (HasScheduler.scheduler s).timerTasks)
  | .startRun run => startRunTask s run
  | .cancelRun run => cancelTask s (Assoc.get? run (HasScheduler.scheduler s).runTasks)
  | .wake tickets =>
    tickets.foldl (fun s n => HasLoop.update s fun l =>
      l.raise (.ticket n) (.value (HasLoop.unit σ))) s
  | .closed uri => HasScheduler.closed uri s

/-- Lets something happen to the scheduler, and tells which runs that cancels.  The machine decides
first, and then the effects are carried out in order. -/
def happen (s : σ) (e : Event) : σ × List Nat :=
  let live := HasScheduler.scheduler s
  let (machine, effects) := live.machine.step e
  let s := HasScheduler.withScheduler s { live with machine }
  let cancelled := effects.filterMap fun
    | .cancelRun run => Assoc.get? run live.runTasks
    | _ => none
  (effects.foldl carryOut s, cancelled)

/-- Lets something happen to the scheduler. -/
def tell (s : σ) (e : Event) : σ :=
  (happen s e).1

/-- What follows the end of a run's task: one that never began is dropped.  For one that began, the
machine was told of its end already, and dropping it changes nothing. -/
def afterRunTask (run : Nat) (s : σ) : σ :=
  let s := tell s (.dropped run)
  let live := HasScheduler.scheduler s
  HasScheduler.withScheduler s { live with runTasks := Assoc.erase run live.runTasks }

/-! ## Tasks -/

/-- What the task of a timer does.  One that is cancelled ends quietly.  The machine is told that
the timer has fired in the same turn in which the sleep ends. -/
def timerBody (timer : Nat) : Routine σ ε ν κ Unit := do
  let quiet ← Routine.read fun s => Duration.milliseconds (machineIn (σ := σ) s).debounce
  ((Routine.sleep quiet : Routine σ ε ν κ Unit).onEnd fun
    | .value _ => .modify fun s => tell s (.fired timer)
    | .error e => .fail e
    | .cancelled => .done ())

/-- Forgets the tasks of timers that are over. -/
def forgetTimers (s : σ) : σ :=
  let live := HasScheduler.scheduler s
  let left := live.timerTasks.filter fun e => Assoc.has e.1 live.machine.timers
  HasScheduler.withScheduler s { live with timerTasks := left }

/-- What the task of a run does: the validation, which must not fail, and what follows its end.
Whatever the validation comes to, the scheduler is told of the end of its run. -/
def runBody (validate : Run → Routine σ ε ν κ Unit) (run : Nat) : Routine σ ε ν κ Unit := do
  match ← Routine.read fun s => Assoc.get? run (machineIn (σ := σ) s).runs with
  | none => return ()
  | some r =>
    (validate r).always fun s =>
      let s := tell s (.ended run)
      forgetTimers s

/-- A ticket to be raised once a document becomes idle, which it may not be for long; none if it is
idle. -/
def busyTicket (uri : String) : Routine σ ε ν κ (Option Nat) := do
  match ← Routine.read fun s => (machineIn (σ := σ) s).busySlot? uri with
  | none => return none
  | some slot =>
    Routine.act fun s =>
      let (s, n) := HasLoop.act s fun (l : Loop κ η ε ν) => l.newTicket
      let live := HasScheduler.scheduler s
      (HasScheduler.withScheduler s { live with machine := live.machine.awaitIdle slot n }, some n)

/-- Stops the scheduler and waits for the runs that it cancels.  The runs are waited for one after
the other, and it does not matter how they end. -/
def stopBody : Routine σ ε ν κ Unit := do
  let tasks ← Routine.act fun s => happen (σ := σ) s .stop
  awaitEnds tasks
where
  /-- Waits for tasks in turn, however they end. -/
  awaitEnds : List Nat → Routine σ ε ν κ Unit
    | [] => .done ()
    | t :: rest => .wait (.ended t) fun
      | .error e => .fail e
      | _ => awaitEnds rest

end PikeAnalysis.Scheduler
