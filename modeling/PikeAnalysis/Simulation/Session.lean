import PikeAnalysis.Simulation.Worker

/-!
# Simulated sessions

The engine with a scripted worker on a clock that only moves when it is told to.  The worker acts
only when the engine cannot go on, and then does one thing.

A session joins the two halves: the machine of the engine, which runs until it cannot go on without
time passing or something arriving, and the script of the worker, which is then given one turn.
Orders that the engine gives to the outside are passed on in between and taken down.  The clock is
moved only when neither half has anything to do, and then to the next timer.  Fuel bounds the number
of rounds at one instant; a session that needs more stops where it is.
-/

namespace PikeAnalysis.Simulation

open PikeAnalysis.Concurrency

/-- A process that was started: its command line, the directory it was started in, the variables
added to its environment, and its number. -/
structure Launched where
  command : List String
  workingDir : Option String
  environment : List (String × String)
  pid : Int

/-- A session. -/
structure Session where
  machine : Machine Engine.State Engine.Trouble Engine.Value Engine.Job
  script : Script := {}
  /-- The requests that were sent and the processes that were started since last collected. -/
  sent : List Bridge.Request := []
  launched : List Launched := []

namespace Session

def engine (s : Session) : Engine.State :=
  s.machine.state

def withEngine (s : Session) (e : Engine.State) : Session :=
  { s with machine := { s.machine with state := e } }

/-- Changes the engine, with a result. -/
def act {α : Type} (s : Session) (f : Engine.State → Engine.State × α) : Session × α :=
  let (e, a) := f s.engine
  (s.withEngine e, a)

/-! ## Going on -/

/-- Takes down what an order says about the outside.  The worker itself learns of requests
elsewhere; here they are only written down. -/
def record (s : Session) : Engine.Order → Session
  | .launch w =>
    match s.engine.bridge.worker? w with
    | some worker =>
      let settings := s.engine.settings.bridge
      { s with launched := s.launched ++
          [(⟨worker.command, settings.workingDir, settings.env, worker.pid⟩ : Launched)] }
    | none => s
  | .deliver _ q => { s with sent := s.sent ++ [q] }
  | _ => s

/-- Passes what the engine orders on to the worker. -/
def passOn (s : Session) : Session :=
  let orders := s.engine.orders
  let s := orders.foldl record s
  { s with script := orders.foldl Script.order s.script }.withEngine { s.engine with orders := [] }

/-- How many rounds, and how many actions of the worker, may follow one another without any time
passing. -/
def settleFuel : Nat := 100000

/-- Lets the engine run until it cannot go on. -/
def runEngine (s : Session) : Session :=
  passOn { s with machine := s.machine.settle Engine.rules settleFuel }

/-- Lets engine and worker go on in turn until neither can.  The engine comes first, so the worker
answers only when nothing else is left to do. -/
def goOn : Nat → Session → Session
  | 0, s => s
  | fuel + 1, s =>
    let s := s.runEngine
    match s.script.queue with
    | [] => s
    | action :: rest =>
      let (script, e) := { s.script with queue := rest }.perform s.engine action
      goOn fuel ({ s with script }.withEngine e)

/-- Lets engine and worker go on until neither can without time passing. -/
def settle (s : Session) : Session :=
  goOn settleFuel s

/-! ## Time -/

/-- Moves the clock. -/
def setClock (s : Session) (t : Instant) : Session :=
  s.withEngine { s.engine with loop := { s.engine.loop with now := t } }

/-- Moves the clock to each timer that is due up to a time, and then to that time. -/
def advanceTo (target : Instant) : Nat → Session → Session
  | 0, s => s.setClock target
  | fuel + 1, s =>
    match s.engine.loop.nextDue? with
    | some due =>
      if due ≤ target then advanceTo target fuel (s.setClock (max s.engine.now due)).settle
      else s.setClock target
    | none => s.setClock target

/-- Lets a number of milliseconds pass. -/
def advance (s : Session) (ms : Int) : Session :=
  advanceTo (s.engine.now + ms * 1000) settleFuel s

/-! ## Calls -/

/-- Starts a call in a task of its own. -/
def call (s : Session) (c : Engine.Call) : Session × Nat :=
  s.act fun e => let (loop, task) := e.loop.create (.call c); ({ e with loop }, task)

/-- How a task ended, if it has. -/
def ending? (s : Session) (task : Nat) : Option (Ending Engine.Trouble Engine.Value) :=
  s.engine.loop.ending? (.ended task)

/-- Cancels a task; the flag tells whether it had not ended. -/
def cancel (s : Session) (task : Nat) : Session × Bool :=
  s.act fun e => let (loop, hit) := e.loop.cancel task; ({ e with loop }, hit)

/-- Lets time pass until a task has ended or nothing is left to wait for. -/
def complete (task : Nat) : Nat → Session → Session
  | 0, s => s
  | fuel + 1, s =>
    let s := s.settle
    if (s.ending? task).isSome then s
    else
      match s.engine.loop.nextDue? with
      | some due => complete task fuel (s.setClock (max s.engine.now due))
      | none => s

/-! ## The worker -/

/-- Releases the request at an index, or all that have been put aside. -/
def release (s : Session) (index : Option Nat) : Session × Nat :=
  let (script, n) := s.script.release index
  ({ s with script }, n)

/-- The newest worker prints lines and may then exit. -/
def workerActs (s : Session) (errors output : List String) (exit : Option Exit) : Session :=
  match s.engine.bridge.workers.length with
  | 0 => s
  | w + 1 =>
    let actions := errors.map (.printError w) ++ output.map (.printOutput w)
      ++ (exit.map (Action.exit w)).toList
    { s with script := { s.script with queue := s.script.queue ++ actions } }

/-- The newest worker cannot be written to any more. -/
def breakPipe (s : Session) : Session :=
  match s.engine.bridge.workers.length with
  | 0 => s
  | w + 1 =>
    s.withEngine
      { s.engine with host := { s.engine.host with broken := w :: s.engine.host.broken } }

/-- Replaces the rules of the worker. -/
def setRules (s : Session) (rules : List Rule) : Session :=
  { s with script := { s.script with rules } }

/-! ## Collecting -/

/-- What has happened outside since last collected. -/
structure Traffic where
  sent : List Bridge.Request
  launched : List Launched
  published : List (String × List Diagnostic)
  log : List LogEntry

/-- Collects what has happened outside. -/
def collect (s : Session) : Session × Traffic :=
  let e := s.engine
  ({ s with sent := [], launched := [] }.withEngine { e with published := [], log := [] },
    ⟨s.sent, s.launched, e.published, e.log⟩)

end Session

end PikeAnalysis.Simulation
