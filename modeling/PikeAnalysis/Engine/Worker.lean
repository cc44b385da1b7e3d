import PikeAnalysis.Engine.Model

/-!
# Tasks around the worker

Carries out what the bridge decides: its threads are tasks of the loop, and two more tasks read the
streams of each worker.

The bridge only decides, and has threads instead of tasks.  A task that drives a thread lets an
event happen to the bridge, does what is decided, and looks at what was decided about its own thread
(`nextOf`): it ends with it, or waits for what the thread waits for and then tells the bridge how
that was over.  Effects that concern others are carried out at once, in order.

The two readers of a worker are tasks that start over after each wait, as there is no bound on how
much a worker prints.  Lines that are there are heard one after the other within one turn.
-/

namespace PikeAnalysis.Engine

open PikeAnalysis.Concurrency

/-! ## Pipes -/

namespace State

def pipesOf (s : State) (w : Nat) : Pipes :=
  s.pipes.getD w {}

def setPipes (s : State) (w : Nat) (p : Pipes) : State :=
  { s with pipes := s.pipes.set w p }

/-- Raises the tickets of those who wait for something of a worker.  That changes the loop alone;
they go on when they have their turn. -/
def wake (s : State) (tickets : List Nat) : State :=
  { s with loop := tickets.foldl (fun l n => l.raise (.ticket n) (.value .nothing)) s.loop }

/-- A channel with more lines, and its end if there is no more to come.  Whoever waited for more is
told, and so no longer waits. -/
def feedChannel (c : Channel) (lines : List String) (ended : Bool) : Channel :=
  { lines := c.lines ++ lines, ended := c.ended || ended, waiter := none }

/-- Lines of a worker's output arrive. -/
def feedOutput (s : State) (w : Nat) (lines : List String) (ended : Bool) : State :=
  let p := s.pipesOf w
  (s.setPipes w { p with output := feedChannel p.output lines ended }).wake p.output.waiter.toList

/-- Lines of a worker's error stream arrive. -/
def feedErrors (s : State) (w : Nat) (lines : List String) (ended : Bool) : State :=
  let p := s.pipesOf w
  (s.setPipes w { p with errors := feedChannel p.errors lines ended }).wake p.errors.waiter.toList

end State

/-! ## The bridge -/

/-- What the bridge has to know about the outside.  Everything in it is read off the state at the
moment of the step: the host, the settings, and which tickets have been given up. -/
def outside (s : State) : Bridge.Outside :=
  { now := s.now
    command := s.host.surroundings.command s.settings.bridge.executable
      s.settings.bridge.analyzerPath
    launch := s.host.launch
    slow := s.host.slow
    write := s.host.write
    abandoned := fun n =>
      match s.loop.ending? (.turn n) with
      | some .cancelled => true
      | _ => false }

/-- How a request's answer ends the wait for it.  All who have joined a request see the same
ending. -/
def endingOf (answer : Except BridgeFailure Json) : Ending Trouble Value :=
  match answer with
  | .ok v => .value (.json v)
  | .error why => .error (.bridge why)

/-- Starts the tasks that read a new worker's streams.  They begin behind whatever is ready, and
until then its lines are kept in its channels. -/
def startReaders (s : State) (w : Nat) : State :=
  let (loop, out) := s.loop.create (.readOutput w)
  let (loop, err) := loop.create (.readErrors w)
  let s := { s with loop, pipes := s.pipes ++ [({ readers := [out, err] } : Pipes)] }
  s.order (.launch w)

/-- Carries out an effect of the bridge; those that concern a thread are left to the thread.  Those
that end or suspend a thread are seen by `nextOf`. -/
def carryOut (s : State) : Bridge.Effect → State
  | .waits .. | .ends .. | .register .. => s
  | .settle id answer => { s with loop := s.loop.raise (.answer id) (endingOf answer) }
  | .grant n => { s with loop := s.loop.raise (.turn n) (.value .nothing) }
  | .send w request => s.order (.deliver w request)
  | .launched => { s with host := s.host.launched }
  | .startReaders w => startReaders s w
  | .stopReaders w =>
    { s with loop := (s.pipesOf w).readers.foldl (fun l t => (l.cancel t).1) s.loop }
  | .terminate w => s.order (.terminate w)
  | .kill w => s.order (.kill w)
  | .log entry => s.note [entry]

/-- What a thread does after a step.  It is read off the effects of a step that begins or resumes
the thread. -/
inductive Next where
  | waits (on : Bridge.Wait)
  | ends (outcome : Bridge.Outcome)

/-- What the effects of a step say about its thread. -/
def nextOf (effects : List Bridge.Effect) : Option Next :=
  effects.findSome? fun
    | .waits _ on => some (.waits on)
    | .ends _ outcome => some (.ends outcome)
    | _ => none

/-- Lets something happen to the bridge.  Everything that the step decides is carried out before the
task does anything else. -/
def bridgeStep (e : Bridge.Event) (s : State) : State × Option Next :=
  let (bridge, effects) := s.bridge.step (outside s) e
  (effects.foldl carryOut { s with bridge }, nextOf effects)

/-- Lets something happen to the bridge that concerns no thread.  Lines, exits and the coming and
going of shared requests are told in this way. -/
def tellBridge (e : Bridge.Event) (s : State) : State :=
  (bridgeStep e s).1

/-- A worker has ended.  Its streams end with it, unless it leaves them to others. -/
def State.workerExited (s : State) (w : Nat) (code : Int) (quiet : Bool) : State :=
  let s := tellBridge (.exited w code) s
  let s := if quiet then s else (s.feedOutput w [] true).feedErrors w [] true
  let p := s.pipesOf w
  (s.setPipes w { p with exitWaiters := [] }).wake p.exitWaiters

/-! ## Waiting -/

/-- Waits for the end of a worker.  It does not wait if the exit is known already. -/
def awaitExit (w : Nat) : Act Unit := do
  match ← Routine.act fun (s : State) =>
      if (s.bridge.exitCode? w).isSome then (s, none)
      else
        let (loop, n) := s.loop.newTicket
        let p := s.pipesOf w
        (({ s with loop }).setPipes w { p with exitWaiters := p.exitWaiters ++ [n] }, some n) with
  | none => return ()
  | some n => (Routine.await (.ticket n) : Act Value).andThen fun _ => .done ()

/-- Asks to be told once the outside has done, or failed to do, what it takes time for. -/
def delay (s : State) : State × Nat :=
  let (loop, n) := s.loop.newTicket
  ({ s with loop, delays := s.delays ++ [n] }, n)

/-- The outside has done what somebody waits for, or failed to.  Telling it twice, or of something
nobody waits for, changes nothing. -/
def State.delayOver (s : State) (n : Nat) (well : Bool) : State :=
  if s.delays.contains n then
    { s with
      delays := s.delays.filter (· != n)
      loop := s.loop.raise (.outside n) (.value (.taken well)) }
  else s

/-- How a wait for a signal is over.  Nothing but a pipe or a sink can fail; a turn and an answer
come or are given up. -/
def overOf : Ending Trouble Value → Bridge.Resume
  | .cancelled => .cancelled
  | .value (.taken false) => .failed
  | _ => .done

/-- Waits for what a thread waits for.  The outside is asked to tell when it is done, where that is
what is waited for. -/
def waitFor (on : Bridge.Wait) : Act Bridge.Resume :=
  match on with
  | .turn n => .wait (.turn n) fun e => .done (overOf e)
  | .answer id => .wait (.answer id) fun e => .done (overOf e)
  | .launch | .pipe _ => do
    let n ← Routine.act delay
    .wait (.outside n) fun e => .done (overOf e)
  | .readers w => do
    let readers ← Routine.read fun (s : State) => (s.pipesOf w).readers
    ((Routine.awaitAll (readers.map .ended) : Act Unit).onEnd fun
      | .cancelled => .done .cancelled
      | _ => .done .done)
  | .exit w graced => do
    let grace ← Routine.read fun (s : State) => s.settings.stopGrace
    let wait : Act Unit := if graced then (awaitExit w).within grace .timedOut else awaitExit w
    wait.onEnd fun
      | .value _ => .done .done
      | .error _ => .done .timedOut
      | .cancelled => .done .cancelled

/-! ## Threads -/

/-- How many waits a thread can have: as many as it has stages ahead of it, of which there are six
at most. -/
def threadFuel : Nat := 6

/-- How a thread ends that has waited for the answer to its request.  An error of the answer is the
error of the thread. -/
def reporting : Ending Trouble Value → Act Json
  | .value (.json v) => .done v
  | .value _ => .done .null
  | .error e => .fail e
  | .cancelled => .cancelled

/-- Goes on with a thread until it ends.  Every wait takes the thread to a later stage, so that the
number of waits does not run out; a thread that waited more often than it can would fail as one that
takes too long, and not end as a cancelled one does. -/
def runThread (t : Nat) : Nat → Option Next → Act Json
  | _, none => .done .null
  | _, some (.ends .finished) => .done .null
  | _, some (.ends (.failed why)) | _, some (.ends (.unwritten _ why)) => .fail (.bridge why)
  | _, some (.ends .cancelled) => .cancelled
  | _, some (.ends (.answered id)) => .wait (.answer id) reporting
  | 0, some (.waits _) => .fail .timedOut
  | fuel + 1, some (.waits on) => do
    let how ← waitFor on
    let next ← Routine.act (bridgeStep (.resume t how))
    runThread t fuel next

/-- A thread of the bridge in the current task.  The bridge knows it by the number of the task. -/
def bridgeThread (job : Bridge.Job) : Act Json := do
  let t ← Routine.read fun (s : State) => s.loop.current
  let next ← Routine.act (bridgeStep (.begin t job))
  runThread t threadFuel next

/-! ## Readers -/

/-- A ticket that is raised once there is more to read in a channel; none if there is no more to
come. -/
def moreOf (c : Channel) (l : Loop Job Hook Trouble Value) :
    Loop Job Hook Trouble Value × Channel × Option Nat :=
  if c.ended then (l, c, none)
  else
    let (l, n) := l.newTicket
    (l, { c with waiter := some n }, some n)

/-- Hears lines of a worker's output.  Each line is one event of the bridge, and there is no wait
between two of them. -/
def hearOutput (w : Nat) : List String → Act Unit
  | [] => return ()
  | line :: rest => do
    Routine.modify (tellBridge (.stdoutLine w line))
    hearOutput w rest

/-- Reads a worker's output to its end, and then waits for the end of the worker.  At the end of the
output the bridge is told, which gives the worker up if it is still in use. -/
def readOutput (w : Nat) : Act Value := do
  let lines ← Routine.act fun (s : State) =>
    let p := s.pipesOf w
    (s.setPipes w { p with output := { p.output with lines := [] } }, p.output.lines)
  hearOutput w lines
  match ← Routine.act fun (s : State) =>
      let p := s.pipesOf w
      let (loop, output, more) := moreOf p.output s.loop
      (({ s with loop }).setPipes w { p with output }, more) with
  | some n => .renew (.ticket n) (.readOutput w)
  | none => do
    awaitExit w
    Routine.modify (tellBridge (.stdoutEnded w))
    return .nothing

/-- Hears lines of a worker's error stream as far as one that announces the worker's end; the flag
tells whether there was one. -/
def hearErrors (w : Nat) : List String → Act Bool
  | [] => return false
  | line :: rest => do
    Routine.modify (tellBridge (.stderrLine w line))
    if Bridge.isFatalLine line then return true else hearErrors w rest

/-- Reads a worker's error stream to its end, or to a line that announces the end of the worker. -/
def readErrors (w : Nat) : Act Value := do
  let lines ← Routine.act fun (s : State) =>
    let p := s.pipesOf w
    (s.setPipes w { p with errors := { p.errors with lines := [] } }, p.errors.lines)
  if ← hearErrors w lines then return .nothing
  match ← Routine.act fun (s : State) =>
      let p := s.pipesOf w
      let (loop, errors, more) := moreOf p.errors s.loop
      (({ s with loop }).setPipes w { p with errors }, more) with
  | some n => .renew (.ticket n) (.readErrors w)
  | none => return .nothing

end PikeAnalysis.Engine
