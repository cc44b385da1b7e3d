import PikeAnalysis.Bridge.Query
import PikeAnalysis.Completion.FromText
import PikeAnalysis.Config.Model
import PikeAnalysis.Host
import PikeAnalysis.Include.Cache
import PikeAnalysis.Resolve.Lookup
import PikeAnalysis.Scheduler.Live
import PikeAnalysis.Stdlib.Index
import PikeAnalysis.Validation.Run

/-!
# The engine

What the engine can be asked to do, what comes of it, and its state.  The engine is a set of tasks
over one state: the bridge, the scheduler, the stores and the indexes, together with the loop that
runs the tasks.

Everything that the parts of the engine share is one record, and a part changes its own fields only:
the bridge and the scheduler decide on their own states, which the engine embeds, and what they
decide is carried out on the loop.  Whatever leaves the engine is collected in it: orders for
processes, diagnostics that were published, and what is to be told to an operator.  The outside
takes it from there, so no routine has an effect beyond the state.
-/

namespace PikeAnalysis.Engine

open PikeAnalysis.Concurrency

/-! ## Calls -/

/-- What the engine can be asked to do that may take time.  Each becomes a task of its own, so calls
overlap freely, and a caller that gives up cancels that task. -/
inductive Call where
  | start
  | stop
  | validate (uri : String) (version : Int) (text : String)
  /-- A validation that the scheduler does not know of. -/
  | runPipeline (uri : String) (version : Int) (text : String)
  | resolve (name uri : String)
  | visible (uri : String)
  /-- What one source of names knows, and all that it offers. -/
  | source (source : Resolve.Source) (name uri : String)
  | context (text : String) (line character : Int)
  | module (path : String)
  | preload
  | waitIdle (uri : String)
  | waitAllIdle
  | stopScheduler
  | startBridge
  | stopBridge
  | probeVersion
  | request (method : String) (params : List (String × Json))
  | query (q : Bridge.Query)
  | positions (text : String) (names : List String) (tokens : Option (List Wire.Token))
      (withBridge : Bool)
  /-- A whole run of the engine that validates texts, each with its address. -/
  | check (targets : List (String × String))
  /-- A whole run of the engine that reports on the worker. -/
  | report
  /-- A whole run of the engine that looks a module up. -/
  | describe (path : String)

/-- What is to be said about the worker.  It is read off the state of the bridge at one moment and
changes nothing. -/
structure BridgeHealth where
  running : Bool
  pid : Option Int
  /-- How long the worker has been running, in microseconds. -/
  uptime : Int
  restarts : Nat
  generation : Nat
  pending : Nat
  recentErrors : List String
  executable : String
  analyzerPath : Option String
  spawnError : Option String
  deriving Repr

/-- What comes of a call.  All tasks share one type of results, whatever they are for; a routine
takes the case that it knows to come, and treats any other as nothing. -/
inductive Value where
  | nothing
  | json (v : Json)
  | count (n : Nat)
  | version (v : Option String)
  | module (m : Option StdlibModule)
  /-- None if the validation was skipped. -/
  | diagnostics (ds : Option (List Diagnostic))
  | lookup (l : Lookup)
  | resolution (r : Resolution)
  | source (found : Option ResolvedSymbol) (offered : Resolution)
  | context (c : CompletionContext)
  | positions (index : PositionIndex)
  /-- The diagnostics of each text, or why the worker could not be started. -/
  | checked (r : Except SpawnFailure (List (List Diagnostic)))
  | report (version : Option String) (health : BridgeHealth)
  /-- A module, or nothing and why the worker could not be started, if it could not. -/
  | described (m : Option StdlibModule) (obstacle : Option SpawnFailure)
  /-- Whether the outside has taken what it was given. -/
  | taken (well : Bool)

/-- Why a call fails.  What the worker did wrong and what takes too long can be expected; the others
are faults of data that no caller can do anything about. -/
inductive Trouble where
  | bridge (why : BridgeFailure)
  | timedOut
  | fault (f : Fault)
  /-- A token lies beyond the end of its line. -/
  | beyondLine
  /-- A path that no file can have. -/
  | badPath

/-! ## Tasks -/

/-- What a task is for.  Each kind has one routine, in `Engine/Run.lean`. -/
inductive Job where
  | call (c : Call)
  /-- The rest of a validation call: waiting until the document is idle. -/
  | awaitValidation (uri : String) (version : Int)
  /-- Waiting until documents are idle, one after the other. -/
  | awaitIdle (uris : List String)
  /-- A request that others can join. -/
  | request (key method : String) (params : List (String × Json))
  /-- The load of a module. -/
  | load (path : String)
  | readOutput (worker : Nat)
  | readErrors (worker : Nat)
  | timer (id : Nat)
  | run (id : Nat)

/-- What is to be done when a task ends.  A hook runs even if the task was cancelled before its
first turn, so what it cleans up is cleaned up in any case. -/
inductive Hook where
  | forgetRequest (key : String) (task : Nat)
  | endLoading (path : String)
  | runOver (run : Nat)

/-! ## The outside -/

/-- One of the two streams of a worker, as far as it has not been read.  Lines wait here until the
reader has its turn; one that finds nothing leaves a ticket and goes to sleep. -/
structure Channel where
  lines : List String := []
  ended : Bool := false
  /-- The ticket of the reader that waits for more. -/
  waiter : Option Nat := none

/-- What the engine holds of a worker process.  There is one for each worker ever started, in the
same order as in the bridge. -/
structure Pipes where
  output : Channel := {}
  errors : Channel := {}
  readers : List Nat := []
  /-- The tickets of those who wait for the worker's end. -/
  exitWaiters : List Nat := []

/-- What a worker process is told.  Orders leave the engine in the order in which they were given,
requests to one worker among them. -/
inductive Order where
  | launch (worker : Nat)
  | deliver (worker : Nat) (request : Bridge.Request)
  | terminate (worker : Nat)
  | kill (worker : Nat)

/-- What becomes of published diagnostics.  One that takes its time is waited for, and may be called
off or fail meanwhile. -/
inductive Sink where
  | absent | accepts | fails
  /-- Whether they are accepted is known later. -/
  | slow
  deriving DecidableEq, Repr

/-! ## State -/

/-- The state of the engine.  The fields after the sink are the engine's side of the outside. -/
structure State where
  loop : Loop Job Hook Trouble Value := {}
  settings : Config.Settings := {}
  host : Host
  bridge : Bridge.State := {}
  pipes : List Pipes := []
  scheduler : Scheduler.Live
  stores : Stores := {}
  stdlib : StdlibIndex := {}
  includes : IncludeCache := {}
  sink : Sink := .absent
  /-- What is waited for of the outside: processes that are being started, full pipes and slow
  sinks. -/
  delays : List Nat := []
  /-- What is still to be told to the worker processes. -/
  orders : List Order := []
  /-- What has been published, and what was to be told to an operator, since last collected. -/
  published : List (String × List Diagnostic) := []
  log : List LogEntry := []

/-- A routine of the engine.  It is a program over the state, with one kind of trouble for
everything that can go wrong in it. -/
abbrev Act := Routine State Trouble Value Job

namespace State

/-- An engine that has done nothing yet.  Every part takes what concerns it from the settings; the
two budgets are given besides, since those of the settings may be endless. -/
def initial (settings : Config.Settings) (typedbBudget stdlibBudget : Int) (host : Host)
    (sink : Sink) : State :=
  { settings
    host
    sink
    bridge := { recentMax := settings.bridge.recentErrorsMax }
    scheduler := { machine := Scheduler.State.start settings.debounce }
    stores := { programs := .empty typedbBudget }
    stdlib := {
      maxModules := settings.stdlibModules
      budget := stdlibBudget
      negativeTtl := settings.negativeTtl }
    includes := { ttl := settings.includeTtl } }

def now (s : State) : Instant :=
  s.loop.now

def note (s : State) (entries : List LogEntry) : State :=
  { s with log := s.log ++ entries }

def order (s : State) (o : Order) : State :=
  { s with orders := s.orders ++ [o] }

end State

instance : Scheduler.HasScheduler State Job Hook Trouble Value where
  loop := State.loop
  withLoop s l := { s with loop := l }
  unit := .nothing
  scheduler := State.scheduler
  withScheduler s l := { s with scheduler := l }
  timerJob := .timer
  runJob := .run
  runOver := .runOver
  closed uri s := { s with stores := s.stores.closed uri }

/-- Tells an operator. -/
def tell (entry : LogEntry) : Act Unit :=
  .modify fun s => s.note [entry]

end PikeAnalysis.Engine
