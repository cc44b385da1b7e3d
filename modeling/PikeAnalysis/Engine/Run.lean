import PikeAnalysis.Engine.Queries
import PikeAnalysis.Concurrency.Machine
import PikeAnalysis.Engine.Ask

/-!
# Running the engine

What each kind of task does, a validation first: it asks for an analysis within the time limit,
drafts what follows, finds the positions of the names, commits the draft and publishes the
diagnostics.  Then the calls and events that the engine takes.

A validation has three places at which it can be interrupted: while the worker analyses the text,
while it finds names, and while the sink takes the diagnostics.  Whether the draft is still wanted
is found out in one step with storing it (`commit`), after the last wait before it, so there is no
moment between the check and the change.  That it is counted comes after the wait for the sink.
-/

namespace PikeAnalysis.Engine

open PikeAnalysis.Concurrency

/-! ## Validations -/

/-- Asks for the analysis of a document, within the time limit.  A failure of the worker and an
analysis that takes too long are results, which the validation reports on in its own way; any other
trouble ends it. -/
def analyze (t : Validation.Target) : Act (Except Validation.Miss Wire.Analysis) := do
  let limit ← Routine.read fun (s : State) => s.settings.validateLimit
  let asked : Act Json := Routine.within limit .timedOut do
    let path ← orTrouble (Uri.toPath t.uri)
    ask (.analyze t.text analyzeSections (some path) (some t.version))
  asked.onEnd fun
    | .value v => .done (.ok (Wire.Analysis.ofJson v))
    | .error (.bridge why) => .done (.error (.failed why))
    | .error .timedOut => .done (.error .timedOut)
    | .error e => .fail e
    | .cancelled => .cancelled

/-- Hands the diagnostics of a document to the sink, and tells what becomes of them. -/
def hand (uri : String) (diagnostics : List Diagnostic) (s : State) : State × Sink :=
  (match s.sink with
    | .absent => s
    | _ => { s with published := s.published ++ [(uri, diagnostics)] }, s.sink)

/-- Waits until the sink has taken what it was handed, if that takes time.  That it fails is told,
not passed on. -/
def awaitSink : Sink → Act Unit
  | .absent | .accepts => return ()
  | .fails => tell ⟨.error, "diagnostics_sink_failed"⟩
  | .slow => do
    let n ← Routine.act delay
    .wait (.outside n) fun
      | .cancelled => .cancelled
      | .error _ | .value (.taken false) => tell ⟨.error, "diagnostics_sink_failed"⟩
      | .value _ => return ()

/-- Publishes the diagnostics of a document.  What was handed to the sink has been published,
whatever becomes of the wait. -/
def publish (uri : String) (diagnostics : List Diagnostic) : Act Unit := do
  awaitSink (← Routine.act (hand uri diagnostics))

/-- Commits a draft in one step, and yields the diagnostics that are to be published.  A draft that
is void leaves the state as it is. -/
def commit (d : Validation.Draft) (positions : PositionIndex) (s : State) :
    State × Option (List Diagnostic) :=
  match Validation.commit s.stores d positions s.now with
  | .discarded => (s, none)
  | .stored stores log => ({ s with stores }.note log, some d.diagnostics)

/-- Validates one version of a document; none if the validation was skipped.  The target is read
first, and with it how often the document had been closed by then. -/
def validateVersion (uri : String) (version : Int) (text : String) :
    Act (Option (List Diagnostic)) := do
  let target ← Routine.read fun (s : State) => Validation.start s.stores uri version text
  match ← analyze target with
  | .error miss =>
    Routine.modify fun (s : State) =>
      let (stores, log) := Validation.missed s.stores miss
      { s with stores }.note log
    return none
  | .ok analysis =>
    let draft ← Routine.act fun (s : State) =>
      let (stores, draft) := Validation.draft s.stores s.settings.maxProblems target analysis
      ({ s with stores }, draft)
    let positions ← buildPositions text draft.table.names draft.tokens true
    match ← Routine.act (commit draft positions) with
    | none => return none
    | some diagnostics =>
      publish uri diagnostics
      Routine.modify fun (s : State) => { s with stores := Validation.complete s.stores }
      return some diagnostics

/-- What a run of the scheduler does; that it failed is told, not passed on.  A run that is
cancelled ends as cancelled and nothing is told. -/
def validateRun (r : Scheduler.Run) : Act Unit :=
  (validateVersion r.uri r.version r.text).onEnd fun
    | .value _ => .done ()
    | .error _ => .modify fun s => s.note [⟨.error, "validation_run_failed"⟩]
    | .cancelled => .cancelled

/-- The diagnostics of a document if they are of the version asked for or a later one. -/
def diagnosticsSince (uri : String) (version : Int) (s : State) : List Diagnostic :=
  match s.stores.documents.get? uri with
  | some entry => if entry.version < version then [] else entry.diagnostics
  | none => []

/-- Waits until a document is idle, and yields its diagnostics.  It looks again after each wait, as
the document may be busy with a later edit by then. -/
def awaitValidation (uri : String) (version : Int) : Act Value := do
  match ← (Scheduler.busyTicket uri : Act (Option Nat)) with
  | none => return .diagnostics (some (← Routine.read (diagnosticsSince uri version)))
  | some n => .renew (.ticket n) (.awaitValidation uri version)

/-- Waits until documents are idle, one after the other.  After each wait it looks at the document
again, and goes on to the next only when it is idle at that moment. -/
def awaitIdle : List String → Act Value
  | [] => return .nothing
  | uri :: rest => do
    match ← (Scheduler.busyTicket uri : Act (Option Nat)) with
    | none => awaitIdle rest
    | some n => .renew (.ticket n) (.awaitIdle (uri :: rest))

/-! ## Health -/

/-- The health of the bridge.  The first start of a worker is not counted among the restarts. -/
def bridgeHealth (s : State) : BridgeHealth :=
  let worker := s.bridge.current.bind s.bridge.worker?
  { running := s.bridge.isRunning
    pid := worker.map (·.pid)
    uptime := worker.elim 0 fun w => if w.exitCode.isNone then s.now - w.startedAt else 0
    restarts := s.bridge.spawns - 1
    generation := s.bridge.generation
    pending := s.bridge.pending.length
    recentErrors := s.bridge.recentErrors
    executable := s.settings.bridge.executable
    analyzerPath := s.settings.bridge.analyzerPath
    spawnError := s.bridge.spawnError.map fun why => (BridgeFailure.spawn why).message }

/-! ## Starting and stopping -/

/-- Starts the engine.  A worker that cannot be started leaves it degraded, not failed. -/
def start : Act Unit := do
  match ← orFailure (bridgeThread .start) with
  | .error (.spawn _) => tell ⟨.warning, "engine_degraded"⟩
  | .error why => .fail (.bridge why)
  | .ok _ =>
    let settings ← Routine.read fun (s : State) => s.settings
    if settings.bridge.debug then
      match ← orFailure (ask (.setDebug true)) with
      | .error _ => tell ⟨.warning, "set_debug_failed"⟩
      | .ok _ => pure ()
    if settings.preload then
      let _ ← preload

/-- Stops the engine: first the validations, then the worker.  In this order no validation can start
a worker again once it has been stopped. -/
def stop : Act Unit := do
  (Scheduler.stopBody : Act Unit)
  let _ ← bridgeThread .stop

/-- Starts the engine, does something and stops it, whatever comes of it.  The engine is stopped
even if the routine has failed or was cancelled, and only then is its ending passed on. -/
def during {α : Type} (body : Act α) : Act α := do
  start
  body.onEnd fun ending => do
    stop
    Routine.ofEnding ending

/-! ## Calls -/

/-- Makes a call in a task of its own and waits for it.  A caller that is cancelled does not cancel
it. -/
def callAside (c : Call) : Act Value := do
  let task ← Routine.act fun (s : State) =>
    let (loop, task) := s.loop.create (.call c)
    ({ s with loop }, task)
  Routine.awaitTask task

/-- Validates texts one after the other, if there is a worker.  Where the worker could not be
started there are no results but the reason. -/
def checkAll (targets : List (String × String)) : Act Value := do
  match ← Routine.read fun (s : State) => s.bridge.spawnError with
  | some why => return .checked (.error why)
  | none =>
    let results ← targets.mapM fun (uri, text) => do
      match ← callAside (.validate uri 1 text) with
      | .diagnostics ds => pure (ds.getD [])
      | _ => pure []
    return .checked (.ok results)

/-- The version of the worker's executable.  It asks the executable itself, so no worker has to be
running. -/
def probeVersion : Act (Option String) :=
  Routine.read fun (s : State) => s.host.versionOf? s.settings.bridge.executable

/-- Does what a call asks for.  Every caller of the engine gets what it wants through one of these
cases, and they contain no waits but those of the routines they name. -/
def callBody : Call → Act Value
  | .start => do
    start
    return .nothing
  | .stop => do
    stop
    return .nothing
  | .validate uri version text => do
    -- Whoever asks for diagnostics waits for those of the text just given, so the save comes first.
    Routine.modify fun (s : State) => Scheduler.tell s (.save uri (some version) (some text))
    awaitValidation uri version
  | .runPipeline uri version text => return .diagnostics (← validateVersion uri version text)
  | .resolve name uri => return .lookup (← resolve name uri)
  | .visible uri => return .resolution (← visible uri)
  | .source source name uri => askSource source name uri
  | .context text line character => return .context (← completionContext text line character)
  | .module path => return .module (← moduleInTime path)
  | .preload => return .count (← preload)
  | .waitIdle uri => awaitIdle [uri]
  | .waitAllIdle => do awaitIdle (← Routine.read fun (s : State) =>
    s.scheduler.machine.docs.map (·.1))
  | .stopScheduler => do
    (Scheduler.stopBody : Act Unit)
    return .nothing
  | .startBridge => do
    let _ ← bridgeThread .start
    return .nothing
  | .stopBridge => do
    let _ ← bridgeThread .stop
    return .nothing
  | .probeVersion => return .version (← probeVersion)
  | .request method params => return .json (← request method params)
  | .query q => return .json (← ask q)
  | .positions text names tokens withBridge =>
    return .positions (← buildPositions text names tokens withBridge)
  | .check targets => during (checkAll targets)
  | .report => during do
    let version ← probeVersion
    return .report version (← Routine.read bridgeHealth)
  | .describe path => during do
    let found ← moduleInTime path
    return .described found (← Routine.read fun (s : State) => s.bridge.spawnError)

/-! ## Tasks -/

/-- What a task does.  Jobs whose results nobody reads end with nothing as their value. -/
def jobBody : Job → Act Value
  | .call c => callBody c
  | .awaitValidation uri version => awaitValidation uri version
  | .awaitIdle uris => awaitIdle uris
  | .request _ method params => requestBody method params
  | .load path => loadBody path
  | .readOutput w => readOutput w
  | .readErrors w => readErrors w
  | .timer id => (Scheduler.timerBody id : Act Unit).andThen fun _ => .done .nothing
  | .run id => (Scheduler.runBody validateRun id).andThen fun _ => .done .nothing

/-- What follows the end of a task.  Each of them forgets something that was kept for as long as the
task was there. -/
def hookBody : Hook → State → State
  | .forgetRequest key task, s => tellBridge (.forget key task) s
  | .endLoading path, s => { s with stdlib := s.stdlib.endLoading path }
  | .runOver run, s => Scheduler.afterRunTask run s

/-- What the tasks and hooks of the engine do.  These are what a machine of the engine runs, and
what all courses of it refer to. -/
def rules : Rules State Trouble Value Job Hook :=
  { body := jobBody, hook := hookBody }

/-! ## Documents -/

namespace State

def documentOpened (s : State) (uri : String) (version : Int) (text : String) : State :=
  Scheduler.tell { s with stores := s.stores.opened uri } (.opened uri version text)

def documentChanged (s : State) (uri : String) (version : Int) (text : String) : State :=
  Scheduler.tell s (.change uri version text)

def documentSaved (s : State) (uri : String) (version : Option Int) (text : Option String) :
    State :=
  Scheduler.tell s (.save uri version text)

def documentClosed (s : State) (uri : String) : State :=
  Scheduler.tell s (.close uri)

end State

end PikeAnalysis.Engine
