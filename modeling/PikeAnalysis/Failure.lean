import PikeAnalysis.Json.Literal

/-!
# Failures

Everything that can go wrong, each case with the facts it is about.  The code, the message, whether
trying again makes sense and the details to report all follow from the case.

A case holds facts and no wording, so that no two places can word one failure differently.  From a
case follow its code, by which callers tell failures apart, whether the same call may succeed when
it is made again, and the details that a report has beside the message.  The failures of the bridge
are a type of their own because they pass through the engine unchanged.
-/

namespace PikeAnalysis

/-! ## Codes -/

/-- The codes under which failures are reported. -/
inductive FailureCode where
  | configParse | configValue | configMissing
  | bridgeSpawn | bridgeCrashed | bridgeStopped | bridgeRequest | bridgeResponse
  | parse | introspection | moduleResolution | cacheBudget | staleVersion
  | internal | internalTimeout
  deriving DecidableEq, Repr

namespace FailureCode

/-- The number of a code.  Its thousands name the area: configuration, bridge, analysis,
internal. -/
def number : FailureCode → Nat
  | .configParse => 2001
  | .configValue => 2002
  | .configMissing => 2004
  | .bridgeSpawn => 3001
  | .bridgeCrashed => 3002
  | .bridgeStopped => 3003
  | .bridgeRequest => 3004
  | .bridgeResponse => 3005
  | .parse => 4001
  | .introspection => 4002
  | .moduleResolution => 4003
  | .cacheBudget => 4004
  | .staleVersion => 4005
  | .internal => 9001
  | .internalTimeout => 9002

/-- The word for a code.  These words are what is printed and logged, so they do not change with the
wording of messages. -/
def label : FailureCode → String
  | .configParse => "CONFIG_PARSE_ERROR"
  | .configValue => "CONFIG_INVALID_VALUE"
  | .configMissing => "CONFIG_FILE_NOT_FOUND"
  | .bridgeSpawn => "BRIDGE_SPAWN_FAILED"
  | .bridgeCrashed => "BRIDGE_CRASHED"
  | .bridgeStopped => "BRIDGE_STOPPED"
  | .bridgeRequest => "BRIDGE_REQUEST_FAILED"
  | .bridgeResponse => "BRIDGE_BAD_RESPONSE"
  | .parse => "PARSE_ERROR"
  | .introspection => "INTROSPECTION_FAILURE"
  | .moduleResolution => "MODULE_RESOLUTION_FAILURE"
  | .cacheBudget => "CACHE_BUDGET_EXCEEDED"
  | .staleVersion => "STALE_VERSION_WRITE"
  | .internal => "INTERNAL_ERROR"
  | .internalTimeout => "INTERNAL_TIMEOUT"

/-- All codes by number. -/
def all : List FailureCode :=
  [.configParse, .configValue, .configMissing, .bridgeSpawn, .bridgeCrashed, .bridgeStopped,
    .bridgeRequest, .bridgeResponse, .parse, .introspection, .moduleResolution, .cacheBudget,
    .staleVersion, .internal, .internalTimeout]

end FailureCode

/-! ## The bridge -/

/-- Why the worker cannot be started. -/
inductive SpawnFailure where
  | executableMissing (executable : String)
  | scriptMissing (path : String)
  | refused (executable reason : String)
  deriving DecidableEq, Repr

/-- What can happen to a request to the worker.  Where a method was waiting it is named, since that
is what a caller knows of. -/
inductive BridgeFailure where
  | spawn (why : SpawnFailure)
  /-- The worker ended, with its exit code and the method that was waiting, where known. -/
  | exited (code : Option Int) (method : Option String)
  /-- The worker printed a line that announces its end. -/
  | fatalOutput (line : String)
  | stopped (method : String)
  /-- The worker answered with an error. -/
  | rejected (method message : String) (code : Option Int)
  /-- The worker answered with something of the wrong shape. -/
  | malformed (method reason : String)
  deriving DecidableEq, Repr

/-! ## Every failure -/

/-- Any failure.  It carries the data of which its message and its details are made, and nothing
else. -/
inductive Failure where
  | configParse (path reason : String)
  | configValue (field : String) (value : Json) (reason : String)
  | configMissing (path : String)
  | bridge (why : BridgeFailure)
  | parse (uri reason : String)
  | introspection (uri reason : String)
  | unresolved (name reason : String)
  | overBudget (total budget : Int)
  | staleVersion (uri : String) (version current : Int)
  | internal (reason : String) (details : List (String × Json))
  deriving Repr

/-- A text or null. -/
def Json.ofText? (s : Option String) : Json :=
  s.elim .null .str

/-- A whole number or null. -/
def Json.ofInt? (n : Option Int) : Json :=
  n.elim .null .int

namespace BridgeFailure

def code : BridgeFailure → FailureCode
  | .spawn _ => .bridgeSpawn
  | .exited .. | .fatalOutput _ => .bridgeCrashed
  | .stopped _ => .bridgeStopped
  | .rejected .. => .bridgeRequest
  | .malformed .. => .bridgeResponse

def message : BridgeFailure → String
  | .spawn (.executableMissing executable) => "Worker executable not found: " ++ executable
  | .spawn (.scriptMissing path) => "Analyzer script not found: " ++ path
  | .spawn (.refused executable reason) => "Failed to spawn " ++ executable ++ ": " ++ reason
  | .exited code _ => "Worker process exited with code " ++ (Json.ofInt? code).display
  | .fatalOutput line => "Worker reported a fatal fault: " ++ line
  | .stopped method => "Bridge stopped before '" ++ method ++ "' completed"
  | .rejected method message _ => "Worker error in '" ++ method ++ "': " ++ message
  | .malformed method reason => "Malformed response to '" ++ method ++ "': " ++ reason

/-- Losing the worker or the bridge says nothing about the request, so it may be made again. -/
def retryable : BridgeFailure → Bool
  | .exited .. | .fatalOutput _ | .stopped _ => true
  | _ => false

def details : BridgeFailure → List (String × Json)
  | .spawn (.executableMissing executable) => [("executable", .str executable)]
  | .spawn (.scriptMissing path) => [("analyzer_path", .str path)]
  | .spawn (.refused executable reason) =>
    [("executable", .str executable), ("reason", .str reason)]
  | .exited code method => [("returncode", Json.ofInt? code), ("method", Json.ofText? method)]
  | .fatalOutput line => [("stderr", .str line)]
  | .stopped method => [("method", .str method)]
  | .rejected method _ code => [("method", .str method), ("worker_code", Json.ofInt? code)]
  | .malformed method reason => [("method", .str method), ("reason", .str reason)]

end BridgeFailure

namespace Failure

def code : Failure → FailureCode
  | .configParse .. => .configParse
  | .configValue .. => .configValue
  | .configMissing _ => .configMissing
  | .bridge why => why.code
  | .parse .. => .parse
  | .introspection .. => .introspection
  | .unresolved .. => .moduleResolution
  | .overBudget .. => .cacheBudget
  | .staleVersion .. => .staleVersion
  | .internal .. => .internal

def message : Failure → String
  | .configParse path reason => "Failed to parse config at " ++ path ++ ": " ++ reason
  | .configValue field _ reason => "Invalid value for '" ++ field ++ "': " ++ reason
  | .configMissing path => "Config file not found: " ++ path
  | .bridge why => why.message
  | .parse _ reason => "Parse failed: " ++ reason
  | .introspection _ reason => "Introspection failed: " ++ reason
  | .unresolved name reason => "Cannot resolve '" ++ name ++ "': " ++ reason
  | .overBudget total budget =>
    "Type database at " ++ toString total ++ " bytes exceeds budget " ++ toString budget
  | .staleVersion uri version current =>
    "Version " ++ toString version ++ " of " ++ uri ++ " is older than cached version "
      ++ toString current
  | .internal reason _ => "Internal error: " ++ reason

def retryable : Failure → Bool
  | .bridge why => why.retryable
  | _ => false

def details : Failure → List (String × Json)
  | .configParse path reason => [("path", .str path), ("reason", .str reason)]
  | .configValue field value reason =>
    [("field", .str field), ("value", .str value.display), ("reason", .str reason)]
  | .configMissing path => [("path", .str path)]
  | .bridge why => why.details
  | .parse uri _ | .introspection uri _ => [("uri", .str uri)]
  | .unresolved name _ => [("name", .str name)]
  | .overBudget total budget => [("total_bytes", .int total), ("budget_bytes", .int budget)]
  | .staleVersion uri version current =>
    [("uri", .str uri), ("version", .int version), ("current", .int current)]
  | .internal _ details => details

/-- The report of a failure. -/
def report (f : Failure) : Json :=
  .obj [("code", .int f.code.number), ("error", .str f.code.label), ("message", .str f.message),
    ("retryable", .bool f.retryable), ("details", .obj f.details)]

/-- A failure on one line. -/
def text (f : Failure) : String :=
  "[" ++ toString f.code.number ++ "] " ++ f.code.label ++ ": " ++ f.message

end Failure

end PikeAnalysis
