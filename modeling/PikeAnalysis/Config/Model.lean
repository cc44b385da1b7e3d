import PikeAnalysis.Clock
import PikeAnalysis.Log
import PikeAnalysis.Program.Database
import PikeAnalysis.Wire.Payload

/-!
# Settings

The settings of every part, their defaults and their limits.  Settings are checked as values first;
the structures hold what the parts need of them.

A section is a list of fields, each with a shape and a fallback, and the sections make one model.
Shapes know how to check a value and how to say what is wrong with it, so a limit is written once,
where the field is declared, and a fallback can be checked like any other value.  The structures at
the end are read off values that have passed, and the units that the parts calculate in are put in
place there.
-/

namespace PikeAnalysis.Config

/-! ## Shapes -/

/-- The names of the log levels. -/
def levelNames : List String :=
  ["DEBUG", "INFO", "WARNING", "ERROR", "CRITICAL"]

def field (name : String) (shape : Shape) (fallback : Json) (rest : Fields) : Fields :=
  .cons name none (some fallback) shape rest

/-- One output of log records. -/
def outputFields : Fields :=
  field "format" (.choice ["json", "console"]) (.str "console") <|
  field "destination" .destination (.str "stderr") <|
  field "level" (.optional (.choice levelNames)) .null .nil

/-- The output that there is unless others are given. -/
def defaultOutput : Json :=
  .obj [("format", .str "console"), ("destination", .str "stderr"), ("level", .null)]

def loggingFields : Fields :=
  field "level" (.choice levelNames) (.str "INFO") <|
  field "outputs" (.list (.model "LogOutputConfig" outputFields)) (.arr [defaultOutput]) .nil

def bridgeFields : Fields :=
  field "executable" .text (.str "pike") <|
  field "analyzer_path" (.optional .text) .null <|
  field "working_dir" (.optional .text) .null <|
  field "env" (.table .text) (.obj []) <|
  field "recent_errors_max" (.whole [.atLeast 1]) (.int 5) <|
  field "debug" .flag (.bool false) .nil

def validationFields : Fields :=
  field "debounce_ms" (.whole [.atLeast 50, .atMost 2000]) (.int 250) <|
  field "max_problems" (.whole [.atLeast 1]) (.int 100) .nil

def cacheFields : Fields :=
  field "type_db_budget_mb" (.number [.above 0]) (.float 50.0) .nil

def stdlibFields : Fields :=
  field "max_modules" (.whole [.atLeast 1]) (.int 50) <|
  field "budget_mb" (.number [.above 0]) (.float 20.0) <|
  field "negative_ttl_sec" (.number [.atLeast 0]) (.float 300.0) <|
  field "preload" .flag (.bool false) .nil

def resolutionFields : Fields :=
  field "include_ttl_sec" (.number [.atLeast 0]) (.float 30.0) <|
  field "max_inherit_depth" (.whole [.atLeast 1]) (.int 32) .nil

def timeoutsFields : Fields :=
  field "bridge_stop_sec" (.number []) (.float 2.0) <|
  field "validate_sec" (.number []) (.float 30.0) <|
  field "request_sec" (.number []) (.float 10.0) .nil

/-- The sections with the names of their models. -/
def sections : List (String × String × Fields) :=
  [("logging", "LoggingConfig", loggingFields),
    ("bridge", "BridgeConfig", bridgeFields),
    ("validation", "ValidationConfig", validationFields),
    ("cache", "CacheConfig", cacheFields),
    ("stdlib", "StdlibConfig", stdlibFields),
    ("resolution", "ResolutionConfig", resolutionFields),
    ("timeouts", "TimeoutsConfig", timeoutsFields)]

/-- The values of fields that are not given. -/
def defaultsOf : Fields → List (String × Json)
  | .nil => []
  | .cons name _ fallback _ rest => (name, fallback.getD .null) :: defaultsOf rest

/-- All settings, section by section. -/
def rootFields : Fields :=
  sections.foldr (fun s rest =>
    field s.1 (.model s.2.1 s.2.2) (.obj (defaultsOf s.2.2)) rest) .nil

/-- The shape of all settings. -/
def rootShape : Shape :=
  .model "PikeLensConfig" rootFields

/-! ## Structures -/

structure BridgeSettings where
  executable : String := "pike"
  analyzerPath : Option String := none
  workingDir : Option String := none
  env : List (String × String) := []
  recentErrorsMax : Nat := 5
  debug : Bool := false

/-- The settings that the engine runs with.  The defaults are those of a project that says
nothing. -/
structure Settings where
  bridge : BridgeSettings := {}
  debounce : Int := 250
  maxProblems : Int := 100
  /-- Bytes for the type database; none if the number of megabytes is endless. -/
  typedbBudget : Option Int := some (50 * megabyte)
  stdlibModules : Nat := 50
  /-- Bytes for the modules of the standard library; none if the number of megabytes is endless. -/
  stdlibBudget : Option Int := some (20 * megabyte)
  negativeTtl : Duration := Duration.milliseconds 300000
  preload : Bool := false
  includeTtl : Duration := Duration.milliseconds 30000
  maxInheritDepth : Nat := 32
  stopGrace : Duration := Duration.milliseconds 2000
  validateLimit : Duration := Duration.milliseconds 30000
  requestLimit : Duration := Duration.milliseconds 10000

/-- The floating-point number of a field. -/
def numberAt (v : Json) (key : String) : Float :=
  match v.field? key with
  | some (.float x) => x
  | _ => 0

/-- The whole part of a number of megabytes in bytes. -/
def bytesOfMegabytes (x : Float) : Option Int :=
  match Decimal.Binary.ofFloat (x * Float.ofNat megabyte) with
  | .finite negative m e =>
    let (num, den) := Decimal.scale m 2 e
    let n : Int := num / den
    some (if negative then -n else n)
  | _ => none

/-- The settings in a value that has the shape of all settings.  Nothing can go wrong here: the
value has been checked, so every field is there with its type. -/
def Settings.ofJson (v : Json) : Settings :=
  let part (name : String) : Json := (v.field? name).getD .null
  let bridge := part "bridge"
  let stdlib := part "stdlib"
  let timeouts := part "timeouts"
  { bridge := {
      executable := bridge.textAt "executable"
      analyzerPath := bridge.textAt? "analyzer_path"
      workingDir := bridge.textAt? "working_dir"
      env := ((bridge.fieldsAt? "env").getD []).filterMap fun e =>
        match e.2 with
        | .str s => some (e.1, s)
        | _ => none
      recentErrorsMax := (bridge.intAt "recent_errors_max").toNat
      debug := bridge.flagAt "debug" }
    debounce := (part "validation").intAt "debounce_ms"
    maxProblems := (part "validation").intAt "max_problems"
    typedbBudget := bytesOfMegabytes (numberAt (part "cache") "type_db_budget_mb")
    stdlibModules := (stdlib.intAt "max_modules").toNat
    stdlibBudget := bytesOfMegabytes (numberAt stdlib "budget_mb")
    negativeTtl := Duration.seconds (numberAt stdlib "negative_ttl_sec")
    preload := stdlib.flagAt "preload"
    includeTtl := Duration.seconds (numberAt (part "resolution") "include_ttl_sec")
    maxInheritDepth := ((part "resolution").intAt "max_inherit_depth").toNat
    stopGrace := Duration.seconds (numberAt timeouts "bridge_stop_sec")
    validateLimit := Duration.seconds (numberAt timeouts "validate_sec")
    requestLimit := Duration.seconds (numberAt timeouts "request_sec") }

end PikeAnalysis.Config
