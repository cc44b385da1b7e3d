import PikeAnalysis.Config.Environment
import PikeAnalysis.Failure
import PikeAnalysis.Path
import PikeAnalysis.Shape.Check
import PikeAnalysis.Yaml.Reader

/-!
# Loading the settings

The settings come from two files, the environment and the caller, each on top of the one before, and
from defaults where none of them says anything.

A file of settings is an object or says nothing; anything else at its top is an error of its own.
The four sources are merged before anything is checked, so a value is judged by where it ends up and
not by where it comes from, and a source can complete what another one began.  Checking fills in the
defaults and refuses sections that do not exist; what is wrong is reported with its place, its value
and the limit that it breaks.
-/

namespace PikeAnalysis.Config

/-! ## Files -/

/-- What a file of settings holds: nothing if there is none, and no value if it cannot be read. -/
inductive Document where
  | missing
  | unreadable
  | value (v : Json)

/-- What a text of settings holds. -/
def Document.ofText (text : String) : Document :=
  match Yaml.read? text.toList with
  | some v => .value v
  | none => .unreadable

/-- Why a file that cannot be read cannot be. -/
def unreadableReason : String := "the syntax is wrong"

/-- The settings of a file.  One that says nothing has none.  Of a file that cannot be read, or has
no mapping at its top, the failure names the path. -/
def Document.fields (path : String) : Document → Except Failure (List (String × Json))
  | .missing => .ok []
  | .unreadable => .error (.configParse path unreadableReason)
  | .value v =>
    if v.isEmpty then .ok []
    else
      match v with
      | .obj fields => .ok fields
      | _ => .error (.configParse path "top level must be a mapping")

/-- The path of a project's settings. -/
def projectFile (root : String) : String :=
  (Path.join (Path.ofText root) (Path.ofText ".pikelens/config.yaml")).text

/-! ## Checking -/

/-- A destination with the tilde for the home directory replaced. -/
def expandDestination (home s : String) : String :=
  if s = "~" ∨ s.startsWith "~/" then home ++ (s.drop 1).toString else s

/-- Log outputs with the tilde for the home directory replaced in their destinations. -/
def expandOutputs (home : String) (v : Json) : Json :=
  onField "logging" (onField "outputs" fun
    | .arr outputs => .arr (outputs.map (onField "destination" fun
      | .str s => .str (expandDestination home s)
      | d => d))
    | o => o) v
where
  /-- Changes a field of an object. -/
  onField (key : String) (f : Json → Json) : Json → Json
    | .obj fields => .obj (fields.map fun e => if e.1 = key then (e.1, f e.2) else e)
    | v => v

/-- Checks settings; the sections are all that they may name.  What is wrong with a value is found
before a section that nobody knows, whichever comes first in the file. -/
def checkSettings (home : String) (fields : List (String × Json)) : Except Failure Json :=
  let outcome : Except Issue Json :=
    match Shape.check rootShape (expandOutputs home (.obj fields)) with
    | .error issue => .error issue
    | .ok v =>
      match Shape.unknownField? rootFields fields with
      | some issue => .error issue
      | none => .ok v
  outcome.mapError fun issue => .configValue issue.location issue.input issue.message

/-! ## Loading -/

/-- Where settings come from. -/
structure Sources where
  globalPath : String
  global : Document := .missing
  projectPath : String
  project : Document := .missing
  environment : List (String × String) := []
  given : List (String × Json) := []
  home : String

/-- Why settings cannot be loaded. -/
inductive LoadFailure where
  | config (f : Failure)
  | environment

/-- Loads the settings, as a value with every section and field. -/
def load (s : Sources) : Except LoadFailure Json := do
  let global ← (s.global.fields s.globalPath).mapError .config
  let project ← (s.project.fields s.projectPath).mapError .config
  let named ← (ofEnvironment s.environment).mapError fun _ => .environment
  let fields := mergeFields (mergeFields global project) (mergeFields named s.given)
  (checkSettings s.home fields).mapError .config

end PikeAnalysis.Config
