import PikeAnalysis.Cli.Arguments
import PikeAnalysis.Config.Load
import PikeAnalysis.Progress
import PikeAnalysis.Report.Engine

/-!
# The command line

The three commands: checking files, reporting on the worker, and listing a module.  A command either
ends at once or needs a run of the engine, and says what is to be printed then.

Most of a command is pure text: reading the arguments, finding the settings, and putting a report
together from what the engine answered.  What needs the engine is a single call, and the command
says beforehand what follows from its result, whether that is a value or trouble.  A crash is what a
command does not handle; it ends with code one.
-/

namespace PikeAnalysis

/-- The version of the program. -/
def version : String := "0.1.0"

namespace Cli

/-! ## Outcomes -/

/-- What a command cannot deal with. -/
inductive Crash where
  /-- A variable of the environment is no JSON where it must be. -/
  | environment
  | markup
  /-- A budget is endless. -/
  | endlessBudget
  | trouble (t : Engine.Trouble)

/-- What a command prints and how it ends. -/
structure Outcome where
  code : Nat := 0
  output : String := ""
  errors : String := ""
  crash : Option Crash := none

/-- An outcome behind what has been printed before. -/
def Outcome.after (errors : String) (o : Outcome) : Outcome :=
  { o with errors := errors ++ o.errors }

/-- A command that fails with a message. -/
def failed (code : Nat) (message : String) : Outcome :=
  { code, errors := "Error: " ++ message ++ "\n" }

/-- A command that breaks down. -/
def crashed (c : Crash) : Outcome :=
  { code := 1, crash := some c }

/-- What is printed to the error stream, unless its markup is wrong. -/
def told (code : Nat) (output : String) (errors : Except Terminal.MarkupFault String) : Outcome :=
  match errors with
  | .ok errors => { code, output, errors }
  | .error _ => { crashed .markup with output }

/-- What a command needs next. -/
inductive Plan where
  | ended (o : Outcome)
  /-- A run of the engine, and the outcome that follows from it. -/
  | run (announced : String) (settings : Config.Settings) (call : Engine.Call)
      (finish : Except Engine.Trouble Engine.Value → Outcome)

/-- What surrounds a command. -/
structure Setting where
  host : Host
  globalPath : String
  environment : List (String × String)

/-! ## Usage -/

/-- The commands. -/
inductive Name where
  | check | health | module
  deriving DecidableEq, Repr

/-- How a command is called and what goes with it. -/
def Name.usage : Option Name → String × String
  | none => ("pikelens", "[OPTIONS] COMMAND [ARGS]...")
  | some .check => ("pikelens check", "[OPTIONS] FILES...")
  | some .health => ("pikelens health", "[OPTIONS]")
  | some .module => ("pikelens module", "[OPTIONS] PATH")

/-- A command line that is wrong. -/
def misused (name : Option Name) (fault : UsageFault) : Outcome :=
  let (path, form) := Name.usage name
  { code := 2
    errors := "Usage: " ++ path ++ " " ++ form ++ "\nTry '" ++ path ++ " --help' for help.\n\n"
      ++ "Error: " ++ fault.message ++ "\n" }

/-- The options before the command. -/
def mainOptions : List Opt :=
  [{ key := "version", long := "--version" },
    { key := "verbose", long := "--verbose", short := some 'v' }]

/-- The options of every command. -/
def commandOptions : List Opt :=
  [{ key := "json", long := "--json" },
    { key := "project", long := "--project", takesValue := true }]

/-! ## Paths -/

/-- Whether a path leads to a regular file. -/
def isFile (t : FileTree) (path : String) : Bool :=
  !path.isEmpty && !path.endsWith "/" && t.isFile path

/-- Whether a path leads to a directory. -/
def isDirectory (t : FileTree) (path : String) : Bool :=
  !path.isEmpty && !t.isFile path && t.isDirectory path

/-- Checks that the path of a project leads to a directory. -/
def checkProject (t : FileTree) (path : String) : Except UsageFault Unit :=
  if isDirectory t path then .ok ()
  else if isFile t path then
    .error (.badValue "--project" ("Directory " ++ quote path ++ " is a file."))
  else .error (.badValue "--project" ("Directory " ++ quote path ++ " does not exist."))

/-- Checks that a path leads to a file. -/
def checkFile (t : FileTree) (path : String) : Except UsageFault Unit :=
  if isFile t path then .ok ()
  else if isDirectory t path then
    .error (.badValue "FILES..." ("File " ++ quote path ++ " is a directory."))
  else .error (.badValue "FILES..." ("File " ++ quote path ++ " does not exist."))

/-! ## Settings -/

/-- What a file of settings holds. -/
def documentAt (h : Host) (path : String) : Config.Document :=
  match h.readText? path with
  | some text => .ofText text
  | none => .missing

/-- The settings of a project, or of the current directory.  They are put together from the global
file, the file of the project and the environment.  Whether a file is there is part of what the host
knows. -/
def settingsOf (s : Setting) (project : Option String) : Except Outcome Config.Settings :=
  let tree := s.host.surroundings.tree
  let base := project.elim tree.cwd fun p => Path.resolve tree.cwd (Path.ofText p)
  let path := Config.projectFile base.text
  let loaded := Config.load {
    globalPath := s.globalPath
    global := documentAt s.host s.globalPath
    projectPath := path
    project := documentAt s.host path
    environment := s.environment
    home := s.host.surroundings.home }
  match loaded with
  | .ok v => .ok (Config.Settings.ofJson v)
  | .error .environment => .error (crashed .environment)
  | .error (.config f) => .error (failed 1 ("Invalid configuration: " ++ f.message))

/-! ## Checking files -/

/-- The diagnostics of each path; for a path that is given twice the last ones count. -/
def byPath (paths : List String) (found : List (List Diagnostic)) :
    List (Path × List Diagnostic) :=
  (paths.zip found).foldl (fun acc e => Assoc.set (Path.ofText e.1) e.2 acc) []

/-- What is printed about checked files.  The exit code is 1 if there is an error among the
problems; warnings alone leave it at 0.  With the option for JSON the files are the keys of one
object. -/
def checkOutcome (json : Bool) (results : List (Path × List Diagnostic)) : Outcome :=
  let all := results.flatMap (·.2)
  let errors := all.countP (·.severity == .error)
  let code := if errors > 0 then 1 else 0
  if json then
    { code
      output := (Json.obj (results.map fun e =>
        (e.1.text, .arr (e.2.map (·.toJson))))).indented ++ "\n" }
  else
    let output := String.join (results.flatMap fun e => e.2.map fun d => d.describe e.1 ++ "\n")
    let problems := pluralize all.length "problem" none
    told code output <|
      if errors > 0 then
        Progress.status (pluralize errors "error" none ++ ", " ++ problems ++ " total") .error 0
      else if all.isEmpty then Progress.status "No problems found" .success 0
      else Progress.status problems .warning 0

/-- Checks files.  A file that cannot be read is checked as an empty text.  The worker that is
missing is a failure of its own, with exit code 2. -/
def check (s : Setting) (settings : Config.Settings) (json : Bool) (paths : List String) : Plan :=
  match Progress.announcement ("Checking " ++ pluralize paths.length "file" none) 0 with
  | .error _ => .ended (crashed .markup)
  | .ok announced =>
    let tree := s.host.surroundings.tree
    let targets := paths.map fun p =>
      (Uri.ofPath tree.cwd p, (s.host.readText? p).getD "")
    .run announced settings (.check targets) fun
      | .ok (.checked (.ok found)) => checkOutcome json (byPath paths found)
      | .ok (.checked (.error why)) =>
        failed 2 ("Analyzer worker unavailable: " ++ (BridgeFailure.spawn why).message)
      | .ok _ => {}
      | .error t => crashed (.trouble t)

/-! ## Reporting on the worker -/

/-- A text unless it is missing or empty. -/
def textOr (s : Option String) (fallback : String) : String :=
  match s with
  | some t => if t.isEmpty then fallback else t
  | none => fallback

/-- The health of the worker as a table.  Rows about the process and about a failed start are only
there if there is one. -/
def healthTable (version : Option String) (h : Engine.BridgeHealth) : Terminal.Table :=
  { header := none
    columns := 2
    rows :=
      [["Worker", if h.running then "[green]running[/green]" else "[red]not running[/red]"],
        ["Pike version", textOr version "unknown"],
        ["Executable", h.executable],
        ["Analyzer", textOr h.analyzerPath "-"]]
      ++ (h.pid.map fun pid => ["PID", toString pid]).toList
      ++ [["Restarts", toString h.restarts]]
      ++ (if (textOr h.spawnError "").isEmpty then []
        else [["Spawn error", "[red]" ++ textOr h.spawnError "" ++ "[/red]"]])
      ++ h.recentErrors.map fun line => ["Recent error", line] }

/-- Reports on the worker.  That the worker does not run is reported and is no failure. -/
def health (settings : Config.Settings) (json : Bool) : Plan :=
  match Progress.announcement "Starting analyzer" 0 with
  | .error _ => .ended (crashed .markup)
  | .ok announced =>
    .run announced settings .report fun
      | .ok (.report version h) =>
        if json then
          { output := (Json.obj [("version", Json.ofText? version),
              ("bridge", Report.bridge h)]).indented ++ "\n" }
        else told 0 "" (healthTable version h).text
      | .ok _ => {}
      | .error t => crashed (.trouble t)

/-! ## Listing a module -/

/-- The symbols of a module by name, each with the name of its type. -/
def moduleRows (m : StdlibModule) : Except Fault (List (Symbol × Option String)) :=
  ((m.symbols.map (·.2)).mergeSort fun a b => a.name ≤ b.name).mapM fun s => do
    return (s, ← s.typeName?)

/-- A module as a value. -/
def moduleJson (m : StdlibModule) (rows : List (Symbol × Option String)) : Json :=
  .obj [
    ("module", .str m.path), ("resolved_path", Json.ofText? m.resolvedPath),
    ("inherits", .arr (m.inherits.map .str)),
    ("symbols", .arr (rows.map fun (s, t) =>
      .obj [("name", .str s.name), ("kind", .str s.kind.text), ("type", Json.ofText? t)]))]

/-- A module as a table. -/
def moduleTable (m : StdlibModule) (rows : List (Symbol × Option String)) : Terminal.Table :=
  { title := some (m.path ++ " (" ++ m.fileOr "builtin" ++ ")")
    header := some ["Name", "Kind", "Type"]
    columns := 3
    rows := rows.map fun (s, t) => [s.name, s.kind.text, t.getD ""] }

/-- What is printed about a module.  Modules that it inherits are named in a line below the
table. -/
def moduleOutcome (json : Bool) (m : StdlibModule) : Outcome :=
  match moduleRows m with
  | .error f => crashed (.trouble (.fault f))
  | .ok rows =>
    if json then { output := (moduleJson m rows).indented ++ "\n" }
    else
      told 0 "" do
        let table ← (moduleTable m rows).text
        if m.inherits.isEmpty then return table
        return table ++ (← Terminal.messageText ("Inherits: " ++ ", ".intercalate m.inherits))

/-- Lists a module.  A module that is not found is a failure, and why the worker could not be
started is given as the reason if that was it. -/
def module (settings : Config.Settings) (json : Bool) (path : String) : Plan :=
  match Progress.announcement ("Resolving " ++ path) 0 with
  | .error _ => .ended (crashed .markup)
  | .ok announced =>
    .run announced settings (.describe path) fun
      | .ok (.described (some m) _) => moduleOutcome json m
      | .ok (.described none obstacle) =>
        let reason := obstacle.elim "not found" fun why =>
          textOr (some (BridgeFailure.spawn why).message) "not found"
        failed 1 ("Module " ++ path ++ ": " ++ reason)
      | .ok _ => {}
      | .error t => crashed (.trouble t)

/-! ## Commands -/

/-- Checks the options and arguments of a command in the order in which they were given. -/
def checkArguments (t : FileTree) (name : Name) (p : Parsed) : Except UsageFault Unit := do
  match p.value? "project" with
  | some path => checkProject t path
  | none => pure ()
  match name, p.rest with
  | .check, [] => .error (.missingArgument "FILES...")
  | .check, files => files.forM (checkFile t)
  | .health, [] => .ok ()
  | .health, extra => .error (.extraArguments extra)
  | .module, [] => .error (.missingArgument "PATH")
  | .module, [_] => .ok ()
  | .module, _ :: extra => .error (.extraArguments extra)

/-- Runs a command with its arguments.  Faults in the arguments come before the settings are looked
at. -/
def runCommand (s : Setting) (name : Name) (args : List String) : Plan :=
  let parsed := do
    let p ← parse commandOptions true none args {}
    checkArguments s.host.surroundings.tree name p
    return p
  match parsed with
  | .error fault => .ended (misused (some name) fault)
  | .ok p =>
    match settingsOf s (p.value? "project") with
    | .error o => .ended o
    | .ok settings =>
      let json := p.has "json"
      match name with
      | .check => check s settings json p.rest
      | .health => health settings json
      | .module => module settings json (p.rest.headD "")

/-- Runs a command line.  The option for the version is answered before a command is looked for. -/
def start (s : Setting) (args : List String) : Plan :=
  match parse mainOptions false none args {} with
  | .error fault => .ended (misused none fault)
  | .ok p =>
    if p.has "version" then
      .ended { output := "pikelens, version " ++ version ++ "\n" }
    else
      match p.rest with
      | [] => .ended (misused none .missingCommand)
      | "check" :: rest => runCommand s .check rest
      | "health" :: rest => runCommand s .health rest
      | "module" :: rest => runCommand s .module rest
      | name :: _ => .ended (misused none (.unknownCommand name))

end Cli

end PikeAnalysis
