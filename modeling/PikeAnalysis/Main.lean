import PikeAnalysis.Simulation.Command

/-!
# The program

Collects what the command line depends on, runs it, and prints what comes of it.  No process is
started from here, so every start of the worker is refused.

This is the only module that does anything.  What a command may need of the file tree is looked at
first: the settings of the user and of the project, the files that the command line names, and, once
the settings are known, the places at which the worker may be.  All that is decided after that is
decided by functions that the rest of the library is about.
-/

namespace PikeAnalysis.Main

/-- Why the worker is not started. -/
def refusal : String := "Processes cannot be started from here"

/-- The variables of the environment. -/
def environment : IO (List (String × String)) := do
  let bytes ← try IO.FS.readBinFile "/proc/self/environ" catch _ => pure ByteArray.empty
  let entries := (Text.splitOn '\x00' (Text.utf8Decode bytes.toList)).filter (!·.isEmpty)
  return entries.map fun e =>
    let name := e.takeWhile (· != '=')
    (String.ofList name, String.ofList (e.drop (name.length + 1)))

/-- A file tree with what is found at a path.  A directory is noted as one, and of a file the bytes
are taken.  What cannot be read is as if it were not there. -/
def look (t : FileTree) (path : String) : IO FileTree := do
  let place := (← IO.currentDir) / path
  if ← place.isDir then
    return t.putDirectory path
  else if ← place.pathExists then
    try
      return t.put path ⟨(← IO.FS.readBinFile place).toList, true⟩
    catch _ =>
      return t
  else
    return t

/-- A file tree with what is found at several paths. -/
def lookAll (t : FileTree) (paths : List String) : IO FileTree :=
  paths.foldlM look t

/-- The setting with what is found at further paths. -/
def withFiles (s : Cli.Setting) (paths : List String) : IO Cli.Setting := do
  let tree ← lookAll s.host.surroundings.tree paths
  return { s with
    host := { s.host with surroundings := { s.host.surroundings with tree := tree } } }

/-- The paths at which the executable and the script of the worker may be. -/
def workerPaths (s : Cli.Setting) (b : Config.BridgeSettings) : List String :=
  b.executable :: s.host.surroundings.searchPath.map (· ++ "/" ++ b.executable)
    ++ (b.analyzerPath.map fun p => (s.host.surroundings.expandHome p).text).toList

/-- Prints the outcome of a command. -/
def report (o : Cli.Outcome) : IO UInt32 := do
  IO.eprint o.errors
  IO.print o.output
  if o.crash.isSome then
    IO.eprintln "The command broke down."
  return UInt32.ofNat o.code

/-- Runs a command line.  The files that the command may look at are read first, so that the rest is
a function of what was found. -/
def run (args : List String) : IO UInt32 := do
  let environment ← environment
  let cwd := (← IO.currentDir).toString
  let home := (Assoc.get? "HOME" environment).getD "/"
  let globalPath := home ++ "/.config/pikelens/config.yaml"
  let setting : Cli.Setting := {
    host := {
      surroundings := {
        tree := { cwd := Path.ofText cwd }
        searchPath := ((Assoc.get? "PATH" environment).getD "").splitOn ":"
        home }
      launches := List.replicate 100 (.refuse refusal) }
    globalPath
    environment }
  let setting ← withFiles setting <|
    [globalPath, Config.projectFile cwd] ++ args ++ args.map Config.projectFile
  let plan := Cli.start setting args
  let setting ←
    match plan with
    | .ended _ => pure setting
    | .run _ settings _ _ => withFiles setting (workerPaths setting settings.bridge)
  report (Simulation.runPlan setting.host {} plan).outcome

end PikeAnalysis.Main

def main (args : List String) : IO UInt32 :=
  PikeAnalysis.Main.run args
