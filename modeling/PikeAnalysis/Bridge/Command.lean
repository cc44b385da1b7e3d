import PikeAnalysis.Path
import PikeAnalysis.Failure

/-!
# The worker's command line

Finds the executable of the worker, and the analyzer script if there is one.

The files around the program are an argument (`Surroundings`), so that what is looked for, and in
which order, can be told without a file system.  A name with a directory in it is taken as it is;
any other is looked for along the search path.  The tilde of a script's path is replaced by the home
directory, and a script that is not there is a failure of its own: the worker is then not started
without it.
-/

namespace PikeAnalysis.Bridge

/-- What the command line depends on. -/
structure Surroundings where
  tree : FileTree
  /-- The directories in which executables are looked up. -/
  searchPath : List String := ["bin"]
  home : String

/-- A file that can be run. -/
def Surroundings.isRunnable (s : Surroundings) (path : String) : Bool :=
  match s.tree.file? path with
  | some f => f.executable && !path.endsWith "/"
  | none => false

/-- The path of an executable: itself if it names a directory, else in the first directory of the
search path that has it. -/
def Surroundings.findExecutable? (s : Surroundings) (name : String) : Option String :=
  if name.toList.contains '/' then if s.isRunnable name then some name else none
  else (s.searchPath.map (· ++ "/" ++ name)).find? s.isRunnable

/-- A path with the tilde for the home directory replaced. -/
def Surroundings.expandHome (s : Surroundings) (path : String) : Path :=
  let p := Path.ofText path
  match p.isAbsolute, p.parts with
  | false, ['~'] :: rest =>
    let home := Path.ofText s.home
    { home with parts := home.parts ++ rest }
  | _, _ => p

/-- The command line of the worker.  The executable is looked for along the search path; a script
that is given has to be a file.  What is missing is named by the failure. -/
def Surroundings.command (s : Surroundings) (executable : String) (script : Option String) :
    Except SpawnFailure (List String) :=
  match s.findExecutable? executable with
  | none => .error (.executableMissing executable)
  | some found =>
    match script with
    | none => .ok [found]
    | some path =>
      let file := (s.expandHome path).text
      if s.tree.isFile file then .ok [found, file] else .error (.scriptMissing file)

end PikeAnalysis.Bridge
