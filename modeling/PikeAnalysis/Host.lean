import PikeAnalysis.Bridge.Command
import PikeAnalysis.Bridge.Machine
import PikeAnalysis.Text.Utf8

/-!
# The host

What the machine that the program runs on offers: files, the start of processes, and their pipes.
How the next starts of a process turn out is laid down in advance, and so is which pipes are full;
when something takes time, the end of it is an event of its own.

So nothing in the library asks the outside anything: a start, a write and the text of a file are
functions of the host, and a run of the engine is determined by the host, the settings and what
happens.  Statements about the engine are for every host, and a session puts a particular one in.
-/

namespace PikeAnalysis

/-- How the start of a process turns out. -/
inductive LaunchPlan where
  | succeed
  | notFound
  | refuse (reason : String)
  deriving DecidableEq, Repr

/-- What asking an executable for its version yields: what it prints, with its exit code, or the
reason why it could not be run. -/
inductive VersionAnswer where
  | printed (output errors : List UInt8) (code : Int)
  | refused (reason : String)
  deriving Repr

/-- The host of the program.  All that a session finds outside of the engine is in it: files,
processes that start or do not, and how writing to them goes. -/
structure Host where
  surroundings : Bridge.Surroundings
  /-- How the next starts turn out; those after them succeed. -/
  launches : List LaunchPlan := []
  nextPid : Int := 4242
  version : VersionAnswer := .printed [] [] 0
  /-- Whether the start of a process takes time. -/
  slow : Bool := false
  /-- The workers that cannot be written to any more. -/
  broken : List Nat := []
  /-- The workers whose pipes are full. -/
  full : List Nat := []

namespace Host

/-- How the next start of a process would turn out. -/
def launch (h : Host) : Bridge.Launch :=
  match h.launches.headD .succeed with
  | .succeed => .started h.nextPid
  | .notFound => .notFound
  | .refuse reason => .refused reason

/-- The host after the start of a process. -/
def launched (h : Host) : Host :=
  { h with
    launches := h.launches.tail
    nextPid := if h.launches.headD .succeed = .succeed then h.nextPid + 1 else h.nextPid }

/-- How writing to a worker would turn out. -/
def write (h : Host) (w : Nat) : Bridge.Writing :=
  if h.broken.contains w then .refused else if h.full.contains w then .stalled else .taken

/-- The text of a file: its bytes as text, every kind of line end as a newline.  None if there is no
such file. -/
def readText? (h : Host) (path : String) : Option String :=
  (h.surroundings.tree.file? path).map fun f =>
    String.ofList (Text.unifyLineEnds (Text.utf8Decode f.bytes))

/-- The version that the executable prints; its output comes before its errors. -/
def versionOf? (h : Host) (executable : String) : Option String :=
  match h.surroundings.command executable none, h.version with
  | .ok _, .printed output errors 0 =>
    Bridge.version? (String.ofList (Text.utf8Decode output ++ Text.utf8Decode errors))
  | _, _ => none

end Host

end PikeAnalysis
