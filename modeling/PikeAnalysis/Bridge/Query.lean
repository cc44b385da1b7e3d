import PikeAnalysis.Bridge.Request
import PikeAnalysis.Wire.Payload

/-!
# Queries

What the worker can be asked: the method, its parameters, and the model of the answer.

A query carries the model by which its answer is read, so that a caller cannot read an answer as
that of another question.  A text without a file name gets the usual one, and an empty name counts
as none; a version that is not known is left out.
-/

namespace PikeAnalysis.Bridge

/-- A question to the worker. -/
structure Query where
  method : String
  params : List (String × Json)
  model : Wire.Model

/-- The file name under which a text without one is analyzed. -/
def defaultFilename : String := "input.pike"

/-- A file name, or the usual one if there is none. -/
def filenameOr (name : Option String) : Json :=
  match name with
  | some n => .str (if n.isEmpty then defaultFilename else n)
  | none => .str defaultFilename

namespace Query

/-- Asks for sections of an analysis. -/
def analyze (code : String) (sections : List String) (filename : Option String)
    (version : Option Int) : Query :=
  { method := "analyze"
    params :=
      [("code", .str code), ("filename", filenameOr filename),
        ("include", .arr (sections.map .str))]
        ++ (version.map fun v => (("version", .int v) : String × Json)).toList
    model := .analyze }

def parse (code : String) (filename : Option String) : Query :=
  ⟨"parse", [("code", .str code), ("filename", filenameOr filename), ("line", .int 1)], .parse⟩

def introspect (code : String) (filename : Option String) : Query :=
  ⟨"introspect", [("code", .str code), ("filename", filenameOr filename)], .introspection⟩

def tokenize (code : String) : Query :=
  ⟨"tokenize", [("code", .str code)], .tokenize⟩

def findOccurrences (code : String) : Query :=
  ⟨"find_occurrences", [("code", .str code)], .occurrences⟩

def resolveStdlib (path : String) : Query :=
  ⟨"resolve_stdlib", [("module", .str path)], .stdlibResolve⟩

def resolveInclude (path file : String) : Query :=
  ⟨"resolve_include", [("includePath", .str path), ("currentFile", .str file)], .includeResolve⟩

def inherited (className : String) : Query :=
  ⟨"get_inherited", [("class", .str className)], .inheritedMembers⟩

/-- Asks what is to be completed; the line counts from one. -/
def completionContext (code : String) (line character : Int) : Query :=
  ⟨"get_completion_context",
    [("code", .str code), ("line", .int line), ("character", .int character)], .completionContext⟩

def setDebug (enabled : Bool) : Query :=
  ⟨"set_debug", [("enabled", .int (if enabled then 1 else 0))], .debug⟩

end Query

end PikeAnalysis.Bridge
