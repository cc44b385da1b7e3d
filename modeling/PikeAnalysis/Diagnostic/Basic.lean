import PikeAnalysis.Path
import PikeAnalysis.Position

/-!
# Diagnostics

A message about a stretch of a document, as an editor shows it.

A diagnostic has two forms besides the record: the JSON value that editors take, where positions
count from zero and severities are numbers, and one line for people, which counts from one and
spells the severity out.  What a word of the worker means is decided here too, so that nothing else
compares such words.
-/

namespace PikeAnalysis

/-- How bad a diagnostic is. -/
inductive Severity where
  | error | warning | information | hint
  deriving DecidableEq, Repr, Inhabited

namespace Severity

/-- The number of a severity, from the worst on. -/
def number : Severity → Nat
  | .error => 1
  | .warning => 2
  | .information => 3
  | .hint => 4

/-- The word for a severity. -/
def label : Severity → String
  | .error => "error"
  | .warning => "warning"
  | .information => "information"
  | .hint => "hint"

/-- All severities, the worst first. -/
def all : List Severity :=
  [.error, .warning, .information, .hint]

/-- The severity of a number. -/
def ofNumber? (n : Int) : Option Severity :=
  all.find? fun s => (s.number : Int) == n

/-- The severity that a word of the worker means; a word for none means an error. -/
def ofText (s : String) : Severity :=
  if s = "warning" then .warning
  else if s = "info" ∨ s = "information" then .information
  else if s = "hint" then .hint
  else .error

end Severity

/-- A message about a stretch of a document. -/
structure Diagnostic where
  range : Range
  severity : Severity
  message : String
  source : String := "pike"
  deriving DecidableEq, Repr, Inhabited

namespace Diagnostic

def positionJson (p : Position) : Json :=
  .obj [("line", .int p.line), ("character", .int p.character)]

/-- A diagnostic in the form in which editors take it. -/
def toJson (d : Diagnostic) : Json :=
  .obj [
    ("range", .obj [("start", positionJson d.range.start), ("end", positionJson d.range.stop)]),
    ("severity", .int d.severity.number),
    ("message", .str d.message),
    ("source", .str d.source)]

/-- A diagnostic for people, with line and column counted from one. -/
def describe (path : Path) (d : Diagnostic) : String :=
  path.text ++ ":" ++ toString (d.range.start.line + 1) ++ ":"
    ++ toString (d.range.start.character + 1) ++ ": " ++ d.severity.label ++ ": " ++ d.message
    ++ " [" ++ d.source ++ "]"

end Diagnostic

end PikeAnalysis
