import PikeAnalysis.Diagnostic.Basic
import PikeAnalysis.Failure
import PikeAnalysis.Text.Character
import PikeAnalysis.Text.Lines

/-!
# Collecting diagnostics

The diagnostics of one analysis: a note for each failed section, then what the compiler reports,
then the variables that may be read before they are set.  Reports that only reflect how a module was
loaded are left out, and the list is cut at a limit.

The notes on failed sections come first.  The limit is looked at before each report that follows
them, and a list that has reached it by then is given out as it is; only a list to which everything
was added is cut.  The mark of a report begins at its column, or where the code of its line does,
and never crosses the end of the line; in a comment it is short.  Which reports are noise is decided
by phrases in their message.
-/

namespace PikeAnalysis.Diagnostic

/-! ## Noise -/

/-- Phrases of reports about code that is fine where it stands. -/
def noisePhrases : List String :=
  ["indexed module was:", "illegal program identifier", "not a valid program specifier",
    "failed to evaluate constant expression"]

/-- Whether a line says that a module lacks an index. -/
def isMissingIndex (line : List Char) : Bool :=
  let folded := line.map Text.foldCase
  match Text.find? "index ".toList folded with
  | some i => Text.containsText " not present in module".toList (folded.drop (i + 6))
  | none => false

/-- Whether a report is left out. -/
def isNoise (message : String) : Bool :=
  (Text.lines message.toList).any isMissingIndex
    || noisePhrases.any (Text.containsFolded · message.toList)

/-! ## The compiler -/

/-- A column that is known and not zero, counted from zero. -/
def knownColumn? (p : Wire.Position) : Option Int :=
  match p.column with
  | some c => if c = 0 then none else some (c - 1)
  | none => none

/-- How much of a comment is marked. -/
def commentWidth : Int := 10

/-- How much is marked for a variable without a name. -/
def unnamedWidth : Int := 10

/-- Whether a line, without its indentation, is a comment. -/
def opensComment (code : List Char) : Bool :=
  ["//", "*", "/*"].any fun mark => mark.toList.isPrefixOf code

/-- Where the mark of a report on a line begins: at its column, else where the code does. -/
def markStart (text : List Char) (p : Wire.Position) : Int :=
  match knownColumn? p with
  | some c => c
  | none =>
    if Text.allBlank text then 0 else (text.length - (Text.trimLeft Text.isBlank text).length : Int)

/-- Where the mark of a report that begins at `start` ends: with the line, or early in a comment. -/
def markStop (text : List Char) (start : Int) : Int :=
  let length : Int := text.length
  let code := Text.trimBlanks text
  let stop := if opensComment code then min (start + commentWidth) length else length
  let stop := if stop ≤ start then min (start + max 1 code.length) length else stop
  max stop start

/-- A report of the compiler.  Its own end counts if it lies behind its start. -/
def ofCompiler (lines : List (List Char)) (d : Wire.Diagnostic) : Diagnostic :=
  let line := max 0 (d.position.line - 1)
  let text := lines.getD line.toNat []
  let start : Position := ⟨line, markStart text d.position⟩
  let stop : Position := ⟨line, markStop text start.character⟩
  let stop :=
    match d.endPosition with
    | some p =>
      match knownColumn? p with
      | some c =>
        let given : Position := ⟨max 0 (p.line - 1), c⟩
        if start.before given then given else stop
      | none => stop
    | none => stop
  { range := ⟨start, stop⟩, severity := .ofText d.severity, message := d.message }

/-! ## Variables and failures -/

/-- A report on a variable that may be read before it is set.  It ends where the name ends.  A
report without a name is marked at a width that is fixed, and it is attributed to the compiler
itself. -/
def ofUninitialized (d : Wire.Uninitialized) : Diagnostic :=
  let name := d.name.getD ""
  let start : Position :=
    ⟨max 0 ((d.position.elim 1 (·.line)) - 1), max 0 (d.position.elim 0 (·.character))⟩
  let width : Int := if name.isEmpty then unnamedWidth else name.length
  { range := ⟨start, ⟨start.line, start.character + width⟩⟩
    severity := if d.severity = "warning" then .warning else .error
    message := d.message
    source := if name.isEmpty then "pike" else "pike-uninitialized" }

/-- The note that a section of the analysis failed, at the top of the document. -/
def ofFailure (failure : Failure) : Diagnostic :=
  { range := ⟨⟨0, 0⟩, ⟨0, 0⟩⟩
    severity := .warning
    message := failure.message
    source := "pikelens" }

/-- The notes on the failed sections of an analysis. -/
def failureNotes (a : Wire.Analysis) (uri : String) : List Diagnostic :=
  ((a.failure? "parse").toList.map fun m => ofFailure (.parse uri m))
    ++ ((a.failure? "introspect").toList.map fun m => ofFailure (.introspection uri m))

/-! ## All together -/

/-- The list with more entries, each unless `limit` is reached before it; the flag tells whether the
limit cut anything off. -/
def addUpTo (limit : Int) : List Diagnostic → List (Option Diagnostic) → List Diagnostic × Bool
  | out, [] => (out, false)
  | out, d? :: rest =>
    if (out.length : Int) ≥ limit then (out, true)
    else addUpTo limit (out ++ d?.toList) rest

/-- The first `limit` entries; with a negative limit, all but as many at the end. -/
def takeUpTo (limit : Int) (out : List Diagnostic) : List Diagnostic :=
  if limit < 0 then out.take (out.length - limit.natAbs) else out.take limit.toNat

/-- The reports of the compiler: those of the introspection, else those of the parser. -/
def compilerReports (a : Wire.Analysis) : List Wire.Diagnostic :=
  match a.introspect, a.parse with
  | some i, _ => i.diagnostics
  | none, some p => p.diagnostics
  | none, none => []

/-- The diagnostics of an analysis of a text.  Notes on failed sections alone are never cut short of
a report that follows them. -/
def collect (a : Wire.Analysis) (text : List Char) (uri : String) (limit : Int) :
    List Diagnostic :=
  let lines := Text.lines text
  let reports := (compilerReports a).map fun d =>
    if isNoise d.message then none else some (ofCompiler lines d)
  let (out, full) := addUpTo limit (failureNotes a uri) reports
  if full then out
  else
    let (out, full) := addUpTo limit out ((a.uninitialized.getD []).map (some ∘ ofUninitialized))
    if full then out else takeUpTo limit out

end PikeAnalysis.Diagnostic
