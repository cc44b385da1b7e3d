import PikeAnalysis.Clock
import PikeAnalysis.Symbol.Table
import PikeAnalysis.Text.Character
import PikeAnalysis.Text.Lines

/-!
# Modules of the standard library

A module as the worker describes it.  Modules are known by their dotted path.

An answer lists declarations of four kinds, and a module keeps the first symbol of each name over
all four, in the order in which the answer has them.  How big a module is taken to be depends on the
number of its symbols and of the programs it inherits, not on their contents: that is the measure
the index keeps within its budget.  The path that a caller gives is cleaned before it is looked at
(`cleanPath`): first blanks, then dots, each once.
-/

namespace PikeAnalysis

/-- Estimated bytes of a symbol of a module. -/
def stdlibSymbolBytes : Nat := 400

/-- Estimated bytes of an inherited program of a module. -/
def stdlibInheritBytes : Nat := 200

/-- The modules that are worth loading at the start. -/
def commonModules : List String :=
  ["Stdio", "Array", "String", "Mapping", "Stdio.File"]

/-- A module of the standard library. -/
structure StdlibModule where
  path : String
  symbols : List (String × Symbol)
  resolvedPath : Option String := none
  inherits : List String := []
  loadedAt : Instant := 0
  sizeBytes : Nat := 0

namespace StdlibModule

/-- A path without blanks and then without dots at its ends. -/
def cleanPath (path : String) : String :=
  String.ofList (Text.trim (· == '.') (Text.trimBlanks path.toList))

/-- The first symbol of each name among declarations. -/
def symbolMap (declarations : List Wire.Introspected) : List (String × Symbol) :=
  (declarations.filterMap Symbol.ofIntrospected?).foldl (fun index s => Assoc.add s.name s index) []

/-- The module that the worker's answer describes. -/
def ofAnswer (path : String) (a : Wire.StdlibAnswer) (now : Instant) : StdlibModule :=
  let symbols := symbolMap (a.symbols ++ a.functions ++ a.globals ++ a.classes)
  { path
    symbols
    resolvedPath := a.path
    inherits := a.inherits
    loadedAt := now
    sizeBytes := symbols.length * stdlibSymbolBytes + a.inherits.length * stdlibInheritBytes }

/-- The file of a module if it is known and not empty, else what is given. -/
def fileOr (m : StdlibModule) (fallback : String) : String :=
  match m.resolvedPath with
  | some p => if p.isEmpty then fallback else p
  | none => fallback

/-- Where the symbols of a module come from: its file, else its path. -/
def origin (m : StdlibModule) : String :=
  m.fileOr m.path

/-- The last name of a dotted path. -/
def lastName (path : String) : String :=
  String.ofList (Text.afterLast '.' path.toList)

/-- The symbol that stands for a whole module. -/
def asSymbol (m : StdlibModule) : Symbol :=
  { name := lastName m.path
    kind := .module
    qualifiedName := some m.path
    file := m.resolvedPath }

end StdlibModule

end PikeAnalysis
