import PikeAnalysis.Symbol.Basic
import PikeAnalysis.Assoc

/-!
# Symbol tables

The symbols of one document.  The tree is what is given; the flat list and the two name maps are
built from it in one go, so they always agree with it.

Names are qualified by the dotted path of the symbols around them, and reading order is the order of
the flat list: a symbol, then what is inside it, then its next sibling.  Where a name occurs more
than once the first one in that order wins, in the map of plain names as in that of dotted ones.
-/

namespace PikeAnalysis

namespace Symbol

/-! ## Flattening -/

/-- The dotted name of a symbol inside `parent`; at the top level it is the plain name. -/
def qualify (parent name : String) : String :=
  if parent.isEmpty then name else parent ++ "." ++ name

mutual

/-- A symbol and those inside it, in reading order, each with its dotted name. -/
def flatten (parent : String) : Symbol → List Symbol
  | s@⟨name, _, _, _, _, children, _, _, _, _⟩ =>
    let qualified := qualify parent name
    { s with qualifiedName := some qualified } :: flattenList qualified children

/-- The symbols of a forest in reading order. -/
def flattenList (parent : String) : List Symbol → List Symbol
  | [] => []
  | s :: rest => flatten parent s ++ flattenList parent rest

end

end Symbol

/-- The symbols of one document: the tree, the flat list, and the first symbol of each plain and
each dotted name. -/
structure SymbolTable where
  roots : List Symbol
  flat : List Symbol
  byName : List (String × Symbol)
  byQualified : List (String × Symbol)

namespace SymbolTable

/-- The first symbol of each plain name. -/
def indexByName (flat : List Symbol) : List (String × Symbol) :=
  flat.foldl (fun index s => Assoc.add s.name s index) []

/-- The first symbol of each dotted name. -/
def indexByQualified (flat : List Symbol) : List (String × Symbol) :=
  flat.foldl (fun index s =>
    match s.qualifiedName with
    | some q => if q.isEmpty then index else Assoc.add q s index
    | none => index) []

/-- The table of a forest. -/
def ofRoots (roots : List Symbol) : SymbolTable :=
  let flat := Symbol.flattenList "" roots
  { roots, flat, byName := indexByName flat, byQualified := indexByQualified flat }

/-- The table of an empty document. -/
def empty : SymbolTable := ofRoots []

/-- The first symbol whose dotted name is `q`. -/
def getQualified? (t : SymbolTable) (q : String) : Option Symbol :=
  Assoc.get? q t.byQualified

/-- The first symbol named `n`, else the first whose dotted name it is. -/
def get? (t : SymbolTable) (n : String) : Option Symbol :=
  match Assoc.get? n t.byName with
  | some s => some s
  | none => t.getQualified? n

/-- The distinct plain names in reading order. -/
def names (t : SymbolTable) : List String :=
  t.byName.map (·.1)

/-- Whether a name is the plain or dotted name of some symbol. -/
def contains (t : SymbolTable) (n : String) : Bool :=
  (Assoc.get? n t.byName).isSome || (Assoc.get? n t.byQualified).isSome

/-- The first root of each name. -/
def topLevel (t : SymbolTable) : List (String × Symbol) :=
  t.roots.foldl (fun index s => Assoc.add s.name s index) []

/-- The first class with this plain or dotted name. -/
def findClass? (t : SymbolTable) (name : String) : Option Symbol :=
  t.flat.find? fun s => s.kind == .klass && (s.name == name || s.qualifiedName == some name)

/-! ## Directives at the top level -/

/-- The inherit directives. -/
def inherits (t : SymbolTable) : List Symbol :=
  t.roots.filter (·.kind == .inherit)

/-- The include directives. -/
def includes (t : SymbolTable) : List Symbol :=
  t.roots.filter (·.isInclude)

/-- The import directives that include no file. -/
def imports (t : SymbolTable) : List Symbol :=
  t.roots.filter fun s => s.kind == .import && !s.isInclude

end SymbolTable

end PikeAnalysis
