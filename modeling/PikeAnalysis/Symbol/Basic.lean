import PikeAnalysis.Position

/-!
# Symbols

A declared name with what is known about it.  Symbols found by the parser have a position and may
hold other symbols; those known from introspection alone have neither.

There are two ways into the type.  `ofWire?` takes a declaration of the parser with all that is
inside it, and `ofIntrospected?` one that introspection knows; both refuse a declaration without a
name, and neither gives a dotted name, which is for the table of the document to decide.  What a
word of the worker means as a kind is decided here, with the rule for words that mean none.
-/

namespace PikeAnalysis

/-- The kinds of declarations. -/
inductive SymbolKind where
  | klass | method | variable | const | typedef | enumeration | enumConstant | inherit | «import»
  | module
  deriving DecidableEq, Repr, Inhabited

namespace SymbolKind

/-- The word for a kind.  The parser uses the same words. -/
def text : SymbolKind → String
  | .klass => "class"
  | .method => "method"
  | .variable => "variable"
  | .const => "constant"
  | .typedef => "typedef"
  | .enumeration => "enum"
  | .enumConstant => "enum_constant"
  | .inherit => "inherit"
  | .import => "import"
  | .module => "module"

/-- All kinds. -/
def all : List SymbolKind :=
  [.klass, .method, .variable, .const, .typedef, .enumeration, .enumConstant, .inherit, .import,
    .module]

/-- The kind that a word of the worker means.  A function is a method, and a word for no kind means
a variable. -/
def ofText (s : String) : SymbolKind :=
  if s = "function" then .method
  else (all.find? (·.text == s)).getD .variable

/-- Directives name other files and classes; they declare nothing. -/
def isDirective (k : SymbolKind) : Bool :=
  k == .inherit || k == .import

end SymbolKind

/-- A declared name.  `classname` holds the target of a directive. -/
structure Symbol where
  name : String
  kind : SymbolKind
  position : Option Position := none
  type : Option (List (String × Json)) := none
  modifiers : List String := []
  children : List Symbol := []
  documentation : Option String := none
  classname : Option String := none
  qualifiedName : Option String := none
  file : Option String := none
  deriving Inhabited

namespace Symbol

/-- A symbol with a position can be jumped to. -/
def navigable (s : Symbol) : Bool :=
  s.position.isSome

/-- Included files are imports whose name is a preprocessor directive. -/
def isInclude (s : Symbol) : Bool :=
  s.kind == .import && s.name.startsWith "#"

/-- What a directive names: its target if that is known and not empty, else its name. -/
def directiveTarget (s : Symbol) : String :=
  match s.classname with
  | some c => if c.isEmpty then s.name else c
  | none => s.name

/-! ## From the worker -/

/-- The text of a documentation field: itself or the `text` of a table, if it is not empty. -/
def documentationText : Option Wire.Documentation → Option String
  | some (.text s) => if s.isEmpty then none else some s
  | some (.table fields) =>
    match Json.lookup "text" fields with
    | some (.str s) => if s.isEmpty then none else some s
    | _ => none
  | none => none

mutual

/-- The symbol of a parsed declaration; those without a name, and what is inside them, have none. -/
def ofWire? : Wire.Symbol → Option Symbol
  | .mk name kind modifiers position type children classname documentation =>
    match name with
    | none => none
    | some n =>
      if n.isEmpty then none
      else some {
        name := n
        kind := SymbolKind.ofText kind
        position := position.map Position.ofWire
        type := type
        modifiers := modifiers
        children := ofWireList children
        documentation := documentationText documentation
        classname := classname
        file := position.bind (·.file) }

/-- The symbols of the named declarations of a list. -/
def ofWireList : List Wire.Symbol → List Symbol
  | [] => []
  | w :: rest =>
    match ofWire? w with
    | some s => s :: ofWireList rest
    | none => ofWireList rest

end

/-- The symbol of an introspected declaration, if it has a name. -/
def ofIntrospected? (w : Wire.Introspected) : Option Symbol :=
  match w.name with
  | none => none
  | some n =>
    if n.isEmpty then none
    else some {
      name := n
      kind := SymbolKind.ofText w.kind
      type := w.type
      modifiers := w.modifiers
      documentation := documentationText w.documentation }

end Symbol

end PikeAnalysis
