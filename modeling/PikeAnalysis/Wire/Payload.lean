import PikeAnalysis.Wire.Model

/-!
# Payloads

The payloads of the worker as structures, taken from values that have passed the check of their
model.  A payload is total on every value: what a checked value always has is never defaulted.

Checking and reading are two steps.  The check of a model decides whether a payload is acceptable
and fills in what it leaves out; the structures here then take the fields that the engine uses and
ignore the rest.  That the defaults of the readers are never used on a checked value is a
consequence of what checking promises.
-/

namespace PikeAnalysis

namespace Json

/-! ## Fields of a checked value -/

/-- The text of a field, if it holds one. -/
def textAt? (v : Json) (key : String) : Option String :=
  match v.field? key with
  | some (.str s) => some s
  | _ => none

/-- The text of a field. -/
def textAt (v : Json) (key : String) : String :=
  (v.textAt? key).getD ""

/-- The whole number of a field, if it holds one. -/
def intAt? (v : Json) (key : String) : Option Int :=
  match v.field? key with
  | some (.int n) => some n
  | _ => none

/-- The whole number of a field. -/
def intAt (v : Json) (key : String) : Int :=
  (v.intAt? key).getD 0

/-- The flag of a field. -/
def flagAt (v : Json) (key : String) : Bool :=
  match v.field? key with
  | some (.bool b) => b
  | _ => false

/-- The items of a field, if it holds a list. -/
def itemsAt? (v : Json) (key : String) : Option (List Json) :=
  match v.field? key with
  | some (.arr items) => some items
  | _ => none

/-- The items of a field. -/
def itemsAt (v : Json) (key : String) : List Json :=
  (v.itemsAt? key).getD []

/-- The fields of the object that a field holds, if it holds one. -/
def fieldsAt? (v : Json) (key : String) : Option (List (String × Json)) :=
  match v.field? key with
  | some (.obj fields) => some fields
  | _ => none

/-- The object that a field holds; none if the field is null. -/
def objectAt? (v : Json) (key : String) : Option Json :=
  (v.fieldsAt? key).map .obj

/-- The texts among the items of a field. -/
def textsAt (v : Json) (key : String) : List String :=
  (v.itemsAt key).filterMap fun
    | .str s => some s
    | _ => none

end Json

namespace Wire

/-! ## Positions, declarations and tokens -/

/-- A position of the worker: the line counts from one, and so does the column where it is known. -/
structure Position where
  file : Option String := none
  line : Int := 1
  column : Option Int := none
  deriving Repr

def Position.ofJson (v : Json) : Position :=
  ⟨v.textAt? "file", v.intAt "line", v.intAt? "column"⟩

/-- What a declaration's documentation field holds. -/
inductive Documentation where
  | text (s : String)
  | table (fields : List (String × Json))
  deriving Repr

def Documentation.at? (v : Json) : Option Documentation :=
  match v.field? "documentation" with
  | some (.str s) => some (.text s)
  | some (.obj fields) => some (.table fields)
  | _ => none

/-- A declaration found by the parser. -/
inductive Symbol where
  | mk (name : Option String) (kind : String) (modifiers : List String)
      (position : Option Position) (type : Option (List (String × Json)))
      (children : List Symbol) (classname : Option String) (documentation : Option Documentation)

/-- The declaration in a value, with as many levels inside it as `depth` says. -/
def Symbol.ofJsonTo : Nat → Json → Symbol
  | 0, v => .mk (v.textAt? "name") (v.textAt "kind") (v.textsAt "modifiers")
      ((v.objectAt? "position").map Position.ofJson) (v.fieldsAt? "type") []
      (v.textAt? "classname") (Documentation.at? v)
  | depth + 1, v => .mk (v.textAt? "name") (v.textAt "kind") (v.textsAt "modifiers")
      ((v.objectAt? "position").map Position.ofJson) (v.fieldsAt? "type")
      ((v.itemsAt "children").map (Symbol.ofJsonTo depth))
      (v.textAt? "classname") (Documentation.at? v)

mutual

/-- How many levels a value has. -/
def depth : Json → Nat
  | .arr items => depthOfItems items + 1
  | .obj fields => depthOfFields fields + 1
  | _ => 0

def depthOfItems : List Json → Nat
  | [] => 0
  | v :: rest => max (depth v) (depthOfItems rest)

def depthOfFields : List (String × Json) → Nat
  | [] => 0
  | (_, v) :: rest => max (depth v) (depthOfFields rest)

end

/-- The declaration in a value. -/
def Symbol.ofJson (v : Json) : Symbol :=
  Symbol.ofJsonTo (depth v) v

/-- A declaration found by introspection. -/
structure Introspected where
  name : Option String
  kind : String
  type : Option (List (String × Json))
  modifiers : List String
  documentation : Option Documentation

def Introspected.ofJson (v : Json) : Introspected :=
  ⟨v.textAt? "name", v.textAt "kind", v.fieldsAt? "type", v.textsAt "modifiers",
    Documentation.at? v⟩

/-- A token: the line counts from one, the character from zero; negative where it is not known. -/
structure Token where
  text : String
  line : Int
  character : Int
  deriving Repr, DecidableEq

def Token.ofJson (v : Json) : Token :=
  ⟨v.textAt "text", v.intAt "line", v.intAt "character"⟩

/-- An occurrence of a name in a text. -/
structure Occurrence where
  text : String
  line : Int
  character : Int
  deriving Repr, DecidableEq

def Occurrence.ofJson (v : Json) : Occurrence :=
  ⟨v.textAt "text", v.intAt "line", v.intAt "character"⟩

/-! ## Diagnostics -/

/-- A diagnostic of the compiler. -/
structure Diagnostic where
  message : String
  severity : String
  position : Position
  endPosition : Option Position

def Diagnostic.ofJson (v : Json) : Diagnostic :=
  ⟨v.textAt "message", v.textAt "severity", Position.ofJson ((v.objectAt? "position").getD .null),
    (v.objectAt? "end_position").map Position.ofJson⟩

/-- A line from one and a character from zero. -/
structure LinePosition where
  line : Int
  character : Int

def LinePosition.ofJson (v : Json) : LinePosition :=
  ⟨v.intAt "line", v.intAt "character"⟩

/-- A report on a variable that may be read before it is set, with the variable's name if known. -/
structure Uninitialized where
  message : String
  severity : String
  position : Option LinePosition
  name : Option String

def Uninitialized.ofJson (v : Json) : Uninitialized :=
  ⟨v.textAt "message", v.textAt "severity", (v.objectAt? "position").map LinePosition.ofJson,
    v.textAt? "variable"⟩

/-! ## Results -/

/-- The result of parsing. -/
structure ParseResult where
  symbols : List Symbol
  diagnostics : List Diagnostic
  tokens : Option (List Token)

def ParseResult.ofJson (v : Json) : ParseResult :=
  ⟨(v.itemsAt "symbols").map Symbol.ofJson, (v.itemsAt "diagnostics").map Diagnostic.ofJson,
    (v.itemsAt? "tokens").map (·.map Token.ofJson)⟩

/-- The result of introspection. -/
structure Introspection where
  success : Bool
  symbols : List Introspected
  functions : List Introspected
  globals : List Introspected
  classes : List Introspected
  inherits : List String
  diagnostics : List Diagnostic

def introspectedAt (v : Json) (key : String) : List Introspected :=
  (v.itemsAt key).map Introspected.ofJson

/-- The paths of the inherited programs that a field lists. -/
def inheritedPaths (v : Json) : List String :=
  (v.itemsAt "inherits").map (·.textAt "path")

def Introspection.ofJson (v : Json) : Introspection :=
  ⟨v.flagAt "success", introspectedAt v "symbols", introspectedAt v "functions",
    introspectedAt v "variables", introspectedAt v "classes", inheritedPaths v,
    (v.itemsAt "diagnostics").map Diagnostic.ofJson⟩

/-- The answer to an analysis: each requested section is a result or a failure with a message. -/
structure Analysis where
  parse : Option ParseResult := none
  introspect : Option Introspection := none
  uninitialized : Option (List Uninitialized) := none
  tokenize : Option (List Token) := none
  failures : List (String × String) := []

def Analysis.ofJson (v : Json) : Analysis :=
  let sections := (v.objectAt? "result").getD .null
  { parse := (sections.objectAt? "parse").map ParseResult.ofJson
    introspect := (sections.objectAt? "introspect").map Introspection.ofJson
    uninitialized := (sections.objectAt? "diagnostics").map fun d =>
      (d.itemsAt "diagnostics").map Uninitialized.ofJson
    tokenize := (sections.objectAt? "tokenize").map fun t => (t.itemsAt "tokens").map Token.ofJson
    failures := ((v.fieldsAt? "failures").getD []).map fun f => (f.1, f.2.textAt "message") }

/-- The message of a section that failed. -/
def Analysis.failure? (a : Analysis) (name : String) : Option String :=
  (a.failures.find? (·.1 == name)).map (·.2)

/-- The answer to a request for a module of the standard library. -/
structure StdlibAnswer where
  found : Bool
  path : Option String
  symbols : List Introspected
  functions : List Introspected
  globals : List Introspected
  classes : List Introspected
  inherits : List String
  error : Option String

def StdlibAnswer.ofJson (v : Json) : StdlibAnswer :=
  ⟨v.flagAt "found", v.textAt? "path", introspectedAt v "symbols", introspectedAt v "functions",
    introspectedAt v "variables", introspectedAt v "classes", inheritedPaths v, v.textAt? "error"⟩

/-- The answer to a request for an included file. -/
structure IncludeAnswer where
  path : String
  found : Bool
  originalPath : String

def IncludeAnswer.ofJson (v : Json) : IncludeAnswer :=
  ⟨v.textAt "path", v.flagAt "exists", v.textAt "original_path"⟩

end Wire

end PikeAnalysis
