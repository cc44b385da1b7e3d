import PikeAnalysis.Json.Basic

/-!
# Shapes

A shape says which JSON values a payload or a setting may hold, and an issue says why a value does
not have its shape.  The wording of an issue is fixed here; which issue a value has is decided in
`PikeAnalysis.Shape.Check`.

Shapes are data, so one function checks a value against any of them, and what holds of checking is
proved once by recursion over the shape.  An issue knows its place as a path from the whole value to
the part, and the parts add their step on the way out (`Issue.within`).
-/

namespace PikeAnalysis

/-- A limit on a number. -/
inductive Bound where
  | above (limit : Int)
  | atLeast (limit : Int)
  | atMost (limit : Int)
  deriving DecidableEq, Repr

mutual

/-- The shape of a value.  `symbol` is the one recursive shape: a declaration whose children have
the same shape. -/
inductive Shape where
  | any
  | text
  | whole (bounds : List Bound)
  | number (bounds : List Bound)
  | flag
  | choice (options : List String)
  | wholeOrText
  | tableOrText
  | destination
  | optional (inner : Shape)
  | list (inner : Shape)
  | table (inner : Shape)
  | model (name : String) (fields : Fields)
  | symbol

/-- The fields of a model in their order.  A field is read under its alias first if it has one; one
that is absent takes its default, and without a default it is required. -/
inductive Fields where
  | nil
  | cons (name : String) (other : Option String) (fallback : Option Json) (shape : Shape)
      (rest : Fields)

end

/-- A step from a value to one of its parts. -/
inductive PathPart where
  | key (name : String)
  | index (n : Nat)
  deriving DecidableEq, Repr

/-- Why a value does not have its shape.  It does not say where; an issue puts the path of the value
beside it. -/
inductive ShapeFault where
  | missing
  | notModel (name : String)
  | notTable
  | notList
  | notText
  | notWhole
  | fractional
  | notFinite
  | wholeOutOfRange
  | wholeUnreadable
  | notFlag
  | flagUnreadable
  | notNumber
  | numberUnreadable
  | outOfBounds (bound : Bound)
  | notChoice (options : List String)
  | relativeDestination (path : String)
  | unknownField
  deriving DecidableEq, Repr

/-- A fault, where it is, and the value that has it. -/
structure Issue where
  path : List PathPart
  fault : ShapeFault
  input : Json

/-- Whether a whole number keeps a limit. -/
def Bound.holds : Bound → Int → Bool
  | .above limit, n => n > limit
  | .atLeast limit, n => n ≥ limit
  | .atMost limit, n => n ≤ limit

/-- Whether a floating-point number keeps a limit; not-a-number keeps none. -/
def Bound.holdsFloat : Bound → Float → Bool
  | .above limit, x => x > Float.ofInt limit
  | .atLeast limit, x => x ≥ Float.ofInt limit
  | .atMost limit, x => x ≤ Float.ofInt limit

/-- An issue of a part, seen from the whole. -/
def Issue.within (part : PathPart) (i : Issue) : Issue :=
  { i with path := part :: i.path }

/-! ## Wording -/

/-- The wording of a limit. -/
def Bound.message : Bound → String
  | .above n => s!"Input should be greater than {n}"
  | .atLeast n => s!"Input should be greater than or equal to {n}"
  | .atMost n => s!"Input should be less than or equal to {n}"

/-- Quoted alternatives with commas between them and `or` before the last. -/
def alternatives : List String → String
  | [] => ""
  | [a] => s!"'{a}'"
  | [a, b] => s!"'{a}' or '{b}'"
  | a :: rest => s!"'{a}', " ++ alternatives rest

/-- The wording of a fault.  Bounds and options are part of the text. -/
def ShapeFault.message : ShapeFault → String
  | .missing => "Field required"
  | .notModel name => s!"Input should be a valid dictionary or instance of {name}"
  | .notTable => "Input should be a valid dictionary"
  | .notList => "Input should be a valid list"
  | .notText => "Input should be a valid string"
  | .notWhole => "Input should be a valid integer"
  | .fractional => "Input should be a valid integer, got a number with a fractional part"
  | .notFinite => "Input should be a finite number"
  | .wholeOutOfRange => "Unable to parse input string as an integer, exceeded maximum size"
  | .wholeUnreadable => "Input should be a valid integer, unable to parse string as an integer"
  | .notFlag => "Input should be a valid boolean"
  | .flagUnreadable => "Input should be a valid boolean, unable to interpret input"
  | .notNumber => "Input should be a valid number"
  | .numberUnreadable => "Input should be a valid number, unable to parse string as a number"
  | .outOfBounds bound => bound.message
  | .notChoice options => "Input should be " ++ alternatives options
  | .relativeDestination path => s!"Value error, File destination must be absolute path: {path}"
  | .unknownField => "Extra inputs are not permitted"

/-- A step as it is written in a path. -/
def PathPart.text : PathPart → String
  | .key name => name
  | .index n => toString n

/-- The wording of an issue. -/
def Issue.message (i : Issue) : String :=
  i.fault.message

/-- Where the issue is, with dots between the steps. -/
def Issue.location (i : Issue) : String :=
  ".".intercalate (i.path.map PathPart.text)

end PikeAnalysis
