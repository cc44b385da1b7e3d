import PikeAnalysis.Shape.Basic
import PikeAnalysis.Shape.Literal

/-!
# Checking values against shapes

`check` reads a value under a shape and answers with the same value in its normal form: numbers and
flags in their own type, every field of a model under its name, absent fields filled in, unknown
ones left out.  Fields are checked in order, depth first, and the first fault is the answer.

A field that is absent takes its default as it is: defaults are not checked when they are used, and
that every one of them would pass is a theorem.  The alias of a field goes before its name.  The
recursion is over the shape and, inside one, over the value; for a declaration, whose children have
the same shape again, it is over the value alone, and a weight for both makes the two cases one
measure.
-/

namespace PikeAnalysis.Shape

/-! ## Scalars -/

/-- The issue of a value that has the fault itself. -/
def fail (fault : ShapeFault) (v : Json) : Except Issue Json :=
  .error ⟨[], fault, v⟩

/-- The whole number that a floating-point number is.  It has no fraction and is small enough for
sixty-four bits, or there is none. -/
def wholeOfFloat (x : Float) : Except ShapeFault Int :=
  match Decimal.Binary.ofFloat x with
  | .nan => .error .notFinite
  | .infinite _ => .error .notFinite
  | .finite negative m e =>
    let (num, den) := Decimal.scale m 2 e
    if num % den ≠ 0 then .error .fractional
    else
      let n := num / den
      if n < Nat.pow 2 63 then .ok (if negative then -(n : Int) else n)
      else .error .wholeOutOfRange

/-- Reads a whole number.  Flags and texts are taken for numbers where they denote one, which is why
a value that has been read may be another than the one given. -/
def readWhole : Json → Except ShapeFault Int
  | .int n => .ok n
  | .bool b => .ok (if b then 1 else 0)
  | .float x => wholeOfFloat x
  | .str s =>
    match wholeOfText? s.toList with
    | some n => .ok n
    | none => .error .wholeUnreadable
  | _ => .error .notWhole

/-- Reads a floating-point number.  A whole number becomes a double, and a text is read if it
denotes a number. -/
def readNumber : Json → Except ShapeFault Float
  | .int n => .ok (Float.ofInt n)
  | .bool b => .ok (if b then 1 else 0)
  | .float x => .ok x
  | .str s =>
    match floatOfText? s.toList with
    | some x => .ok x
    | none => .error .numberUnreadable
  | _ => .error .notNumber

/-- Reads a flag.  Besides the flags themselves these are 0 and 1, and the words for them. -/
def readFlag : Json → Except ShapeFault Bool
  | .bool b => .ok b
  | .int n => if n = 1 then .ok true else if n = 0 then .ok false else .error .flagUnreadable
  | .float x =>
    match wholeOfFloat x with
    | .ok n => if n = 1 then .ok true else if n = 0 then .ok false else .error .flagUnreadable
    | .error _ => .error .notFlag
  | .str s =>
    match flagOfText? s with
    | some b => .ok b
    | none => .error .flagUnreadable
  | _ => .error .notFlag

/-- A destination of log records: one of the two streams, or an absolute path, which is kept
without repeated separators, single dots and a separator at its end. -/
def readDestination (s : String) : Except ShapeFault String :=
  if s = "stderr" ∨ s = "stdout" then .ok s
  else if s.toList.head? = some '/' then .ok (absolute s)
  else .error (.relativeDestination s)
where
  absolute (s : String) : String :=
    let parts := (s.splitOn "/").filter fun p => p ≠ "" ∧ p ≠ "."
    let root := if s.startsWith "//" ∧ ¬ s.startsWith "///" then "//" else "/"
    root ++ "/".intercalate parts

/-! ## Models -/

/-- The value under which a field is given: under its alias first, then under its name. -/
def given? (name : String) (other : Option String) (fields : List (String × Json)) :
    Option Json :=
  match other with
  | none => Json.lookup name fields
  | some a =>
    match Json.lookup a fields with
    | some v => some v
    | none => Json.lookup name fields

/-- A position: its file, its line from one, and its column from one where it is known. -/
def positionFields : Fields :=
  .cons "file" none (some .null) (.optional .text) <|
  .cons "line" none (some (.int 1)) (.whole []) <|
  .cons "column" none (some .null) (.optional (.whole [])) .nil

/-- A declaration found by the parser, with those inside it.  Symbols contain symbols, so this is
the shape that makes the check recursive in the value. -/
def symbolFields : Fields :=
  .cons "name" none (some .null) (.optional .text) <|
  .cons "kind" none (some (.str "variable")) .text <|
  .cons "modifiers" none (some (.arr [])) (.list .text) <|
  .cons "position" none (some .null) (.optional (.model "WirePosition" positionFields)) <|
  .cons "type" none (some .null) (.optional (.table .any)) <|
  .cons "children" none (some (.arr [])) (.list .symbol) <|
  .cons "inherited" none (some .null) (.optional .flag) <|
  .cons "inherited_from" (some "inheritedFrom") (some .null) (.optional .text) <|
  .cons "classname" none (some .null) (.optional .text) <|
  .cons "documentation" none (some .null) (.optional .tableOrText) .nil

/-- More than the size of `symbolFields`, at which reading starts again for every symbol inside a
symbol. -/
@[irreducible] def symbolWeight : Nat := 100000

theorem sizeOf_symbolFields_lt : sizeOf symbolFields < symbolWeight := by
  unfold symbolWeight
  decide +kernel

/-- A smaller value weighs less, whatever symbols are read in it. -/
theorem weigh_lt {a b s t : Nat} (h : a < b) (ht : t < symbolWeight + s) :
    a * symbolWeight + t < b * symbolWeight + s := by
  have hle := Nat.mul_le_mul_right symbolWeight (Nat.succ_le_of_lt h)
  rw [Nat.succ_mul] at hle
  omega

theorem sizeOf_lookup_lt {key : String} {v : Json} :
    ∀ {fields : List (String × Json)}, Json.lookup key fields = some v → sizeOf v < sizeOf fields
  | [], h => by simp [Json.lookup] at h
  | (k, w) :: rest, h => by
    simp only [Json.lookup] at h
    split at h
    · simp only [Option.some.injEq] at h
      subst h
      simp only [List.cons.sizeOf_spec, Prod.mk.sizeOf_spec]
      omega
    · have := sizeOf_lookup_lt h
      simp only [List.cons.sizeOf_spec]
      omega

theorem sizeOf_given_lt {name : String} {other : Option String} {v : Json}
    {fields : List (String × Json)} (h : given? name other fields = some v) :
    sizeOf v < sizeOf fields := by
  unfold given? at h
  split at h
  · exact sizeOf_lookup_lt h
  · split at h
    · simp only [Option.some.injEq] at h
      subst h
      rename_i h
      exact sizeOf_lookup_lt h
    · exact sizeOf_lookup_lt h

mutual

/-- Reads a value under a shape.  The value that is yielded is the one to go on with: defaults are
filled in and numbers are of their type.  The first issue is the one reported. -/
def check (s : Shape) (v : Json) : Except Issue Json :=
  match s with
  | .any => .ok v
  | .text =>
    match v with
    | .str _ => .ok v
    | _ => fail .notText v
  | .whole bounds =>
    match readWhole v with
    | .error fault => fail fault v
    | .ok n =>
      match bounds.find? fun b => !Bound.holds b n with
      | some b => fail (.outOfBounds b) v
      | none => .ok (.int n)
  | .number bounds =>
    match readNumber v with
    | .error fault => fail fault v
    | .ok x =>
      match bounds.find? fun b => !Bound.holdsFloat b x with
      | some b => fail (.outOfBounds b) v
      | none => .ok (.float x)
  | .flag =>
    match readFlag v with
    | .error fault => fail fault v
    | .ok b => .ok (.bool b)
  | .choice options =>
    match v with
    | .str t => if options.contains t then .ok v else fail (.notChoice options) v
    | _ => fail (.notChoice options) v
  | .wholeOrText =>
    match v with
    | .str _ => .ok v
    | _ =>
      match readWhole v with
      | .error fault => fail fault v
      | .ok n => .ok (.int n)
  | .tableOrText =>
    match v with
    | .str _ => .ok v
    | .obj _ => .ok v
    | _ => fail .notTable v
  | .destination =>
    match v with
    | .str t =>
      match readDestination t with
      | .error fault => fail fault v
      | .ok path => .ok (.str path)
    | _ => fail .notText v
  | .optional inner =>
    match v with
    | .null => .ok .null
    | w => check inner w
  | .list inner =>
    match v with
    | .arr items => (checkItems inner 0 items).map .arr
    | _ => fail .notList v
  | .table inner =>
    match v with
    | .obj entries => (checkEntries inner entries).map .obj
    | _ => fail .notTable v
  | .model name fields =>
    match v with
    | .obj entries => (checkFields fields entries).map .obj
    | _ => fail (.notModel name) v
  | .symbol =>
    match v with
    | .obj entries => (checkFields symbolFields entries).map .obj
    | _ => fail (.notModel "WireSymbol") v
termination_by sizeOf v * symbolWeight + sizeOf s
decreasing_by
  all_goals
    have := sizeOf_symbolFields_lt
    simp only [optional.sizeOf_spec, list.sizeOf_spec, table.sizeOf_spec, model.sizeOf_spec,
      symbol.sizeOf_spec, Json.arr.sizeOf_spec, Json.obj.sizeOf_spec]
    first | omega | exact weigh_lt (by omega) (by omega)

/-- Reads the items of a list, which start at index `n`.  An issue inside of an item carries its
index. -/
def checkItems (s : Shape) (n : Nat) (items : List Json) : Except Issue (List Json) :=
  match items with
  | [] => .ok []
  | v :: rest => do
    let w ← (check s v).mapError (Issue.within (.index n))
    let ws ← checkItems s (n + 1) rest
    return w :: ws
termination_by sizeOf items * symbolWeight + sizeOf s
decreasing_by
  all_goals
    have := sizeOf_symbolFields_lt
    simp only [List.cons.sizeOf_spec]
    exact weigh_lt (by omega) (by omega)

/-- Reads the values of a table.  Keys are kept as they are, and an issue carries the key under
which it was found. -/
def checkEntries (s : Shape) (entries : List (String × Json)) :
    Except Issue (List (String × Json)) :=
  match entries with
  | [] => .ok []
  | (k, v) :: rest => do
    let w ← (check s v).mapError (Issue.within (.key k))
    let ws ← checkEntries s rest
    return (k, w) :: ws
termination_by sizeOf entries * symbolWeight + sizeOf s
decreasing_by
  all_goals
    have := sizeOf_symbolFields_lt
    simp only [List.cons.sizeOf_spec, Prod.mk.sizeOf_spec]
    exact weigh_lt (by omega) (by omega)

/-- Reads the fields of a model from the fields of an object.  A field that is not given has its
default, unchecked, or is missing.  Keys that are no fields are passed over. -/
def checkFields (fields : Fields) (entries : List (String × Json)) :
    Except Issue (List (String × Json)) :=
  match fields with
  | .nil => .ok []
  | .cons name other fallback shape rest => do
    let w ←
      match h : given? name other entries with
      | some v =>
        have := sizeOf_given_lt h
        (check shape v).mapError (Issue.within (.key (other.getD name)))
      | none =>
        match fallback with
        | some d => .ok d
        | none => .error ⟨[.key (other.getD name)], .missing, .obj entries⟩
    let ws ← checkFields rest entries
    return (name, w) :: ws
termination_by sizeOf entries * symbolWeight + sizeOf fields
decreasing_by
  all_goals
    have := sizeOf_symbolFields_lt
    simp only [Fields.cons.sizeOf_spec]
    first | omega | exact weigh_lt (by omega) (by omega)

end

/-- The issue of the first field that a model does not have.  Fields are known by either of their
names. -/
def unknownField? : Fields → List (String × Json) → Option Issue
  | _, [] => none
  | fields, (k, v) :: rest =>
    if knows k fields then unknownField? fields rest
    else some ⟨[.key k], .unknownField, v⟩
where
  knows (k : String) : Fields → Bool
    | .nil => false
    | .cons name other _ _ rest => name == k || other == some k || knows k rest

end PikeAnalysis.Shape
