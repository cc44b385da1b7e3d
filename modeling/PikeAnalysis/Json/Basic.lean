/-!
# JSON values

Values keep the order of an object's fields.  Whole numbers are unbounded and apart from
floating-point ones.  Objects built by the operations here name each field once: setting a field
that is there replaces its value and keeps its place.

Whole numbers and floating-point numbers are different values, as they are when they are written,
but they can be the same: `same` is the comparison that a lookup in a table or a rule of a script
makes, and it is coarser than equality.  What counts as nothing (`isEmpty`) matters where a field is
used only if it holds something.
-/

namespace PikeAnalysis

/-- A JSON value.  The fields of an object are a list, so that their order is kept as it was
read. -/
inductive Json where
  | null
  | bool (b : Bool)
  | int (n : Int)
  | float (x : Float)
  | str (s : String)
  | arr (items : List Json)
  | obj (fields : List (String × Json))
  deriving Inhabited, Repr

namespace Json

/-! ## Objects as association lists -/

/-- The value of a field. -/
def lookup (key : String) : List (String × Json) → Option Json
  | [] => none
  | (k, v) :: rest => if k = key then some v else lookup key rest

/-- The fields with one set: in place if it is there, else at the end. -/
def setField (key : String) (value : Json) : List (String × Json) → List (String × Json)
  | [] => [(key, value)]
  | (k, v) :: rest => if k = key then (k, value) :: rest else (k, v) :: setField key value rest

/-- The fields of a list of pairs in which a later pair overrides an earlier one of the same key. -/
def fieldsOfPairs (pairs : List (String × Json)) : List (String × Json) :=
  pairs.foldl (fun fields p => setField p.1 p.2 fields) []

/-- A field of an object; none for any other value. -/
def field? (key : String) : Json → Option Json
  | .obj fields => lookup key fields
  | _ => none

/-! ## Truth -/

/-- The values that stand for nothing: null, false, zero, and the empty text, list and object. -/
def isEmpty : Json → Bool
  | .null => true
  | .bool b => !b
  | .int n => n == 0
  | .float x => x == 0
  | .str s => s.isEmpty
  | .arr items => items.isEmpty
  | .obj fields => fields.isEmpty

@[simp] theorem lookup_setField_self (key : String) (value : Json) (fields : List (String × Json)) :
    lookup key (setField key value fields) = some value := by
  induction fields with
  | nil => simp [setField, lookup]
  | cons p rest ih =>
    obtain ⟨k, v⟩ := p
    by_cases h : k = key <;> simp [setField, lookup, h, ih]

theorem lookup_setField_of_ne {key other : String} (h : other ≠ key) (value : Json)
    (fields : List (String × Json)) :
    lookup other (setField key value fields) = lookup other fields := by
  induction fields with
  | nil => simp [setField, lookup, Ne.symm h]
  | cons p rest ih =>
    obtain ⟨k, v⟩ := p
    by_cases hk : k = key
    · subst hk; simp [setField, lookup, Ne.symm h]
    · by_cases ho : k = other
      · subst ho; simp [setField, lookup, hk]
      · simp [setField, lookup, hk, ho, ih]

/-! ## Sameness

Two values are the same if they hold the same things.  The order of an object's fields does not
matter, and a flag counts as the number zero or one. -/

/-- The number that a value counts as. -/
def number? : Json → Option (Int ⊕ Float)
  | .bool b => some (.inl (if b then 1 else 0))
  | .int n => some (.inl n)
  | .float x => some (.inr x)
  | _ => none

/-- Whether two numbers are the same. -/
def sameNumber : Int ⊕ Float → Int ⊕ Float → Bool
  | .inl a, .inl b => a == b
  | .inr x, .inr y => x == y
  | .inl a, .inr x | .inr x, .inl a => Float.ofInt a == x

mutual

/-- Whether two values are the same.  Numbers are compared by value, whole or not, and flags count
as the numbers 0 and 1.  The order of fields makes no difference. -/
def same : Json → Json → Bool
  | .null, .null => true
  | .str a, .str b => a == b
  | .arr xs, .arr ys => sameItems xs ys
  | .obj fs, .obj gs => fs.length == gs.length && sameFields fs gs
  | .bool a, w => (w.number?).any (sameNumber (.inl (if a then 1 else 0)))
  | .int a, w => (w.number?).any (sameNumber (.inl a))
  | .float x, w => (w.number?).any (sameNumber (.inr x))
  | _, _ => false

def sameItems : List Json → List Json → Bool
  | [], [] => true
  | x :: xs, y :: ys => same x y && sameItems xs ys
  | _, _ => false

/-- Whether every field is among others with the same value. -/
def sameFields : List (String × Json) → List (String × Json) → Bool
  | [], _ => true
  | (k, v) :: rest, gs => (lookup k gs).any (same v) && sameFields rest gs

end

end Json

end PikeAnalysis
