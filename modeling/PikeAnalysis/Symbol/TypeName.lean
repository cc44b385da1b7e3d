import PikeAnalysis.Symbol.Basic

/-!
# Names in declared types

The class or module that a declared type refers to.  Types are tables as the worker sends them and
nothing in them is guaranteed, so the alternatives of a union may turn out not to be a collection;
that is the only way for the extraction to fail.

A type of an object or program names its class; a function counts as what it returns; of a union the
first alternative that names something is taken.  A bare name counts as a class only if it is
capitalized, since that is how classes and modules are told from basic types.  The fault is a value
like any other here: whether a lookup that meets it still answers is a matter of the lookup.
-/

namespace PikeAnalysis

/-- A fault in the data behind a lookup. -/
inductive Fault where
  /-- The alternatives of a union type are a number or a flag. -/
  | alternativesNotCollection
  /-- An address that cannot be taken apart, with the reason. -/
  | badAddress (reason : String)
  deriving DecidableEq, Repr

namespace TypeName

/-- The text of a value, if it is one. -/
def textOf : Option Json → Option String
  | some (.str s) => some s
  | _ => none

/-- A capitalized name with dots in it.  A newline may follow it. -/
def isClassName (s : String) : Bool :=
  match s.toList with
  | [] => false
  | c :: rest =>
    let body := if rest.getLast? = some '\n' then rest.dropLast else rest
    c.isUpper && body.all fun d => d.isAlphanum || d == '.' || d == '_'

/-- The class named by a type of an object or program. -/
def objectClass? (fields : List (String × Json)) : Option String :=
  let kind := textOf (Json.lookup "kind" fields)
  let name := textOf (Json.lookup "name" fields)
  match textOf (Json.lookup "className" fields) with
  | some c =>
    if !c.isEmpty && (kind == some "object" || kind == some "program" || name == some "object")
    then some c else none
  | none => none

/-- The name of a type that is named after its class. -/
def bareClass? (fields : List (String × Json)) : Option String :=
  match textOf (Json.lookup "name" fields) with
  | some n => if isClassName n then some n else none
  | none => none

theorem sizeOf_lookup_lt {key : String} {v : Json} :
    ∀ {fields : List (String × Json)}, Json.lookup key fields = some v → sizeOf v < sizeOf fields
  | [], h => by simp [Json.lookup] at h
  | (k, w) :: rest, h => by
    simp only [Json.lookup] at h
    split at h
    · simp only [Option.some.injEq] at h
      subst h
      simp only [List.cons.sizeOf_spec, Prod.mk.sizeOf_spec]
      omega
    · have := sizeOf_lookup_lt h
      simp only [List.cons.sizeOf_spec]
      omega

mutual

/-- The class or module that a type refers to: the class of an object or program, of a function's
return type, of the first alternative that has one, or a bare capitalized name. -/
def extract (v : Json) : Except Fault (Option String) :=
  match v with
  | .obj fields =>
    match objectClass? fields with
    | some c => .ok (some c)
    | none =>
      let kind := textOf (Json.lookup "kind" fields)
      match h : Json.lookup "returnType" fields with
      | some r =>
        have := sizeOf_lookup_lt h
        if kind = some "function" ∧ ¬ r.isEmpty then extract r else union kind fields
      | none => union kind fields
  | _ => .ok none
termination_by (sizeOf v, 1)

/-- The rest of the extraction, for a type that is not a function. -/
def union (kind : Option String) (fields : List (String × Json)) :
    Except Fault (Option String) :=
  if kind = some "or" then
    match h : Json.lookup "types" fields with
    | some (.arr types) =>
      have : sizeOf types < sizeOf fields := by
        have := sizeOf_lookup_lt h
        simp only [Json.arr.sizeOf_spec] at this
        omega
      first types
    | some v =>
      match v with
      | .null | .str _ | .obj _ => .ok none
      | _ => if v.isEmpty then .ok none else .error .alternativesNotCollection
    | none => .ok none
  else .ok (bareClass? fields)
termination_by (sizeOf fields, 0)

/-- The name in the first type of a list that has one. -/
def first (types : List Json) : Except Fault (Option String) :=
  match types with
  | [] => .ok none
  | v :: rest => do
    match ← extract v with
    | some c => return some c
    | none => first rest
termination_by (sizeOf types, 0)

end

end TypeName

namespace Symbol

/-- The class or module that the declared type of a symbol refers to. -/
def typeName? (s : Symbol) : Except Fault (Option String) :=
  match s.type with
  | some fields => TypeName.extract (.obj fields)
  | none => .ok none

end Symbol

end PikeAnalysis
