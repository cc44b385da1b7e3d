import PikeAnalysis.Config.Model
import PikeAnalysis.Json.Reader

/-!
# Settings from the environment

A variable names a section, or a field of one, in any case: `PIKELENS__SECTION` or
`PIKELENS__SECTION__FIELD`.  The value of a section, a list or a table is JSON; any other is taken
as text.

Names are matched without regard to case, and what follows the name of a section is a path.  Only
the first part of the path is looked up in the section, to tell whether its value is JSON; a deeper
path always sets a text.  A value of the environment lies on top of the files and below what the
caller gives.

Merging keeps the places of the fields below: a field that is there already is replaced where it
stands, and new ones follow in their order.
-/

namespace PikeAnalysis.Config

/-! ## Merging

Settings from several sources are put on top of one another: objects are merged field by field, and
anything else is replaced. -/

mutual

/-- A value on top of another one, if there is one. -/
def mergeValue (base : Option Json) (v : Json) : Json :=
  match base, v with
  | some (.obj fields), .obj more => .obj (mergeFields fields more)
  | _, v => v
termination_by (sizeOf v, 0)

/-- Fields on top of others: the others keep their places, and new ones follow. -/
def mergeFields (base upper : List (String × Json)) : List (String × Json) :=
  match upper with
  | [] => base
  | (k, v) :: rest =>
    mergeFields (Json.setField k (mergeValue (Json.lookup k base) v) base) rest
termination_by (sizeOf upper, 1)

end

/-! ## Variables -/

/-- What every variable begins with. -/
def variablePrefix : String := "pikelens__"

/-- What stands between the parts of a variable's name. -/
def variableSeparator : String := "__"

/-- The value of a variable that must be JSON cannot be read. -/
inductive EnvironmentFault where
  | unreadable
  deriving DecidableEq, Repr

/-- Whether the value of a shape is given as JSON. -/
def isComposite : Shape → Bool
  | .list _ | .table _ | .model .. | .symbol => true
  | _ => false

/-- The shape of a field. -/
def shapeOf? (name : String) : Fields → Option Shape
  | .nil => none
  | .cons n _ _ shape rest => if n = name then some shape else shapeOf? name rest

/-- Reads the value of a variable as JSON. -/
def decode (text : String) : Except EnvironmentFault Json :=
  match Json.read? text.toList with
  | some v => .ok v
  | none => .error .unreadable

/-- Sets the value at the end of a path.  Nothing is set below a value that is no object. -/
def setAt : List String → Json → List (String × Json) → List (String × Json)
  | [], _, fields => fields
  | [k], v, fields => Json.setField k v fields
  | k :: path, v, fields =>
    match Json.lookup k fields with
    | none => Json.setField k (.obj (setAt path v [])) fields
    | some (.obj inner) => Json.setField k (.obj (setAt path v inner)) fields
    | some _ => fields

/-- The value of a variable that names a part of a section. -/
def partValue (fields : Fields) (path : List String) (text : String) :
    Except EnvironmentFault Json :=
  match path with
  | [name] =>
    if (shapeOf? name fields).any isComposite && !text.isEmpty then decode text
    else .ok (.str text)
  | _ => .ok (.str text)

/-- What the variables say about the parts of a section. -/
def sectionParts (fields : Fields) (start : String) :
    List (String × String) → List (String × Json) → Except EnvironmentFault (List (String × Json))
  | [], found => .ok found
  | (name, text) :: rest, found =>
    if name.startsWith start then do
      let path := (name.drop start.length).toString.splitOn variableSeparator
      sectionParts fields start rest (setAt path (← partValue fields path text) found)
    else sectionParts fields start rest found

/-- The fields of a value with the names that the section gives them, whatever case they are in. -/
def properNames (fields : Fields) (entries : List (String × Json)) : List (String × Json) :=
  Json.fieldsOfPairs (entries.map fun e => ((properName? e.1 fields).getD e.1, e.2))
where
  properName? (name : String) : Fields → Option String
    | .nil => none
    | .cons n _ _ _ rest => if n.toLower = name.toLower then some n else properName? name rest

/-- What the variables say about a section.  A variable for the whole section comes first and those
for single fields are merged on top of it.  A section that is set to null is as if nothing were said
about it, whatever its fields are set to. -/
def sectionOf (vars : List (String × String)) (name : String) (fields : Fields) :
    Except EnvironmentFault (Option Json) := do
  let own := variablePrefix ++ name
  let whole ← (Assoc.get? own vars).mapM decode
  match whole with
  | some (.obj entries) =>
    let parts ← sectionParts fields (own ++ variableSeparator) vars []
    return some (.obj (properNames fields (mergeFields entries parts)))
  | some .null => return none
  | some v => return some v
  | none =>
    let parts ← sectionParts fields (own ++ variableSeparator) vars []
    return if parts.isEmpty then none else some (.obj (properNames fields parts))

/-- What the variables say about all sections. -/
def ofEnvironment (vars : List (String × String)) :
    Except EnvironmentFault (List (String × Json)) := do
  let lowered := vars.foldl (fun acc e => Assoc.set e.1.toLower e.2 acc) []
  let found ← sections.mapM fun (name, _, fields) => do
    return (← sectionOf lowered name fields).map fun v => (name, v)
  return found.filterMap id

end PikeAnalysis.Config
