import Mathlib.Data.List.Forall2
import Mathlib.Data.List.Nodup
import Mathlib.Data.List.Pairwise
import Mathlib.Logic.Relation
import PikeAnalysis.Proofs.Json.FieldOrder
import PikeAnalysis.Shape.Check

/-!
# What reading a value yields

`check` goes through lists, tables and models one after the other and stops at the first fault; here
it is said at once what it yields where there is none.  From this follows that reading is
idempotent: what was read, with the defaults that were filled in, is read as itself
(`Regular.again`).  And what a model does not know makes no difference: an object with further
fields is read like the one without them (`Regular.padded`).  Both hold of the shapes that are
`Regular`, whose fields are told apart by their keys and have defaults of their own shape.

The first part replaces the reader by what it yields: an equation for lists, one for tables, one for
the fields of a model.  They hold for every shape.  Only then come the two properties, which need
that shapes are regular, and each is an induction over shapes with one lemma for scalars, options,
lists, tables and models (`again_scalar` and those after it).  A shape may refer to itself through
its symbols, and that is why the induction is on the evidence that a shape is regular and not on its
text.
-/

namespace PikeAnalysis

/-- A field of a model.  The shape of a model has its fields one inside the other; here they are a
list, over which the theorems about a model quantify. -/
structure Field where
  name : String
  other : Option String
  fallback : Option Json
  shape : Shape

/-- The fields of a model in their order. -/
def Fields.list : Fields → List Field
  | .nil => []
  | .cons name other fallback shape rest => ⟨name, other, fallback, shape⟩ :: rest.list

/-- The keys under which a field is read. -/
def Field.keys (f : Field) : List String :=
  f.name :: f.other.toList

namespace Shape

/-- What a field of an object is read as.  If no key of the field is given that is its default. -/
def Takes (f : Field) (entries : List (String × Json)) (w : Json) : Prop :=
  match given? f.name f.other entries with
  | some v => check f.shape v = .ok w
  | none => f.fallback = some w

variable {s inner : Shape} {v v' w : Json} {items ws : List Json}
  {entries outs : List (String × Json)} {fields : Fields} {f : Field} {key : String}

/-! ## Lists, tables and models -/

theorem mapError_eq_ok {ε δ α : Type} {g : ε → δ} {x : Except ε α} {a : α} :
    x.mapError g = .ok a ↔ x = .ok a := by
  cases x <;> simp [Except.mapError]

theorem map_eq_ok {ε α β : Type} {g : α → β} {x : Except ε α} {b : β} :
    x.map g = .ok b ↔ ∃ a, x = .ok a ∧ g a = b := by
  cases x <;> simp [Except.map]

theorem bind_eq_ok {ε α β : Type} {g : α → Except ε β} {x : Except ε α} {b : β} :
    (x >>= g) = .ok b ↔ ∃ a, x = .ok a ∧ g a = .ok b := by
  cases x <;> simp [bind, Except.bind]

/-- The items of a list are read one by one.  The first of them that does not have the shape fails
the list. -/
theorem checkItems_eq_ok {n : Nat} :
    checkItems inner n items = .ok ws ↔
      List.Forall₂ (fun v w => check inner v = .ok w) items ws := by
  induction items generalizing n ws with
  | nil => simp [checkItems, eq_comm]
  | cons v rest ih =>
    rw [checkItems, List.forall₂_cons_left_iff]
    simp only [bind_eq_ok, mapError_eq_ok, ih, pure, Except.pure, Except.ok.injEq]
    constructor
    · rintro ⟨w, hw, ws', hws, rfl⟩
      exact ⟨w, ws', hw, hws, rfl⟩
    · rintro ⟨w, ws', hw, hws, rfl⟩
      exact ⟨w, hw, ws', hws, rfl⟩

/-- The values of a table are read one by one, and their keys kept. -/
theorem checkEntries_eq_ok :
    checkEntries inner entries = .ok outs ↔
      List.Forall₂ (fun e o => o.1 = e.1 ∧ check inner e.2 = .ok o.2) entries outs := by
  induction entries generalizing outs with
  | nil => simp [checkEntries, eq_comm]
  | cons e rest ih =>
    obtain ⟨k, v⟩ := e
    rw [checkEntries, List.forall₂_cons_left_iff]
    simp only [bind_eq_ok, mapError_eq_ok, ih, pure, Except.pure, Except.ok.injEq]
    constructor
    · rintro ⟨w, hw, ws', hws, rfl⟩
      exact ⟨(k, w), ws', ⟨rfl, hw⟩, hws, rfl⟩
    · rintro ⟨⟨k', w⟩, ws', ⟨rfl, hw⟩, hws, rfl⟩
      exact ⟨w, hw, ws', hws, rfl⟩

/-- The first field of a model is read, or filled in, and then the others are. -/
theorem checkFields_cons_eq_ok {name : String} {other : Option String} {fallback : Option Json}
    {shape : Shape} {rest : Fields} :
    checkFields (.cons name other fallback shape rest) entries = .ok outs ↔
      ∃ w, Takes ⟨name, other, fallback, shape⟩ entries w ∧
        ∃ more, checkFields rest entries = .ok more ∧ (name, w) :: more = outs := by
  rw [checkFields.eq_def]
  dsimp only
  unfold Takes
  split
  · next v given => simp [given, bind_eq_ok, mapError_eq_ok, pure, Except.pure]
  · next given =>
    cases fallback with
    | some d => simp [given, bind_eq_ok, pure, Except.pure]
    | none => simp [given, bind_eq_ok]

/-- Every field of a model is read, or filled in, under its name. -/
theorem checkFields_eq_ok (fields : Fields) (entries outs : List (String × Json)) :
    checkFields fields entries = .ok outs ↔
      List.Forall₂ (fun f o => o.1 = f.name ∧ Takes f entries o.2) fields.list outs := by
  match fields with
  | .nil => simp [checkFields, Fields.list, eq_comm]
  | .cons name other fallback shape rest =>
    rw [checkFields_cons_eq_ok, Fields.list, List.forall₂_cons_left_iff]
    constructor
    · rintro ⟨w, hw, more, hmore, rfl⟩
      exact ⟨(name, w), more, ⟨rfl, hw⟩, (checkFields_eq_ok rest entries more).mp hmore, rfl⟩
    · rintro ⟨⟨_, w⟩, more, ⟨rfl, hw⟩, hmore, rfl⟩
      exact ⟨w, hw, more, (checkFields_eq_ok rest entries more).mpr hmore, rfl⟩

/-- Two objects are read alike as a model if every field takes the same from both. -/
theorem checkFields_congr {entries' : List (String × Json)}
    (same : ∀ f ∈ fields.list, ∀ w, Takes f entries w ↔ Takes f entries' w) :
    checkFields fields entries = .ok outs ↔ checkFields fields entries' = .ok outs := by
  rw [checkFields_eq_ok, checkFields_eq_ok, List.forall₂_iff_zip, List.forall₂_iff_zip]
  refine and_congr_right fun _ => ⟨fun h f o hmem => ?_, fun h f o hmem => ?_⟩ <;>
    refine (h hmem).imp_right ?_
  · exact (same f (List.of_mem_zip hmem).1 o.2).mp
  · exact (same f (List.of_mem_zip hmem).1 o.2).mpr

/-! ## Regular shapes -/

/-- The fields by which an object is read. -/
def fields? : Shape → Option Fields
  | .model _ fields => some fields
  | .symbol => some symbolFields
  | _ => none

/-- No two fields share a key, their shapes are regular, and each default is read as itself.  Any
shape but a destination will do within. -/
inductive Regular : Shape → Prop
  | any : Regular .any
  | text : Regular .text
  | whole (bounds : List Bound) : Regular (.whole bounds)
  | number (bounds : List Bound) : Regular (.number bounds)
  | flag : Regular .flag
  | choice (options : List String) : Regular (.choice options)
  | wholeOrText : Regular .wholeOrText
  | tableOrText : Regular .tableOrText
  | optional {inner : Shape} (h : Regular inner) : Regular (.optional inner)
  | list {inner : Shape} (h : Regular inner) : Regular (.list inner)
  | table {inner : Shape} (h : Regular inner) : Regular (.table inner)
  | model {name : String} {fields : Fields} (distinct : (fields.list.flatMap Field.keys).Nodup)
    (shapes : ∀ f ∈ fields.list, Regular f.shape)
    (defaults : ∀ f ∈ fields.list, ∀ d, f.fallback = some d → check f.shape d = .ok d) :
    Regular (.model name fields)
  | symbol : Regular .symbol

attribute [simp] Regular.any Regular.text Regular.whole Regular.number Regular.flag Regular.choice
  Regular.wholeOrText Regular.tableOrText Regular.optional Regular.list Regular.table Regular.symbol

/-- What is known of the fields of a regular shape.  Names and aliases are all different, so no key
is read for two fields, and a default is its own normal form, so that filling it in and checking it
again changes nothing. -/
structure RegularFields (fields : Fields) : Prop where
  distinct : (fields.list.flatMap Field.keys).Nodup
  shapes : ∀ f ∈ fields.list, Regular f.shape
  defaults : ∀ f ∈ fields.list, ∀ d, f.fallback = some d → check f.shape d = .ok d

theorem check_of_fields (model : s.fields? = some fields) (entries : List (String × Json)) :
    check s (.obj entries) = (checkFields fields entries).map .obj := by
  cases s <;> simp_all [fields?, check]

theorem regular_position : RegularFields positionFields where
  distinct := by decide
  shapes := by simp [positionFields, Fields.list]
  defaults := by simp [positionFields, Fields.list, check, readWhole]

/-- The symbols inside a symbol are regular as symbols are. -/
theorem regular_symbol : RegularFields symbolFields where
  distinct := by decide
  shapes := by
    have position : Regular (.model "WirePosition" positionFields) :=
      .model regular_position.distinct regular_position.shapes regular_position.defaults
    simp [symbolFields, Fields.list, position]
  defaults := by simp [symbolFields, Fields.list, check, checkItems, Except.map]

theorem Regular.regularFields (h : Regular s) (model : s.fields? = some fields) :
    RegularFields fields := by
  cases h with
  | model distinct shapes defaults =>
    obtain rfl := Option.some.inj model
    exact ⟨distinct, shapes, defaults⟩
  | symbol =>
    obtain rfl := Option.some.inj model
    exact regular_symbol
  | any | text | whole | number | flag | choice | wholeOrText | tableOrText | optional | list
  | table =>
    cases model

/-- A key is one field's. -/
theorem RegularFields.field_unique (h : RegularFields fields) {g : Field} (hf : f ∈ fields.list)
    (hg : g ∈ fields.list) (keyf : key ∈ f.keys) (keyg : key ∈ g.keys) : f = g := by
  have disjoint := (List.nodup_flatMap.mp h.distinct).2
  have : Std.Symm (Function.onFun List.Disjoint Field.keys) :=
    ⟨fun _ _ apart _ hg hf => apart hf hg⟩
  by_contra hne
  exact disjoint.forall hf hg hne keyf keyg

/-! ## What was read is read as itself -/

/-- The names of the fields are the keys of what was read. -/
theorem keys_of_read (read : checkFields fields entries = .ok outs) :
    Assoc.keys outs = fields.list.map Field.name := by
  rw [checkFields_eq_ok] at read
  refine List.Forall₂.rec (by simp [Assoc.keys]) (fun h _ ih => ?_) read
  simpa [Assoc.keys, h.1] using ih

/-- In what was read a field is given under its name: no field has the key of another. -/
theorem given_of_read (regular : RegularFields fields)
    (read : checkFields fields entries = .ok outs)
    {o : String × Json} (hf : f ∈ fields.list) (ho : o ∈ outs) (name : o.1 = f.name) :
    given? f.name f.other outs = some o.2 := by
  have keys := keys_of_read read
  have sublist : (fields.list.map Field.name).Sublist (fields.list.flatMap Field.keys) := by
    induction fields.list with
    | nil => exact .refl _
    | cons g rest ih => exact List.cons_sublist_cons.mpr (ih.trans (List.sublist_append_right _ _))
  have distinct : (Assoc.keys outs).Nodup := keys ▸ regular.distinct.sublist sublist
  have found : Json.lookup f.name outs = some o.2 := by
    rw [Json.lookup_eq_get?, ← name]
    exact Assoc.get?_of_mem_of_nodup distinct ho
  unfold given?
  cases hother : f.other with
  | none => exact found
  | some a =>
    have absent : Json.lookup a outs = none := by
      rw [Json.lookup_eq_get?, Assoc.get?_eq_none_iff, keys]
      intro hmem
      obtain ⟨g, hg, hname⟩ := List.mem_map.mp hmem
      have halias : a ∈ f.keys := by simp [Field.keys, hother]
      have hkey : a ∈ g.keys := by simp [Field.keys, hname]
      obtain rfl := regular.field_unique hf hg halias hkey
      have once := (List.nodup_flatMap.mp regular.distinct).1 f hf
      simp [Field.keys, hother, hname] at once
    simp only [absent, found]

/-- What a value is read as under a shape is read as itself. -/
def Again (s : Shape) (v : Json) : Prop :=
  ∀ w, check s v = .ok w → check s w = .ok w

/-- A model is read again as it was, if the values of its fields are. -/
theorem checkFields_again (regular : RegularFields fields)
    (read : checkFields fields entries = .ok outs)
    (again : ∀ f ∈ fields.list, ∀ v, given? f.name f.other entries = some v → Again f.shape v) :
    checkFields fields outs = .ok outs := by
  obtain ⟨length, taken⟩ := List.forall₂_iff_zip.mp ((checkFields_eq_ok _ _ _).mp read)
  refine (checkFields_eq_ok _ _ _).mpr (List.forall₂_iff_zip.mpr ⟨length, fun {f o} hmem => ?_⟩)
  obtain ⟨name, takes⟩ := taken hmem
  obtain ⟨hf, ho⟩ := List.of_mem_zip hmem
  refine ⟨name, ?_⟩
  rw [Takes, given_of_read regular read hf ho name]
  unfold Takes at takes
  split at takes
  · next v given => exact again f hf v given o.2 takes
  · exact regular.defaults f hf o.2 takes

theorem check_optional (h : v ≠ .null) : check (.optional inner) v = check inner v := by
  cases v with
  | null => exact absurd rfl h
  | bool | int | float | str | arr | obj => simp only [check]

/-- Some shapes keep a value as it is.  They are those in which nothing is converted. -/
theorem check_eq_self
    (plain : s = .any ∨ s = .text ∨ s = .tableOrText ∨ ∃ options, s = .choice options)
    (read : check s v = .ok w) : w = v := by
  rcases plain with rfl | rfl | rfl | ⟨options, rfl⟩
  · exact (Except.ok.inj (by simpa only [check] using read)).symm
  · cases v <;> simp_all [check, fail]
  · cases v <;> simp_all [check, fail]
  · cases v with
    | str t =>
      simp only [check] at read
      split at read
      · exact (Except.ok.inj read).symm
      · cases read
    | null | bool | int | float | arr | obj => simp [check, fail] at read

/-- A shape without parts. -/
def IsScalar : Shape → Prop
  | .any | .text | .whole _ | .number _ | .flag | .choice _ | .wholeOrText | .tableOrText => True
  | .destination | .optional _ | .list _ | .table _ | .model _ _ | .symbol => False

/-- A scalar that has been read is of its own type, and keeps its bounds. -/
theorem again_scalar (scalar : s.IsScalar) (v : Json) : Again s v := by
  intro w
  -- What has been read is the value, or the number or flag that it was coerced to, which is read as
  -- itself.
  cases s with
  | any | text | tableOrText | choice =>
    intro read
    obtain rfl := check_eq_self (by simp) read
    exact read
  | whole bounds =>
    simp only [check]
    split
    · simp [fail]
    · split
      · simp [fail]
      · next hbounds =>
        rintro ⟨⟩
        simp [readWhole, hbounds]
  | number bounds =>
    simp only [check]
    split
    · simp [fail]
    · split
      · simp [fail]
      · next hbounds =>
        rintro ⟨⟩
        simp [readNumber, hbounds]
  | flag =>
    simp only [check]
    split
    · simp [fail]
    · rintro ⟨⟩
      simp [readFlag]
  | wholeOrText =>
    intro read
    unfold check at read
    split at read
    · obtain rfl := Except.ok.inj read
      simp only [check]
    · split at read
      · cases read
      · obtain rfl := Except.ok.inj read
        simp [check, readWhole]
  | destination | optional | list | table | model | symbol => exact scalar.elim

theorem again_optional (again : Again inner v) : Again (.optional inner) v := by
  intro w read
  by_cases null : w = .null
  · simp only [null, check]
  · rw [check_optional null]
    by_cases none : v = .null
    · simp only [none, check] at read
      exact absurd (Except.ok.inj read).symm null
    · rw [check_optional none] at read
      exact again w read

theorem forall₂_again {α : Type} {R : α → α → Prop} {xs ys : List α} (h : List.Forall₂ R xs ys)
    (again : ∀ x ∈ xs, ∀ y, R x y → R y y) : List.Forall₂ R ys ys := by
  induction h with
  | nil => exact .nil
  | cons hxy _ ih =>
    exact .cons (again _ List.mem_cons_self _ hxy)
      (ih fun x hx => again x (List.mem_cons_of_mem _ hx))

theorem again_list (again : ∀ v ∈ items, Again inner v) : Again (.list inner) (.arr items) := by
  intro w read
  simp only [check, map_eq_ok, checkItems_eq_ok] at read
  obtain ⟨ws, read, rfl⟩ := read
  simp only [check, map_eq_ok, checkItems_eq_ok]
  exact ⟨ws, forall₂_again read again, rfl⟩

theorem again_table (again : ∀ e ∈ entries, Again inner e.2) :
    Again (.table inner) (.obj entries) := by
  intro w read
  simp only [check, map_eq_ok, checkEntries_eq_ok] at read
  obtain ⟨outs, read, rfl⟩ := read
  simp only [check, map_eq_ok, checkEntries_eq_ok]
  exact ⟨outs, forall₂_again read fun e he o ho => ⟨rfl, again e he o.2 ho.2⟩, rfl⟩

theorem again_object (regular : RegularFields fields) (model : s.fields? = some fields)
    (again : ∀ f ∈ fields.list, ∀ v, given? f.name f.other entries = some v → Again f.shape v) :
    Again s (.obj entries) := by
  intro w read
  rw [check_of_fields model, map_eq_ok] at read
  obtain ⟨outs, read, rfl⟩ := read
  rw [check_of_fields model, checkFields_again regular read again, Except.map]

/-- Only lists are read as lists. -/
theorem list_of_read (read : check (.list inner) v = .ok w) : ∃ items, v = .arr items := by
  cases v with
  | arr items => exact ⟨items, rfl⟩
  | null | bool | int | float | str | obj => simp [check, fail] at read

/-- Only objects are read as models and as tables. -/
theorem object_of_read (object : s.fields?.isSome ∨ ∃ inner, s = .table inner)
    (read : check s v = .ok w) :
    ∃ entries, v = .obj entries := by
  cases v with
  | obj entries => exact ⟨entries, rfl⟩
  | null | bool | int | float | str | arr =>
    cases s <;> simp [fields?] at object <;> simp [check, fail] at read

/-- Reading what was read yields the same. -/
theorem Regular.again (h : Regular s) (read : check s v = .ok w) : check s w = .ok w := by
  -- The parts of a value are smaller; an optional value is no part, but its shape is.
  induction hsize : sizeOf v using Nat.strongRecOn generalizing s v w with
  | ind n smaller =>
    have object {s : Shape} {fields : Fields} {w : Json} (regular : RegularFields fields)
        (model : s.fields? = some fields) (read : check s v = .ok w) : check s w = .ok w := by
      obtain ⟨entries, rfl⟩ := object_of_read (.inl (by simp [model])) read
      refine again_object regular model (fun f hf v given w hw => ?_) w read
      have lt := sizeOf_given_lt given
      simp only [Json.obj.sizeOf_spec] at hsize
      exact smaller (sizeOf v) (by omega) (regular.shapes f hf) hw rfl
    induction h generalizing w with
    | any | text | tableOrText | choice | whole | number | flag | wholeOrText =>
      exact again_scalar (by trivial) v w read
    | optional _ ih => exact again_optional (fun w read => ih read) w read
    | list h =>
      obtain ⟨items, rfl⟩ := list_of_read read
      refine again_list (fun v hv w hw => ?_) w read
      have lt := List.sizeOf_lt_of_mem hv
      simp only [Json.arr.sizeOf_spec] at hsize
      exact smaller (sizeOf v) (by omega) h hw rfl
    | table h =>
      obtain ⟨entries, rfl⟩ := object_of_read (.inr ⟨_, rfl⟩) read
      refine again_table (fun e he w hw => ?_) w read
      obtain ⟨k, v⟩ := e
      have lt := List.sizeOf_lt_of_mem he
      simp only [Json.obj.sizeOf_spec, Prod.mk.sizeOf_spec] at hsize lt
      exact smaller (sizeOf v) (by omega) h hw rfl
    | model distinct shapes defaults => exact object ⟨distinct, shapes, defaults⟩ rfl read
    | symbol => exact object regular_symbol rfl read

/-! ## Keys that nobody reads -/

/-- A value with one key more somewhere, in an object that is read as a model without a field of
that key.
-/
inductive Pads : Shape → Json → Json → Prop
  | key {s : Shape} {fields : Fields} {key : String} (model : s.fields? = some fields)
    (unknown : ∀ f ∈ fields.list, key ∉ f.keys) (before after : List (String × Json)) (v : Json) :
    Pads s (.obj (before ++ after)) (.obj (before ++ (key, v) :: after))
  | field {s : Shape} {fields : Fields} {f : Field} {key : String} {v v' : Json}
    (model : s.fields? = some fields) (hf : f ∈ fields.list) (hkey : key ∈ f.keys)
    (h : Pads f.shape v v')
    (before after : List (String × Json)) :
    Pads s (.obj (before ++ (key, v) :: after)) (.obj (before ++ (key, v') :: after))
  | optional {inner : Shape} {v v' : Json} (h : Pads inner v v') : Pads (.optional inner) v v'
  | item {inner : Shape} {v v' : Json} (h : Pads inner v v') (before after : List Json) :
    Pads (.list inner) (.arr (before ++ v :: after)) (.arr (before ++ v' :: after))
  | entry {inner : Shape} {v v' : Json} (h : Pads inner v v') (key : String)
    (before after : List (String × Json)) :
    Pads (.table inner) (.obj (before ++ (key, v) :: after)) (.obj (before ++ (key, v') :: after))

/-- A value with further keys, at any depth, in objects that are read as models without fields of
those keys. -/
def Padded (s : Shape) : Json → Json → Prop :=
  Relation.ReflTransGen (Pads s)

theorem Pads.ne_null (h : Pads s v v') : v ≠ .null ∧ v' ≠ .null := by
  induction h with
  | optional _ ih => exact ih
  | key | field | item | entry => exact ⟨nofun, nofun⟩

variable {before after : List (String × Json)} {name : String} {other : Option String}

theorem lookup_append (key : String) (before after : List (String × Json)) :
    Json.lookup key (before ++ after) = (Json.lookup key before <|> Json.lookup key after) := by
  simp only [Json.lookup_eq_get?, Assoc.get?_append]

theorem lookup_of_ne (h : key ≠ name) :
    Json.lookup name (before ++ (key, v) :: after) = Json.lookup name (before ++ after) := by
  rw [lookup_append, lookup_append, Json.lookup, if_neg h]

/-- A key that is none of a field's makes no difference to it. -/
theorem takes_of_unknown (h : key ∉ f.keys) (w : Json) :
    Takes f (before ++ after) w ↔ Takes f (before ++ (key, v) :: after) w := by
  simp only [Field.keys, List.mem_cons, Option.mem_toList, not_or] at h
  have same : given? f.name f.other (before ++ (key, v) :: after) =
    given? f.name f.other (before ++ after) := by
    unfold given?
    cases hother : f.other with
    | none => exact lookup_of_ne h.1
    | some a =>
      have hne : key ≠ a := fun same => h.2 (by rw [hother, same])
      dsimp only
      rw [lookup_of_ne h.1, lookup_of_ne hne]
  rw [Takes, Takes, same]

/-- Where a value is replaced, whoever looks finds the same as before, or the one for the other. -/
theorem lookup_of_replaced (key name : String) (v v' : Json) (before after : List (String × Json)) :
    Json.lookup name (before ++ (key, v') :: after) =
      Json.lookup name (before ++ (key, v) :: after) ∨
      name = key ∧ Json.lookup name (before ++ (key, v) :: after) = some v ∧
        Json.lookup name (before ++ (key, v') :: after) = some v' := by
  by_cases hkey : key = name
  · simp only [lookup_append, Json.lookup, if_pos hkey]
    cases Json.lookup name before with
    | none => exact .inr ⟨hkey.symm, rfl, rfl⟩
    | some found => exact .inl rfl
  · rw [lookup_of_ne hkey, lookup_of_ne hkey]
    exact .inl rfl

theorem given_of_replaced (f : Field) (key : String) (v v' : Json)
    (before after : List (String × Json)) :
    given? f.name f.other (before ++ (key, v') :: after) =
        given? f.name f.other (before ++ (key, v) :: after) ∨
      key ∈ f.keys ∧ given? f.name f.other (before ++ (key, v) :: after) = some v ∧
        given? f.name f.other (before ++ (key, v') :: after) = some v' := by
  have named := lookup_of_replaced key f.name v v' before after
  have keyed (name : String) (hname : name ∈ f.keys) (h : name = key) : key ∈ f.keys := h ▸ hname
  unfold given?
  cases hother : f.other with
  | none => exact named.imp_right fun h => ⟨keyed f.name (by simp [Field.keys]) h.1, h.2⟩
  | some a =>
    dsimp only
    rcases lookup_of_replaced key a v v' before after with same | ⟨hkey, old, new⟩
    · rw [same]
      cases Json.lookup a (before ++ (key, v) :: after) with
      | some found => exact .inl rfl
      | none => exact named.imp_right fun h => ⟨keyed f.name (by simp [Field.keys]) h.1, h.2⟩
    · rw [old, new]
      exact .inr ⟨keyed a (by simp [Field.keys, hother]) hkey, rfl, rfl⟩

theorem forall₂_of_replaced {α β : Type} {R : α → β → Prop} {x x' : α} (same : ∀ y, R x y ↔ R x' y)
    (before after : List α) (ys : List β) :
    List.Forall₂ R (before ++ x :: after) ys ↔ List.Forall₂ R (before ++ x' :: after) ys := by
  induction before generalizing ys with
  | nil => simp only [List.nil_append, List.forall₂_cons_left_iff, same]
  | cons b rest ih => simp only [List.cons_append, List.forall₂_cons_left_iff, ih]

/-- A key that nobody reads changes nothing.  The induction is on where the key is, which may be at
any depth. -/
theorem Regular.pads (regular : Regular s) (h : Pads s v v') (w : Json) :
    check s v = .ok w ↔ check s v' = .ok w := by
  induction h generalizing w with
  | key model unknown before after v =>
    simp only [check_of_fields model, map_eq_ok]
    refine exists_congr fun outs => and_congr_left fun _ => checkFields_congr fun f hf w => ?_
    exact takes_of_unknown (unknown f hf) w
  | @field s fields f key v v' model hf hkey h before after ih =>
    have known := regular.regularFields model
    simp only [check_of_fields model, map_eq_ok]
    refine exists_congr fun outs => and_congr_left fun _ => checkFields_congr fun g hg w => ?_
    unfold Takes
    rcases given_of_replaced g key v v' before after with same | ⟨hkey', old, new⟩
    · rw [same]
    · -- A key is that of one field, so only this field is given something else.
      obtain rfl := known.field_unique hf hg hkey hkey'
      rw [old, new]
      exact ih (known.shapes f hf) w
  | optional h ih =>
    cases regular with
    | optional inner =>
      rw [check_optional h.ne_null.1, check_optional h.ne_null.2]
      exact ih inner w
  | item h before after ih =>
    cases regular with
    | list inner =>
      simp only [check, map_eq_ok, checkItems_eq_ok]
      exact exists_congr fun ws => and_congr_left fun _ =>
        forall₂_of_replaced (ih inner) before after ws
  | entry h key before after ih =>
    cases regular with
    | table inner =>
      simp only [check, map_eq_ok, checkEntries_eq_ok]
      refine exists_congr fun outs => and_congr_left fun _ =>
        forall₂_of_replaced (fun o => ?_) before after outs
      exact and_congr_right fun _ => ih inner o.2

/-- Keys that nobody reads change nothing, wherever they are. -/
theorem Regular.padded (regular : Regular s) (h : Padded s v v') (w : Json) :
    check s v = .ok w ↔ check s v' = .ok w := by
  induction h with
  | refl => exact .rfl
  | tail _ pads ih => exact ih.trans (regular.pads pads w)

end Shape

end PikeAnalysis
