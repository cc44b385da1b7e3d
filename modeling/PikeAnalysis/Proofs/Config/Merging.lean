import PikeAnalysis.Config.Environment
import PikeAnalysis.Proofs.Json.FieldOrder

/-!
# Settings on top of others

Settings are nested tables, and a later source is put on top of an earlier one.  What the result has
at a path is settled by the upper settings as far as they say anything: a value of theirs that is no
table replaces whatever was at its place or below it, a table of theirs is put on top of the table
that was there, and where they are silent the lower settings show through.  This holds at every
depth, whichever of the two has a table where the other has a plain value.

The law is read off what merging does to one key (`lookup_mergeFields`), by induction on the path.

The law is stated path by path and not as an equation between tables, since that is how settings are
asked for.  `Precedence` has a case for each way in which the upper settings can speak of a path:
they have a value that is no table there or on the way to it, they have a table, or they are silent.
Tables name each key once (`IsTable`), which is what reading them yields; with a key named twice
there would be no value at a path to speak of.
-/

namespace PikeAnalysis.Config

open Json

/-! ## Tables and paths -/

/-- A table of settings: it names each key once, and so do the tables in it.  Tables that are read
from files and from the environment are all of this form, and without it the entry that a path leads
to would depend on which of two entries of one key is looked at. -/
inductive IsTable : List (String × Json) → Prop
  | intro {fields : List (String × Json)} (distinct : (Assoc.keys fields).Nodup)
      (inner : ∀ key more, (key, Json.obj more) ∈ fields → IsTable more) : IsTable fields

/-- A value that is no table. -/
def IsLeaf (v : Json) : Prop :=
  ∀ fields, v ≠ .obj fields

/-- What stands at a path of keys.  There is none below a value that is no table. -/
def valueAt : List String → Json → Option Json
  | [], v => some v
  | key :: path, .obj fields => (lookup key fields).bind (valueAt path)
  | _ :: _, _ => none

/-- A value that is no table stands on the way to a path.  Whatever the lower settings have below it
is gone. -/
def Covered (path : List String) (v : Json) : Prop :=
  ∃ way, way <+: path ∧ way ≠ path ∧ ∃ leaf, valueAt way v = some leaf ∧ IsLeaf leaf

theorem IsTable.distinct {fields : List (String × Json)} (table : IsTable fields) :
    (Assoc.keys fields).Nodup := by
  cases table
  assumption

theorem IsTable.inner {fields more : List (String × Json)} {key : String} (table : IsTable fields)
    (h : (key, Json.obj more) ∈ fields) : IsTable more := by
  cases table with
  | intro _ inner => exact inner key more h

theorem IsTable.of_lookup {fields more : List (String × Json)} {key : String}
    (table : IsTable fields)
    (h : lookup key fields = some (.obj more)) : IsTable more :=
  table.inner (Assoc.mem_of_get? (lookup_eq_get? key fields ▸ h))

theorem isTable_nil : IsTable [] :=
  .intro List.nodup_nil fun _ _ h => absurd h List.not_mem_nil

theorem isTable_cons_iff {key : String} {v : Json} {rest : List (String × Json)} :
    IsTable ((key, v) :: rest) ↔
      key ∉ Assoc.keys rest ∧ (∀ more, v = .obj more → IsTable more) ∧ IsTable rest := by
  constructor
  · intro table
    obtain ⟨hfresh, hrest⟩ := List.nodup_cons.mp table.distinct
    refine ⟨hfresh, ?_, .intro hrest fun _ _ h => table.inner (List.mem_cons_of_mem _ h)⟩
    rintro more rfl
    exact table.inner List.mem_cons_self
  · rintro ⟨hfresh, hv, hrest⟩
    refine .intro (List.nodup_cons.mpr ⟨hfresh, hrest.distinct⟩) fun k more hmem => ?_
    rcases List.mem_cons.mp hmem with h | h
    · exact hv more (Prod.mk.inj h).2.symm
    · exact hrest.inner h

@[simp] theorem valueAt_nil (v : Json) : valueAt [] v = some v := by
  cases v <;> rfl

theorem valueAt_cons (key : String) (path : List String) (fields : List (String × Json)) :
    valueAt (key :: path) (.obj fields) = (lookup key fields).bind (valueAt path) := rfl

theorem valueAt_cons_of_isLeaf {v : Json} (leaf : IsLeaf v) (key : String) (path : List String) :
    valueAt (key :: path) v = none := by
  cases v with
  | obj fields => exact absurd rfl (leaf fields)
  | _ => rfl

theorem not_covered_nil (v : Json) : ¬ Covered [] v := by
  rintro ⟨way, before, proper, -⟩
  exact proper (List.prefix_nil.mp before)

/-- Nothing stands on the way out of a table; what follows is up to the value of the first key. -/
theorem covered_cons {key : String} {path : List String} {fields : List (String × Json)} :
    Covered (key :: path) (.obj fields) ↔ ∃ v, lookup key fields = some v ∧ Covered path v := by
  constructor
  · rintro ⟨way, before, proper, leaf, hleaf, isLeaf⟩
    cases way with
    | nil =>
      rw [valueAt_nil, Option.some.injEq] at hleaf
      exact absurd hleaf.symm (isLeaf fields)
    | cons first way =>
      obtain ⟨rfl, hbefore⟩ := List.cons_prefix_cons.mp before
      obtain ⟨v, hv, hway⟩ := Option.bind_eq_some_iff.mp hleaf
      exact ⟨v, hv, way, hbefore, fun h => proper (h ▸ rfl), leaf, hway, isLeaf⟩
  · rintro ⟨v, hv, way, before, proper, leaf, hleaf, isLeaf⟩
    refine ⟨key :: way, List.cons_prefix_cons.mpr ⟨rfl, before⟩, ?_, leaf, ?_, isLeaf⟩
    · exact fun h => proper (List.cons.inj h).2
    · rw [valueAt_cons, hv]
      exact hleaf

theorem covered_of_isLeaf {v : Json} (leaf : IsLeaf v) (key : String) (path : List String) :
    Covered (key :: path) v :=
  ⟨[], List.nil_prefix, (List.cons_ne_nil key path).symm, v, valueAt_nil v, leaf⟩

theorem valueAt_of_covered {path : List String} {v : Json} (h : Covered path v) :
    valueAt path v = none := by
  induction path generalizing v with
  | nil => exact absurd h (not_covered_nil v)
  | cons key path ih =>
    cases v with
    | obj fields =>
      obtain ⟨w, hw, hcovered⟩ := covered_cons.mp h
      rw [valueAt_cons, hw, Option.bind_some, ih hcovered]
    | _ => rfl

/-! ## One key -/

theorem mergeFields_nil (base : List (String × Json)) : mergeFields base [] = base := by
  rw [mergeFields]

theorem mergeFields_cons (base rest : List (String × Json)) (key : String) (v : Json) :
    mergeFields base ((key, v) :: rest) =
      mergeFields (setField key (mergeValue (lookup key base) v) base) rest := by
  rw [mergeFields]

theorem mergeValue_obj (fields more : List (String × Json)) :
    mergeValue (some (.obj fields)) (.obj more) = .obj (mergeFields fields more) := by
  rw [mergeValue]

theorem mergeValue_of_isLeaf (base : Option Json) {v : Json} (leaf : IsLeaf v) :
    mergeValue base v = v := by
  rw [mergeValue]
  exact fun fields more _ h => leaf more h

theorem mergeValue_of_base {base : Option Json} (plain : ∀ fields, base ≠ some (.obj fields))
    (v : Json) :
    mergeValue base v = v := by
  rw [mergeValue]
  exact fun fields more h _ => plain fields h

/-- Merging leaves the value of a key as it was or puts the upper settings' value on top of it. -/
theorem lookup_mergeFields {upper : List (String × Json)} (distinct : (Assoc.keys upper).Nodup)
    (base : List (String × Json)) (key : String) :
    lookup key (mergeFields base upper) =
      match lookup key upper with
      | none => lookup key base
      | some v => some (mergeValue (lookup key base) v) := by
  induction upper generalizing base with
  | nil => rw [mergeFields_nil, lookup]
  | cons e rest ih =>
    obtain ⟨k, v⟩ := e
    obtain ⟨hfresh, hrest⟩ := List.nodup_cons.mp distinct
    rw [mergeFields_cons, ih hrest, lookup]
    by_cases hk : k = key
    · -- the key is set now and never again
      subst hk
      have habsent : lookup k rest = none := by
        rw [lookup_eq_get?]
        exact Assoc.get?_eq_none_iff.mpr hfresh
      rw [habsent, if_pos rfl]
      exact lookup_setField_self k _ base
    · rw [if_neg hk, lookup_setField_of_ne (Ne.symm hk)]

/-! ## Identities -/

theorem mergeFields_of_disjoint {upper : List (String × Json)} (distinct : (Assoc.keys upper).Nodup)
    {base : List (String × Json)} (new : ∀ key ∈ Assoc.keys upper, lookup key base = none) :
    mergeFields base upper = base ++ upper := by
  induction upper generalizing base with
  | nil => rw [mergeFields_nil, List.append_nil]
  | cons e rest ih =>
    obtain ⟨k, v⟩ := e
    obtain ⟨hfresh, hrest⟩ := List.nodup_cons.mp distinct
    have hk : lookup k base = none := new k List.mem_cons_self
    have hset : setField k v base = base ++ [(k, v)] := by
      rw [setField_eq_set]
      exact Assoc.set_of_get?_eq_none (lookup_eq_get? k base ▸ hk) v
    have hnew : ∀ key ∈ Assoc.keys rest, lookup key (setField k v base) = none := by
      intro key hkey
      have hne : key ≠ k := fun h => hfresh (h ▸ hkey)
      rw [lookup_setField_of_ne hne]
      exact new key (List.mem_cons_of_mem k hkey)
    rw [mergeFields_cons, hk, mergeValue_of_base fun _ => (Option.some_ne_none _).symm,
      ih hrest hnew, hset, List.append_assoc, List.singleton_append]

theorem nil_mergeFields {upper : List (String × Json)} (distinct : (Assoc.keys upper).Nodup) :
    mergeFields [] upper = upper :=
  mergeFields_of_disjoint distinct fun _ _ => rfl

theorem setField_of_lookup {key : String} {v : Json} {fields : List (String × Json)}
    (h : lookup key fields = some v) : setField key v fields = fields := by
  induction fields with
  | nil => cases h
  | cons e rest ih =>
    obtain ⟨k, w⟩ := e
    by_cases hk : k = key
    · rw [lookup, if_pos hk, Option.some.injEq] at h
      rw [setField, if_pos hk, h]
    · rw [lookup, if_neg hk] at h
      rw [setField, if_neg hk, ih h]

/-- Settings that say what is there already change nothing. -/
theorem mergeFields_of_same {base upper : List (String × Json)}
    (same : ∀ e ∈ upper, lookup e.1 base = some e.2 ∧ mergeValue (some e.2) e.2 = e.2) :
    mergeFields base upper = base := by
  induction upper with
  | nil => exact mergeFields_nil base
  | cons e rest ih =>
    obtain ⟨k, v⟩ := e
    obtain ⟨hv, hself⟩ := same (k, v) List.mem_cons_self
    rw [mergeFields_cons, hv, hself, setField_of_lookup hv]
    exact ih fun f hf => same f (List.mem_cons_of_mem _ hf)

theorem IsTable.mergeFields_self {fields : List (String × Json)} (table : IsTable fields) :
    mergeFields fields fields = fields := by
  induction table with
  | @intro fields distinct inner ih =>
    refine mergeFields_of_same fun e he => ⟨?_, ?_⟩
    · rw [lookup_eq_get?]
      exact Assoc.get?_of_mem_of_nodup distinct he
    · obtain ⟨k, v⟩ := e
      by_cases hv : ∃ more, v = .obj more
      · obtain ⟨more, rfl⟩ := hv
        rw [mergeValue_obj, ih k more he]
      · exact mergeValue_of_isLeaf _ fun more h => hv ⟨more, h⟩

/-! ## The result is a table -/

theorem IsTable.setField {fields : List (String × Json)} (table : IsTable fields) (key : String)
    {v : Json} (hv : ∀ more, v = .obj more → IsTable more) : IsTable (setField key v fields) := by
  rw [setField_eq_set]
  refine .intro (Assoc.nodup_keys_set table.distinct key v) fun k more hmem => ?_
  rcases Assoc.mem_set hmem with h | h
  · exact hv more (Prod.mk.inj h).2.symm
  · exact table.inner h

/-- Tables on top of tables are tables. -/
theorem IsTable.mergeFields {base upper : List (String × Json)} (hbase : IsTable base)
    (hupper : IsTable upper) : IsTable (mergeFields base upper) := by
  induction hupper generalizing base with
  | @intro upper distinct inner ih =>
    clear distinct
    induction upper generalizing base with
    | nil =>
      rw [mergeFields_nil]
      exact hbase
    | cons e rest ihRest =>
      obtain ⟨k, v⟩ := e
      rw [mergeFields_cons]
      refine ihRest (fun key more h => inner key more (List.mem_cons_of_mem _ h))
        (fun key more h => ih key more (List.mem_cons_of_mem _ h)) ?_
      refine hbase.setField k fun merged hmerged => ?_
      unfold mergeValue at hmerged
      split at hmerged
      · next fields more hfields =>
        cases hmerged
        exact ih k more List.mem_cons_self (hbase.of_lookup hfields)
      · exact inner k merged (hmerged ▸ List.mem_cons_self)

/-! ## Any path -/

/-- What settings on top of others have at a path.  The five cases are told apart by what the upper
settings have at the path or above it, and together they say what is found at any path whatever. -/
structure Precedence (base upper : List (String × Json)) (path : List String) : Prop where
  /-- A value of the upper settings that is no table stands. -/
  replaced : ∀ v, valueAt path (.obj upper) = some v → IsLeaf v →
    valueAt path (.obj (mergeFields base upper)) = some v
  /-- Nothing is left below such a value. -/
  covered : Covered path (.obj upper) → valueAt path (.obj (mergeFields base upper)) = none
  /-- Where the upper settings are silent, the lower ones have their way. -/
  kept : valueAt path (.obj upper) = none → ¬ Covered path (.obj upper) →
    valueAt path (.obj (mergeFields base upper)) = valueAt path (.obj base)
  /-- A table is put on top of a table. -/
  merged : ∀ fields more, valueAt path (.obj base) = some (.obj fields) →
    valueAt path (.obj upper) = some (.obj more) →
    valueAt path (.obj (mergeFields base upper)) = some (.obj (mergeFields fields more))
  /-- A table stands as it is where the lower settings have none. -/
  placed : ∀ more, (∀ fields, valueAt path (.obj base) ≠ some (.obj fields)) →
    valueAt path (.obj upper) = some (.obj more) →
    valueAt path (.obj (mergeFields base upper)) = some (.obj more)

theorem precedence_nil (base upper : List (String × Json)) : Precedence base upper [] where
  replaced v hv leaf := by
    rw [valueAt_nil, Option.some.injEq] at hv
    exact absurd hv.symm (leaf upper)
  covered h := absurd h (not_covered_nil _)
  kept h := by
    rw [valueAt_nil] at h
    cases h
  merged fields more hbase hupper := by
    rw [valueAt_nil, Option.some.injEq, Json.obj.injEq] at hbase hupper ⊢
    rw [hbase, hupper]
  placed more hbase := absurd (valueAt_nil _) (hbase base)

/-- Where the upper settings alone decide, the result has what they have. -/
theorem precedence_of_same {base upper : List (String × Json)} {path : List String}
    (same : valueAt path (.obj (mergeFields base upper)) = valueAt path (.obj upper))
    (silent : valueAt path (.obj upper) = none → ¬ Covered path (.obj upper) →
      valueAt path (.obj base) = none)
    (single : ∀ fields more, valueAt path (.obj base) = some (.obj fields) →
      valueAt path (.obj upper) ≠ some (.obj more)) : Precedence base upper path where
  replaced _ hv _ := same.trans hv
  covered h := same.trans (valueAt_of_covered h)
  kept h hopen := by rw [same, h, silent h hopen]
  merged fields more hbase hupper := absurd hupper (single fields more hbase)
  placed _ _ h := same.trans h

section Cons

variable {base upper : List (String × Json)} {key : String}

/-- Below a key that the upper settings do not name, everything stays. -/
theorem precedence_of_absent (distinct : (Assoc.keys upper).Nodup)
    (absent : lookup key upper = none)
    (path : List String) : Precedence base upper (key :: path) := by
  have hmerged : valueAt (key :: path) (.obj (mergeFields base upper)) =
      valueAt (key :: path) (.obj base) := by
    rw [valueAt_cons, valueAt_cons, lookup_mergeFields distinct, absent]
  have hupper : valueAt (key :: path) (.obj upper) = none := by
    rw [valueAt_cons, absent, Option.bind_none]
  have hopen : ¬ Covered (key :: path) (.obj upper) := by
    rw [covered_cons, absent]
    exact fun ⟨v, hv, _⟩ => nomatch hv
  exact {
    replaced v hv := by simp [hupper] at hv
    covered h := absurd h hopen
    kept _ _ := hmerged
    merged fields more _ h := by simp [hupper] at h
    placed more _ h := by simp [hupper] at h }

/-- A value that is no table replaces what the key had.  Nothing of what the key had shows
through. -/
theorem precedence_of_isLeaf (distinct : (Assoc.keys upper).Nodup) {v : Json}
    (hv : lookup key upper = some v) (leaf : IsLeaf v) (path : List String) :
    Precedence base upper (key :: path) := by
  have hupper : valueAt (key :: path) (.obj upper) = valueAt path v := by
    rw [valueAt_cons, hv, Option.bind_some]
  refine precedence_of_same ?_ (fun h hopen => ?_) fun _ more _ h => ?_
  · rw [valueAt_cons, valueAt_cons, lookup_mergeFields distinct, hv]
    simp only [mergeValue_of_isLeaf _ leaf]
  · -- below it the path is covered, and at the key itself something stands
    cases path with
    | nil => simp [hupper] at h
    | cons k rest => exact absurd (covered_cons.mpr ⟨v, hv, covered_of_isLeaf leaf k rest⟩) hopen
  · rw [hupper] at h
    cases path with
    | nil =>
      rw [valueAt_nil, Option.some.injEq] at h
      exact leaf more h
    | cons k rest =>
      rw [valueAt_cons_of_isLeaf leaf] at h
      cases h

/-- Below a key where only the upper settings have a table, that table stands. -/
theorem precedence_of_new_table (distinct : (Assoc.keys upper).Nodup) {more : List (String × Json)}
    (hmore : lookup key upper = some (.obj more))
    (hbase : ∀ fields, lookup key base ≠ some (.obj fields))
    (path : List String) : Precedence base upper (key :: path) := by
  -- the lower settings have nothing below the key
  have hdeep : ∀ k rest, valueAt (key :: k :: rest) (.obj base) = none := by
    intro k rest
    rw [valueAt_cons]
    cases hv : lookup key base with
    | none => rfl
    | some v => exact valueAt_cons_of_isLeaf (fun fields h => hbase fields (h ▸ hv)) k rest
  refine precedence_of_same ?_ (fun h _ => ?_) fun fields _ h _ => ?_
  · rw [valueAt_cons, valueAt_cons, lookup_mergeFields distinct, hmore]
    simp only [mergeValue_of_base hbase]
  · cases path with
    | nil => simp [valueAt_cons, hmore] at h
    | cons k rest => exact hdeep k rest
  · cases path with
    | nil =>
      obtain ⟨v, hv, hv'⟩ := Option.bind_eq_some_iff.mp h
      rw [valueAt_nil, Option.some.injEq] at hv'
      exact hbase fields (hv' ▸ hv)
    | cons k rest =>
      rw [hdeep] at h
      cases h

/-- Below a key with a table on either side, the law is that of the two tables. -/
theorem precedence_of_tables (distinct : (Assoc.keys upper).Nodup)
    {fields more : List (String × Json)}
    (hfields : lookup key base = some (.obj fields)) (hmore : lookup key upper = some (.obj more))
    {path : List String} (below : Precedence fields more path) :
    Precedence base upper (key :: path) := by
  have hmerged : valueAt (key :: path) (.obj (mergeFields base upper)) =
      valueAt path (.obj (mergeFields fields more)) := by
    rw [valueAt_cons, lookup_mergeFields distinct, hmore, hfields]
    simp only [mergeValue_obj, Option.bind_some]
  have hbase : valueAt (key :: path) (.obj base) = valueAt path (.obj fields) := by
    rw [valueAt_cons, hfields, Option.bind_some]
  have hupper : valueAt (key :: path) (.obj upper) = valueAt path (.obj more) := by
    rw [valueAt_cons, hmore, Option.bind_some]
  have hcovered : Covered (key :: path) (.obj upper) ↔ Covered path (.obj more) := by
    rw [covered_cons]
    simp [hmore]
  exact {
    replaced := by simpa only [hmerged, hupper] using below.replaced
    covered := by simpa only [hmerged, hcovered] using below.covered
    kept := by simpa only [hmerged, hupper, hcovered, hbase] using below.kept
    merged := by simpa only [hmerged, hbase, hupper] using below.merged
    placed := by simpa only [hmerged, hbase, hupper] using below.placed }

end Cons

/-- At every depth, the upper settings win as far as they say anything. -/
theorem precedence_of_isTable {upper : List (String × Json)} (table : IsTable upper)
    (base : List (String × Json)) (path : List String) : Precedence base upper path := by
  induction path generalizing base upper with
  | nil => exact precedence_nil base upper
  | cons key path ih =>
    cases hv : lookup key upper with
    | none => exact precedence_of_absent table.distinct hv path
    | some v =>
      by_cases hleaf : IsLeaf v
      · exact precedence_of_isLeaf table.distinct hv hleaf path
      · obtain ⟨more, rfl⟩ : ∃ more, v = .obj more := by simpa [IsLeaf] using hleaf
        by_cases hbase : ∃ fields, lookup key base = some (.obj fields)
        · obtain ⟨fields, hfields⟩ := hbase
          exact precedence_of_tables table.distinct hfields hv (ih (table.of_lookup hv) fields)
        · exact precedence_of_new_table table.distinct hv (fun fields h => hbase ⟨fields, h⟩) path

/-- What merging settings comes to.  It says what merging with nothing and with itself comes to as
well. -/
structure MergeLaws (base upper : List (String × Json)) : Prop where
  /-- The result is a table again. -/
  table : IsTable (mergeFields base upper)
  /-- What it has at every path. -/
  precedence : ∀ path, Precedence base upper path
  /-- Settings on top of nothing are those settings. -/
  on_nothing : mergeFields [] upper = upper
  /-- Nothing on top of settings changes nothing. -/
  nothing_on : mergeFields base [] = base
  /-- Settings on top of themselves change nothing. -/
  on_itself : mergeFields base base = base

/-- Settings from one source on top of those of another, however they are nested and wherever one
has a table and the other a plain value.  `MergeLaws` has what is found at every path, and that
merging with nothing, on either side, and with itself changes nothing. -/
theorem mergeLaws_of_isTable {base upper : List (String × Json)} (hbase : IsTable base)
    (hupper : IsTable upper) : MergeLaws base upper where
  table := hbase.mergeFields hupper
  precedence := precedence_of_isTable hupper base
  on_nothing := nil_mergeFields hupper.distinct
  nothing_on := mergeFields_nil base
  on_itself := hbase.mergeFields_self

/-- A text where there was a table, tables where there were a number and nothing, and tables that
meet: below the text nothing is left, and beside the tables that meet the rest shows through. -/
theorem mergeLaws_of_mixed_settings :
    let lower := [("stdlib", .obj [("preload", .obj [("names", .str "all")]), ("max", .int 50)]),
      ("cache", .int 3)]
    let upper := [("stdlib", .obj [("preload", .str "none")]), ("cache", .obj [("size", .int 9)])]
    (IsTable lower ∧ IsTable upper) ∧ MergeLaws lower upper ∧
      valueAt ["stdlib", "preload", "names"] (.obj (mergeFields lower upper)) = none ∧
      valueAt ["stdlib", "max"] (.obj (mergeFields lower upper)) = some (.int 50) ∧
      valueAt ["cache"] (.obj (mergeFields lower upper)) = some (.obj [("size", .int 9)]) := by
  intro lower upper
  have hlower : IsTable lower := by simp [lower, isTable_cons_iff, isTable_nil, Assoc.keys]
  have hupper : IsTable upper := by simp [upper, isTable_cons_iff, isTable_nil, Assoc.keys]
  have laws := mergeLaws_of_isTable hlower hupper
  refine ⟨⟨hlower, hupper⟩, laws, ?_, ?_, ?_⟩
  · refine (laws.precedence _).covered ⟨["stdlib", "preload"], ⟨["names"], rfl⟩, by decide, ?_⟩
    exact ⟨.str "none", rfl, by rintro _ ⟨⟩⟩
  · refine (laws.precedence ["stdlib", "max"]).kept rfl ?_
    simp [covered_cons, upper, lookup]
  · exact (laws.precedence ["cache"]).placed _ (by rintro _ ⟨⟩) rfl

end PikeAnalysis.Config
