import PikeAnalysis.Assoc
import PikeAnalysis.Json.Writer

/-!
# Values up to the order of fields

`Plain` values hold no floating-point numbers and name no field twice; they are what requests are
made of.  Two of them are alike if they differ in nothing but the order in which objects list their
fields.  `sortKeys` picks one value among those that are alike: two plain values come out equal
exactly if they are alike.

`Alike` is defined by recursion on values and says nothing of sorting, so that it can be read as the
specification of what a key of a request has to tell apart: arrays keep their order, objects do not.
Sorting by key is then shown to pick the same value for two alike ones, by way of a fact about
sorting lists with distinct keys.
-/

namespace PikeAnalysis.Json

/-! ## Plain values -/

/-- A value whose numbers are whole and whose objects, at every depth, name each field once.  Texts
of doubles are left out here because two doubles can be the same and differ in their text; for the
other values sameness and equality up to the order of fields are one. -/
inductive Plain : Json → Prop
  | null : Plain .null
  | bool (b : Bool) : Plain (.bool b)
  | int (n : Int) : Plain (.int n)
  | str (s : String) : Plain (.str s)
  | arr {items : List Json} (parts : ∀ v ∈ items, Plain v) : Plain (.arr items)
  | obj {fields : List (String × Json)} (distinct : (Assoc.keys fields).Nodup)
      (parts : ∀ f ∈ fields, Plain f.2) : Plain (.obj fields)

/-- Plain values that are equal up to the order of fields: the same scalar, arrays whose items are
alike one by one, or objects with the same keys and alike values under each. -/
inductive Alike : Json → Json → Prop
  | null : Alike .null .null
  | bool (b : Bool) : Alike (.bool b) (.bool b)
  | int (n : Int) : Alike (.int n) (.int n)
  | str (s : String) : Alike (.str s) (.str s)
  | arr {xs ys : List Json} (length : xs.length = ys.length)
      (items : ∀ (i : Nat) (hx : i < xs.length) (hy : i < ys.length), Alike xs[i] ys[i]) :
      Alike (.arr xs) (.arr ys)
  | obj {fs gs : List (String × Json)}
      (keys : ∀ key, (lookup key fs).isSome = (lookup key gs).isSome)
      (values : ∀ key v w, lookup key fs = some v → lookup key gs = some w → Alike v w) :
      Alike (.obj fs) (.obj gs)

theorem lookup_eq_get? (key : String) (fields : List (String × Json)) :
    lookup key fields = Assoc.get? key fields := by
  induction fields with
  | nil => rfl
  | cons f rest ih =>
    obtain ⟨k, v⟩ := f
    simp only [lookup, Assoc.get?, ih]

theorem setField_eq_set (key : String) (value : Json) (fields : List (String × Json)) :
    setField key value fields = Assoc.set key value fields := by
  induction fields with
  | nil => rfl
  | cons f rest ih =>
    obtain ⟨k, v⟩ := f
    simp only [setField, Assoc.set, ih]

/-! ## Sorted fields -/

/-- The order in which fields are sorted.  It looks at names only; no two fields of a plain object
have the same one. -/
def fieldLe (f g : String × Json) : Bool :=
  decide (f.1 ≤ g.1)

theorem pairwise_mergeSort_fieldLe (fields : List (String × Json)) :
    (fields.mergeSort fieldLe).Pairwise fun f g => fieldLe f g := by
  refine List.pairwise_mergeSort (fun a b c hab hbc => ?_) (fun a b => ?_) fields
  · exact decide_eq_true (String.le_trans (of_decide_eq_true hab) (of_decide_eq_true hbc))
  · rw [Bool.or_eq_true]
    exact (String.le_total a.1 b.1).imp decide_eq_true decide_eq_true

/-- Fields with distinct keys sort to the same list exactly if each key has the same value. -/
theorem mergeSort_fieldLe_eq_iff {fs gs : List (String × Json)} (hf : (Assoc.keys fs).Nodup)
    (hg : (Assoc.keys gs).Nodup) :
    fs.mergeSort fieldLe = gs.mergeSort fieldLe ↔
      ∀ key, Assoc.get? key fs = Assoc.get? key gs := by
  have pf := List.mergeSort_perm fs fieldLe
  have pg := List.mergeSort_perm gs fieldLe
  constructor
  · intro h key
    have perm : fs.Perm gs := (pf.symm.trans (.of_eq h)).trans pg
    exact Assoc.get?_of_perm hf perm key
  · intro h
    have perm : fs.Perm gs := Assoc.perm_of_get?_eq hf hg h
    refine List.Perm.eq_of_pairwise ?_ (pairwise_mergeSort_fieldLe fs)
      (pairwise_mergeSort_fieldLe gs)
      ((pf.trans perm).trans pg.symm)
    -- the order sees the keys alone, but fields of one key are one field
    intro a b ha hb hab hba
    have hkey : a.1 = b.1 := String.le_antisymm (of_decide_eq_true hab) (of_decide_eq_true hba)
    have hva := Assoc.get?_of_mem_of_nodup hf (pf.mem_iff.mp ha)
    have hvb := Assoc.get?_of_mem_of_nodup hg (pg.mem_iff.mp hb)
    rw [h, hkey, hvb, Option.some.injEq] at hva
    exact Prod.ext hkey hva.symm

/-! ## Sorting at every depth -/

theorem sortItems_eq_map (items : List Json) : sortItems items = items.map sortKeys := by
  induction items with
  | nil => rfl
  | cons x xs ih => rw [sortItems, ih, List.map_cons]

theorem sortFields_eq_map (fields : List (String × Json)) :
    sortFields fields = fields.map fun f => (f.1, f.2.sortKeys) := by
  induction fields with
  | nil => rfl
  | cons f fs ih =>
    obtain ⟨k, v⟩ := f
    rw [sortFields, ih, List.map_cons]

theorem sortKeys_arr (items : List Json) : (arr items).sortKeys = .arr (items.map sortKeys) := by
  rw [sortKeys, sortItems_eq_map]

theorem sortKeys_obj (fields : List (String × Json)) :
    (obj fields).sortKeys = .obj ((fields.map fun f => (f.1, f.2.sortKeys)).mergeSort fieldLe) := by
  rw [sortKeys, sortFields_eq_map]
  rfl

theorem Plain.sortKeys {v : Json} (plain : Plain v) : Plain v.sortKeys := by
  induction plain with
  | null => exact .null
  | bool b => exact .bool b
  | int n => exact .int n
  | str s => exact .str s
  | arr parts ih =>
    rw [sortKeys_arr]
    refine .arr fun w hw => ?_
    obtain ⟨v, hv, rfl⟩ := List.mem_map.mp hw
    exact ih v hv
  | @obj fields distinct parts ih =>
    rw [sortKeys_obj]
    have perm := List.mergeSort_perm (fields.map fun f => (f.1, f.2.sortKeys)) fieldLe
    refine .obj ?_ fun g hg => ?_
    · refine (perm.map fun e : String × Json => e.1).nodup_iff.mpr ?_
      have hkeys := Assoc.keys_map Json.sortKeys fields
      rw [← hkeys] at distinct
      exact distinct
    · obtain ⟨f, hf, rfl⟩ := List.mem_map.mp (perm.mem_iff.mp hg)
      exact ih f hf

/-- Objects sort alike exactly if each key has values that sort alike. -/
theorem sortKeys_obj_eq_iff {fs gs : List (String × Json)} (hf : (Assoc.keys fs).Nodup)
    (hg : (Assoc.keys gs).Nodup) :
    (obj fs).sortKeys = (obj gs).sortKeys ↔
      ∀ key, (lookup key fs).map Json.sortKeys = (lookup key gs).map Json.sortKeys := by
  rw [sortKeys_obj, sortKeys_obj, obj.injEq, mergeSort_fieldLe_eq_iff]
  · simp only [Assoc.get?_map, lookup_eq_get?]
  · rw [Assoc.keys_map]
    exact hf
  · rw [Assoc.keys_map]
    exact hg

/-- What sorts to the same value is alike.  Sorting forgets the order of the fields and nothing
else. -/
theorem Plain.alike_of_sortKeys_eq {v w : Json} (hv : Plain v) (hw : Plain w)
    (same : v.sortKeys = w.sortKeys) : Alike v w := by
  -- By induction on the first value.  Sorting keeps its form, so the second has the same one.
  induction hv generalizing w with
  | null => cases hw with
    | null => exact .null
    | _ => simp [Json.sortKeys] at same
  | bool b => cases hw with
    | bool c =>
      simp only [Json.sortKeys, bool.injEq] at same
      exact same ▸ .bool b
    | _ => simp [Json.sortKeys] at same
  | int n => cases hw with
    | int m =>
      simp only [Json.sortKeys, int.injEq] at same
      exact same ▸ .int n
    | _ => simp [Json.sortKeys] at same
  | str s => cases hw with
    | str t =>
      simp only [Json.sortKeys, str.injEq] at same
      exact same ▸ .str s
    | _ => simp [Json.sortKeys] at same
  | @arr xs parts ih => cases hw with
    | @arr ys parts' =>
      rw [sortKeys_arr, sortKeys_arr, arr.injEq] at same
      have hlen : xs.length = ys.length := by simpa using congrArg List.length same
      refine .arr hlen fun i hx hy => ?_
      have hi : xs[i].sortKeys = ys[i].sortKeys := by
        have h := congrArg (·[i]?) same
        simpa [hx, hy] using h
      exact ih _ (List.getElem_mem hx) (parts' _ (List.getElem_mem hy)) hi
    | _ => simp [Json.sortKeys] at same
  | @obj fs distinct parts ih => cases hw with
    | @obj gs distinct' parts' =>
      rw [sortKeys_obj_eq_iff distinct distinct'] at same
      refine .obj (fun key => ?_) fun key v w hv hw => ?_
      · simpa using congrArg Option.isSome (same key)
      · have hsame := same key
        rw [hv, hw, Option.map_some, Option.map_some, Option.some.injEq] at hsame
        rw [lookup_eq_get?] at hv hw
        exact ih _ (Assoc.mem_of_get? hv) (parts' _ (Assoc.mem_of_get? hw)) hsame
    | _ => simp [Json.sortKeys] at same

/-- What is alike sorts to the same value.  With the converse, values sort to the same exactly if
they are alike. -/
theorem Alike.sortKeys_eq {v w : Json} (alike : Alike v w) (hv : Plain v) (hw : Plain w) :
    v.sortKeys = w.sortKeys := by
  induction alike with
  | null | bool | int | str => rfl
  | @arr xs ys length items ih =>
    cases hv with | arr parts =>
    cases hw with | arr parts' =>
    rw [sortKeys_arr, sortKeys_arr, arr.injEq]
    refine List.ext_getElem (by simpa using length) fun i hx hy => ?_
    rw [List.length_map] at hx hy
    rw [List.getElem_map, List.getElem_map]
    exact ih i hx hy (parts _ (List.getElem_mem hx)) (parts' _ (List.getElem_mem hy))
  | @obj fs gs keys values ih =>
    cases hv with | obj distinct parts =>
    cases hw with | obj distinct' parts' =>
    -- Sorted objects without double keys are equal if each key has the same value in both.
    rw [sortKeys_obj_eq_iff distinct distinct']
    intro key
    have hkey := keys key
    cases hf : lookup key fs with
    | none =>
      rw [hf, Option.isSome_none, eq_comm, Option.isSome_eq_false_iff,
        Option.isNone_iff_eq_none] at hkey
      rw [hkey]
    | some v =>
      rw [hf, Option.isSome_some, eq_comm, Option.isSome_iff_exists] at hkey
      obtain ⟨w, hg⟩ := hkey
      rw [hg, Option.map_some, Option.map_some, Option.some.injEq]
      have hv := parts _ (Assoc.mem_of_get? ((lookup_eq_get? key fs).symm.trans hf))
      have hw := parts' _ (Assoc.mem_of_get? ((lookup_eq_get? key gs).symm.trans hg))
      exact ih key v w hf hg hv hw

/-- Sorting forgets the order of fields and nothing else. -/
theorem Plain.sortKeys_eq_iff {v w : Json} (hv : Plain v) (hw : Plain w) :
    v.sortKeys = w.sortKeys ↔ Alike v w :=
  ⟨hv.alike_of_sortKeys_eq hw, fun alike => alike.sortKeys_eq hv hw⟩

/-- An object with its fields in another order is alike. -/
theorem Plain.alike_of_perm {fs gs : List (String × Json)} (plain : Plain (.obj fs))
    (perm : fs.Perm gs) : Alike (.obj fs) (.obj gs) := by
  cases plain with | obj distinct parts =>
  have hdistinct : (Assoc.keys gs).Nodup :=
    (perm.map fun e : String × Json => e.1).nodup_iff.mp distinct
  have hparts : ∀ g ∈ gs, Plain g.2 := fun g hg => parts g (perm.mem_iff.mpr hg)
  refine (Plain.obj distinct parts).alike_of_sortKeys_eq (.obj hdistinct hparts) ?_
  rw [sortKeys_obj_eq_iff distinct hdistinct]
  intro key
  rw [lookup_eq_get?, lookup_eq_get?, Assoc.get?_of_perm distinct perm key]

end PikeAnalysis.Json
