import Mathlib.Data.List.Forall2
import Mathlib.Data.List.Nodup
import PikeAnalysis.Proofs.Symbol.ReadingOrder
import PikeAnalysis.Symbol.Merge
import PikeAnalysis.Validation.Run

/-!
# What merging keeps

The parsed symbols stay in their order, and what introspection completes of them is their type,
modifiers and documentation only.  Behind them come the introspected symbols whose names are new,
the first of each name.  So the names of both sides are there and no others, and what has been
merged once has nothing more to take over (`merging_loses_and_invents_nothing`).

A parsed symbol at the top level takes over what introspection knows under its name; an introspected
one is new if no parsed symbol has its name, at any depth.  What is inside a class is the parser's
alone.  `Redeclares` says how a symbol may change, and the statement about a merge is that it is a
list of such symbols followed by the new ones, so that nothing of the parser's is lost and nothing
is invented.  Merging again finds everything taken over already.
-/

namespace PikeAnalysis.Symbol

variable {parsed introspected symbols forest : List Symbol} {known : List (String × Symbol)}
  {s : Symbol} {n : String}

/-! ## Names in a forest -/

/-- The names in a forest, at any depth. -/
def namesIn (forest : List Symbol) : List String :=
  (flattenList "" forest).map (·.name)

/-- Names do not depend on what a forest stands in. -/
theorem map_name_flattenList (above : String) (forest : List Symbol) :
    (flattenList above forest).map (·.name) = namesIn forest := by
  rw [namesIn, flattenList_eq_map_nodes, flattenList_eq_map_nodes, List.map_map, List.map_map]
  rfl

@[simp] theorem namesIn_nil : namesIn [] = [] :=
  rfl

theorem namesIn_cons (s : Symbol) (rest : List Symbol) :
    namesIn (s :: rest) = s.name :: namesIn s.children ++ namesIn rest := by
  have hflatten : (flatten "" s).map (·.name) = s.name :: namesIn s.children := by
    cases s
    exact congrArg _ (map_name_flattenList _ _)
  rw [namesIn, flattenList, List.map_append, hflatten]
  rfl

theorem namesIn_append (forest more : List Symbol) :
    namesIn (forest ++ more) = namesIn forest ++ namesIn more := by
  induction forest with
  | nil => rfl
  | cons s rest ih => simp [namesIn_cons, ih]

theorem mem_namesIn : n ∈ namesIn forest ↔ n ∈ forest.map (·.name) ∨
    ∃ s ∈ forest, n ∈ namesIn s.children := by
  induction forest with
  | nil => simp
  | cons s rest ih =>
    rw [List.exists_mem_cons_iff]
    simp only [namesIn_cons, List.mem_append, List.map_cons, List.mem_cons, ih]
    tauto

/-! ## The first symbol of each name -/

theorem keys_firstByName (symbols : List Symbol) :
    Assoc.keys (firstByName symbols) = (symbols.map (·.name)).eraseDups :=
  Assoc.keys_foldl_add _ _ _

theorem nodup_keys_firstByName (symbols : List Symbol) :
    (Assoc.keys (firstByName symbols)).Nodup := by
  unfold firstByName
  exact List.foldlRecOn (motive := fun index => (Assoc.keys index).Nodup) symbols _ .nil
    fun _ h s _ => Assoc.nodup_keys_add h _ s

theorem get?_firstByName (n : String) (symbols : List Symbol) :
    Assoc.get? n (firstByName symbols) = symbols.find? (·.name == n) :=
  SymbolTable.get?_indexByName n symbols

/-- Every symbol is listed under its own name. -/
theorem name_of_mem_firstByName {e : String × Symbol} (h : e ∈ firstByName symbols) :
    e.2.name = e.1 := by
  have hfind : symbols.find? (·.name == e.1) = some e.2 := by
    rw [← get?_firstByName]
    exact Assoc.get?_of_mem_of_nodup (nodup_keys_firstByName symbols) h
  simpa using List.find?_some hfind

theorem map_snd_firstByName_sublist (symbols : List Symbol) :
    ((firstByName symbols).map (·.2)).Sublist symbols := by
  suffices h : ∀ (xs : List Symbol) (acc : List (String × Symbol)),
      ((xs.foldl (fun index s => Assoc.add s.name s index) acc).map (·.2)).Sublist
        (acc.map (·.2) ++ xs) from
    h symbols []
  intro xs
  induction xs with
  | nil => simp
  | cons x rest ih =>
    intro acc
    have hadd : ((Assoc.add x.name x acc).map (·.2)).Sublist (acc.map (·.2) ++ [x]) := by
      unfold Assoc.add
      split
      · exact List.sublist_append_left _ _
      · simp
    refine (ih _).trans ?_
    simpa using hadd.append_right rest

/-! ## Completing -/

/-- A symbol is declared again, perhaps with another type, other modifiers and other documentation.
Its name, kind, place and children are the same. -/
structure Redeclares (s t : Symbol) : Prop where
  name : t.name = s.name
  kind : t.kind = s.kind
  position : t.position = s.position
  children : t.children = s.children
  classname : t.classname = s.classname
  qualifiedName : t.qualifiedName = s.qualifiedName
  file : t.file = s.file

theorem redeclares_complete (known : List (String × Symbol)) (s : Symbol) :
    Redeclares s (complete known s) := by
  unfold complete
  split
  · constructor <;> rfl
  · split <;> constructor <;> rfl

/-- An option behind the part of it that is worth having changes nothing. -/
theorem filter_orElse_self {α : Type} (p : α → Bool) (x : Option α) : (x.filter p <|> x) = x := by
  cases hfilter : x.filter p with
  | none => rfl
  | some a => exact (Option.filter_eq_some_iff.mp hfilter).1.symm

theorem filter_orElse_orElse {α : Type} (p : α → Bool) (x y : Option α) :
    ((x.filter p <|> y).filter p <|> y) = (x.filter p <|> y) := by
  cases hfilter : x.filter p with
  | none => exact filter_orElse_self p y
  | some a =>
    have ha : p a = true := (Option.filter_eq_some_iff.mp hfilter).2
    have hkeep : (some a).filter p = some a := Option.filter_some_pos ha
    exact congrArg (· <|> y) hkeep

/-- What a symbol has taken over it takes over again. -/
theorem complete_complete (known : List (String × Symbol)) (s : Symbol) :
    complete known (complete known s) = complete known s := by
  have h := redeclares_complete known s
  cases hget : Assoc.get? s.name known with
  | none => simp [complete, hget]
  | some m =>
    by_cases hdirective : s.kind.isDirective
    · simp [complete, hget, hdirective]
    · rw [complete, h.name, hget]
      simp only [h.kind, if_neg hdirective]
      simp only [complete, hget, if_neg hdirective, mk.injEq, true_and, and_true]
      refine ⟨by simp [← Option.or_assoc], ?_, filter_orElse_orElse _ _ _⟩
      split <;> rfl

/-- A symbol has nothing to take over from itself. -/
theorem complete_of_get?_eq_self (h : Assoc.get? s.name known = some s) : complete known s = s := by
  simp only [complete, h]
  split
  · rfl
  · have htype : (s.type <|> s.type) = s.type := by simp
    rw [htype, filter_orElse_self, ite_self]
    cases s
    rfl

theorem namesIn_map_complete (known : List (String × Symbol)) (parsed : List Symbol) :
    namesIn (parsed.map (complete known)) = namesIn parsed := by
  induction parsed with
  | nil => rfl
  | cons s rest ih =>
    have h := redeclares_complete known s
    rw [List.map_cons, namesIn_cons, namesIn_cons, ih, h.name, h.children]

/-! ## Merging -/

/-- The introspected symbols whose names no parsed one has, the first of each name.  A name that
introspection gives twice is added once. -/
def added (parsed introspected : List Symbol) : List Symbol :=
  ((firstByName introspected).filter fun e => !(namesIn parsed).contains e.1).map (·.2)

theorem merge_eq (parsed introspected : List Symbol) :
    merge parsed introspected =
      parsed.map (complete (firstByName introspected)) ++ added parsed introspected :=
  rfl

theorem added_sublist (parsed introspected : List Symbol) :
    (added parsed introspected).Sublist introspected :=
  (List.filter_sublist.map _).trans (map_snd_firstByName_sublist introspected)

theorem map_name_added (parsed introspected : List Symbol) :
    (added parsed introspected).map (·.name) =
      (Assoc.keys (firstByName introspected)).filter fun n => !(namesIn parsed).contains n := by
  rw [added, Assoc.keys, List.filter_map, List.map_map]
  exact List.map_congr_left fun e he => name_of_mem_firstByName (List.mem_of_mem_filter he)

theorem mem_map_name_added :
    n ∈ (added parsed introspected).map (·.name) ↔ n ∈ introspected.map (·.name) ∧
      n ∉ namesIn parsed := by
  rw [map_name_added, keys_firstByName, List.mem_filter, List.mem_eraseDups]
  simp

theorem nodup_map_name_added (parsed introspected : List Symbol) :
    ((added parsed introspected).map (·.name)).Nodup := by
  rw [map_name_added]
  exact (nodup_keys_firstByName introspected).filter _

theorem mem_namesIn_merge : n ∈ namesIn (merge parsed introspected) ↔
    n ∈ namesIn parsed ∨ n ∈ introspected.map (·.name) ∨ ∃ s ∈ added parsed introspected, n ∈
      namesIn s.children := by
  have hadded : n ∈ namesIn (added parsed introspected) ↔
      (n ∈ introspected.map (·.name) ∧ n ∉ namesIn parsed) ∨
        ∃ s ∈ added parsed introspected, n ∈ namesIn s.children := by
    rw [mem_namesIn, mem_map_name_added]
  rw [merge_eq, namesIn_append, namesIn_map_complete, List.mem_append, hadded]
  tauto

/-- A merged symbol has nothing more to take over. -/
theorem complete_of_mem_merge (h : s ∈ merge parsed introspected) :
    complete (firstByName introspected) s = s := by
  rcases List.mem_append.mp h with h | h
  · obtain ⟨t, -, rfl⟩ := List.mem_map.mp h
    exact complete_complete _ t
  · obtain ⟨e, he, rfl⟩ := List.mem_map.mp h
    have hlisted := List.mem_of_mem_filter he
    apply complete_of_get?_eq_self
    rw [name_of_mem_firstByName hlisted]
    exact Assoc.get?_of_mem_of_nodup (nodup_keys_firstByName introspected) hlisted

theorem merge_merge (parsed introspected : List Symbol) :
    merge (merge parsed introspected) introspected = merge parsed introspected := by
  have hcompleted : (merge parsed introspected).map (complete (firstByName introspected)) =
    merge parsed introspected :=
    (List.map_congr_left fun _ => complete_of_mem_merge).trans (List.map_id' _)
  have hadded : added (merge parsed introspected) introspected = [] := by
    apply List.map_eq_nil_iff.mp
    apply List.eq_nil_iff_forall_not_mem.mpr
    intro n hn
    obtain ⟨hname, hnew⟩ := mem_map_name_added.mp hn
    exact hnew (mem_namesIn_merge.mpr (.inr (.inl hname)))
  rw [merge_eq, hcompleted, hadded, List.append_nil]

/-- What introspection knows has a name, and nothing is known of what is inside it. -/
theorem name_and_children_of_ofIntrospected? {w : Wire.Introspected}
    (h : ofIntrospected? w = some s) :
    s.name ≠ "" ∧ s.children = [] := by
  unfold ofIntrospected? at h
  split at h
  · cases h
  · obtain ⟨hname, hsymbol⟩ := Option.ite_none_left_eq_some.mp h
    obtain rfl := Option.some.inj hsymbol
    exact ⟨by simpa using hname, rfl⟩

/-- What is merged begins with the parsed symbols in their order, each with another type, other
modifiers and other documentation at most.  Behind them come introspected symbols in their order, no
two of one name and none with a name that is somewhere among the parsed ones.  So the names are
those on either side and those inside the symbols that were added; and these are none, as symbols
from introspection have nothing inside them.  Merging once more with the same introspection changes
nothing. -/
theorem merging_loses_and_invents_nothing (parsed introspected : List Symbol) :
    ∃ completed added, merge parsed introspected = completed ++ added ∧
      List.Forall₂ Redeclares parsed completed ∧
      (added.Sublist introspected ∧ (added.map (·.name)).Nodup ∧
        ∀ s ∈ added, s.name ∉ namesIn parsed) ∧
      (∀ n, n ∈ namesIn (merge parsed introspected) ↔
        n ∈ namesIn parsed ∨ n ∈ introspected.map (·.name) ∨ ∃ s ∈ added, n ∈ namesIn s.children) ∧
      ((∀ s ∈ introspected, s.children = []) → ∀ n,
        n ∈ namesIn (merge parsed introspected) ↔ n ∈ namesIn parsed ∨
          n ∈ introspected.map (·.name)) ∧
      (∀ w s, ofIntrospected? w = some s → s.children = []) ∧
      merge (merge parsed introspected) introspected = merge parsed introspected := by
  refine ⟨_, _, merge_eq parsed introspected, ?_,
    ⟨added_sublist parsed introspected, nodup_map_name_added parsed introspected, ?_⟩,
    fun _ => mem_namesIn_merge, ?_, fun _ _ h => (name_and_children_of_ofIntrospected? h).2,
    merge_merge parsed introspected⟩
  · exact List.forall₂_map_right_iff.mpr (List.forall₂_same.mpr fun s _ => redeclares_complete _ s)
  · intro s hs
    exact (mem_map_name_added.mp (List.mem_map_of_mem hs)).2
  · intro hchildren n
    have hinside : ¬ ∃ s ∈ added parsed introspected, n ∈ namesIn s.children := by
      rintro ⟨s, hs, hn⟩
      rw [hchildren s ((added_sublist parsed introspected).subset hs)] at hn
      exact List.not_mem_nil hn
    rw [mem_namesIn_merge]
    simp [hinside]

/-- A class whose base class it names, with a variable in it, and what introspection says: of the
base class and the variable, and twice of a method. -/
def parsedShape : List Symbol :=
  [{ name := "Base", kind := .inherit },
   { name := "Shape", kind := .klass, children := [{ name := "area", kind := .variable }] }]

def introspectedShape : List Symbol :=
  [{ name := "Base", kind := .klass, modifiers := ["final"] },
   { name := "area", kind := .variable, modifiers := ["static"] },
   { name := "create", kind := .method },
   { name := "create", kind := .method, modifiers := ["local"] }]

/-- The directive stays as it is, the variable inside the class is not added again, and the method
is added once. -/
theorem shape_gains_its_method :
    (merge parsedShape introspectedShape).map (fun s => (s.name, s.modifiers)) =
        [("Base", []), ("Shape", []), ("create", [])] ∧
      (∀ n, n ∈ namesIn (merge parsedShape introspectedShape) ↔
        n ∈ namesIn parsedShape ∨ n ∈ introspectedShape.map (·.name)) ∧
      merge (merge parsedShape introspectedShape) introspectedShape =
        merge parsedShape introspectedShape := by
  obtain ⟨_, _, -, -, -, -, hnames, -, hagain⟩ :=
    merging_loses_and_invents_nothing parsedShape introspectedShape
  have hchildren : ∀ s ∈ introspectedShape, s.children.isEmpty := by decide +kernel
  exact ⟨by decide +kernel, hnames fun s hs => List.isEmpty_iff.mp (hchildren s hs), hagain⟩

end PikeAnalysis.Symbol

/-!
## Symbols as the worker gives them

What the worker gives has names and no dotted names: the dotted names are filled in where a table
lists its symbols flat, and in its trees they stay absent.  Merging keeps this, and so does a
document that goes on with the symbols that it had (`plain_tableOf`).
-/

namespace PikeAnalysis

namespace Symbol

variable {s t : Symbol} {parsed introspected : List Symbol}

/-- A symbol with a name and without a dotted name, and with it all symbols inside it.  Symbols that
come from the worker are of this form; dotted names are given when a table is built. -/
inductive Plain : Symbol → Prop
  | mk {s : Symbol} (name : s.name ≠ "") (unqualified : s.qualifiedName = none)
    (children : ∀ c ∈ s.children, c.Plain) : s.Plain

theorem Plain.name (h : s.Plain) : s.name ≠ "" := by
  cases h
  assumption

theorem Plain.unqualified (h : s.Plain) : s.qualifiedName = none := by
  cases h
  assumption

theorem Plain.children (h : s.Plain) : ∀ c ∈ s.children, c.Plain := by
  cases h
  assumption

theorem Plain.named (h : s.Plain) : s.Named := by
  induction h with
  | mk name _ _ ih => exact .mk name ih

theorem Plain.redeclares (h : s.Plain) (same : Redeclares s t) : t.Plain :=
  .mk (same.name ▸ h.name) (same.qualifiedName ▸ h.unqualified) (same.children ▸ h.children)

mutual

theorem plain_of_ofWire? : ∀ (w : Wire.Symbol) {s : Symbol}, ofWire? w = some s → s.Plain
  | .mk name kind modifiers position type children classname documentation, s, h => by
    unfold ofWire? at h
    split at h
    · cases h
    · obtain ⟨hname, hsymbol⟩ := Option.ite_none_left_eq_some.mp h
      obtain rfl := Option.some.inj hsymbol
      exact .mk (by simpa using hname) rfl (plain_of_mem_ofWireList children)

theorem plain_of_mem_ofWireList : ∀ (ws : List Wire.Symbol), ∀ s ∈ ofWireList ws, s.Plain
  | [], _, hs => absurd hs List.not_mem_nil
  | w :: rest, s, hs => by
    rw [ofWireList] at hs
    cases hw : ofWire? w with
    | none =>
      rw [hw] at hs
      exact plain_of_mem_ofWireList rest s hs
    | some t =>
      rw [hw] at hs
      rcases List.mem_cons.mp hs with rfl | hs
      · exact plain_of_ofWire? w hw
      · exact plain_of_mem_ofWireList rest s hs

end

theorem plain_of_ofIntrospected? {w : Wire.Introspected} (h : ofIntrospected? w = some s) :
    s.Plain := by
  obtain ⟨hname, hchildren⟩ := name_and_children_of_ofIntrospected? h
  have hqualified : s.qualifiedName = none := by
    unfold ofIntrospected? at h
    split at h
    · cases h
    · obtain ⟨-, hsymbol⟩ := Option.ite_none_left_eq_some.mp h
      obtain rfl := Option.some.inj hsymbol
      rfl
  exact .mk hname hqualified (by simp [hchildren])

theorem plain_of_mem_merge (hparsed : ∀ s ∈ parsed, s.Plain)
    (hintrospected : ∀ s ∈ introspected, s.Plain) :
    ∀ s ∈ merge parsed introspected, s.Plain := by
  intro s hs
  rw [merge_eq] at hs
  rcases List.mem_append.mp hs with hs | hs
  · obtain ⟨t, ht, rfl⟩ := List.mem_map.mp hs
    exact (hparsed t ht).redeclares (redeclares_complete _ t)
  · exact hintrospected s ((added_sublist parsed introspected).subset hs)

end Symbol

/-- A table of symbols as the worker gives them: it is built from its roots, and these are plain.  A
table that has been merged is one again. -/
def SymbolTable.Plain (t : SymbolTable) : Prop :=
  t = .ofRoots t.roots ∧ ∀ s ∈ t.roots, s.Plain

theorem SymbolTable.plain_ofRoots {roots : List Symbol} (h : ∀ s ∈ roots, s.Plain) :
    (ofRoots roots).Plain :=
  ⟨rfl, h⟩

/-- The symbols that a validation finds are as the worker gives them, be it this time or before. -/
theorem Validation.plain_tableOf {previous : Option DocumentEntry}
    (h : ∀ e ∈ previous, e.table.Plain) (a : Wire.Analysis) : (tableOf a previous).Plain := by
  unfold tableOf
  split
  · next entry _ _ => exact h entry rfl
  · refine SymbolTable.plain_ofRoots (Symbol.plain_of_mem_merge (fun s hs => ?_) fun s hs => ?_)
    · cases hparse : a.parse with
      | none =>
        rw [hparse] at hs
        cases hs
      | some p =>
        rw [hparse] at hs
        obtain ⟨w, -, hw⟩ := List.mem_filterMap.mp hs
        exact Symbol.plain_of_ofWire? w hw
    · cases hintrospect : a.introspect with
      | none =>
        rw [hintrospect] at hs
        cases hs
      | some i =>
        rw [hintrospect] at hs
        have hlisted := (Symbol.map_snd_firstByName_sublist _).subset hs
        obtain ⟨w, -, hw⟩ := List.mem_filterMap.mp hlisted
        exact Symbol.plain_of_ofIntrospected? hw

end PikeAnalysis
