import PikeAnalysis.Resolve.Source

/-!
# What a source lists and what it finds

Each source but the last looks a plain name up and lists what it offers.  For the document, for
imported modules and for inherited classes what is found is what is listed.  For included files this
needs that the name is not *hidden*: where a directive comes before a declaration of its name, the
declaration is listed but the lookup passes the file over.

The tables that are looked into have two indexes, by plain and by dotted name, and the list of what
is offered is made from the first declarations.  For a name without a dot these agree as long as a
dotted name is either the plain one or has a dot in it, which is so for every table that is built
from a tree (`Built`).  The lemmas compare, for each source, the entry of a name in the list with
what looking it up yields.
-/

namespace PikeAnalysis

/-! ## Names in a table -/

namespace Symbol

/-- A symbol that declares something of a name. -/
def declares (n : String) (s : Symbol) : Bool :=
  !s.kind.isDirective && s.name == n

theorem get?_declarations (n : String) (symbols : List Symbol) :
    Assoc.get? n (declarations symbols) = symbols.find? (declares n) := by
  rw [declarations, List.find?_eq_findSome?_guard,
    Assoc.get?_foldl (g := Option.guard (declares n))]
  · rfl
  · intro acc s
    cases hdirective : s.kind.isDirective with
    | true => simp [declares, Option.guard, hdirective]
    | false => simp [declares, Option.guard, hdirective, Assoc.get?_add]

/-- A symbol whose dotted name, if it has one, is its plain name or has a dot in it. -/
def Dotted (s : Symbol) : Prop :=
  ∀ q, s.qualifiedName = some q → q = s.name ∨ '.' ∈ q.toList

theorem qualify_dotted (parent name : String) :
    qualify parent name = name ∨ '.' ∈ (qualify parent name).toList := by
  unfold qualify
  split
  · exact .inl rfl
  · exact .inr (by simp)

mutual

theorem dotted_of_flatten (parent : String) : ∀ s, ∀ x ∈ flatten parent s, x.Dotted
  | ⟨name, _, _, _, _, children, _, _, _, _⟩, x, hx => by
    rcases List.mem_cons.mp hx with rfl | hx
    · intro q hq
      obtain rfl := Option.some.inj hq
      exact qualify_dotted parent name
    · exact dotted_of_flattenList _ children x hx

theorem dotted_of_flattenList (parent : String) : ∀ l, ∀ x ∈ flattenList parent l, x.Dotted
  | [], _, hx => nomatch hx
  | s :: rest, x, hx => by
    rcases List.mem_append.mp hx with hx | hx
    · exact dotted_of_flatten parent s x hx
    · exact dotted_of_flattenList parent rest x hx

end

end Symbol

namespace SymbolTable

theorem get?_indexByName (n : String) (flat : List Symbol) :
    Assoc.get? n (indexByName flat) = flat.find? (·.name == n) := by
  rw [indexByName, List.find?_eq_findSome?_guard,
    Assoc.get?_foldl (g := Option.guard (·.name == n))]
  · rfl
  · intro acc s
    simp [Option.guard, Assoc.get?_add]

theorem get?_indexByQualified (q : String) (flat : List Symbol) :
    Assoc.get? q (indexByQualified flat) =
      flat.find? fun s => s.qualifiedName == some q && !q.isEmpty := by
  rw [indexByQualified, List.find?_eq_findSome?_guard,
    Assoc.get?_foldl (g := Option.guard fun s => s.qualifiedName == some q && !q.isEmpty)]
  · rfl
  · intro acc s
    cases hq : s.qualifiedName with
    | none => simp [Option.guard, hq]
    | some p =>
      by_cases hp : p = q
      · subst hp
        by_cases hempty : p.isEmpty <;> simp [Option.guard, hq, hempty, Assoc.get?_add]
      · by_cases hempty : p.isEmpty <;> simp [Option.guard, hq, hempty, hp, Assoc.get?_add]

/-- A name without a dot is looked up among the plain names only. -/
theorem get?_of_plain (roots : List Symbol) {n : String} (plain : '.' ∉ n.toList) :
    (ofRoots roots).get? n = (ofRoots roots).flat.find? (·.name == n) := by
  have hname : Assoc.get? n (ofRoots roots).byName = (ofRoots roots).flat.find? (·.name == n) :=
    get?_indexByName n _
  unfold get?
  rw [hname]
  cases hfound : (ofRoots roots).flat.find? (·.name == n) with
  | some s => rfl
  | none =>
    refine (get?_indexByQualified n _).trans (List.find?_eq_none.mpr fun s hs hmatch => ?_)
    have hq : s.qualifiedName = some n := by
      simp only [Bool.and_eq_true, beq_iff_eq] at hmatch
      exact hmatch.1
    rcases Symbol.dotted_of_flattenList "" roots s hs n hq with hself | hdot
    · exact List.find?_eq_none.mp hfound s hs (by simp [hself])
    · exact plain hdot

end SymbolTable

namespace Resolve

variable {n : String}

theorem not_mem_of_not_hasAccess {cs : List Char} (h : hasAccess cs = false) : '.' ∉ cs := by
  induction cs with
  | nil => exact List.not_mem_nil
  | cons c rest ih =>
    simp only [hasAccess, Bool.or_eq_false_iff] at h
    refine List.not_mem_cons_of_ne_of_not_mem (fun hdot => ?_) (ih h.2)
    subst hdot
    cases h.1

/-! ## What sources list -/

theorem get?_addMembers (n : String) (origin : Option String) (tier : Tier)
    (members : List (String × Symbol)) (found : List (String × ResolvedSymbol)) :
    Assoc.get? n (addMembers origin tier members found) =
      (Assoc.get? n found <|> (Assoc.get? n members).map fun s =>
        { symbol := s, origin, tier }) := by
  rw [addMembers, Assoc.get?_foldl (g := fun e =>
    (if e.1 = n then some e.2 else none).map fun s => { symbol := s, origin, tier })]
  · rw [← Assoc.findSome?_key n members, List.map_findSome?]
    rfl
  · intro acc e
    rw [Assoc.get?_add]
    congr 1
    split <;> rfl

theorem get?_documentVisible (c : Context) (n : String) :
    Assoc.get? n (documentVisible c) = documentFind c n := by
  unfold documentVisible documentFind
  rw [get?_addMembers, get?_addMembers]
  cases Assoc.get? n (Symbol.declarations c.table.roots) with
  | some s => rfl
  | none => cases c.program <;> rfl

/-- What is found in groups of members is what the first group with a member of the name has. -/
theorem get?_importVisible (n : String) (tier : Tier)
    (groups : List (String × List (String × Symbol))) :
    Assoc.get? n (groups.foldl (fun acc g => addMembers (some g.1) tier g.2 acc) []) =
      groupFind n tier groups := by
  rw [Assoc.get?_foldl fun acc g => get?_addMembers n (some g.1) tier g.2 acc]
  induction groups with
  | nil => rfl
  | cons g rest ih =>
    rw [List.findSome?_cons, groupFind]
    cases Assoc.get? n g.2 with
    | some s => rfl
    | none => exact ih

theorem get?_inheritVisible (n : String) (tier : Tier) (scopes : List Scope) :
    Assoc.get? n (scopes.foldl (fun acc s => addMembers s.origin tier s.members acc) []) =
      scopeFind n (some tier) scopes := by
  rw [Assoc.get?_foldl fun acc s => get?_addMembers n s.origin tier s.members acc]
  induction scopes with
  | nil => rfl
  | cons s rest ih =>
    rw [List.findSome?_cons, scopeFind]
    cases Assoc.get? n s.members with
    | some s => rfl
    | none => exact ih

/-! ## Included files -/

/-- Whether a file declares a name. -/
def declaredIn (n : String) (file : IncludedFile) : Bool :=
  file.table.flat.any (Symbol.declares n)

/-- A name is hidden in included files where, in the first of them that declares it, a directive of
the name comes before the declaration.  Which comes first is a matter of the flat list, in the order
of the text. -/
def Hidden (n : String) (files : List IncludedFile) : Prop :=
  ∃ file directive, files.find? (declaredIn n) = some file ∧
    file.table.flat.find? (·.name == n) = some directive ∧ directive.kind.isDirective = true

/-- A table that agrees with its tree.  Every table is that comes of a parse. -/
def Built (file : IncludedFile) : Prop :=
  file.table = .ofRoots file.table.roots

theorem get?_includeVisible (n : String) (files : List IncludedFile) :
    Assoc.get? n (includeVisible files) = files.findSome? fun file =>
      (file.table.flat.find? (Symbol.declares n)).map fun s =>
        { symbol := s, origin := some file.resolvedPath, tier := .included } := by
  rw [includeVisible, Assoc.get?_foldl (g := fun file =>
    (file.table.flat.find? (Symbol.declares n)).map fun s =>
      { symbol := s, origin := some file.resolvedPath, tier := .included })]
  · rfl
  · intro acc file
    rw [get?_addMembers, Symbol.get?_declarations]

theorem find?_declares_of_first {flat : List Symbol} {s : Symbol}
    (first : flat.find? (·.name == n) = some s) (declared : s.kind.isDirective = false) :
    flat.find? (Symbol.declares n) = some s := by
  induction flat with
  | nil => cases first
  | cons x rest ih =>
    rw [List.find?_cons] at first ⊢
    by_cases hname : x.name = n
    · simp only [hname, beq_self_eq_true, Option.some.injEq] at first
      subst first
      simp [Symbol.declares, hname, declared]
    · simp only [beq_false_of_ne hname] at first
      simp only [Symbol.declares, beq_false_of_ne hname, Bool.and_false]
      exact ih first

/-- A file that does not declare a name has no say in it.  The search goes on with the files behind
it. -/
theorem includeFind_cons_of_not_declaredIn (plain : '.' ∉ n.toList) {file : IncludedFile}
    (built : Built file) (h : declaredIn n file = false) (rest : List IncludedFile) :
    includeFind n (file :: rest) = includeFind n rest := by
  have hget : file.table.get? n = file.table.flat.find? (·.name == n) := by
    rw [built]
    exact SymbolTable.get?_of_plain _ plain
  rw [includeFind, hget]
  cases hfirst : file.table.flat.find? (·.name == n) with
  | none => rfl
  | some s =>
    dsimp only
    split
    · rfl
    · next hdeclared =>
      have hdeclares := find?_declares_of_first hfirst (Bool.eq_false_iff.mpr hdeclared)
      have hany := List.any_eq_true.mpr
        ⟨s, List.mem_of_find?_eq_some hdeclares, List.find?_some hdeclares⟩
      rw [declaredIn, hany] at h
      cases h

theorem exists_first_of_declaredIn {file : IncludedFile} (h : declaredIn n file = true) :
    ∃ first, file.table.flat.find? (·.name == n) = some first := by
  obtain ⟨s, hs, hdeclares⟩ := List.any_eq_true.mp h
  simp only [Symbol.declares, Bool.and_eq_true] at hdeclares
  exact Option.isSome_iff_exists.mp (List.find?_isSome.mpr ⟨s, hs, hdeclares.2⟩)

/-- A name that is not hidden is found in included files as it is listed. -/
theorem includeFind_eq_visible (plain : '.' ∉ n.toList) {files : List IncludedFile}
    (built : ∀ file ∈ files, Built file) (seen : ¬ Hidden n files) :
    includeFind n files = Assoc.get? n (includeVisible files) := by
  rw [get?_includeVisible]
  induction files with
  | nil => rfl
  | cons file rest ih =>
    have hbuilt := built file List.mem_cons_self
    cases hdeclared : declaredIn n file with
    | true =>
      obtain ⟨first, hfirst⟩ := exists_first_of_declaredIn hdeclared
      -- The first symbol of the name is no directive, since the name would be hidden otherwise.
      have hplain : first.kind.isDirective = false :=
        Bool.eq_false_iff.mpr fun hdirective =>
          seen ⟨file, first, List.find?_cons_of_pos hdeclared, hfirst, hdirective⟩
      have hget : file.table.get? n = some first := by
        rw [hbuilt, SymbolTable.get?_of_plain _ plain, ← hbuilt]
        exact hfirst
      rw [includeFind, hget, List.findSome?_cons, find?_declares_of_first hfirst hplain]
      simp [hplain]
    | false =>
      have hnone : file.table.flat.find? (Symbol.declares n) = none := by
        refine List.find?_eq_none.mpr fun s hs hdeclares => ?_
        rw [declaredIn, List.any_eq_true.mpr ⟨s, hs, hdeclares⟩] at hdeclared
        cases hdeclared
      have hseen : ¬ Hidden n rest := fun ⟨other, directive, hother, hrest⟩ =>
        seen ⟨other, directive, by rw [List.find?_cons_of_neg (by simp [hdeclared]), hother], hrest⟩
      rw [includeFind_cons_of_not_declaredIn plain hbuilt hdeclared,
        ih (fun other hother => built other (List.mem_cons_of_mem _ hother)) hseen,
        List.findSome?_cons, hnone]
      rfl

/-- A name that is hidden is listed for the file that declares it, but the lookup goes on after that
file. -/
theorem hidden_name_is_passed_over (plain : '.' ∉ n.toList) {files : List IncludedFile}
    (built : ∀ file ∈ files, Built file) (hidden : Hidden n files) :
    ∃ before file after s, files = before ++ file :: after ∧
      Assoc.get? n (includeVisible files) =
        some { symbol := s, origin := some file.resolvedPath, tier := .included } ∧
      includeFind n files = includeFind n after := by
  obtain ⟨file, directive, hfile, hfirst, hdirective⟩ := hidden
  obtain ⟨hdeclared, before, after, rfl, hbefore⟩ := List.find?_eq_some_iff_append.mp hfile
  obtain ⟨s, hs⟩ := Option.isSome_iff_exists.mp
    (List.find?_isSome.mpr (List.any_eq_true.mp hdeclared))
  -- In the file the directive stands first, so the lookup takes it for the name, and turns it down.
  have hskip : ∀ front :
      List IncludedFile, (∀ other ∈ front, Built other ∧ declaredIn n other = false) →
      includeFind n (front ++ file :: after) = includeFind n after := by
    intro front hfront
    induction front with
    | nil =>
      have hget : file.table.get? n = some directive := by
        have hbuilt := built file (by simp)
        rw [hbuilt, SymbolTable.get?_of_plain _ plain, ← hbuilt]
        exact hfirst
      rw [List.nil_append, includeFind, hget]
      exact if_pos hdirective
    | cons other rest ih =>
      obtain ⟨hbuilt, hnot⟩ := hfront other List.mem_cons_self
      rw [List.cons_append, includeFind_cons_of_not_declaredIn plain hbuilt hnot]
      exact ih fun x hx => hfront x (List.mem_cons_of_mem _ hx)
  refine ⟨before, file, after, s, rfl, ?_, hskip before fun other hother => ⟨?_, ?_⟩⟩
  · rw [get?_includeVisible, List.findSome?_append, List.findSome?_eq_none_iff.mpr, Option.none_or,
      List.findSome?_cons, hs]
    · rfl
    · intro other hother
      have hnot := hbefore other hother
      rw [Option.map_eq_none_iff]
      refine List.find?_eq_none.mpr fun x hx hdeclares => ?_
      rw [declaredIn, List.any_eq_true.mpr ⟨x, hx, hdeclares⟩] at hnot
      cases hnot
  · exact built other (by simp [hother])
  · simpa using hbefore other hother

/-- A file in which a class inherits another one that comes after it. -/
def shapes : IncludedFile :=
  { originalPath := "shapes.h"
    resolvedPath := "inc/shapes.h"
    table := .ofRoots [
      { name := "Shape", kind := .klass, children := [{ name := "Point", kind := .inherit }] },
      { name := "Point", kind := .klass },
      { name := "area", kind := .method }]
    loadedAt := 0 }

example : (Assoc.get? "Point" (includeVisible [shapes])).isSome ∧
    (includeFind "Point" [shapes]).isNone := by
  decide

end Resolve

end PikeAnalysis
