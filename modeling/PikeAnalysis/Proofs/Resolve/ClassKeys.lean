import PikeAnalysis.Proofs.Resolve.Ancestry
import PikeAnalysis.Proofs.Symbol.Merging

/-!
# The keys of a class

A class gets its key where it is found.  Found by name, it comes from the flat list of a document,
and its dotted name is part of the key; reached from the names of the document, member after member,
it comes from the tree, where dotted names are absent, and its plain name is.  So the two keys of
a class are the same exactly if the class is declared at the top level, and a class inside another
that leads back to itself by inheritance is walked as an ancestor of itself
(`class_has_one_key_iff`).

The claim that a class has one key is false, and this module says exactly when it is true.
`DeclaredAt` follows names from class to class in the tree of a document, which is how a class is
reached; `knownAs` of the entry in the flat list is how it is found.  Comparing the two is comparing
a plain name with the names that lead to it joined by dots, and they are equal only for a single
name.

What follows from two keys is shown by a document: a class inside another that inherits a class of
its own name is found among its own ancestors, since the walk does not recognise it.
-/

namespace PikeAnalysis

namespace Symbol

/-- A class with something in it. -/
def HasBody (s : Symbol) : Prop :=
  s.kind = .klass ∧ s.children ≠ []

/-- Where names lead: each to the first declaration of it in the class before.  At each level the
first declaration of the name counts, as a lookup takes that. -/
inductive DeclaredAt : List Symbol → List String → Symbol → Prop
  | here {forest n s} (first : forest.find? (declares n) = some s) : DeclaredAt forest [n] s
  | inside {forest n cls names s} (first : forest.find? (declares n) = some cls)
    (body : cls.HasBody) (rest : DeclaredAt cls.children names s) : DeclaredAt forest (n :: names) s

variable {s cls : Symbol} {forest : List Symbol} {e : Node} {n : String} {names : List String}

/-! ## Nodes -/

theorem mem_nodes : e ∈ nodes forest ↔ ∃ p, nodeAt? forest p = some e := by
  rw [nodes, List.mem_filterMap]
  constructor
  · rintro ⟨p, -, hp⟩
    exact ⟨p, hp⟩
  · rintro ⟨p, hp⟩
    refine ⟨p, ?_, hp⟩
    rw [mem_addressesList, hp, Option.isSome_some]

theorem mem_nodes_of_mem (h : s ∈ forest) : ⟨[s.name], s⟩ ∈ nodes forest := by
  obtain ⟨i, hi⟩ := List.mem_iff_getElem?.mp h
  exact mem_nodes.mpr ⟨[i], by rw [nodeAt?, hi]; rfl⟩

theorem inside_mem_nodes (h : cls ∈ forest) (he : e ∈ nodes cls.children) :
    e.inside cls.name ∈ nodes forest := by
  obtain ⟨i, hi⟩ := List.mem_iff_getElem?.mp h
  obtain ⟨p, hp⟩ := mem_nodes.mp he
  refine mem_nodes.mpr ⟨i :: p, ?_⟩
  have hne : p ≠ [] := fun hnil => nomatch (hnil ▸ hp : nodeAt? cls.children [] = some e)
  rw [nodeAt?, hi, Option.bind_some, below?_of_ne_nil cls hne, hp]
  rfl

theorem name_of_find?_declares (h : forest.find? (declares n) = some s) : s.name = n := by
  have hdeclares := List.find?_some h
  simp only [declares, Bool.and_eq_true, beq_iff_eq] at hdeclares
  exact hdeclares.2

theorem DeclaredAt.mem_nodes (h : DeclaredAt forest names s) : ⟨names, s⟩ ∈ nodes forest := by
  induction h with
  | here first =>
    obtain rfl := name_of_find?_declares first
    exact mem_nodes_of_mem (List.mem_of_find?_eq_some first)
  | inside first _ _ ih =>
    obtain rfl := name_of_find?_declares first
    exact inside_mem_nodes (List.mem_of_find?_eq_some first) ih

/-! ## Dotted names -/

theorem DeclaredAt.ends (h : DeclaredAt forest names s) : ∃ above, names = above ++ [s.name] := by
  induction h with
  | here first => exact ⟨[], by rw [name_of_find?_declares first]; rfl⟩
  | @inside _ n _ _ _ _ _ _ ih =>
    obtain ⟨above, rfl⟩ := ih
    exact ⟨n :: above, rfl⟩

theorem intercalate_concat {above : List String} (nested : above ≠ []) (n : String) :
    ".".intercalate (above ++ [n]) = ".".intercalate above ++ "." ++ n := by
  induction above with
  | nil => exact absurd rfl nested
  | cons first rest ih =>
    cases rest with
    | nil => simp [String.intercalate_cons_cons]
    | cons second rest =>
      have hrest := ih (List.cons_ne_nil _ _)
      rw [List.cons_append] at hrest
      rw [List.cons_append, List.cons_append, String.intercalate_cons_cons, hrest,
        String.intercalate_cons_cons]
      simp only [String.append_assoc]

/-- Names with dots between them are no shorter than the last one, and as long only if that is the
only one. -/
theorem intercalate_eq_last_iff (above : List String) (n : String) :
    ".".intercalate (above ++ [n]) = n ↔ above = [] := by
  refine ⟨fun h => ?_, fun h => by simp [h]⟩
  by_contra nested
  rw [intercalate_concat nested] at h
  have hlength := congrArg String.length h
  simp only [String.length_append] at hlength
  have hdot : ".".length = 1 := rfl
  omega

theorem DeclaredAt.plain (h : DeclaredAt forest names s) (plain : ∀ t ∈ forest, t.Plain) :
    s.Plain := by
  induction h with
  | here first => exact plain _ (List.mem_of_find?_eq_some first)
  | inside first _ _ ih => exact ih (plain _ (List.mem_of_find?_eq_some first)).children

theorem Plain.knownAs (h : s.Plain) : s.knownAs = s.name := by
  rw [Symbol.knownAs, h.unqualified]

/-- In the flat list a symbol is known by the names that lead to it, with dots between them. -/
theorem DeclaredAt.knownAs_entry (h : DeclaredAt forest names s) (plain : ∀ t ∈ forest, t.Plain) :
    (Node.mk names s).entry.knownAs = ".".intercalate names := by
  have hnamed := path_of_named (fun t ht => (plain t ht).named) h.mem_nodes
  have hne : names ≠ [] := by
    obtain ⟨above, rfl⟩ := h.ends
    exact List.append_ne_nil_of_right_ne_nil _ (List.cons_ne_nil _ _)
  simp [Symbol.knownAs, Node.entry, dotted_eq_intercalate hnamed, intercalate_ne_empty hne hnamed]

/-- A symbol is known by its plain name in the flat list exactly if it is at the top level. -/
theorem DeclaredAt.knownAs_entry_iff (h : DeclaredAt forest (n :: names) s)
    (plain : ∀ t ∈ forest, t.Plain) :
    s.knownAs = (Node.mk (n :: names) s).entry.knownAs ↔ names = [] := by
  rw [(h.plain plain).knownAs, h.knownAs_entry plain, eq_comm]
  obtain ⟨above, habove⟩ := h.ends
  rw [habove, intercalate_eq_last_iff]
  constructor
  · rintro rfl
    exact (List.cons.inj habove).2
  · rintro rfl
    cases above with
    | nil => rfl
    | cons first rest => simp at habove

end Symbol

namespace Resolve

open Relation PikeAnalysis.Symbol

variable {m : Type → Type} [Monad m] {σ ε : Type} {out : Outcomes m σ ε} {Good : σ → Prop}
  {raise : Fault → ε} {src : Sources m} {w : World} {c : Context}
  {e : DocumentEntry} {cls s : Symbol} {n head : String} {rest : List String}

/-! ## Classes that are reached -/

/-- The scope of a class that is reached from the names of its document. -/
def reachedScope (e : DocumentEntry) (cls : Symbol) : Scope :=
  classScope (classKey e.uri cls) cls (some e.uri) .current

theorem of_scopeOf (body : cls.HasBody) (c : Context) (p : Findings × σ) :
    out.query.of (scopeOf src c { symbol := cls, origin := some e.uri, tier := .current }) p =
      .ok (some (reachedScope e cls), p) := by
  obtain ⟨hkind, hchildren⟩ := body
  rw [scopeOf]
  simp only [hkind, List.isEmpty_iff, hchildren]
  exact out.query.of_pure _ p

/-- The first declaration of a name in a class is its member of that name. -/
theorem of_member (first : cls.children.find? (declares n) = some s) (c : Context)
    (p : Findings × σ) :
    out.query.of (member src c (reachedScope e cls) n) p =
      .ok (some { symbol := s, origin := some e.uri, tier := .current }, p) := by
  have hmember : scopeFind n none [reachedScope e cls] =
      some { symbol := s, origin := some e.uri, tier := .current } := by
    simp [scopeFind, reachedScope, classScope, get?_declarations, first]
  rw [member, hmember]
  exact out.query.of_pure _ p

theorem of_descend {names : List String} (declared : DeclaredAt cls.children names s)
    (body : s.HasBody) (c : Context) (p : Findings × σ) :
    out.query.of (descend src c (some (reachedScope e cls)) names) p =
      .ok (some (reachedScope e s), p) := by
  generalize hforest : cls.children = forest at declared
  -- By the names that lead to the class: each is the first declaration in the class before.
  induction declared generalizing cls with
  | here first =>
    rw [descend, out.query.of_bind_ok (of_member (hforest ▸ first) c p)]
    dsimp only
    rw [out.query.of_bind_ok (of_scopeOf body c p), descend]
    exact out.query.of_pure _ p
  | inside first inner _ ih =>
    rw [descend, out.query.of_bind_ok (of_member (hforest ▸ first) c p)]
    dsimp only
    rw [out.query.of_bind_ok (of_scopeOf inner c p)]
    exact ih body rfl

theorem of_waterfall {roots : List Symbol} (hroots : c.table.roots = roots)
    (first : roots.find? (declares n) = some s) (p : Findings × σ) :
    out.query.of (waterfall src c n Source.all) p =
      .ok (some { symbol := s, origin := some c.uri, tier := .current }, p) := by
  have hfind : documentFind c n = some { symbol := s, origin := some c.uri, tier := .current } := by
    rw [documentFind, get?_declarations, hroots, first]
  have hdocument : out.query.of (Source.document.find src c n) p =
      .ok (some { symbol := s, origin := some c.uri, tier := .current }, p) := by
    rw [Source.find, hfind]
    exact out.query.of_pure _ p
  rw [Source.all, waterfall, out.query.of_bind_ok hdocument]
  exact out.query.of_pure _ p

/-- The names of a class lead to it from the names of its document. -/
theorem of_objectScope (here : c.uri = e.uri) (own : c.entry = some e)
    (declared : DeclaredAt e.table.roots (head :: rest) cls) (body : cls.HasBody)
    (p : Findings × σ) :
    out.query.of (objectScope src c head rest) p = .ok (some (reachedScope e cls), p) := by
  have hroots : c.table.roots = e.table.roots := by rw [Context.table, own]; rfl
  rw [objectScope]
  cases declared with
  | here first =>
    rw [out.query.of_bind_ok (of_waterfall hroots first p)]
    dsimp only
    rw [here, out.query.of_bind_ok (of_scopeOf body c p), descend]
    exact out.query.of_pure _ p
  | inside first inner declared =>
    rw [out.query.of_bind_ok (of_waterfall hroots first p)]
    dsimp only
    rw [here, out.query.of_bind_ok (of_scopeOf inner c p)]
    exact of_descend declared body c p

/-! ## Classes that are found -/

/-- The scope of a class that is found by its name.  It has the key that the table's entry gives,
with the dotted name in it. -/
def foundScope (e : DocumentEntry) (entry : Symbol) (tier : Tier) : Scope :=
  classScope (classKey e.uri entry) entry (some e.uri) tier

/-- No class is found under no name. -/
theorem target_ne_empty {target : String} {entries : List DocumentEntry} {entry : Symbol}
    (hfound : findClass target entries = some (e, entry)) (plain : entry.name ≠ "")
    (dotted : entry.qualifiedName ≠ some "") : target ≠ "" := by
  rintro rfl
  induction entries with
  | nil => cases hfound
  | cons first more ih =>
    rw [findClass] at hfound
    cases hclass : first.table.findClass? "" with
    | none =>
      rw [hclass] at hfound
      exact ih hfound
    | some k =>
      rw [hclass] at hfound
      obtain ⟨rfl, rfl⟩ := Prod.mk.inj (Option.some.inj hfound)
      have hmatch := List.find?_some hclass
      simp [plain, dotted] at hmatch

theorem World.find_of_findClass {w : World} {name : String} {entry : Symbol}
    (hfound : findClass (cleanTarget name) (c.entry.toList ++ w.documents.filter (·.uri != c.uri)) =
      some (e, entry)) (named : cleanTarget name ≠ "") (tier : Option Tier) :
    w.find c name tier =
      .ok (some
        (foundScope e entry (tier.getD (if e.uri = c.uri then .current else .workspace)))) := by
  rw [World.find, Resolve.findScope]
  dsimp only
  rw [if_neg (by simpa using named), World.result_documents_bind, hfound]
  rfl

/-- A class of a document is found by every name for which no other class comes first. -/
theorem findScope_of_findClass (known : Answers out Good raise src w) (here : c.uri = e.uri)
    {name : String} {entry : Symbol}
    (hfound : findClass (cleanTarget name) (c.entry.toList ++ w.documents.filter (·.uri != c.uri)) =
      some (e, entry)) (named : cleanTarget name ≠ "") (tier : Option Tier) (f : Findings) {s : σ}
    (good : Good s) :
    ∃ t, out.query.of (findScope src c name tier) (f, s) =
      .ok (some (foundScope e entry (tier.getD .current)), f, t) ∧ Good t := by
  have hfind := World.find_of_findClass hfound named tier
  rw [if_pos here.symm] at hfind
  rcases known.findScope c name tier f s good with ⟨a, t, ha, hout, goodT⟩ | ⟨x, hx, -⟩
  · obtain rfl := Except.ok.inj (ha.symm.trans hfind)
    exact ⟨t, hout, goodT⟩
  · cases hx.symm.trans hfind

/-! ## A class in another that inherits itself -/

/-- A world of one document. -/
def World.alone (e : DocumentEntry) : World where
  documents := [e]
  module _ := none

/-- In its own document alone a directive leads to a class of the document, if anywhere. -/
theorem World.exists_of_parent_alone (here : c.uri = e.uri) (own : c.entry = some e) {d : Symbol}
    {scope : Scope} (h : (World.alone e).parent c d = .ok (some scope)) :
    ∃ entry ∈ e.table.flat, entry.kind = .klass ∧ scope = foundScope e entry .inherited := by
  have hentries : c.entry.toList ++ (World.alone e).documents.filter (·.uri != c.uri) = [e] := by
    simp [World.alone, own, here]
  by_cases hblank : (cleanTarget d.directiveTarget).isEmpty
  · cases (World.parent_of_unnamed hblank).symm.trans h
  rw [World.parent_of_named hblank] at h
  rw [World.find, Resolve.findScope] at h
  dsimp only at h
  split at h
  · cases h
  rw [World.result_documents_bind, hentries, findClass] at h
  cases hclass : e.table.findClass? (cleanTarget (cleanTarget d.directiveTarget)) with
  | some entry =>
    rw [hclass] at h
    have hmatch := List.find?_some hclass
    simp only [Bool.and_eq_true, beq_iff_eq] at hmatch
    exact ⟨entry, List.mem_of_find?_eq_some hclass, hmatch.1,
      (Option.some.inj (Except.ok.inj h)).symm⟩
  | none =>
    rw [hclass] at h
    dsimp only [findClass] at h
    rw [findByStem, if_pos here.symm, findByStem, World.result_orFault_bind] at h
    cases h

/-- A class that inherits a class of its own name. -/
def innerClass : Symbol where
  name := "Inner"
  kind := .klass
  children := [{ name := "Inner", kind := .inherit, classname := some "Inner" },
    { name := "x", kind := .variable }]

/-- A class around it. -/
def outerClass : Symbol where
  name := "Outer"
  kind := .klass
  children := [innerClass]

/-- The document of both. -/
def nesting : DocumentEntry where
  uri := "file:///nesting.pike"
  version := 1
  table := .ofRoots [outerClass]

/-- The document seen from inside. -/
def insideNesting : Context := { uri := nesting.uri, entry := some nesting, program := none }

/-- Sources of this document that remember what they were asked for. -/
def nestingSources : Sources (StateT (List String) (Except Fault)) where
  documents := pure [nesting]
  module path := fun asked => .ok (none, path :: asked)
  included _ _ := pure none
  fault f := fun _ => .error f
  maxDepth := 5

theorem nesting_answers :
    Answers (.ofState (List String) Fault) (fun _ => True) id nestingSources (.alone nesting) where
  documents {s} _ := ⟨s, rfl, trivial⟩
  module {s} path _ := ⟨path :: s, rfl, trivial⟩
  fault _ _ := rfl

/-- Where the class is in its document. -/
def innerNode : Node := { path := ["Outer", "Inner"], symbol := innerClass }

theorem nesting_plain : nesting.table.Plain := by
  refine SymbolTable.plain_ofRoots fun s hs => ?_
  obtain rfl := List.mem_singleton.mp hs
  refine .mk (by decide) rfl fun s hs => ?_
  obtain rfl := List.mem_singleton.mp hs
  refine .mk (by decide) rfl fun s hs => ?_
  rcases List.mem_pair.mp hs with rfl | rfl
  · exact .mk (by decide) rfl (by simp)
  · exact .mk (by decide) rfl (by simp)

theorem innerClass_declaredAt : DeclaredAt nesting.table.roots ["Outer", "Inner"] innerClass :=
  have outer : nesting.table.roots.find? (declares "Outer") = some outerClass :=
    List.find?_cons_of_pos (by decide)
  .inside outer ⟨rfl, List.cons_ne_nil _ _⟩ (.here (List.find?_cons_of_pos (by decide)))

/-- The classes of the document have keys of their own. -/
theorem nesting_scopes {d : Symbol} {scope : Scope}
    (h : (World.alone nesting).parent insideNesting d = .ok (some scope)) :
    scope.key = "file:///nesting.pike#Outer" ∧ scope.directives = [] ∨
      scope.key = "file:///nesting.pike#Outer.Inner" ∧
        scope.directives = inheritsOf innerClass.children := by
  obtain ⟨entry, hmem, hkind, rfl⟩ := World.exists_of_parent_alone rfl rfl h
  rw [nesting, SymbolTable.flat_ofRoots] at hmem
  obtain ⟨node, hnode, rfl⟩ := List.mem_map.mp hmem
  have hnodes : (nodes [outerClass]).filter (·.symbol.kind == .klass) =
      [⟨["Outer"], outerClass⟩, innerNode] := rfl
  have hclass : node ∈ [⟨["Outer"], outerClass⟩, innerNode] :=
    hnodes ▸ List.mem_filter.mpr ⟨hnode, beq_iff_eq.mpr hkind⟩
  rcases List.mem_pair.mp hclass with rfl | rfl
  · exact .inl ⟨by decide +kernel, rfl⟩
  · exact .inr ⟨by decide +kernel, rfl⟩

/-- The inner class is found by its plain name. -/
theorem findClass_inner : findClass (cleanTarget "Inner") (insideNesting.entry.toList ++
    (World.alone nesting).documents.filter (·.uri != insideNesting.uri)) =
      some (nesting, innerNode.entry) := by
  have hclean : cleanTarget "Inner" = "Inner" := by decide +kernel
  rw [hclean]
  rfl

/-- Keys decide what is inherited in the document. -/
theorem keysDecide_nesting : KeysDecide ((World.alone nesting).parent insideNesting) := by
  intro d e s t hs ht hkey
  rcases nesting_scopes hs with ⟨hs, hdirectives⟩ | ⟨hs, hdirectives⟩ <;>
    rcases nesting_scopes ht with ⟨ht, hdirectives'⟩ | ⟨ht, hdirectives'⟩
  · rw [hdirectives, hdirectives']
  · exact absurd (hs.symm.trans (hkey.trans ht)) (by decide)
  · exact absurd (hs.symm.trans (hkey.trans ht)) (by decide)
  · rw [hdirectives, hdirectives']

/-- The two classes are followed without meeting the limit of depth. -/
theorem nesting_withinDepth {directives : List Symbol} {root : String} {found : List Reached}
    {given : List ResolutionWarning}
    (h : Explores ((World.alone nesting).parent insideNesting) root 5 5 directives [] []
      [root] found given) :
    WithinDepth given := by
  refine h.withinDepth_of_few ["file:///nesting.pike#Outer", "file:///nesting.pike#Outer.Inner"] ?_
    (by decide) rfl List.nodup_nil (List.nil_subset _)
  intro d s hs
  rcases nesting_scopes hs with ⟨hs, -⟩ | ⟨hs, -⟩ <;> simp [hs]

theorem nesting_hasNoFault {x : Fault} : ¬ (World.alone nesting).HasFault insideNesting x := by
  rintro ⟨d, hd, hfault⟩
  have hok : (Uri.stem nesting.uri).toBool = true := by decide +kernel
  have hd : d = nesting := by simpa [insideNesting, World.alone] using hd
  rw [← hd, hfault] at hok
  cases hok

/-- The directive in the inner class leads to the class. -/
theorem inner_inherits_inner :
    Inherits ((World.alone nesting).parent insideNesting) (reachedScope nesting innerClass).key
      (reachedScope nesting innerClass).directives (reachedScope nesting innerClass).key
      (foundScope nesting innerNode.entry .inherited).key := by
  have hclean : cleanTarget "Inner" = "Inner" := by decide +kernel
  refine inherits_root (d := { name := "Inner", kind := .inherit, classname := some "Inner" })
    List.mem_cons_self ?_
  have htarget :
      (Symbol.directiveTarget { name := "Inner", kind := .inherit, classname := some "Inner" }) =
      "Inner" := by decide
  rw [World.parent_of_named (by rw [htarget, hclean]; decide), htarget, hclean]
  exact World.find_of_findClass findClass_inner (by rw [hclean]; decide) _

/-! ## The keys of a class -/

/-- A class is reached under the key under which a class of its name at the top level is found,
whether or not it is that class. -/
theorem reachedScope_key_of_top (plain : e.table.Plain) {names : List String} {top : Symbol}
    (declared : DeclaredAt e.table.roots names cls)
    (atTop : DeclaredAt e.table.roots [cls.name] top) (tier : Tier) :
    (reachedScope e cls).key = (foundScope e (Node.mk [cls.name] top).entry tier).key := by
  refine congrArg (e.uri ++ "#" ++ ·) ?_
  rw [(declared.plain plain.2).knownAs, atTop.knownAs_entry plain.2]
  simp

/-- A class of a document with something in it, at the end of names that lead from class to class,
is reached by them under one key and found by its name under another, unless it is declared at the
top level: only then are the keys the same.  So a class at the top level is never walked as an
ancestor of itself, but one inside another is, whenever what it inherits leads back to it.  Being at
the top level means that one name leads to it. -/
theorem class_has_one_key_iff (known : Answers out Good raise src w) (plain : e.table.Plain)
    (here : c.uri = e.uri) (own : c.entry = some e)
    (declared : DeclaredAt e.table.roots (head :: rest) cls) (body : cls.HasBody) (f : Findings)
    {s : σ} (good : Good s) :
    ∃ entry ∈ e.table.flat, entry = (Node.mk (head :: rest) cls).entry ∧
      out.query.of (objectScope src c head rest) (f, s) = .ok (some (reachedScope e cls), f, s) ∧
      (∀ name tier,
        findClass (cleanTarget name) (c.entry.toList ++ w.documents.filter (·.uri != c.uri)) =
          some (e, entry) →
        ∃ t, out.query.of (findScope src c name tier) (f, s) =
          .ok (some (foundScope e entry (tier.getD .current)), f, t) ∧ Good t) ∧
      (∀ tier, (reachedScope e cls).key = (foundScope e entry tier).key ↔ rest = []) ∧
      ((∃ x, w.HasFault c x ∧
        out.query.of (ancestors src c (reachedScope e cls).directives (reachedScope e cls).key)
          (f, s) =
          .error (raise x)) ∨
      ∃ found given t,
        out.query.of (ancestors src c (reachedScope e cls).directives (reachedScope e cls).key)
          (f, s) =
          .ok (found.map (·.scope), f.noting given, t) ∧ Good t ∧
        Explores (w.parent c) (reachedScope e cls).key src.maxDepth src.maxDepth
          (reachedScope e cls).directives
          [] [] [(reachedScope e cls).key] found given ∧
        (rest = [] → ∀ tier, (foundScope e entry tier).key ∉ keysOf found) ∧
        (WithinDepth given → KeysDecide (w.parent c) → ∀ tier,
          ((foundScope e entry tier).key ∈ keysOf found ↔ rest ≠ [] ∧
            ReflTransGen
              (Inherits (w.parent c) (reachedScope e cls).key (reachedScope e cls).directives)
              (reachedScope e cls).key (foundScope e entry tier).key))) := by
  obtain ⟨hbuilt, hroots⟩ := plain
  have hnode := declared.mem_nodes
  have hkeys : ∀ tier, (reachedScope e cls).key =
      (foundScope e (Node.mk (head :: rest) cls).entry tier).key ↔ rest = [] := by
    intro tier
    rw [← declared.knownAs_entry_iff hroots]
    exact String.append_right_inj _
  refine ⟨_, ?_, rfl, of_objectScope here own declared body _, ?_, hkeys, ?_⟩
  · rw [hbuilt, SymbolTable.flat_ofRoots]
    exact List.mem_map_of_mem hnode
  · intro name tier hfound
    have hpath := path_of_named (fun t ht => (hroots t ht).named) hnode
    have hdotted : (Node.mk (head :: rest) cls).entry.qualifiedName ≠ some "" := by
      intro hnone
      rw [Node.entry, dotted_eq_intercalate hpath] at hnone
      exact intercalate_ne_empty (List.cons_ne_nil head rest) hpath (Option.some.inj hnone)
    exact findScope_of_findClass known here hfound
      (target_ne_empty hfound (declared.plain hroots).name hdotted) tier f good
  · -- No walk comes back to the key from which it departed, so a class is among its own ancestors
    -- exactly if the key under which it is found is another one.
    refine (known.ancestors c _ _ f good).imp_right ?_
    rintro ⟨found, given, t, hout, goodT, hexplores⟩
    refine ⟨found, given, t, hout, goodT, hexplores, fun top tier => ?_,
      fun within decide tier => ?_⟩
    · rw [← (hkeys tier).mpr top]
      exact hexplores.root_notMem
    · rw [hexplores.mem_keysOf_iff within decide, ne_comm, ne_eq, hkeys tier]

/-- The inner class is reached under another key than it is found under, and it is found among its
own ancestors. -/
theorem inner_class_is_its_own_ancestor :
    (Outcomes.ofState (List String) Fault).query.of
        (objectScope nestingSources insideNesting "Outer" ["Inner"]) ({}, []) =
      .ok (some (reachedScope nesting innerClass), {}, []) ∧
    (∃ t, (Outcomes.ofState (List String) Fault).query.of
        (findScope nestingSources insideNesting "Inner" (some .inherited)) ({}, []) =
      .ok (some (foundScope nesting innerNode.entry .inherited), {}, t)) ∧
    (reachedScope nesting innerClass).key ≠ (foundScope nesting innerNode.entry .inherited).key ∧
    ∃ (found : List Reached) (given : List ResolutionWarning) (t : List String),
      (Outcomes.ofState (List String) Fault).query.of
        (ancestors nestingSources insideNesting (reachedScope nesting innerClass).directives
          (reachedScope nesting innerClass).key) ({}, []) =
          .ok (found.map (·.scope), ({} : Findings).noting given, t) ∧
      (foundScope nesting innerNode.entry .inherited).key ∈ keysOf found := by
  obtain ⟨entry, -, rfl, hreached, hfound, hkeys, hancestors⟩ :=
    class_has_one_key_iff nesting_answers nesting_plain
      (c := insideNesting) rfl rfl innerClass_declaredAt
      ⟨rfl, List.cons_ne_nil _ _⟩ {} (s := []) trivial
  obtain ⟨t, ht, -⟩ := hfound "Inner" (some .inherited) findClass_inner
  refine ⟨hreached, ⟨t, ht⟩, fun he => List.cons_ne_nil _ _ ((hkeys .inherited).mp he), ?_⟩
  rcases hancestors with ⟨x, hfault, -⟩ | ⟨found, given, t, hout, -, hexplores, -, hwalked⟩
  · exact absurd hfault nesting_hasNoFault
  · refine ⟨found, given, t, hout, ?_⟩
    exact (hwalked (nesting_withinDepth hexplores) keysDecide_nesting .inherited).mpr
      ⟨List.cons_ne_nil _ _, .single inner_inherits_inner⟩

end Resolve

end PikeAnalysis
