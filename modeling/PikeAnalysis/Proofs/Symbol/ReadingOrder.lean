import Mathlib.Data.List.Basic
import PikeAnalysis.Proofs.Resolve.Tiers

/-!
# Symbols in reading order

A node of a forest has an address: the number of its tree, then that of a child in the tree, and so
on.  The lexicographic order of the addresses is reading order: a symbol comes before those inside
it, and these come before whatever follows it.  The flat list of a table has an entry for every
node, in this order, and the names under which symbols are looked up belong to the first node that
has them (`flat_index_is_the_tree`).

Addresses make reading order a matter of comparing lists of numbers, so that "a symbol comes before
those inside it" is a property of the lexicographic order and has to be shown of no traversal.  What
is looked up by name is then the first node with the name, and the two maps of a table are described
by which names a node answers to.

Dotted names are taken as they are where a symbol has one, and are put together from the names above
it where it has none.  For forests as the worker gives them the second is always the case (`Plain`).
-/

namespace PikeAnalysis

namespace Symbol

/-! ## Addresses -/

/-- A symbol in a forest, with the names from the root down to it, its own last.  The path belongs
to the place and not to the symbol: the same symbol may stand at several places of a forest. -/
structure Node where
  path : List String
  symbol : Symbol

/-- A node, seen from one symbol further up. -/
def Node.inside (name : String) (e : Node) : Node :=
  { e with path := name :: e.path }

/-- The node at an address inside a symbol, which has the empty address itself. -/
def below? : Symbol → List Nat → Option Node
  | s, [] => some ⟨[s.name], s⟩
  | s, i :: rest => s.children[i]?.bind fun c => (below? c rest).map (Node.inside s.name)

/-- The node at an address of a forest.  An address has one number for each level, counted from
zero. -/
def nodeAt? (forest : List Symbol) : List Nat → Option Node
  | [] => none
  | i :: rest => forest[i]?.bind (below? · rest)

mutual

/-- The addresses inside a symbol in reading order.  The symbol itself has the empty address and
comes first. -/
def addresses : Symbol → List (List Nat)
  | ⟨_, _, _, _, _, children, _, _, _, _⟩ => [] :: addressesList children

/-- The addresses of a forest in reading order. -/
def addressesList : List Symbol → List (List Nat)
  | [] => []
  | s :: rest => (addresses s).map (0 :: ·) ++ (addressesList rest).map (List.modifyHead (· + 1))

end

/-- The nodes of a forest in reading order.  This is the specification of the flat list: all
addresses in their order, and the node at each. -/
def nodes (forest : List Symbol) : List Node :=
  (addressesList forest).filterMap (nodeAt? forest)

variable {s : Symbol} {forest rest : List Symbol} {p : List Nat} {e : Node}

theorem below?_of_ne_nil (s : Symbol) (h : p ≠ []) :
    below? s p = (nodeAt? s.children p).map (Node.inside s.name) := by
  cases p with
  | nil => exact absurd rfl h
  | cons i rest => rw [below?, nodeAt?, Option.map_bind]; rfl

theorem nodeAt?_cons_zero (s : Symbol) (rest : List Symbol) (p : List Nat) :
    nodeAt? (s :: rest) (0 :: p) = below? s p :=
  rfl

theorem nodeAt?_cons_succ (s : Symbol) (rest : List Symbol) (p : List Nat) :
    nodeAt? (s :: rest) (p.modifyHead (· + 1)) = nodeAt? rest p := by
  cases p <;> rfl

theorem mem_addressesList_cons : p ∈ addressesList (s :: rest) ↔
    (∃ q ∈ addresses s, 0 :: q = p) ∨ ∃ q ∈ addressesList rest, q.modifyHead (· + 1) = p := by
  rw [addressesList, List.mem_append, List.mem_map, List.mem_map]

mutual

theorem mem_addresses : ∀ (s : Symbol) (p : List Nat), p ∈ addresses s ↔ (below? s p).isSome
  | ⟨_, _, _, _, _, _, _, _, _, _⟩, [] => by simp [addresses, below?]
  | ⟨_, _, _, _, _, children, _, _, _, _⟩, i :: rest => by
    rw [below?_of_ne_nil _ (List.cons_ne_nil i rest), Option.isSome_map]
    simp [addresses, mem_addressesList children (i :: rest)]

/-- The addresses of a forest are those at which there is a node. -/
theorem mem_addressesList : ∀ (forest : List Symbol) (p : List Nat),
    p ∈ addressesList forest ↔ (nodeAt? forest p).isSome
  | [], p => by cases p <;> simp [addressesList, nodeAt?]
  | s :: rest, p => by
    rw [mem_addressesList_cons]
    constructor
    · rintro (⟨q, hq, rfl⟩ | ⟨q, hq, rfl⟩)
      · exact (mem_addresses s q).mp hq
      · rw [nodeAt?_cons_succ]
        exact (mem_addressesList rest q).mp hq
    · intro h
      match p with
      | [] => cases h
      | 0 :: q => exact .inl ⟨q, (mem_addresses s q).mpr h, rfl⟩
      | (i + 1) :: q => exact .inr ⟨i :: q, (mem_addressesList rest (i :: q)).mpr h, rfl⟩

end

theorem exists_cons_of_mem_addressesList (h : p ∈ addressesList forest) : ∃ i q, p = i :: q := by
  cases p with
  | nil => cases (mem_addressesList forest []).mp h
  | cons i q => exact ⟨i, q, rfl⟩

mutual

theorem pairwise_addresses : ∀ s : Symbol, (addresses s).Pairwise (· < ·)
  | ⟨_, _, _, _, _, children, _, _, _, _⟩ => by
    refine List.pairwise_cons.mpr ⟨fun p hp => ?_, pairwise_addressesList children⟩
    obtain ⟨i, q, rfl⟩ := exists_cons_of_mem_addressesList hp
    exact List.nil_lt_cons i q

/-- Addresses are listed in lexicographic order, each of them once. -/
theorem pairwise_addressesList : ∀ forest : List Symbol, (addressesList forest).Pairwise (· < ·)
  | [] => .nil
  | s :: rest => by
    refine List.pairwise_append.mpr ⟨?_, ?_, ?_⟩
    · refine List.pairwise_map.mpr ((pairwise_addresses s).imp fun h => ?_)
      exact List.cons_lt_cons_iff.mpr (.inr ⟨rfl, h⟩)
    · refine List.pairwise_map.mpr ((pairwise_addressesList rest).imp_of_mem fun hp hq h => ?_)
      obtain ⟨i, p, rfl⟩ := exists_cons_of_mem_addressesList hp
      obtain ⟨j, q, rfl⟩ := exists_cons_of_mem_addressesList hq
      exact List.cons_lt_cons_iff.mpr
        ((List.cons_lt_cons_iff.mp h).imp Nat.succ_lt_succ fun same =>
          ⟨congrArg (· + 1) same.1, same.2⟩)
    · intro p hp q hq
      obtain ⟨p, -, rfl⟩ := List.mem_map.mp hp
      obtain ⟨q, hlisted, rfl⟩ := List.mem_map.mp hq
      obtain ⟨j, q, rfl⟩ := exists_cons_of_mem_addressesList hlisted
      exact List.cons_lt_cons_iff.mpr (.inl (Nat.succ_pos j))

end

/-! ## The flat list -/

/-- The symbol of a node, named by the dotted names from `above` on down to it. -/
def Node.namedFrom (above : String) (e : Node) : Symbol :=
  { e.symbol with qualifiedName := some (e.path.foldl qualify above) }

mutual

theorem flatten_eq : ∀ (above : String) (s : Symbol),
    flatten above s = (addresses s).filterMap fun p => (below? s p).map (Node.namedFrom above)
  | above, ⟨name, kind, position, type, modifiers, children, documentation, classname,
    qualifiedName, file⟩ => by
    have hchildren := flattenList_eq (qualify above name) children
    refine congrArg (List.cons _) (hchildren.trans (List.filterMap_congr fun p hp => ?_))
    obtain ⟨i, q, rfl⟩ := exists_cons_of_mem_addressesList hp
    rw [below?_of_ne_nil _ (List.cons_ne_nil i q), Option.map_map]
    rfl

theorem flattenList_eq : ∀ (above : String) (forest : List Symbol),
    flattenList above forest = (addressesList forest).filterMap fun p =>
      (nodeAt? forest p).map (Node.namedFrom above)
  | _, [] => rfl
  | above, s :: rest => by
    rw [flattenList, addressesList, List.filterMap_append, List.filterMap_map, List.filterMap_map,
      flatten_eq above s, flattenList_eq above rest]
    simp only [Function.comp_def, nodeAt?_cons_zero, nodeAt?_cons_succ]

end

theorem flattenList_eq_map_nodes (above : String) (forest : List Symbol) :
    flattenList above forest = (nodes forest).map (Node.namedFrom above) := by
  rw [flattenList_eq, nodes, List.map_filterMap]

/-! ## Dotted names -/

/-- The names on a path with dots between them.  Nameless symbols at its start leave no dot
behind. -/
def dotted (path : List String) : String :=
  ".".intercalate (path.dropWhile (·.isEmpty))

theorem intercalate_qualified (above name : String) (more : List String) :
    ".".intercalate ((above ++ "." ++ name) :: more) = ".".intercalate (above :: name :: more) := by
  rw [String.intercalate_cons_cons]
  cases more with
  | nil => simp
  | cons next rest => simp [String.intercalate_cons_cons, String.append_assoc]

theorem foldl_qualify_of_ne_empty {above : String} (h : above ≠ "") (path : List String) :
    path.foldl qualify above = ".".intercalate (above :: path) := by
  induction path generalizing above with
  | nil => simp
  | cons name rest ih =>
    have hqualify : qualify above name = above ++ "." ++ name := by simp [qualify, h]
    have hne : above ++ "." ++ name ≠ "" := by simp [String.append_eq_empty_iff, h]
    rw [List.foldl_cons, hqualify, ih hne, intercalate_qualified]

theorem foldl_qualify (path : List String) : path.foldl qualify "" = dotted path := by
  induction path with
  | nil => rfl
  | cons name rest ih =>
    have hqualify : qualify "" name = name := by simp [qualify]
    rw [List.foldl_cons, hqualify, dotted, List.dropWhile_cons]
    by_cases h : name = ""
    · subst h
      simpa [dotted] using ih
    · rw [foldl_qualify_of_ne_empty h, if_neg (by simp [h])]

theorem dotted_eq_intercalate {path : List String} (named : ∀ n ∈ path, n ≠ "") :
    dotted path = ".".intercalate path := by
  cases path with
  | nil => rfl
  | cons name rest =>
    have hname : name ≠ "" := named name List.mem_cons_self
    rw [dotted, List.dropWhile_cons, if_neg (by simp [hname])]

theorem intercalate_ne_empty {path : List String} (nonempty : path ≠ [])
    (named : ∀ n ∈ path, n ≠ "") :
    ".".intercalate path ≠ "" := by
  match path with
  | [] => exact absurd rfl nonempty
  | [name] => simpa using named
  | name :: next :: rest => simp [String.intercalate_cons_cons, String.append_eq_empty_iff]

theorem name_mem_path_of_below? (found : below? s p = some e) : e.symbol.name ∈ e.path := by
  induction p generalizing s e with
  | nil =>
    obtain rfl := Option.some.inj found
    exact List.mem_singleton_self _
  | cons i rest ih =>
    obtain ⟨c, -, hbelow⟩ := Option.bind_eq_some_iff.mp found
    obtain ⟨e, he, rfl⟩ := Option.map_eq_some_iff.mp hbelow
    exact List.mem_cons_of_mem _ (ih he)

/-- Nodes are found in the trees of their forest. -/
theorem exists_below?_of_mem_nodes (h : e ∈ nodes forest) :
    ∃ s ∈ forest, ∃ p, below? s p = some e := by
  obtain ⟨p, -, hp⟩ := List.mem_filterMap.mp h
  cases p with
  | nil => cases hp
  | cons i rest =>
    obtain ⟨s, hs, hbelow⟩ := Option.bind_eq_some_iff.mp hp
    exact ⟨s, List.mem_of_getElem? hs, rest, hbelow⟩

theorem name_mem_path (h : e ∈ nodes forest) : e.symbol.name ∈ e.path := by
  obtain ⟨s, -, p, hp⟩ := exists_below?_of_mem_nodes h
  exact name_mem_path_of_below? hp

/-- A symbol that has a name, and with it all symbols inside it.  Joining the names of a path with
dots is then the same as qualifying step by step, where an empty name would make a difference. -/
inductive Named : Symbol → Prop
  | mk {s : Symbol} (name : s.name ≠ "") (children : ∀ c ∈ s.children, c.Named) : s.Named

theorem Named.path_of_below? (h : s.Named) (found : below? s p = some e) :
    ∀ n ∈ e.path, n ≠ "" := by
  induction h generalizing p e with
  | @mk s name _ ih =>
    cases p with
    | nil =>
      obtain rfl := Option.some.inj found
      simpa using name
    | cons i rest =>
      obtain ⟨c, hc, hbelow⟩ := Option.bind_eq_some_iff.mp found
      obtain ⟨e, he, rfl⟩ := Option.map_eq_some_iff.mp hbelow
      exact List.forall_mem_cons.mpr ⟨name, ih c (List.mem_of_getElem? hc) he⟩

theorem path_of_named (named : ∀ s ∈ forest, s.Named) (h : e ∈ nodes forest) :
    ∀ n ∈ e.path, n ≠ "" := by
  obtain ⟨s, hs, p, hp⟩ := exists_below?_of_mem_nodes h
  exact (named s hs).path_of_below? hp

/-- The symbol of a node, named by the dotted names on its path. -/
def Node.entry (e : Node) : Symbol :=
  { e.symbol with qualifiedName := some (dotted e.path) }

/-- The dotted names on the path of a node are `q`, which is not nothing. -/
def Node.Spells (q : String) (e : Node) : Prop :=
  dotted e.path = q ∧ q ≠ ""

instance (q : String) : DecidablePred (Node.Spells q) :=
  fun _ => inferInstanceAs (Decidable (_ ∧ _))

end Symbol

namespace SymbolTable

open PikeAnalysis.Symbol

theorem flat_ofRoots (roots : List Symbol) :
    (ofRoots roots).flat = (nodes roots).map Node.entry := by
  refine (flattenList_eq_map_nodes "" roots).trans (List.map_congr_left fun e _ => ?_)
  rw [Node.namedFrom, foldl_qualify, Node.entry]

theorem names_ofRoots (roots : List Symbol) :
    (ofRoots roots).names = ((nodes roots).map (·.symbol.name)).eraseDups := by
  have hkeys : (ofRoots roots).names = ((ofRoots roots).flat.map (·.name)).eraseDups :=
    Assoc.keys_foldl_add _ _ _
  rw [hkeys, flat_ofRoots, List.map_map]
  rfl

theorem getQualified?_ofRoots (roots : List Symbol) (q : String) :
    (ofRoots roots).getQualified? q = ((nodes roots).find? (·.Spells q)).map Node.entry := by
  have hfind : (ofRoots roots).getQualified? q =
      (ofRoots roots).flat.find? fun s => s.qualifiedName == some q && !q.isEmpty :=
        get?_indexByQualified q _
  rw [hfind, flat_ofRoots, List.find?_map]
  congr 2
  funext e
  rw [Bool.eq_iff_iff, decide_eq_true_iff]
  simp [Node.entry, Node.Spells]

theorem get?_ofRoots (roots : List Symbol) (n : String) :
    (ofRoots roots).get? n =
      (((nodes roots).find? (·.symbol.name = n)).map Node.entry <|>
        (ofRoots roots).getQualified? n) := by
  have hfind : Assoc.get? n (ofRoots roots).byName = (ofRoots roots).flat.find? (·.name == n) :=
    get?_indexByName n _
  have hname : (fun s : Symbol => s.name == n) ∘ Node.entry = fun e =>
    decide (e.symbol.name = n) := rfl
  rw [get?, hfind, flat_ofRoots, List.find?_map, hname]
  cases (nodes roots).find? fun e => e.symbol.name = n with
  | none => rfl
  | some e => rfl

/-- The flat list of a table has an entry for every node of the forest, in the lexicographic order
of their addresses and each once.  It is the node's symbol, named by the dotted names on its path.
The names of the table are those of the nodes, each at its first place; the dotted name `q` belongs
to the first node whose path spells it; and what is found under `n` is the first node of that name
or, if there is none, the first one whose path spells it.  In a forest without nameless symbols a
path spells its names with dots between them. -/
theorem flat_index_is_the_tree (roots : List Symbol) :
    ((addressesList roots).Pairwise (· < ·) ∧ ∀ p, p ∈ addressesList roots ↔
      (nodeAt? roots p).isSome) ∧
    (ofRoots roots).flat = (nodes roots).map Node.entry ∧
    (ofRoots roots).names = ((nodes roots).map (·.symbol.name)).eraseDups ∧
    (∀ q, (ofRoots roots).getQualified? q = ((nodes roots).find? (·.Spells q)).map Node.entry) ∧
    (∀ n, (ofRoots roots).get? n =
      (((nodes roots).find? (·.symbol.name = n)).map Node.entry <|>
        (ofRoots roots).getQualified? n)) ∧
    ((∀ s ∈ roots, s.Named) → ∀ e ∈ nodes roots, dotted e.path = ".".intercalate e.path ∧
      ∀ q, e.Spells q ↔ ".".intercalate e.path = q) := by
  refine ⟨⟨pairwise_addressesList roots, mem_addressesList roots⟩, flat_ofRoots roots,
    names_ofRoots roots, getQualified?_ofRoots roots, get?_ofRoots roots, fun named e he => ?_⟩
  have hpath := path_of_named named he
  have hdotted := dotted_eq_intercalate hpath
  refine ⟨hdotted, fun q => ?_⟩
  have hne := intercalate_ne_empty (List.ne_nil_of_mem (name_mem_path he)) hpath
  rw [Node.Spells, hdotted]
  exact and_iff_left_of_imp fun h => h ▸ hne

/-- A class with a variable in it that was named elsewhere, and behind it a method whose name has a
dot. -/
def points : List Symbol :=
  [{ name := "Point", kind := .klass,
     children := [{ name := "x", kind := .variable, qualifiedName := some "Line.x" }] },
   { name := "Point.x", kind := .method }]

theorem named_points : ∀ s ∈ points, s.Named := by
  have hvariable : Named { name := "x", kind := .variable, qualifiedName := some "Line.x" } :=
    ⟨by decide, by simp⟩
  intro s hs
  rcases List.mem_pair.mp hs with rfl | rfl
  · exact ⟨by decide, by simpa using hvariable⟩
  · exact ⟨by decide, by simp⟩

/-- The path of the variable spells the name of the method.  The method is found under it,
the variable under the path. -/
theorem name_comes_before_path :
    (nodes points).map (·.path) = [["Point"], ["Point", "x"], ["Point.x"]] ∧
      (∀ e ∈ nodes points, dotted e.path = ".".intercalate e.path) ∧
      (ofRoots points).names = ["Point", "x", "Point.x"] ∧
      ((ofRoots points).get? "Point.x").map (·.kind) = some .method ∧
      ((ofRoots points).getQualified? "Point.x").map (·.kind) = some .variable := by
  obtain ⟨-, -, hnames, hqualified, hget, hspells⟩ := flat_index_is_the_tree points
  refine ⟨by decide +kernel, fun e he => (hspells named_points e he).1, ?_, ?_, ?_⟩
  · rw [hnames]
    decide +kernel
  · rw [hget, hqualified]
    decide +kernel
  · rw [hqualified]
    decide +kernel

end SymbolTable

end PikeAnalysis
