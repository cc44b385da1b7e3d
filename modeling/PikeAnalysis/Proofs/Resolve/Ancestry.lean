import PikeAnalysis.Proofs.Resolve.Exploration
import PikeAnalysis.Proofs.Resolve.Outcomes

/-!
# Ancestors and cycles of inheritance

While the answers of the outside do not change, finding the ancestors of a scope is a depth-first
exploration of what its inherit directives lead to (`Answers.walk`).  It always ends, each ancestor
comes after those that led to it, and unless the limit of depth is met, the ancestors are all that
can be reached (`ancestors_are_what_is_inherited`) and a warning of a cycle is given exactly if one
can be reached (`cycle_is_warned_of_exactly`).

The walk of the code is over a monad and an accumulator, and the exploration of
`Proofs/Resolve/Exploration.lean` is a relation between directives and what they lead to.
`Answers.walk` goes from one to the other, with one case for each branch of the walk; after that no
monad is left in the proofs.

Two premises are named.  The answers of the outside do not change during the query, and keys decide:
two scopes with one key have the same directives.  The second is needed because the walk compares
keys, and it can fail only for classes that share one (`Proofs/Resolve/ClassKeys.lean`).
-/

namespace PikeAnalysis.Resolve

open Relation

variable {m : Type → Type} [Monad m] {σ ε : Type} {out : Outcomes m σ ε} {Good : σ → Prop}
  {raise : Fault → ε} {src : Sources m} {w : World} {c : Context}

/-! ## Findings and walks -/

/-- Warnings with one added unless it has been given. -/
def noted (warnings : List ResolutionWarning) (given : ResolutionWarning) :
    List ResolutionWarning :=
  if warnings.contains given then warnings else warnings ++ [given]

/-- Findings with warnings added that have not been given. -/
def Findings.noting (f : Findings) (given : List ResolutionWarning) : Findings :=
  { f with warnings := given.foldl noted f.warnings }

/-- A walk that has reached more scopes.  They are added in the order in which they were reached, to
the keys as well as to the scopes. -/
def Walk.reaching (v : Walk) (found : List Reached) : Walk where
  visited := v.visited ++ keysOf found
  scopes := v.scopes ++ found.map (·.scope)

theorem Findings.noting_append (f : Findings) (given more : List ResolutionWarning) :
    f.noting (given ++ more) = (f.noting given).noting more := by
  simp [noting]

theorem mem_noted {warnings : List ResolutionWarning} {given v : ResolutionWarning} :
    v ∈ noted warnings given ↔ v ∈ warnings ∨ v = given := by
  unfold noted
  split
  · next hmem =>
    have hgiven : given ∈ warnings := List.contains_iff_mem.mp hmem
    exact ⟨.inl, fun h => h.elim id fun he => he ▸ hgiven⟩
  · simp

/-- Findings hold the warnings they held and those that have been added. -/
theorem Findings.mem_noting {f : Findings} {given : List ResolutionWarning}
    {v : ResolutionWarning} :
    v ∈ (f.noting given).warnings ↔ v ∈ f.warnings ∨ v ∈ given := by
  have hfold : ∀ warnings, v ∈ given.foldl noted warnings ↔ v ∈ warnings ∨ v ∈ given := by
    induction given with
    | nil => simp
    | cons g rest ih =>
      intro warnings
      rw [List.foldl_cons, ih, mem_noted, or_assoc, List.mem_cons]
  exact hfold f.warnings

theorem query_warn (v : ResolutionWarning) (f : Findings) (s : σ) :
    out.query.of (warn v : Query m Unit) (f, s) = .ok ((), f.noting [v], s) := by
  rw [warn, out.query_modify]
  simp only [Findings.noting, List.foldl_cons, List.foldl_nil, noted]
  split <;> rfl

theorem query_warn_bind {α : Type} (v : ResolutionWarning) (x : Query m α) (f : Findings) (s : σ) :
    out.query.of (warn v >>= fun _ => x) (f, s) = out.query.of x (f.noting [v], s) :=
  out.query.of_bind_ok (query_warn v f s)

/-! ## Walks -/

/-- What comes of a walk that goes on with directives: what exploring them comes to, or the fault of
the address of a document.  The accumulator is what it was with what was reached added, and so are
the findings. -/
def ComesOut (Good : σ → Prop) (raise : Fault → ε) (w : World) (c : Context) (root : String)
    (limit left : Nat) (ds : List Symbol) (above : List Scope) (names : List String) (v : Walk)
    (f : Findings) (r : Except ε (Walk × Findings × σ)) : Prop :=
  (∃ found given t, Explores (w.parent c) root limit left ds above names v.visited found given ∧
    r = .ok (v.reaching found, f.noting given, t) ∧ Good t) ∨
  ∃ e, w.HasFault c e ∧ r = .error (raise e)

variable {root : String} {limit left : Nat} {d : Symbol} {ds rest : List Symbol}
  {above : List Scope}
  {names : List String} {v : Walk} {f : Findings} {r : Except ε (Walk × Findings × σ)}

/-- One directive that leads to no new scope, perhaps with warnings, comes before the others. -/
theorem ComesOut.cons (ws : List ResolutionWarning)
    (h : ComesOut Good raise w c root limit left rest above names v (f.noting ws) r)
    (step : ∀ {found given}, Explores (w.parent c) root limit left rest above names
      v.visited found given →
      Explores (w.parent c) root limit left (d :: rest) above names v.visited found (ws ++ given)) :
    ComesOut Good raise w c root limit left (d :: rest) above names v f r := by
  refine h.imp_left ?_
  rintro ⟨found, given, t, hexplores, hr, good⟩
  exact ⟨found, ws ++ given, t, step hexplores, by rw [hr, Findings.noting_append], good⟩

theorem World.parent_of_unnamed (h : (cleanTarget d.directiveTarget).isEmpty) :
    w.parent c d = .ok none :=
  if_pos h

theorem World.parent_of_named (h : ¬ (cleanTarget d.directiveTarget).isEmpty) :
    w.parent c d = w.find c (cleanTarget d.directiveTarget) (some .inherited) :=
  if_neg h

/-- A walk explores.  The proof is by the recursion of the walk, and each of its cases is a rule of
the exploration. -/
theorem Answers.walk (known : Answers out Good raise src w) (c : Context)
    (root : String) (left : Nat)
    (ds : List Symbol) (path names : List String) (v : Walk) (above : List Scope)
    (hpath : path = pathOf root above) (f : Findings) {s : σ} (good : Good s) :
    ComesOut Good raise w c root src.maxDepth left ds above names v f
      (out.query.of (walk src c left ds path names v) (f, s)) := by
  -- One case for each branch of the walk; in the last a scope is new, and is followed before the
  -- rest.
  induction left, ds, path, names, v using Resolve.walk.induct generalizing above f s with
  | case1 left path names v =>
    rw [Resolve.walk, out.query.of_pure]
    exact .inl ⟨[], [], s, .done, by simp [Walk.reaching, Findings.noting], good⟩
  | case2 left path names v d rest target hempty ih =>
    rw [Resolve.walk.eq_def]
    dsimp only
    rw [if_pos hempty]
    exact (ih above hpath f good).cons [] (.blank (World.parent_of_unnamed hempty))
  | case3 path names v d rest target hnamed =>
    rw [Resolve.walk, if_neg hnamed]
    refine .inl ⟨[], _, s, .tooDeep target, ?_, good⟩
    refine (query_warn_bind _ _ f s).trans ?_
    rw [out.query.of_pure]
    simp [Walk.reaching, depthWarning, target]
  | case4 path names v d rest target hnamed left ihRest ihParent ihBelow =>
    rw [Resolve.walk, if_neg hnamed]
    rcases known.findScope c target (some .inherited) f s good with
      ⟨found, t, hfind, hout, goodT⟩ | ⟨e, hfind, hout⟩
    swap
    · exact .inr ⟨e, World.hasFault_of_find hfind, out.query.of_bind_error hout⟩
    have hleads : w.parent c d = .ok found := (World.parent_of_named hnamed).trans hfind
    rw [out.query.of_bind_ok hout]
    cases found with
    | none =>
      dsimp only
      rw [query_warn_bind]
      exact (ihRest above hpath _ goodT).cons [_] (.unresolved target hleads)
    | some scope =>
      dsimp only
      split
      · next hback =>
        rw [query_warn_bind]
        have hback : scope.key ∈ pathOf root above := hpath ▸ List.contains_iff_mem.mp hback
        exact (ihRest above hpath _ goodT).cons [_] (.cyclic target hleads hback)
      next hoff =>
      have hoff : scope.key ∉ pathOf root above :=
        fun hmem => hoff (List.contains_iff_mem.mpr (hpath ▸ hmem))
      split
      · next hknown =>
        have hknown : scope.key ∈ v.visited := List.contains_iff_mem.mp hknown
        exact (ihRest above hpath f goodT).cons [] (.again hleads hoff hknown)
      next hnew =>
      have hnew : scope.key ∉ v.visited := fun hmem => hnew (List.contains_iff_mem.mpr hmem)
      have hpath' : path ++ [scope.key] = pathOf root (above ++ [scope]) := by
        rw [hpath, pathOf, pathOf, List.map_append, List.cons_append, List.map_singleton]
      rcases ihParent scope (above ++ [scope]) hpath' f goodT with
        ⟨up, upGiven, u, hbelow, hup, goodU⟩ | ⟨e, hfault, hup⟩
      swap
      · exact .inr ⟨e, hfault, out.query.of_bind_error hup⟩
      rw [out.query.of_bind_ok hup]
      have hvisited :
          (Walk.reaching { visited := v.visited ++ [scope.key], scopes := v.scopes ++ [scope] }
          up).visited = v.visited ++ scope.key :: keysOf up := List.append_assoc _ [_] _
      refine (ihBelow _ above hpath (f.noting upGiven) goodU).imp_left ?_
      rintro ⟨more, given, z, hexplores, hrest, goodZ⟩
      rw [hvisited] at hexplores
      refine ⟨{ above, scope } :: (up ++ more), upGiven ++ given, z, ?_, ?_, goodZ⟩
      · exact .first target hleads hoff hnew hbelow hexplores
      · rw [hrest, Findings.noting_append]
        simp [Walk.reaching]

/-! ## Ancestors -/

/-- Finding ancestors explores, unless the address of a document is at fault. -/
theorem Answers.ancestors (known : Answers out Good raise src w) (c : Context)
    (directives : List Symbol) (root : String) (f : Findings) {s : σ} (good : Good s) :
    (∃ e, w.HasFault c e ∧
      out.query.of (ancestors src c directives root) (f, s) = .error (raise e)) ∨
    ∃ found given t,
      out.query.of (ancestors src c directives root) (f, s) =
        .ok (found.map (·.scope), f.noting given, t) ∧ Good t ∧
      Explores (w.parent c) root src.maxDepth src.maxDepth directives [] [] [root] found given := by
  rw [Resolve.ancestors]
  have hwalk := known.walk c root src.maxDepth directives [root] []
    { visited := [root] } [] rfl f good
  rcases hwalk with ⟨found, given, t, hexplores, hout, goodT⟩ | ⟨e, hfault, hout⟩
  · refine .inr ⟨found, given, t, ?_, goodT, hexplores⟩
    rw [out.query.of_bind_ok hout, out.query.of_pure]
    rfl
  · exact .inl ⟨e, hfault, out.query.of_bind_error hout⟩

/-! ## Inheritance among modules -/

/-- The scope of a module that is inherited. -/
def inheritedModule (mod : StdlibModule) : Scope :=
  { moduleScope mod with tier := .inherited }

/-- A world without documents.  Its modules are found by their path, the first of each. -/
def World.ofModules (modules : List StdlibModule) : World where
  documents := []
  module path := modules.find? (·.path == path)

section Modules

variable {modules : List StdlibModule} {mod : StdlibModule} {path : String}

theorem World.of_module_ofModules (h : (World.ofModules modules).module path = some mod) :
    mod ∈ modules ∧ mod.path = path := by
  dsimp only [World.ofModules] at h
  exact ⟨List.mem_of_find?_eq_some h, by simpa using List.find?_some h⟩

/-- Without documents a name refers to a module.  It is cleaned before it is looked for. -/
theorem World.find_ofModules (unknown : c.entry = none) {name : String}
    (named : ¬ (cleanTarget name).isEmpty) :
    (World.ofModules modules).find c name (some .inherited) =
      .ok (((World.ofModules modules).module (cleanTarget name)).map inheritedModule) := by
  have hdocuments : (World.ofModules modules).documents = [] := rfl
  rw [World.find, Resolve.findScope]
  dsimp only
  rw [if_neg named, World.result_documents_bind, hdocuments, unknown]
  simp only [Option.toList_none, List.filter_nil, List.append_nil, findClass, findByStem]
  rw [World.result_orFault_bind]
  change World.result (liftM ((World.ofModules modules).sources.module _) >>= _) = _
  rw [World.result_module_bind]
  cases (World.ofModules modules).module (cleanTarget name) <;> rfl

/-- Without documents a directive leads to a module, if anywhere. -/
theorem World.mem_of_parent_ofModules (unknown : c.entry = none) {s : Scope}
    (h : (World.ofModules modules).parent c d = .ok (some s)) :
    ∃ mod ∈ modules, inheritedModule mod = s ∧
      (World.ofModules modules).module mod.path = some mod := by
  by_cases hblank : (cleanTarget d.directiveTarget).isEmpty
  · cases (World.parent_of_unnamed hblank).symm.trans h
  rw [World.parent_of_named hblank] at h
  by_cases hempty : (cleanTarget (cleanTarget d.directiveTarget)).isEmpty
  · rw [World.find, Resolve.findScope] at h
    dsimp only at h
    rw [if_pos hempty] at h
    cases h
  · rw [World.find_ofModules unknown hempty] at h
    obtain ⟨mod, hmodule, hscope⟩ := Option.map_eq_some_iff.mp (Except.ok.inj h)
    obtain ⟨hmem, hpath⟩ := World.of_module_ofModules hmodule
    exact ⟨mod, hmem, hscope, hpath ▸ hmodule⟩

/-- The key of a module is its own. -/
theorem keysDecide_ofModules (unknown : c.entry = none) :
    KeysDecide ((World.ofModules modules).parent c) := by
  intro d e s t hs ht hkey
  obtain ⟨mod, -, rfl, hmodule⟩ := World.mem_of_parent_ofModules unknown hs
  obtain ⟨mod', -, rfl, hmodule'⟩ := World.mem_of_parent_ofModules unknown ht
  have hpath : mod.path = mod'.path := by simpa [inheritedModule, moduleScope] using hkey
  rw [hpath, hmodule'] at hmodule
  rw [Option.some.inj hmodule]

end Modules

/-- A module that inherits two others. -/
def ring : StdlibModule := { path := "Ring", symbols := [], inherits := ["Left", "Right"] }

/-- A module that inherits the last one. -/
def leftHalf : StdlibModule := { path := "Left", symbols := [], inherits := ["Low"] }

/-- A module that inherits the last one too, and then the first. -/
def rightHalf : StdlibModule := { path := "Right", symbols := [], inherits := ["Low", "Ring"] }

/-- A module that inherits nothing. -/
def lowest : StdlibModule := { path := "Low", symbols := [] }

/-- Modules among which there is a diamond, and a way back to its first corner. -/
def rings : List StdlibModule := [ring, leftHalf, rightHalf, lowest]

/-- Sources of these modules that remember what they were asked for. -/
def ringSources : Sources (StateT (List String) (Except Fault)) where
  documents := pure []
  module path := fun asked => .ok ((World.ofModules rings).module path, path :: asked)
  included _ _ := pure none
  fault f := fun _ => .error f
  maxDepth := 5

theorem ring_answers :
    Answers (.ofState (List String) Fault) (fun _ => True) id ringSources (.ofModules rings) where
  documents {s} _ := ⟨s, rfl, trivial⟩
  module {s} path _ := ⟨path :: s, rfl, trivial⟩
  fault _ _ := rfl

/-- A document that is not known. -/
def unseen : Context := { uri := "file:///unseen.pike", entry := none, program := none }

/-- A directive to inherit a module. -/
def toModule (path : String) : Symbol :=
  { name := path, kind := .inherit, classname := some path }

/-- The directives of a document that inherits the first module. -/
def toRing : List Symbol := [toModule ring.path]

/-- Each of the modules is inherited by its name. -/
theorem ring_parent {mod : StdlibModule} (h : mod ∈ rings) :
    (World.ofModules rings).parent unseen (toModule mod.path) =
      .ok (some (inheritedModule mod)) := by
  have hclean : ∀ mod ∈ rings, (toModule mod.path).directiveTarget = mod.path ∧
      cleanTarget mod.path = mod.path ∧ ¬ mod.path.isEmpty := by decide +kernel
  have hmodule : ∀ mod ∈ rings, (World.ofModules rings).module mod.path = some mod := by
    simp [rings, World.ofModules, ring, leftHalf, rightHalf, lowest]
  obtain ⟨htarget, hpath, hnamed⟩ := hclean mod h
  rw [World.parent_of_named (by rwa [htarget, hpath]), htarget, hpath,
    World.find_ofModules rfl (by rwa [hpath]), hpath, hmodule mod h]
  rfl

/-- The four modules are followed without meeting the limit of depth. -/
theorem ring_withinDepth {directives : List Symbol} {root : String} {found : List Reached}
    {given : List ResolutionWarning}
    (h : Explores ((World.ofModules rings).parent unseen) root 5 5 directives [] []
      [root] found given) :
    WithinDepth given := by
  refine h.withinDepth_of_few (rings.map fun mod => (inheritedModule mod).key) ?_ (by decide) rfl
    List.nodup_nil (List.nil_subset _)
  intro d s hs
  obtain ⟨mod, hmem, rfl, -⟩ := World.mem_of_parent_ofModules rfl hs
  exact List.mem_map_of_mem hmem

theorem ring_hasNoFault {e : Fault} : ¬ (World.ofModules rings).HasFault unseen e := by
  rintro ⟨d, hd, -⟩
  exact absurd hd List.not_mem_nil

/-- A document inherits the first module. -/
theorem unseen_inherits_ring :
    Inherits ((World.ofModules rings).parent unseen) unseen.uri toRing unseen.uri
      (inheritedModule ring).key :=
  inherits_root List.mem_cons_self (ring_parent List.mem_cons_self)

/-- None of the modules has the key of the document. -/
theorem ring_key_ne {mod : StdlibModule} (h : mod ∈ rings) :
    (inheritedModule mod).key ≠ unseen.uri := by
  have hkeys : ∀ mod ∈ rings, (inheritedModule mod).key ≠ unseen.uri := by decide
  exact hkeys mod h

/-- One of the modules inherits another. -/
theorem ring_inherits {mod other : StdlibModule} (h : mod ∈ rings)
    (inherits : other.path ∈ mod.inherits) (h' : other ∈ rings) :
    Inherits ((World.ofModules rings).parent unseen) unseen.uri toRing (inheritedModule mod).key
      (inheritedModule other).key :=
  inherits_of_leads (ring_parent h) (ring_key_ne h) (List.mem_map_of_mem inherits) (ring_parent h')

/-! ## What is inherited -/

/-- Unless the address of a document is at fault, finding ancestors ends with scopes of distinct
keys, none of them the root's.  Each is reached by a chain of directives within the limit of depth
and comes after all others on the chain by which it was reached first.  If no warning is given about
depth, the scopes that are found are all that can be reached from the root, but for the root itself.
An address at fault raises an error, and then nothing is found. -/
theorem ancestors_are_what_is_inherited (known : Answers out Good raise src w) (c : Context)
    (directives : List Symbol) (root : String) (f : Findings) {s : σ} (good : Good s) :
    (∃ e, w.HasFault c e ∧
      out.query.of (ancestors src c directives root) (f, s) = .error (raise e)) ∨
    ∃ found given t,
      out.query.of (ancestors src c directives root) (f, s) =
        .ok (found.map (·.scope), f.noting given, t) ∧ Good t ∧
      Explores (w.parent c) root src.maxDepth src.maxDepth directives [] [] [root] found given ∧
      (keysOf found).Nodup ∧ root ∉ keysOf found ∧
      (∀ before r after, found = before ++ r :: after →
        Chain (w.parent c) directives (r.above ++ [r.scope]) ∧
        (r.above ++ [r.scope]).length ≤ src.maxDepth ∧
        r.above.Sublist (before.map (·.scope))) ∧
      (WithinDepth given → KeysDecide (w.parent c) → ∀ k, k ∈ keysOf found ↔
        k ≠ root ∧ ReflTransGen (Inherits (w.parent c) root directives) root k) := by
  refine (known.ancestors c directives root f good).imp_right ?_
  rintro ⟨found, given, t, hout, goodT, hexplores⟩
  refine ⟨found, given, t, hout, goodT, hexplores, hexplores.keys_nodup,
    hexplores.root_notMem, ?_, ?_⟩
  · intro before r after hsplit
    obtain ⟨hchain, hlength, hsub⟩ := hexplores.chain_of_split hsplit
    refine ⟨hchain, ?_, hsub⟩
    rw [List.length_append, List.length_singleton]
    exact hlength
  · intro within decide k
    exact hexplores.mem_keysOf_iff within decide

/-- The last corner of the diamond is found, once. -/
theorem lowest_is_inherited :
    ∃ (found : List Reached) (given : List ResolutionWarning) (t : List String),
      (Outcomes.ofState (List String) Fault).query.of
        (ancestors ringSources unseen toRing unseen.uri) ({}, []) =
          .ok (found.map (·.scope), ({} : Findings).noting given, t) ∧
      (keysOf found).Nodup ∧ "stdlib:Low" ∈ keysOf found := by
  rcases ancestors_are_what_is_inherited ring_answers unseen toRing unseen.uri {}
    (s := []) trivial with ⟨e, hfault, -⟩ | ⟨found, given, t, hout, -,
      hexplores, hnodup, -, -, hall⟩
  · exact absurd hfault ring_hasNoFault
  have hring : ring ∈ rings := by simp [rings]
  have hleft : leftHalf ∈ rings := by simp [rings]
  have hlow : lowest ∈ rings := by simp [rings]
  have hreach : ReflTransGen _ unseen.uri (inheritedModule lowest).key :=
    ((ReflTransGen.single unseen_inherits_ring).tail
      (ring_inherits hring (by simp [ring, leftHalf]) hleft)).tail
      (ring_inherits hleft (by simp [leftHalf, lowest]) hlow)
  refine ⟨found, given, t, hout, hnodup, ?_⟩
  exact (hall (ring_withinDepth hexplores) (keysDecide_ofModules rfl) _).mpr
    ⟨ring_key_ne hlow, hreach⟩

/-- Unless the address of a document is at fault or a warning is given about depth, finding
ancestors warns of a cycle exactly if a key can be reached from the root that can be reached from
itself.  The directives may stand in any order and the graph may be any; what `Explores` adds says
which scopes were found and in which order. -/
theorem cycle_is_warned_of_exactly (known : Answers out Good raise src w) (c : Context)
    (directives : List Symbol) (root : String) (f : Findings) {s : σ} (good : Good s) :
    (∃ e, w.HasFault c e ∧
      out.query.of (ancestors src c directives root) (f, s) = .error (raise e)) ∨
    ∃ found given t,
      out.query.of (ancestors src c directives root) (f, s) =
        .ok (found.map (·.scope), f.noting given, t) ∧ Good t ∧
      Explores (w.parent c) root src.maxDepth src.maxDepth directives [] [] [root] found given ∧
      (WithinDepth given → KeysDecide (w.parent c) →
        (WarnsOfCycle given ↔ ∃ k, ReflTransGen (Inherits (w.parent c) root directives) root k ∧
          TransGen (Inherits (w.parent c) root directives) k k)) := by
  refine (known.ancestors c directives root f good).imp_right ?_
  rintro ⟨found, given, t, hout, goodT, hexplores⟩
  exact ⟨found, given, t, hout, goodT, hexplores, hexplores.warnsOfCycle_iff⟩

/-- The way back to the first corner is warned of. -/
theorem way_back_is_warned_of :
    ∃ (found : List Reached) (given : List ResolutionWarning) (t : List String),
      (Outcomes.ofState (List String) Fault).query.of
        (ancestors ringSources unseen toRing unseen.uri) ({}, []) =
          .ok (found.map (·.scope), ({} : Findings).noting given, t) ∧
      WarnsOfCycle (({} : Findings).noting given).warnings := by
  rcases cycle_is_warned_of_exactly ring_answers unseen toRing unseen.uri {}
    (s := []) trivial with ⟨e, hfault, -⟩ | ⟨found, given, t, hout, -, hexplores, hcycle⟩
  · exact absurd hfault ring_hasNoFault
  have hring : ring ∈ rings := by simp [rings]
  have hright : rightHalf ∈ rings := by simp [rings]
  have hthere := ring_inherits hring (by simp [ring, rightHalf]) hright
  have hback := ring_inherits hright (by simp [ring, rightHalf]) hring
  obtain ⟨v, hv, hkind⟩ := (hcycle (ring_withinDepth hexplores) (keysDecide_ofModules rfl)).mpr
    ⟨_, .single unseen_inherits_ring, .tail (.single hthere) hback⟩
  exact ⟨found, given, t, hout, v, Findings.mem_noting.mpr (.inr hv), hkind⟩

end PikeAnalysis.Resolve
