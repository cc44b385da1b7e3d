import Mathlib.Data.List.Chain
import PikeAnalysis.Proofs.Resolve.Ancestry

/-!
# Inheritance and the limit of depth

A scope is reached once, and its directives are followed only if it has been reached above the limit
of depth.  So a scope that is first reached at the limit hides what it leads to, although a shorter
way may lead there, and the order of the directives decides which way comes first
(`shorter_way_is_not_taken`).  Everything else at the end of a chain of directives is found: what is
missing is missing behind a scope that was first reached at the limit, and a warning is given about
depth (`found_unless_cut_off`).

The limit is on the chain by which a scope was first reached, and a depth-first walk does not find
the shortest chain first.  So the plain statement, that everything within the limit is found, fails
for some orders of directives, and the last part of the module has one.  The statement that holds
names the scopes that are to blame: where something within the limit is missing, a scope on every
chain to it was first reached at the limit, and the query has warned.
-/

namespace PikeAnalysis.Resolve

open Relation

/-! ## What is cut off -/

section Cut

variable {parent : Symbol → Except Fault (Option Scope)} {root k : String} {limit left : Nat}
  {directives : List Symbol} {found : List Reached} {given : List ResolutionWarning}

/-- A scope that has been reached by a chain of this many directives. -/
def Reached.depth (r : Reached) : Nat :=
  r.above.length + 1

/-- Keys each of which is inherited at the one before it, the first at the root.  Neither how a key
is reached nor the order of directives is part of it. -/
def Leads (parent : Symbol → Except Fault (Option Scope)) (root : String) (directives : List Symbol)
    (keys : List String) : Prop :=
  (root :: keys).IsChain (Inherits parent root directives)

/-- What is inherited at the root has been reached. -/
theorem Explores.mem_of_inherits_root
    (h : Explores parent root limit left directives [] [] [root] found given)
    (follows : 0 < left) (inherits : Inherits parent root directives root k) :
    k = root ∨ k ∈ keysOf found := by
  obtain ⟨d, hd, s, hs, rfl⟩ := exists_of_inherits_root inherits
  exact List.mem_cons.mp (h.targets (.inl follows) (fun k hk => hk) d hd s hs)

/-- What is inherited at a scope has been reached, unless the scope was first reached at the limit
and a warning has been given about depth. -/
theorem Explores.mem_of_inherits
    (h : Explores parent root limit left directives [] [] [root] found given)
    (decide : KeysDecide parent) {r : Reached} (hr : r ∈ found)
    (inherits : Inherits parent root directives r.scope.key k) :
    (k = root ∨ k ∈ keysOf found) ∨ (r.depth = left ∧ ¬ WithinDepth given) := by
  have hroot : r.scope.key ≠ root := fun he => h.root_notMem (he ▸ mem_keysOf hr)
  obtain ⟨more, habove, hchain, hlength⟩ := h.chain r hr
  rw [List.nil_append] at habove
  obtain ⟨d, hd⟩ := hchain.leads
  obtain ⟨e, he, t, ht, rfl⟩ := exists_of_inherits decide hd hroot inherits
  have hclosed := fun followed =>
    List.mem_cons.mp (h.closed (fun k hk => hk) r hr followed e he t ht)
  by_cases hless : r.above.length + 1 < left
  · exact .inl (hclosed (.inl hless))
  by_cases within : WithinDepth given
  · exact .inl (hclosed (.inr within))
  · rw [habove] at hless
    refine .inr ⟨?_, within⟩
    rw [Reached.depth, habove]
    omega

/-- At the end of a chain of keys is the root or a scope that has been reached, unless one before it
was first reached at the limit. -/
theorem Explores.mem_or_cut
    (h : Explores parent root limit left directives [] [] [root] found given)
    (decide : KeysDecide parent) (follows : 0 < left) {keys : List String}
    (leads : Leads parent root directives (keys ++ [k])) :
    (k = root ∨ k ∈ keysOf found) ∨
      ((∃ r ∈ found, r.scope.key ∈ keys ∧ r.depth = left) ∧ ¬ WithinDepth given) := by
  -- Along the chain from the root: a scope that was reached above the limit has all its directives
  -- followed.
  induction keys using List.reverseRecOn generalizing k with
  | nil =>
    exact .inl (h.mem_of_inherits_root follows (List.isChain_cons_cons.mp leads).1)
  | append_singleton keys a ih =>
    rw [Leads, List.append_assoc, List.singleton_append] at leads
    obtain ⟨earlier, inherits, -⟩ := List.isChain_cons_append_cons_cons.mp leads
    rcases ih earlier with (rfl | ha) | ⟨⟨r, hr, hkey, hdepth⟩, deep⟩
    · exact .inl (h.mem_of_inherits_root follows inherits)
    · obtain ⟨r, hr, rfl⟩ := List.mem_map.mp ha
      refine (h.mem_of_inherits decide hr inherits).imp_right fun ⟨hdepth, deep⟩ => ?_
      exact ⟨⟨r, hr, List.mem_append_right _ (List.mem_singleton_self _), hdepth⟩, deep⟩
    · exact .inr ⟨⟨r, hr, List.mem_append_left _ hkey, hdepth⟩, deep⟩

/-! ## Single steps -/

variable {above : List Scope} {names seen : List String} {d : Symbol}
  {rest : List Symbol} {s : Scope}

theorem Explores.of_nil (h : Explores parent root limit left [] above names seen found given) :
    found = [] := by
  cases h
  rfl

/-- At the limit nothing is found. -/
theorem Explores.of_zero {ds : List Symbol}
    (h : Explores parent root limit 0 ds above names seen found given) : found = [] := by
  induction ds generalizing given with
  | nil => exact h.of_nil
  | cons d rest ih =>
    cases h with
    | blank _ more => exact ih more
    | tooDeep => rfl

/-- A scope that is new is found, then what it leads to, then the rest. -/
theorem Explores.of_first
    (h : Explores parent root limit (left + 1) (d :: rest) above names seen found given)
    (leads : parent d = .ok (some s)) (off : s.key ∉ pathOf root above) (new : s.key ∉ seen) :
    ∃ names' up upGiven more moreGiven, found = { above, scope := s } :: (up ++ more) ∧
      Explores parent root limit left s.directives (above ++ [s]) names'
        (seen ++ [s.key]) up upGiven ∧
      Explores parent root limit (left + 1) rest above names
        (seen ++ s.key :: keysOf up) more moreGiven := by
  cases h with
  | blank leads' | unresolved _ leads' => cases leads.symm.trans leads'
  | cyclic _ leads' back =>
    cases leads.symm.trans leads'
    exact absurd back off
  | again leads' _ known =>
    cases leads.symm.trans leads'
    exact absurd known new
  | first _ leads' _ _ below more =>
    cases leads.symm.trans leads'
    exact ⟨_, _, _, _, _, rfl, below, more⟩

/-- A scope that has been reached by another path is passed over. -/
theorem Explores.of_again
    (h : Explores parent root limit (left + 1) (d :: rest) above names seen found given)
    (leads : parent d = .ok (some s)) (off : s.key ∉ pathOf root above) (known : s.key ∈ seen) :
    ∃ moreGiven, Explores parent root limit (left + 1) rest above names seen found moreGiven := by
  cases h with
  | blank leads' | unresolved _ leads' => cases leads.symm.trans leads'
  | cyclic _ leads' back =>
    cases leads.symm.trans leads'
    exact absurd back off
  | again _ _ _ more => exact ⟨_, more⟩
  | first _ leads' _ new =>
    cases leads.symm.trans leads'
    exact absurd known new

end Cut

/-! ## Ancestors -/

section Ancestors

variable {m : Type → Type} [Monad m] {σ ε : Type} {out : Outcomes m σ ε} {Good : σ → Prop}
  {raise : Fault → ε} {src : Sources m} {w : World}

theorem Answers.withDepth (known : Answers out Good raise src w) (depth : Nat) :
    Answers out Good raise { src with maxDepth := depth } w where
  documents := known.documents
  module := known.module
  fault := known.fault

/-- Unless the address of a document is at fault, finding ancestors finds every scope but the root
that a chain of directives within the limit of depth leads to, or else a scope before it on the
chain has first been reached by a chain of as many directives as the limit allows, and a warning is
given about depth. -/
theorem found_unless_cut_off (known : Answers out Good raise src w) (c : Context)
    (directives : List Symbol) (root : String) (f : Findings) {s : σ} (good : Good s) :
    (∃ e, w.HasFault c e ∧
      out.query.of (ancestors src c directives root) (f, s) = .error (raise e)) ∨
    ∃ found given t,
      out.query.of (ancestors src c directives root) (f, s) =
        .ok (found.map (·.scope), f.noting given, t) ∧ Good t ∧
      Explores (w.parent c) root src.maxDepth src.maxDepth directives [] [] [root] found given ∧
      (KeysDecide (w.parent c) → ∀ keys k, Leads (w.parent c) root directives (keys ++ [k]) →
        (keys ++ [k]).length ≤ src.maxDepth → k ≠ root →
        k ∈ keysOf found ∨
          ((∃ r ∈ found, r.scope.key ∈ keys ∧ r.depth = src.maxDepth) ∧ ¬ WithinDepth given)) := by
  refine (known.ancestors c directives root f good).imp_right ?_
  rintro ⟨found, given, t, hout, goodT, hexplores⟩
  refine ⟨found, given, t, hout, goodT, hexplores, fun decide keys k leads short hne => ?_⟩
  have hpos : 0 < src.maxDepth := by
    rw [List.length_append, List.length_singleton] at short
    omega
  exact (hexplores.mem_or_cut decide hpos leads).imp_left fun hmem => hmem.resolve_left hne

end Ancestors

/-! ## Two ways to one module -/

/-- Sources of the modules, with a limit of two levels. -/
def shallowSources : Sources (StateT (List String) (Except Fault)) :=
  { ringSources with maxDepth := 2 }

theorem shallow_answers :
    Answers (.ofState (List String) Fault) (fun _ => True) id shallowSources (.ofModules rings) :=
  ring_answers.withDepth 2

theorem ring_mem : ring ∈ rings := by simp [rings]

theorem leftHalf_mem : leftHalf ∈ rings := by simp [rings]

theorem rightHalf_mem : rightHalf ∈ rings := by simp [rings]

theorem lowest_mem : lowest ∈ rings := by simp [rings]

/-- Where the left half is inherited, a chain of two directives leads to the last corner. -/
theorem leads_to_lowest {directives : List Symbol} (h : toModule leftHalf.path ∈ directives) :
    Leads ((World.ofModules rings).parent unseen) unseen.uri directives
      [(inheritedModule leftHalf).key, (inheritedModule lowest).key] := by
  have hlow : toModule lowest.path ∈ (inheritedModule leftHalf).directives :=
    List.mem_map_of_mem (by simp [leftHalf, lowest])
  refine List.isChain_cons_cons.mpr ⟨inherits_root h (ring_parent leftHalf_mem), ?_⟩
  refine List.isChain_cons_cons.mpr ⟨?_, List.isChain_singleton _⟩
  exact inherits_of_leads (ring_parent leftHalf_mem) (ring_key_ne leftHalf_mem) hlow
    (ring_parent lowest_mem)

/-- The last corner is found where the shorter way to it comes first. -/
theorem lowest_is_found_the_shorter_way :
    ∃ (found : List Reached) (given : List ResolutionWarning) (t : List String),
      (Outcomes.ofState (List String) Fault).query.of
        (ancestors shallowSources unseen [toModule leftHalf.path, toModule ring.path] unseen.uri)
        ({}, []) =
          .ok (found.map (·.scope), ({} : Findings).noting given, t) ∧
      (inheritedModule lowest).key ∈ keysOf found := by
  rcases found_unless_cut_off shallow_answers unseen
    [toModule leftHalf.path, toModule ring.path] unseen.uri {}
    (s := []) trivial with ⟨e, hfault, -⟩ | ⟨found, given, t, hout, -, hexplores, hall⟩
  · exact absurd hfault ring_hasNoFault
  refine ⟨found, given, t, hout, ?_⟩
  have hlow := hall (keysDecide_ofModules rfl) [(inheritedModule leftHalf).key]
    (inheritedModule lowest).key
    (leads_to_lowest (by simp)) (Nat.le_refl 2) (ring_key_ne lowest_mem)
  refine hlow.resolve_right ?_
  rintro ⟨⟨r, hr, hkey, hdepth⟩, -⟩
  obtain ⟨_, up, _, more, _, rfl, -, -⟩ :=
    hexplores.of_first (ring_parent leftHalf_mem) (by decide) (by decide)
  have hdistinct := List.nodup_cons.mp hexplores.keys_nodup
  rcases List.mem_cons.mp hr with rfl | hr
  · cases hdepth
  · have hagain : (inheritedModule leftHalf).key ∈ keysOf (up ++ more) :=
      List.mem_singleton.mp hkey ▸ mem_keysOf hr
    exact hdistinct.1 hagain

theorem directives_ring :
    (inheritedModule ring).directives = [toModule leftHalf.path, toModule rightHalf.path] :=
  rfl

/-- The left half is first reached at the limit, by way of the module that is named before it.  So
the last corner is not found, although a chain of two directives leads there. -/
theorem shorter_way_is_not_taken :
    ∃ (found : List Reached) (given : List ResolutionWarning) (t : List String),
      (Outcomes.ofState (List String) Fault).query.of
        (ancestors shallowSources unseen [toModule ring.path, toModule leftHalf.path] unseen.uri)
        ({}, []) =
          .ok (found.map (·.scope), ({} : Findings).noting given, t) ∧
      Leads ((World.ofModules rings).parent unseen) unseen.uri
        [toModule ring.path, toModule leftHalf.path]
        [(inheritedModule leftHalf).key, (inheritedModule lowest).key] ∧
      shallowSources.maxDepth = 2 ∧ (inheritedModule lowest).key ≠ unseen.uri ∧
      (inheritedModule lowest).key ∉ keysOf found := by
  rcases shallow_answers.ancestors unseen [toModule ring.path, toModule leftHalf.path] unseen.uri {}
    (s := []) trivial with ⟨e, hfault, -⟩ | ⟨found, given, t, hout, -, hexplores⟩
  · exact absurd hfault ring_hasNoFault
  refine ⟨found, given, t, hout, leads_to_lowest (by simp), rfl, ring_key_ne lowest_mem, ?_⟩
  obtain ⟨_, up, _, more, _, rfl, hbelow, hmore⟩ :=
    hexplores.of_first (ring_parent ring_mem) (by decide) (by decide)
  rw [directives_ring] at hbelow
  obtain ⟨_, upLeft, _, right, _, rfl, hleft, hright⟩ :=
    hbelow.of_first (ring_parent leftHalf_mem) (by decide) (by decide)
  obtain rfl := hleft.of_zero
  obtain ⟨_, upRight, _, none, _, rfl, hup, hnone⟩ :=
    hright.of_first (ring_parent rightHalf_mem) (by decide) (by decide)
  obtain rfl := hup.of_zero
  obtain rfl := hnone.of_nil
  obtain ⟨_, hlast⟩ := hmore.of_again (ring_parent leftHalf_mem) (by decide) (by decide)
  obtain rfl := hlast.of_nil
  decide

end PikeAnalysis.Resolve
