import Mathlib.Data.List.Nodup
import Mathlib.Data.List.Perm.Subperm
import Mathlib.Logic.Relation
import PikeAnalysis.Resolve.Scope

/-!
# Depth-first exploration of ancestors

`Explores` says what following inherit directives depth first comes to: the scopes that are reached,
each with the chain of scopes by which it is reached first, and the warnings that are given.
Reached scopes have distinct keys, and each comes after those on its chain.  Unless the limit of
depth is met, everything that a reached scope leads to is reached, and a warning of a cycle is given
exactly if there is one: without such a warning every scope is finished after all that it leads to
(`Explores.finished`).

It is a relation rather than a function so that a state of the walk can be read off it: which scopes
are above a directive, which have been seen, what is found below and what after.  The graph that is
explored is given by a function from directives to scopes, and nothing is known of it.

That warnings of cycles are exact is the content of two lemmas.  A warning is given when a directive
leads back to a scope on the path, and then there is a cycle through it
(`Explores.cycle_of_warning`).  The converse is the usual one for depth-first search: without a back
edge scopes can be put in the order in which they are finished, and then no cycle goes through any
of them (`Explores.finished`, `Finished.acyclic`).
-/

namespace PikeAnalysis.Resolve

/-! ## Warnings -/

/-- The warning that scopes are not followed any deeper. -/
def depthWarning (limit : Nat) (chain : List String) : ResolutionWarning where
  kind := "inherit_depth_exceeded"
  message := "Inheritance deeper than " ++ toString limit ++ " levels"
  chain

/-- The warning that a directive leads nowhere. -/
def unresolvedWarning (target : String) (chain : List String) : ResolutionWarning where
  kind := "unresolved_inherit"
  message := "Cannot resolve inherited class " ++ target
  chain

/-- The warning that a directive leads back to a scope on the way to it. -/
def cycleWarning (target : String) (chain : List String) : ResolutionWarning where
  kind := "cyclic_inherit"
  message := "Cyclic inheritance through " ++ target
  chain

/-- None of these warnings is about depth.  Then nothing was cut off, and what was explored is all
there is. -/
def WithinDepth (given : List ResolutionWarning) : Prop :=
  ∀ w ∈ given, w.kind ≠ "inherit_depth_exceeded"

/-- One of these warnings is about a cycle. -/
def WarnsOfCycle (given : List ResolutionWarning) : Prop :=
  ∃ w ∈ given, w.kind = "cyclic_inherit"

@[simp] theorem withinDepth_append {given more : List ResolutionWarning} :
    WithinDepth (given ++ more) ↔ WithinDepth given ∧ WithinDepth more :=
  List.forall_mem_append

@[simp] theorem withinDepth_cons {w : ResolutionWarning} {given : List ResolutionWarning} :
    WithinDepth (w :: given) ↔ w.kind ≠ "inherit_depth_exceeded" ∧ WithinDepth given :=
  List.forall_mem_cons

@[simp] theorem warnsOfCycle_append {given more : List ResolutionWarning} :
    WarnsOfCycle (given ++ more) ↔ WarnsOfCycle given ∨ WarnsOfCycle more := by
  simp only [WarnsOfCycle, List.mem_append, or_and_right, exists_or]

@[simp] theorem warnsOfCycle_cons {w : ResolutionWarning} {given : List ResolutionWarning} :
    WarnsOfCycle (w :: given) ↔ w.kind = "cyclic_inherit" ∨ WarnsOfCycle given := by
  simp only [WarnsOfCycle, List.mem_cons, or_and_right, exists_or, exists_eq_left]

/-! ## Explorations -/

/-- A scope that is reached, and the chain of scopes by which it is reached first.  A scope can be
reached by several chains; the one that is kept is the first in the order in which directives are
followed, and the warnings of a cycle name it. -/
structure Reached where
  above : List Scope
  scope : Scope

/-- The keys of scopes that are reached. -/
def keysOf (found : List Reached) : List String :=
  found.map (·.scope.key)

@[simp] theorem keysOf_nil : keysOf [] = [] := rfl

@[simp] theorem keysOf_cons (r : Reached) (found : List Reached) :
    keysOf (r :: found) = r.scope.key :: keysOf found := rfl

@[simp] theorem keysOf_append (found more : List Reached) :
    keysOf (found ++ more) = keysOf found ++ keysOf more :=
  List.map_append

theorem mem_keysOf {r : Reached} {found : List Reached} (h : r ∈ found) :
    r.scope.key ∈ keysOf found :=
  List.mem_map_of_mem h

variable (parent : Symbol → Except Fault (Option Scope)) (root : String) (limit : Nat)

/-- The keys of the root and of the scopes below it.  A scope whose key is among them is one that
the walk is inside of. -/
def pathOf (above : List Scope) : List String :=
  root :: above.map (·.key)

/-- What following directives depth first comes to, where `left` levels may still follow.  `above`
are the scopes that led to the directives and `names` what they were called; `seen` holds the keys
of all that has been reached before.  The rules are those of the walk, in the order of its tests. -/
inductive Explores : Nat → List Symbol → List Scope → List String → List String → List Reached →
    List ResolutionWarning → Prop
  | done {left above names seen} : Explores left [] above names seen [] []
  /-- A directive that names nothing is passed over. -/
  | blank {left d rest above names seen found given} (leads : parent d = .ok none)
    (more : Explores left rest above names seen found given) :
    Explores left (d :: rest) above names seen found given
  /-- At the limit no further directive is followed. -/
  | tooDeep {d rest above names seen} (target : String) :
    Explores 0 (d :: rest) above names seen [] [depthWarning limit (names ++ [target])]
  | unresolved {left d rest above names seen found given} (target : String)
    (leads : parent d = .ok none)
    (more : Explores (left + 1) rest above names seen found given) :
    Explores (left + 1) (d :: rest) above names seen found
      (unresolvedWarning target (names ++ [target]) :: given)
  /-- A scope on the path is a cycle. -/
  | cyclic {left d rest above names seen found given s} (target : String)
    (leads : parent d = .ok (some s)) (back : s.key ∈ pathOf root above)
    (more : Explores (left + 1) rest above names seen found given) :
    Explores (left + 1) (d :: rest) above names seen found
      (cycleWarning target (names ++ [target]) :: given)
  /-- A scope that has been reached before by another path is passed over. -/
  | again {left d rest above names seen found given s} (leads : parent d = .ok (some s))
    (off : s.key ∉ pathOf root above) (known : s.key ∈ seen)
    (more : Explores (left + 1) rest above names seen found given) :
    Explores (left + 1) (d :: rest) above names seen found given
  /-- A scope that is new is followed before the other directives are. -/
  | first {left d rest above names seen up upGiven found given s} (target : String)
    (leads : parent d = .ok (some s)) (off : s.key ∉ pathOf root above) (new : s.key ∉ seen)
    (below : Explores left s.directives (above ++ [s]) (names ++ [target])
      (seen ++ [s.key]) up upGiven)
    (more : Explores (left + 1) rest above names (seen ++ s.key :: keysOf up) found given) :
    Explores (left + 1) (d :: rest) above names seen ({ above, scope := s } :: (up ++ found))
      (upGiven ++ given)

/-- Each scope is led to by a directive of the one before it, and the first by one of those
given. -/
def Chain : List Symbol → List Scope → Prop
  | _, [] => True
  | ds, s :: rest => (∃ d ∈ ds, parent d = .ok (some s)) ∧ Chain s.directives rest

variable {parent root limit} {left : Nat} {ds : List Symbol} {above : List Scope}
  {names seen : List String} {found : List Reached} {given : List ResolutionWarning}

theorem Chain.mono {more : List Symbol} {chain : List Scope} (h : Chain parent ds chain)
    (sub : ∀ d ∈ ds, d ∈ more) : Chain parent more chain := by
  cases chain with
  | nil => trivial
  | cons s rest =>
    obtain ⟨⟨d, hd, hs⟩, hrest⟩ := h
    exact ⟨⟨d, sub d hd, hs⟩, hrest⟩

/-- A chain of at least one scope ends with one that a directive leads to. -/
theorem Chain.leads {chain : List Scope} {s : Scope} (h : Chain parent ds (chain ++ [s])) :
    ∃ d, parent d = .ok (some s) := by
  induction chain generalizing ds with
  | nil =>
    obtain ⟨⟨d, -, hs⟩, -⟩ := h
    exact ⟨d, hs⟩
  | cons t rest ih => exact ih h.2

theorem mem_pathOf_concat {k : String} {s : Scope} :
    k ∈ pathOf root (above ++ [s]) ↔ k ∈ pathOf root above ∨ k = s.key := by
  simp [pathOf, or_assoc]

/-- Where a list of two parts is split, the split is in one of them. -/
theorem split_append {α : Type} {xs ys before after : List α} {a : α}
    (h : xs ++ ys = before ++ a :: after) :
    (∃ mid, xs = before ++ a :: mid) ∨ ∃ mid, before = xs ++ mid ∧ ys = mid ++ a :: after := by
  rcases List.append_eq_append_iff.mp h with ⟨mid, hbefore, hys⟩ | ⟨mid, hxs, hafter⟩
  · exact .inr ⟨mid, hbefore, hys⟩
  · cases mid with
    | nil => exact .inr ⟨[], by simpa using hxs.symm, by simpa using hafter.symm⟩
    | cons b mid =>
      obtain ⟨rfl, -⟩ := List.cons.inj hafter
      exact .inl ⟨mid, hxs⟩

namespace Explores

/-! ## Keys and chains -/

theorem nodup (h : Explores parent root limit left ds above names seen found given)
    (distinct : seen.Nodup) :
    (seen ++ keysOf found).Nodup := by
  induction h with
  | done => simpa using distinct
  | tooDeep => simpa using distinct
  | blank _ _ ih | unresolved _ _ _ ih | cyclic _ _ _ _ ih | again _ _ _ _ ih => exact ih distinct
  | first target _ _ new _ _ ihBelow ihMore =>
    have hkey : (_ ++ [_]).Nodup := List.nodup_append_comm.mp (List.nodup_cons.mpr ⟨new, distinct⟩)
    have hseen := ihBelow hkey
    rw [List.append_assoc, List.singleton_append] at hseen
    have hall := ihMore hseen
    simpa using hall

/-- Every scope is reached by a chain of directives within the levels that are left. -/
theorem chain (h : Explores parent root limit left ds above names seen found given) :
    ∀ r ∈ found, ∃ more, r.above = above ++ more ∧ Chain parent ds (more ++ [r.scope]) ∧
      more.length < left := by
  induction h with
  | done | tooDeep => exact fun _ hr => absurd hr List.not_mem_nil
  | blank _ _ ih | unresolved _ _ _ ih | cyclic _ _ _ _ ih | again _ _ _ _ ih =>
    intro r hr
    obtain ⟨more, habove, hchain, hlength⟩ := ih r hr
    exact ⟨more, habove, hchain.mono fun d => List.mem_cons_of_mem _, hlength⟩
  | @first left d rest above names seen up upGiven found given s target leads off new
    _ _ ihBelow ihMore =>
    intro r hr
    have hs : ∃ e ∈ d :: rest, parent e = .ok (some s) := ⟨d, List.mem_cons_self, leads⟩
    rcases List.mem_cons.mp hr with rfl | hr
    · exact ⟨[], (List.append_nil above).symm, ⟨hs, trivial⟩, Nat.succ_pos _⟩
    rcases List.mem_append.mp hr with hr | hr
    · obtain ⟨more, habove, hchain, hlength⟩ := ihBelow r hr
      refine ⟨s :: more, ?_, ⟨hs, hchain⟩, Nat.succ_lt_succ hlength⟩
      rw [habove, List.append_assoc, List.singleton_append]
    · obtain ⟨more, habove, hchain, hlength⟩ := ihMore r hr
      exact ⟨more, habove, hchain.mono fun d => List.mem_cons_of_mem _, hlength⟩

/-- Every scope comes after those of the chain by which it is reached first. -/
theorem order (h : Explores parent root limit left ds above names seen found given) :
    ∀ {before after : List Reached} {r : Reached}, found = before ++ r :: after →
      ∃ more, r.above = above ++ more ∧ more.Sublist (before.map (·.scope)) := by
  induction h with
  | done | tooDeep => exact fun hsplit => absurd hsplit (by simp)
  | blank _ _ ih | unresolved _ _ _ ih | cyclic _ _ _ _ ih | again _ _ _ _ ih => exact ih
  | @first left d rest above names seen up upGiven found given s target leads off new
    _ _ ihBelow ihMore =>
    intro before after r hsplit
    cases before with
    | nil =>
      obtain ⟨rfl, -⟩ := List.cons.inj hsplit
      exact ⟨[], (List.append_nil above).symm, List.nil_sublist _⟩
    | cons b before =>
      obtain ⟨hb, hrest⟩ := List.cons.inj hsplit
      subst hb
      rcases split_append hrest with ⟨mid, hup⟩ | ⟨mid, hbefore, hfound⟩
      · obtain ⟨more, habove, hsub⟩ := ihBelow hup
        refine ⟨s :: more, ?_, hsub.cons_cons s⟩
        rw [habove, List.append_assoc, List.singleton_append]
      · obtain ⟨more, habove, hsub⟩ := ihMore hfound
        refine ⟨more, habove, hsub.trans ?_⟩
        rw [hbefore, List.map_cons, List.map_append]
        exact (List.sublist_append_right _ _).cons _

/-! ## What is reached -/

/-- Everything that the directives lead to has been reached, if they may be followed at all. -/
theorem targets (h : Explores parent root limit left ds above names seen found given)
    (followed : 0 < left ∨ WithinDepth given) (path : ∀ k ∈ pathOf root above, k ∈ seen) :
    ∀ d ∈ ds, ∀ s, parent d = .ok (some s) → s.key ∈ seen ++ keysOf found := by
  induction h with
  | done => exact fun _ hd => absurd hd List.not_mem_nil
  | tooDeep =>
    rcases followed with hleft | within
    · exact absurd hleft (Nat.lt_irrefl 0)
    · exact absurd rfl (withinDepth_cons.mp within).1
  | blank leads _ ih =>
    intro d hd s hs
    rcases List.mem_cons.mp hd with rfl | hd
    · -- A directive that leads nowhere leads to nothing that would have to be reached.
      cases leads.symm.trans hs
    · exact ih followed path d hd s hs
  | unresolved _ leads _ ih =>
    intro d hd s hs
    rcases List.mem_cons.mp hd with rfl | hd
    · cases leads.symm.trans hs
    · exact ih (.inl (Nat.succ_pos _)) path d hd s hs
  | cyclic _ leads back _ ih =>
    intro d hd s hs
    rcases List.mem_cons.mp hd with rfl | hd
    · cases leads.symm.trans hs
      exact List.mem_append_left _ (path _ back)
    · exact ih (.inl (Nat.succ_pos _)) path d hd s hs
  | again leads _ known _ ih =>
    intro d hd s hs
    rcases List.mem_cons.mp hd with rfl | hd
    · cases leads.symm.trans hs
      exact List.mem_append_left _ known
    · exact ih (.inl (Nat.succ_pos _)) path d hd s hs
  | first _ leads _ _ _ _ _ ihMore =>
    intro d hd s hs
    rcases List.mem_cons.mp hd with rfl | hd
    · cases leads.symm.trans hs
      simp
    · have hmem := ihMore (.inl (Nat.succ_pos _))
        (fun k hk => List.mem_append_left _ (path k hk)) d hd s hs
      simpa using hmem

/-- Everything that a scope leads to that has been reached has been reached, too, unless the scope
has been reached at the limit of depth. -/
theorem closed (h : Explores parent root limit left ds above names seen found given)
    (path : ∀ k ∈ pathOf root above, k ∈ seen) :
    ∀ r ∈ found, r.above.length + 1 < left + above.length ∨ WithinDepth given →
      ∀ d ∈ r.scope.directives, ∀ s, parent d = .ok (some s) → s.key ∈ seen ++ keysOf found := by
  induction h with
  | done | tooDeep => exact fun _ hr => absurd hr List.not_mem_nil
  | blank _ _ ih | again _ _ _ _ ih => exact ih path
  | unresolved _ _ _ ih | cyclic _ _ _ _ ih =>
    exact fun r hr followed =>
      ih path r hr (followed.imp_right fun within => (withinDepth_cons.mp within).2)
  | @first left d rest above names seen up upGiven found given s target leads off new below more
      ihBelow ihMore =>
    have hpath : ∀ k ∈ pathOf root (above ++ [s]), k ∈ seen ++ [s.key] := by
      intro k hk
      exact List.mem_append.mpr ((mem_pathOf_concat.mp hk).imp (path k) List.mem_singleton.mpr)
    have hup : ∀ k, k ∈ (seen ++ [s.key]) ++ keysOf up →
        k ∈ seen ++ keysOf ({ above, scope := s } :: (up ++ found)) := by
      intro k hk
      rw [List.append_assoc, List.singleton_append] at hk
      rw [keysOf_cons, keysOf_append, ← List.cons_append, ← List.append_assoc]
      exact List.mem_append_left _ hk
    have hlevel : left + (above ++ [s]).length = left + 1 + above.length := by
      rw [List.length_append, List.length_singleton]
      omega
    intro r hr followed e he t ht
    have withinUp : WithinDepth (upGiven ++ given) → WithinDepth upGiven :=
      fun within => (withinDepth_append.mp within).1
    -- A scope is the one just reached, or one reached above it, or one reached by the directives
    -- that are left.
    rcases List.mem_cons.mp hr with rfl | hr
    · have hleft : 0 < left ∨ WithinDepth upGiven :=
        followed.imp (fun h => by simp only at h; omega) withinUp
      exact hup _ (below.targets hleft hpath e he t ht)
    rcases List.mem_append.mp hr with hr | hr
    · exact hup _ (ihBelow hpath r hr (followed.imp (fun h => hlevel ▸ h) withinUp) e he t ht)
    · have hmem := ihMore (fun k hk => List.mem_append_left _ (path k hk)) r hr
        (followed.imp_right fun within => (withinDepth_append.mp within).2) e he t ht
      simpa using hmem

/-- Where directives lead to fewer scopes than the limit of depth, it is not met. -/
theorem withinDepth_of_few (h : Explores parent root limit left ds above names seen found given)
    (keys : List String) (drawn : ∀ d s, parent d = .ok (some s) → s.key ∈ keys)
    (few : keys.length < limit) (depth : left + above.length = limit)
    (distinct : (above.map (·.key)).Nodup) (sub : above.map (·.key) ⊆ keys) :
    WithinDepth given := by
  induction h with
  | done => exact nofun
  | tooDeep =>
    have hlength := (distinct.subperm sub).length_le
    rw [List.length_map] at hlength
    omega
  | blank _ _ ih | again _ _ _ _ ih => exact ih depth distinct sub
  | unresolved _ _ _ ih | cyclic _ _ _ _ ih =>
    exact withinDepth_cons.mpr ⟨by simp [unresolvedWarning, cycleWarning], ih depth distinct sub⟩
  | @first left d rest above names seen up upGiven found given s target leads off _
    _ _ ihBelow ihMore =>
    refine withinDepth_append.mpr ⟨ihBelow ?_ ?_ ?_, ihMore depth distinct sub⟩
    · rw [List.length_append, List.length_singleton]
      omega
    · have hnew : s.key ∉ above.map (·.key) := fun hmem => off (List.mem_cons_of_mem _ hmem)
      rw [List.map_append, List.map_singleton]
      exact List.nodup_append.mpr ⟨distinct, List.nodup_singleton _, by
        rintro k hk _ hs rfl
        exact hnew (List.mem_singleton.mp hs ▸ hk)⟩
    · rw [List.map_append, List.map_singleton]
      exact List.append_subset.mpr ⟨sub, List.cons_subset.mpr ⟨drawn d s leads, List.nil_subset _⟩⟩

end Explores

/-! ## Cycles -/

section Cycles

open Relation

/-- A list of keys each of which leads only to keys before it.  It is the list of scopes that a walk
has left for good.  There is no cycle among them, as each leads only to ones that were left before,
and a walk that meets one of them again need not go into it. -/
inductive Finished (edge : String → String → Prop) : List String → Prop
  | nil : Finished edge []
  | snoc {keys : List String} {k : String} (earlier : Finished edge keys)
    (leads : ∀ b, edge k b → b ∈ keys) :
    Finished edge (keys ++ [k])

namespace Finished

variable {edge : String → String → Prop} {keys : List String} {k b : String}

theorem mem_of_edge (h : Finished edge keys) (hk : k ∈ keys) (hedge : edge k b) : b ∈ keys := by
  induction h with
  | nil => exact absurd hk List.not_mem_nil
  | @snoc keys last earlier leads ih =>
    refine List.mem_append_left _ ?_
    rcases List.mem_append.mp hk with hk | hk
    · exact ih hk
    · exact leads b (List.mem_singleton.mp hk ▸ hedge)

theorem mem_of_reflTransGen (h : Finished edge keys) (hk : k ∈ keys) (hb : ReflTransGen edge k b) :
    b ∈ keys := by
  induction hb with
  | refl => exact hk
  | tail _ hedge ih => exact h.mem_of_edge ih hedge

/-- No cycle goes through what is finished. -/
theorem acyclic (h : Finished edge keys) (hk : k ∈ keys) : ¬ TransGen edge k k := by
  induction h with
  | nil => exact absurd hk List.not_mem_nil
  | @snoc keys last earlier leads ih =>
    by_cases hold : k ∈ keys
    · exact ih hold
    · intro hcycle
      have hlast : k = last := by simpa [hold] using hk
      -- A cycle through the last key would have to come back from the keys before it.
      obtain ⟨b, hedge, hback⟩ := TransGen.head'_iff.mp hcycle
      exact hold (earlier.mem_of_reflTransGen (leads b (hlast ▸ hedge)) hback)

end Finished

variable {edge : String → String → Prop}

namespace Explores

/-- A warning of a cycle is given only if a cycle can be reached. -/
theorem cycle_of_warning (h : Explores parent root limit left ds above names seen found given)
    (edges : ∀ d s, parent d = .ok (some s) → s.key ≠ root → ∀ e ∈ s.directives, ∀ t,
      parent e = .ok (some t) → edge s.key t.key)
    {here : String} (path : ∀ k ∈ pathOf root above, ReflTransGen edge k here)
    (own : ∀ d ∈ ds, ∀ s, parent d = .ok (some s) → edge here s.key) (warned : WarnsOfCycle given) :
    ∃ k, ReflTransGen edge root k ∧ TransGen edge k k := by
  -- The path to the directive is carried along: a scope on it that a directive leads back to closes
  -- a cycle.
  induction h generalizing here with
  | done =>
    obtain ⟨w, hw, -⟩ := warned
    exact absurd hw List.not_mem_nil
  | tooDeep => simp [depthWarning, WarnsOfCycle] at warned
  | blank _ _ ih | again _ _ _ _ ih =>
    exact ih path (fun d hd => own d (List.mem_cons_of_mem _ hd)) warned
  | unresolved _ _ _ ih =>
    have hmore := (warnsOfCycle_cons.mp warned).resolve_left (by simp [unresolvedWarning])
    exact ih path (fun d hd => own d (List.mem_cons_of_mem _ hd)) hmore
  | @cyclic left d rest above names seen found given s target leads back more ih =>
    have hback : edge here s.key := own d List.mem_cons_self s leads
    refine ⟨s.key, ?_, TransGen.tail' (path _ back) hback⟩
    exact (path root List.mem_cons_self).tail hback
  | @first left d rest above names seen up upGiven found given s target leads off new below more
      ihBelow ihMore =>
    rcases warnsOfCycle_append.mp warned with hup | hmore
    · have hroot : s.key ≠ root := fun he => off (he ▸ List.mem_cons_self)
      refine ihBelow (fun k hk => ?_) (edges d s leads hroot) hup
      rcases mem_pathOf_concat.mp hk with hk | rfl
      · exact (path k hk).tail (own d List.mem_cons_self s leads)
      · exact .refl
    · exact ihMore path (fun d hd => own d (List.mem_cons_of_mem _ hd)) hmore

/-- Without a warning of a cycle every scope is finished after all that it leads to.  The order is
that in which they are left, not that in which they are reached. -/
theorem finished (h : Explores parent root limit left ds above names seen found given)
    (edges : ∀ d s, parent d = .ok (some s) → s.key ≠ root → ∀ k, edge s.key k →
      ∃ e ∈ s.directives, ∃ t, parent e = .ok (some t) ∧ t.key = k)
    (within : WithinDepth given) (calm : ¬ WarnsOfCycle given) {past : List String}
    (path : ∀ k ∈ pathOf root above, k ∈ seen)
    (known : ∀ k ∈ seen, k ∈ pathOf root above ∨ k ∈ past) (hpast : Finished edge past) :
    ∃ past', Finished edge past' ∧ past ⊆ past' ∧ keysOf found ⊆ past' ∧
      ∀ d ∈ ds, ∀ s, parent d = .ok (some s) → s.key ∈ past' := by
  -- A directive that is over with joins the rest of its list.
  have join {d : Symbol} {rest : List Symbol} {past' : List String}
      (hd : ∀ s, parent d = .ok (some s) → s.key ∈ past')
      (hrest : ∀ e ∈ rest, ∀ s, parent e = .ok (some s) → s.key ∈ past') :
      ∀ e ∈ d :: rest, ∀ s, parent e = .ok (some s) → s.key ∈ past' :=
    List.forall_mem_cons.mpr ⟨hd, hrest⟩
  induction h generalizing past with
  | done => exact ⟨past, hpast, List.Subset.refl _, List.nil_subset _, nofun⟩
  | tooDeep => exact absurd rfl (withinDepth_cons.mp within).1
  | blank leads _ ih =>
    obtain ⟨past', hpast', hsub, hfound, hrest⟩ := ih within calm path known hpast
    exact ⟨past', hpast', hsub, hfound, join (fun s hs => nomatch leads.symm.trans hs) hrest⟩
  | unresolved _ leads _ ih =>
    obtain ⟨past', hpast', hsub, hfound, hrest⟩ := ih (withinDepth_cons.mp within).2
      (fun hw => calm (warnsOfCycle_cons.mpr (.inr hw))) path known hpast
    exact ⟨past', hpast', hsub, hfound, join (fun s hs => nomatch leads.symm.trans hs) hrest⟩
  | cyclic => exact absurd (warnsOfCycle_cons.mpr (.inl rfl)) calm
  | @again left d rest above names seen found given s leads off hknown _ ih =>
    obtain ⟨past', hpast', hsub, hfound, hrest⟩ := ih within calm path known hpast
    refine ⟨past', hpast', hsub, hfound, join (fun t ht => ?_) hrest⟩
    cases leads.symm.trans ht
    exact hsub ((known _ hknown).resolve_left off)
  | @first left d rest above names seen up upGiven found given s target leads off new
    _ _ ihBelow ihMore =>
    obtain ⟨withinUp, withinMore⟩ := withinDepth_append.mp within
    obtain ⟨calmUp, calmMore⟩ := not_or.mp (mt warnsOfCycle_append.mpr calm)
    have hroot : s.key ≠ root := fun he => off (he ▸ List.mem_cons_self)
    obtain ⟨up', hup', hsubUp, hfoundUp, htargets⟩ := ihBelow withinUp calmUp
      (fun k hk => List.mem_append.mpr
        ((mem_pathOf_concat.mp hk).imp (path k) List.mem_singleton.mpr))
      (fun k hk => by
        rw [mem_pathOf_concat, or_right_comm]
        exact (List.mem_append.mp hk).imp (known k) List.mem_singleton.mp) hpast
    -- The new scope is over with once everything that it leads to is.
    have hnext : Finished edge (up' ++ [s.key]) := hup'.snoc fun b hb => by
      obtain ⟨e, he, t, ht, rfl⟩ := edges d s leads hroot b hb
      exact htargets e he t ht
    have hseen : ∀ k ∈ seen ++ s.key :: keysOf up, k ∈ pathOf root above ∨ k ∈ up' ++ [s.key] := by
      intro k hk
      rcases List.mem_append.mp hk with hk | hk
      · exact (known k hk).imp_right fun hk => List.mem_append_left _ (hsubUp hk)
      · rcases List.mem_cons.mp hk with rfl | hk
        · exact .inr (List.mem_append_right _ (List.mem_singleton_self _))
        · exact .inr (List.mem_append_left _ (hfoundUp hk))
    obtain ⟨past', hpast', hsub, hfound, hrest⟩ := ihMore withinMore calmMore
      (fun k hk => List.mem_append_left _ (path k hk)) hseen hnext
    have hup'' : up' ⊆ past' := fun k hk => hsub (List.mem_append_left _ hk)
    have hkey : s.key ∈ past' := hsub (List.mem_append_right _ (List.mem_singleton_self _))
    refine ⟨past', hpast', fun k hk => hup'' (hsubUp hk), ?_, join (fun t ht => ?_) hrest⟩
    · rw [keysOf_cons, keysOf_append]
      exact List.cons_subset.mpr
        ⟨hkey, List.append_subset.mpr ⟨fun k hk => hup'' (hfoundUp hk), hfound⟩⟩
    · cases leads.symm.trans ht
      exact hkey

end Explores

end Cycles

/-! ## The graph of inheritance -/

section Graph

open Relation

variable (parent root) (directives : List Symbol)

/-- The inherit directives at a key: at the root those given, elsewhere those of a scope with the
key. -/
def DirectiveAt (key : String) (d : Symbol) : Prop :=
  (key = root ∧ d ∈ directives) ∨
    (key ≠ root ∧ ∃ e s, parent e = .ok (some s) ∧ s.key = key ∧ d ∈ s.directives)

/-- A directive at one key leads to a scope with another.  It is a relation between keys, as keys
are all that a walk compares. -/
def Inherits (key other : String) : Prop :=
  ∃ d s, DirectiveAt parent root directives key d ∧ parent d = .ok (some s) ∧ s.key = other

/-- Scopes with equal keys have equal directives.  Without it a walk that compares keys may pass
over a class that leads elsewhere. -/
def KeysDecide : Prop :=
  ∀ d e s t, parent d = .ok (some s) → parent e = .ok (some t) → s.key = t.key →
    s.directives = t.directives

variable {parent root directives}

theorem inherits_root {d : Symbol} {s : Scope} (hd : d ∈ directives)
    (hs : parent d = .ok (some s)) :
    Inherits parent root directives root s.key :=
  ⟨d, s, .inl ⟨rfl, hd⟩, hs, rfl⟩

theorem inherits_of_leads {d e : Symbol} {s t : Scope} (hs : parent d = .ok (some s))
    (hroot : s.key ≠ root) (he : e ∈ s.directives) (ht : parent e = .ok (some t)) :
    Inherits parent root directives s.key t.key :=
  ⟨e, t, .inr ⟨hroot, d, s, hs, rfl, he⟩, ht, rfl⟩

theorem exists_of_inherits_root {k : String} (h : Inherits parent root directives root k) :
    ∃ d ∈ directives, ∃ s, parent d = .ok (some s) ∧ s.key = k := by
  obtain ⟨d, s, ⟨-, hd⟩ | ⟨hne, -⟩, hs, hk⟩ := h
  · exact ⟨d, hd, s, hs, hk⟩
  · exact absurd rfl hne

theorem exists_of_inherits (decide : KeysDecide parent) {d : Symbol} {s : Scope} {k : String}
    (hs : parent d = .ok (some s)) (hroot : s.key ≠ root)
    (h : Inherits parent root directives s.key k) :
    ∃ e ∈ s.directives, ∃ t, parent e = .ok (some t) ∧ t.key = k := by
  obtain ⟨e, t, ⟨hr, -⟩ | ⟨-, d', s', hs', hkey, he⟩, ht, hk⟩ := h
  · exact absurd hr hroot
  · exact ⟨e, decide d' d s' s hs' hs hkey ▸ he, t, ht, hk⟩

/-- What a chain leads to can be reached from where its directives are. -/
theorem reachable_of_chain {here : String} {chain : List Scope} {s : Scope}
    (h : Chain parent ds (chain ++ [s]))
    (own : ∀ d ∈ ds, ∀ t, parent d = .ok (some t) → Inherits parent root directives here t.key)
    (off : ∀ t ∈ chain, t.key ≠ root) :
    ReflTransGen (Inherits parent root directives) here s.key := by
  induction chain generalizing ds here with
  | nil =>
    obtain ⟨⟨d, hd, hs⟩, -⟩ := h
    exact .single (own d hd s hs)
  | cons t rest ih =>
    obtain ⟨⟨d, hd, ht⟩, hrest⟩ := h
    obtain ⟨htRoot, offRest⟩ := List.forall_mem_cons.mp off
    exact .head (own d hd t ht)
      (ih hrest (fun e he u hu => inherits_of_leads ht htRoot he hu) offRest)

namespace Explores

variable (h : Explores parent root limit left directives [] [] [root] found given)
include h

theorem root_notMem : root ∉ keysOf found :=
  (List.nodup_cons.mp (h.nodup (List.nodup_singleton root))).1

theorem keys_nodup : (keysOf found).Nodup :=
  (List.nodup_cons.mp (h.nodup (List.nodup_singleton root))).2

/-- The chain by which a scope is reached first. -/
theorem chain_of_split {before after : List Reached} {r : Reached}
    (split : found = before ++ r :: after) :
    Chain parent directives (r.above ++ [r.scope]) ∧ r.above.length < left ∧
      r.above.Sublist (before.map (·.scope)) := by
  obtain ⟨more, habove, hchain, hlength⟩ := h.chain r (by simp [split])
  obtain ⟨more', habove', hsub⟩ := h.order split
  rw [List.nil_append] at habove habove'
  rw [habove]
  exact ⟨hchain, hlength, by rwa [← habove, habove']⟩

/-- Unless the limit of depth is met, what is reached is what can be reached. -/
theorem mem_keysOf_iff (within : WithinDepth given) (decide : KeysDecide parent) {k : String} :
    k ∈ keysOf found ↔ k ≠ root ∧ ReflTransGen (Inherits parent root directives) root k := by
  have hpath : ∀ k ∈ pathOf root [], k ∈ [root] := fun k hk => hk
  constructor
  · intro hk
    obtain ⟨r, hr, rfl⟩ := List.mem_map.mp hk
    refine ⟨fun he => h.root_notMem (he ▸ hk), ?_⟩
    -- What has been reached has a chain of scopes above it, and none of these is the root.
    obtain ⟨before, after, hsplit⟩ := List.append_of_mem hr
    obtain ⟨hchain, -, hsub⟩ := h.chain_of_split hsplit
    refine reachable_of_chain hchain (fun d hd t => inherits_root hd) fun t ht he => ?_
    obtain ⟨q, hq, rfl⟩ := List.mem_map.mp (hsub.subset ht)
    have hmem : q ∈ found := hsplit ▸ List.mem_append_left _ hq
    exact h.root_notMem (he ▸ mem_keysOf hmem)
  · rintro ⟨hne, hreach⟩
    -- The other way is an induction on the path: the keys that are reached are closed under
    -- inheriting.
    have hall : ∀ {b}, ReflTransGen (Inherits parent root directives) root b →
        b ∈ [root] ++ keysOf found := by
      intro b hb
      induction hb with
      | refl => exact List.mem_cons_self
      | @tail a b _ hedge ih =>
        by_cases ha : a = root
        · subst ha
          obtain ⟨d, hd, s, hs, rfl⟩ := exists_of_inherits_root hedge
          exact h.targets (.inr within) hpath d hd s hs
        · have ha' : a ∈ keysOf found := (List.mem_cons.mp ih).resolve_left ha
          obtain ⟨r, hr, rfl⟩ := List.mem_map.mp ha'
          obtain ⟨more, -, hchain, -⟩ := h.chain r hr
          obtain ⟨d, hd⟩ := hchain.leads
          obtain ⟨e, he, t, ht, rfl⟩ := exists_of_inherits decide hd ha hedge
          exact h.closed hpath r hr (.inr within) e he t ht
    exact (List.mem_cons.mp (hall hreach)).resolve_left hne

/-- Unless the limit of depth is met, a warning of a cycle is given exactly if one can be
reached. -/
theorem warnsOfCycle_iff (within : WithinDepth given) (decide : KeysDecide parent) :
    WarnsOfCycle given ↔ ∃ k, ReflTransGen (Inherits parent root directives) root k ∧
      TransGen (Inherits parent root directives) k k := by
  constructor
  · intro warned
    refine h.cycle_of_warning (fun d s hs hroot e he t ht => inherits_of_leads hs hroot he ht)
      (fun k hk => ?_) (fun d hd s => inherits_root hd) warned
    rw [List.mem_singleton.mp hk]
  · rintro ⟨k, hreach, hcycle⟩
    by_contra calm
    obtain ⟨past, hpast, -, -, htargets⟩ := h.finished
      (fun d s hs hroot k => exists_of_inherits decide hs hroot) within calm (fun k hk => hk)
      (fun k hk => .inl hk) .nil
    -- The root is over with last.
    have hroot : Finished (Inherits parent root directives) (past ++ [root]) :=
      hpast.snoc fun b hb => by
      obtain ⟨d, hd, s, hs, rfl⟩ := exists_of_inherits_root hb
      exact htargets d hd s hs
    have hk :=
      hroot.mem_of_reflTransGen (List.mem_append_right _ (List.mem_singleton_self root)) hreach
    exact hroot.acyclic hk hcycle

end Explores

end Graph

end PikeAnalysis.Resolve
