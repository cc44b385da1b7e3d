import PikeAnalysis.Resolve.Lookup

/-!
# What all queries have in common

Queries are put together of what is asked of the outside.  What holds of every such question, and
passes on from parts to the whole, holds of every query (`Pervades.lookup`, `Pervades.visible`).

A property that is closed under return and bind, and holds of the questions to the outside and of
the steps by which findings are noted, holds of all queries.  That is the whole content, but it
saves every invariant of the engine from unfolding the resolver, whose queries call each other to
some depth.
-/

namespace PikeAnalysis.Resolve

variable {m : Type → Type} [Monad m]

/-- A property of what is asked of the outside that passes on to whatever is put together of it.
The closure properties are those of the operations that queries are written with. -/
structure Pervades (src : Sources m) (holds : ∀ {α : Type}, Query m α → Prop) : Prop where
  pure {α : Type} (a : α) : holds (pure a : Query m α)
  bind {α β : Type} {x : Query m α} {f : α → Query m β} :
    holds x → (∀ a, holds (f a)) → holds (x >>= f)
  get : holds (get : Query m Findings)
  modify (f : Findings → Findings) : holds (modify f : Query m Unit)
  documents : holds (liftM src.documents : Query m (List DocumentEntry))
  module (path : String) : holds (liftM (src.module path) : Query m (Option StdlibModule))
  included (directive : Symbol) (uri : String) :
    holds (liftM (src.included directive uri) : Query m (Option IncludedFile))
  fault {α : Type} (f : Fault) : holds (liftM (src.fault f : m α) : Query m α)

namespace Pervades

variable {src : Sources m} {holds : ∀ {α : Type}, Query m α → Prop} (all : Pervades src holds)
include all

/-! ## Scopes -/

theorem orFault {α : Type} (r : Except Fault α) : holds (orFault src r) := by
  cases r with
  | ok a => exact all.pure a
  | error e => exact all.fault e

theorem findScope (c : Context) (name : String) (tier : Option Tier) :
    holds (findScope src c name tier) := by
  unfold Resolve.findScope
  dsimp only
  split
  · exact all.pure none
  · refine all.bind all.documents fun entries => ?_
    split
    · exact all.pure _
    · refine all.bind (all.orFault _) fun document => ?_
      split
      · exact all.pure _
      · refine all.bind (all.module _) fun mod => ?_
        split
        · exact all.pure _
        · exact all.pure none

theorem walk (c : Context) (depth : Nat) (directives : List Symbol) (path chain : List String)
    (w : Walk) :
    holds (walk src c depth directives path chain w) := by
  induction depth, directives, path, chain, w using Resolve.walk.induct with
  | case1 depth path chain w =>
    rw [Resolve.walk]
    exact all.pure w
  | case2 depth path chain w d rest target hempty ih =>
    rw [Resolve.walk.eq_def]
    dsimp only
    rw [if_pos hempty]
    exact ih
  | case3 path chain w d rest target hnamed =>
    rw [Resolve.walk, if_neg hnamed]
    exact all.bind (all.modify _) fun _ => all.pure w
  | case4 path chain w d rest target hnamed left ihRest ihParent ihBelow =>
    rw [Resolve.walk, if_neg hnamed]
    refine all.bind (all.findScope c _ _) fun found => ?_
    split
    · exact all.bind (all.modify _) fun _ => ihRest
    · next parent =>
      split
      · exact all.bind (all.modify _) fun _ => ihRest
      · split
        · exact ihRest
        · exact all.bind (ihParent parent) ihBelow

theorem ancestors (c : Context) (directives : List Symbol) (root : String) :
    holds (ancestors src c directives root) :=
  all.bind (all.walk c _ _ _ _ _) fun _ => all.pure _

/-! ## Sources -/

theorem documentAncestors (c : Context) : holds (documentAncestors src c) := by
  refine all.bind all.get fun f => ?_
  split
  · exact all.pure _
  · exact all.bind (all.ancestors c _ _) fun _ => all.bind (all.modify _) fun _ => all.pure _

theorem resolveIncludes (c : Context) (directives : List Symbol) :
    holds (resolveIncludes src c directives) := by
  induction directives with
  | nil => exact all.pure []
  | cons d rest ih =>
    refine all.bind (all.included d c.uri) fun found => ?_
    split
    · exact all.bind (all.modify _) fun _ => ih
    · exact all.bind ih fun _ => all.pure _

theorem includedFiles (c : Context) : holds (includedFiles src c) := by
  refine all.bind all.get fun f => ?_
  split
  · exact all.pure _
  · exact all.bind (all.resolveIncludes c _) fun _ => all.bind (all.modify _) fun _ => all.pure _

theorem importScopes (c : Context) (directives : List Symbol) :
    holds (importScopes src c directives) := by
  induction directives with
  | nil => exact all.pure []
  | cons d rest ih =>
    unfold Resolve.importScopes
    dsimp only
    split
    · exact ih
    · refine all.bind (all.module _) fun mod => ?_
      split
      · exact all.bind ih fun _ => all.pure _
      · refine all.bind all.documents fun entries => all.bind (all.orFault _) fun matching => ?_
        split
        · exact all.bind (all.modify _) fun _ => all.bind ih fun _ => all.pure _
        · exact all.bind ih fun _ => all.pure _

theorem stdlibFind (name : String) : holds (stdlibFind src name) := by
  -- what follows once the member has been looked for
  have rest {k : Option ResolvedSymbol → Query m (Option ResolvedSymbol)}
      (found : ∀ symbol, k (some symbol) = Pure.pure (some symbol))
      (missing : k none = do
        let mod ← (liftM (src.module name) : Query m _)
        Pure.pure (mod.map resolvedModule)) (member : Option ResolvedSymbol) :
          holds (k member) := by
    cases member with
    | some symbol =>
      rw [found]
      exact all.pure _
    | none =>
      rw [missing]
      exact all.bind (all.module _) fun _ => all.pure _
  unfold Resolve.stdlibFind
  split
  · exact all.bind (all.pure none) (rest (fun _ => rfl) rfl)
  · refine all.bind (all.module _) fun mod => ?_
    split
    · exact all.bind (all.pure none) (rest (fun _ => rfl) rfl)
    · exact all.bind (all.pure _) (rest (fun _ => rfl) rfl)

theorem find (c : Context) (name : String) (source : Source) : holds (source.find src c name) := by
  cases source with
  | document => exact all.pure _
  | includes => exact all.bind (all.includedFiles c) fun _ => all.pure _
  | imports => exact all.bind (all.importScopes c _) fun _ => all.pure _
  | inherits => exact all.bind (all.documentAncestors c) fun _ => all.pure _
  | stdlib => exact all.stdlibFind name

theorem offer (c : Context) (source : Source) : holds (source.visible src c) := by
  cases source with
  | document => exact all.pure _
  | includes => exact all.bind (all.includedFiles c) fun _ => all.pure _
  | imports => exact all.bind (all.importScopes c _) fun _ => all.pure _
  | inherits => exact all.bind (all.documentAncestors c) fun _ => all.pure _
  | stdlib => exact all.pure []

theorem waterfall (c : Context) (name : String) (sources : List Source) :
    holds (waterfall src c name sources) := by
  induction sources with
  | nil => exact all.pure none
  | cons source rest ih =>
    refine all.bind (all.find c name source) fun found => ?_
    split
    · exact all.pure _
    · exact ih

theorem visibleFrom (c : Context) (sources : List Source) (found : List (String × ResolvedSymbol)) :
    holds (visibleFrom src c sources found) := by
  induction sources generalizing found with
  | nil => exact all.pure found
  | cons source rest ih => exact all.bind (all.offer c source) fun more => ih _

/-! ## Qualified names -/

theorem scopeOf (c : Context) (r : ResolvedSymbol) : holds (scopeOf src c r) := by
  unfold Resolve.scopeOf
  dsimp only
  split
  · exact all.bind (all.module _) fun _ => all.pure _
  · split
    · exact all.pure _
    · refine all.bind (all.orFault _) fun name => ?_
      split
      · exact all.findScope c _ none
      · split
        · exact all.findScope c _ none
        · exact all.pure none

theorem member (c : Context) (scope : Scope) (name : String) : holds (member src c scope name) := by
  unfold Resolve.member
  split
  · exact all.pure _
  · exact all.bind (all.ancestors c _ _) fun _ => all.pure _

theorem descend (c : Context) (scope : Option Scope) (names : List String) :
    holds (descend src c scope names) := by
  induction names generalizing scope with
  | nil =>
    unfold Resolve.descend
    exact all.pure _
  | cons part rest ih =>
    cases scope with
    | none => exact all.pure none
    | some scope =>
      refine all.bind (all.member c scope part) fun inner => ?_
      split
      · exact all.pure none
      · exact all.bind (all.scopeOf c _) fun next => ih next

theorem objectScope (c : Context) (head : String) (rest : List String) :
    holds (objectScope src c head rest) := by
  refine all.bind (all.waterfall c head _) fun found => ?_
  split
  · exact all.pure none
  · exact all.bind (all.scopeOf c _) fun scope => all.descend c scope rest

theorem literalPath (objects : List String) (name : String) (last : Access) :
    holds (literalPath src objects name last) := by
  refine all.bind (all.module _) fun mod => ?_
  dsimp only
  cases mod
  all_goals
    refine all.bind (all.pure _) fun inside => ?_
    split
    · exact all.pure _
    · split
      · exact all.bind (all.module _) fun _ => all.pure _
      · exact all.pure none

theorem qualified (c : Context) (name : String) : holds (qualified src c name) := by
  unfold Resolve.qualified
  split
  dsimp only
  split
  · exact all.pure none
  split
  all_goals
    refine all.bind (by first | exact all.literalPath _ _ _ | exact all.pure none) fun literal => ?_
    split
    · exact all.pure _
    refine all.bind (all.objectScope c _ _) fun scope => ?_
    split
    all_goals
      refine all.bind (by first | exact all.member c _ _ | exact all.pure none) fun inside => ?_
      split
      · exact all.pure _
      · exact all.bind all.documents fun _ => all.pure _

theorem plain (c : Context) (name : String) : holds (plain src c name) := by
  refine all.bind (all.waterfall c name _) fun found => ?_
  split
  · exact all.pure _
  · split
    · exact all.pure _
    · exact all.pure none

/-- The query of a name, qualified or not. -/
theorem either (c : Context) (name : String) :
    holds (if hasAccess name.toList then Resolve.qualified src c name
      else Resolve.plain src c name) := by
  split
  · exact all.qualified c name
  · exact all.plain c name

end Pervades

end PikeAnalysis.Resolve
