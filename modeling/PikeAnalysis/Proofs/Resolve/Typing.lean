import PikeAnalysis.Resolve.Lookup
import PikeAnalysis.Validation.Run

/-!
# Queries about well-typed data do not fail

A query fails only over a declared type that cannot be taken apart, or over the address of a
document that cannot.  Whatever a query finds was in the data that it was given, so if none of that
is at fault, neither is what the query goes on with (`Ensures.either`, `Ensures.visibleFrom`).
Whether the data is sound is left open (`sound`): a query about unsound data may fail, and nothing
is said about what it finds.

There are two faults: taking a declared type apart whose alternatives are no list, and taking the
address of a document apart.  Both are met only through data that a query has found, so the property
of queries that is shown is about their results (`Ensures`): what comes of a query is sound if what
it was given is.  The rules are those of the operations that queries are written with, as for
`Pervades`, and each function of the resolver has one lemma.

Soundness is asked for tables, modules and documents separately (the sections on sources), and a
scope that is made from one of them is sound for the same reason.  Qualified names come last, as
they go from a scope to the type of a member and on to the scope that the type names.
-/

namespace PikeAnalysis

/-! ## Sound data -/

/-- A symbol whose declared type can be taken apart, and with it those of all symbols inside it.  A
type inside a type counts as well, as far as names are taken out of it. -/
inductive Symbol.Typed : Symbol → Prop
  | mk {s : Symbol} (type : ∃ name, s.typeName? = .ok name) (children : ∀ c ∈ s.children, c.Typed) :
    s.Typed

/-- Members whose declared types can be taken apart.  Lookups descend through them, so they need it
of every symbol that they can be handed. -/
def TypedMembers (members : List (String × Symbol)) : Prop :=
  ∀ e ∈ members, e.2.Typed

structure SymbolTable.Typed (t : SymbolTable) : Prop where
  roots : ∀ s ∈ t.roots, s.Typed
  flat : ∀ s ∈ t.flat, s.Typed
  byName : TypedMembers t.byName
  byQualified : TypedMembers t.byQualified

/-- A document that knows the file it is about.  Its symbols have types from which a name can be
extracted, and its address names a path: these are the two places at which a lookup can fail on an
entry. -/
structure DocumentEntry.Typed (e : DocumentEntry) : Prop where
  table : e.table.Typed
  address : ∃ path, Uri.toPath e.uri = .ok path

def Scope.Typed (s : Scope) : Prop :=
  TypedMembers s.members

/-- The documents that are known, each by its own address. -/
def DocumentCache.Typed (c : DocumentCache) : Prop :=
  ∀ e ∈ c.entries, e.2.uri = e.1 ∧ e.2.Typed

structure Stores.Typed (s : Stores) : Prop where
  documents : s.documents.Typed
  programs : ∀ uri p, s.programs.get? uri = some p → TypedMembers p.symbols

theorem Symbol.Typed.of_type_eq_none {s : Symbol} (type : s.type = none)
    (children : s.children = []) :
    s.Typed := by
  refine ⟨⟨none, by rw [Symbol.typeName?, type]⟩, ?_⟩
  rw [children]
  exact fun _ => nofun

theorem TypedMembers.get? {members : List (String × Symbol)} (h : TypedMembers members)
    {name : String} {s : Symbol} (hs : Assoc.get? name members = some s) : s.Typed :=
  h _ (Assoc.mem_of_get? hs)

theorem TypedMembers.add {members : List (String × Symbol)} (h : TypedMembers members)
    {name : String} {s : Symbol} (hs : s.Typed) : TypedMembers (Assoc.add name s members) := by
  unfold Assoc.add
  split
  · exact h
  · intro e he
    rcases List.mem_append.1 he with he | he
    · exact h e he
    · rw [List.mem_singleton.1 he]
      exact hs

theorem typedMembers_declarations {symbols : List Symbol} (h : ∀ s ∈ symbols, s.Typed) :
    TypedMembers (Symbol.declarations symbols) := by
  unfold Symbol.declarations
  refine List.foldlRecOn symbols _ (fun _ => nofun) fun index typed s hs => ?_
  split
  · exact typed
  · exact typed.add (h s hs)

/-- The members of a module come from the declarations that the worker lists. -/
theorem typedMembers_symbolMap {declarations : List Wire.Introspected}
    (h : ∀ s ∈ declarations.filterMap Symbol.ofIntrospected?, s.Typed) :
    TypedMembers (StdlibModule.symbolMap declarations) := by
  unfold StdlibModule.symbolMap
  exact List.foldlRecOn _ _ (fun _ => nofun) fun _ typed s hs => typed.add (h s hs)

theorem typed_flattenList {symbols : List Symbol}
    (h : ∀ s ∈ symbols, ∀ parent, ∀ f ∈ Symbol.flatten parent s, f.Typed) (parent : String) :
    ∀ f ∈ Symbol.flattenList parent symbols, f.Typed := by
  induction symbols with
  | nil =>
    intro f hf
    rw [Symbol.flattenList] at hf
    cases hf
  | cons s rest ih =>
    intro f hf
    rw [Symbol.flattenList] at hf
    rcases List.mem_append.1 hf with hf | hf
    · exact h s (by simp) parent f hf
    · exact ih (fun s hs => h s (by simp [hs])) f hf

theorem Symbol.Typed.flatten {s : Symbol} (h : s.Typed) (parent : String) :
    ∀ f ∈ Symbol.flatten parent s, f.Typed := by
  induction h generalizing parent with
  | @mk s type children ih =>
    intro f hf
    obtain ⟨name, kind, position, type', modifiers, inner, documentation, classname,
      qualifiedName, file⟩ := s
    rw [Symbol.flatten] at hf
    rcases List.mem_cons.1 hf with rfl | hf
    · exact ⟨type, children⟩
    · exact typed_flattenList ih _ f hf

theorem SymbolTable.typed_ofRoots {roots : List Symbol} (h : ∀ s ∈ roots, s.Typed) :
    (SymbolTable.ofRoots roots).Typed := by
  have flat : ∀ s ∈ Symbol.flattenList "" roots, s.Typed :=
    typed_flattenList (fun s hs parent => (h s hs).flatten parent) ""
  refine ⟨h, flat, ?_, ?_⟩
  · exact List.foldlRecOn _ _ (fun _ => nofun) fun _ typed s hs => typed.add (flat s hs)
  · refine List.foldlRecOn _ _ (fun _ => nofun) fun _ typed s hs => ?_
    split
    · split
      · exact typed
      · exact typed.add (flat s hs)
    · exact typed

theorem SymbolTable.Typed.get? {t : SymbolTable} (h : t.Typed) {name : String} {s : Symbol}
    (hs : t.get? name = some s) : s.Typed := by
  unfold SymbolTable.get? at hs
  split at hs
  · next found hfound =>
    obtain rfl := Option.some.inj hs
    exact h.byName.get? hfound
  · exact h.byQualified.get? hs

theorem SymbolTable.Typed.findClass? {t : SymbolTable} (h : t.Typed) {name : String} {s : Symbol}
    (hs : t.findClass? name = some s) : s.Typed :=
  h.flat s (List.mem_of_find?_eq_some hs)

theorem DocumentEntry.Typed.stem {e : DocumentEntry} (h : e.Typed) :
    ∃ name, Uri.stem e.uri = .ok name := by
  obtain ⟨path, hpath⟩ := h.address
  exact ⟨_, by rw [Uri.stem, hpath]; rfl⟩

namespace Resolve

/-- What a query is about.  The entry, if there is one, is that of the document the query is asked
about.  Entries and programs that were stored by validations are typed if the worker's types are. -/
structure Context.Typed (c : Context) : Prop where
  entry : ∀ e ∈ c.entry, e.uri = c.uri ∧ e.Typed
  program : ∀ p ∈ c.program, TypedMembers p.symbols

structure Findings.Typed (f : Findings) : Prop where
  includes : ∀ files ∈ f.includes, ∀ file ∈ files, file.table.Typed
  ancestors : ∀ scopes ∈ f.ancestors, ∀ s ∈ scopes, s.Typed

theorem Context.Typed.table {c : Context} (h : c.Typed) : c.table.Typed := by
  unfold Context.table
  cases he : c.entry with
  | none => exact ⟨nofun, nofun, nofun, nofun⟩
  | some e => exact (h.entry e he).2.table

/-- A document with an include directive has an address that can be taken apart. -/
theorem Context.Typed.address {c : Context} (h : c.Typed) (hc : c.table.includes ≠ []) :
    ∃ path, Uri.toPath c.uri = .ok path := by
  cases he : c.entry with
  | none =>
    rw [Context.table, he] at hc
    exact absurd rfl hc
  | some e =>
    obtain ⟨huri, typed⟩ := h.entry e he
    rw [← huri]
    exact typed.address

/-! ## Rules -/

variable {m : Type → Type} [Monad m]

/-- A property of what comes of queries that passes on from parts to the whole, and what it says of
what is asked of the outside.  It may say something of the result, and has to say that faults are
over data. -/
structure Ensures (src : Sources m) (sound : Prop)
    (holds : ∀ {α : Type}, Query m α → (α → Prop) → Prop) : Prop where
  pure {α : Type} {a : α} {P : α → Prop} : P a → holds (pure a : Query m α) P
  bind {α β : Type} {x : Query m α} {f : α → Query m β} {P : α → Prop} {R : β → Prop} :
    holds x P → (∀ a, P a → holds (f a) R) → holds (x >>= f) R
  get : holds (get : Query m Findings) fun f => sound → f.Typed
  modify {f : Findings → Findings} : (∀ g, (sound → g.Typed) → sound → (f g).Typed) →
    holds (modify f : Query m Unit) fun _ => True
  documents : holds (liftM src.documents : Query m (List DocumentEntry))
    fun entries => sound → ∀ e ∈ entries, e.Typed
  module (path : String) : holds (liftM (src.module path) : Query m (Option StdlibModule))
    fun mod => sound → ∀ k ∈ mod, TypedMembers k.symbols
  included (directive : Symbol) {uri : String} : (sound → ∃ path, Uri.toPath uri = .ok path) →
    holds (liftM (src.included directive uri) : Query m (Option IncludedFile))
      fun file => sound → ∀ f ∈ file, f.table.Typed
  fault {α : Type} {f : Fault} {P : α → Prop} : ¬ sound →
    holds (liftM (src.fault f : m α) : Query m α) P

namespace Ensures

variable {src : Sources m} {sound : Prop} {holds : ∀ {α : Type}, Query m α → (α → Prop) → Prop}
  (all : Ensures src sound holds) {c : Context}
include all

theorem warn (w : ResolutionWarning) : holds (warn w : Query m Unit) fun _ => True := by
  refine all.modify fun g typed hs => ?_
  split
  · exact typed hs
  · exact ⟨(typed hs).includes, (typed hs).ancestors⟩

theorem orFault {α : Type} {r : Except Fault α} (h : sound → ∃ a, r = .ok a) :
    holds (orFault src r) fun a => r = .ok a := by
  cases r with
  | ok a => exact all.pure rfl
  | error e =>
    refine all.fault fun hs => ?_
    obtain ⟨a, ha⟩ := h hs
    cases ha

end Ensures

/-! ## Scopes -/

theorem typed_of_findClass {target : String} {entries : List DocumentEntry} {e : DocumentEntry}
    {cls : Symbol} (h : ∀ e ∈ entries, e.Typed)
    (hfound : findClass target entries = some (e, cls)) :
    cls.Typed := by
  induction entries with
  | nil => cases hfound
  | cons first rest ih =>
    unfold findClass at hfound
    split at hfound
    · next found hcls =>
      obtain ⟨rfl, rfl⟩ := Prod.mk.inj (Option.some.inj hfound)
      exact (h first (by simp)).table.findClass? hcls
    · exact ih (fun e he => h e (by simp [he])) hfound

theorem findByStem_ok {entries : List DocumentEntry} (h : ∀ e ∈ entries, e.Typed)
    (uri stem : String) :
    ∃ found, findByStem uri stem entries = .ok found ∧ ∀ e ∈ found, e.Typed := by
  induction entries with
  | nil => exact ⟨none, rfl, nofun⟩
  | cons first rest ih =>
    obtain ⟨found, hfound, typed⟩ := ih fun e he => h e (by simp [he])
    unfold findByStem
    split
    · exact ⟨found, hfound, typed⟩
    · have hfirst := h first (by simp)
      obtain ⟨name, hname⟩ := hfirst.stem
      by_cases hn : name = stem
      · exact ⟨some first, by simp [hname, hn, bind, Except.bind, Pure.pure, Except.pure],
          fun e he => Option.some.inj he ▸ hfirst⟩
      · exact ⟨found, by simp [hname, hn, hfound, bind, Except.bind], typed⟩

theorem allByStem_ok {entries : List DocumentEntry} (h : ∀ e ∈ entries, e.Typed)
    (uri stem : String) :
    ∃ found, allByStem uri stem entries = .ok found ∧ ∀ e ∈ found, e.Typed := by
  induction entries with
  | nil => exact ⟨[], rfl, nofun⟩
  | cons first rest ih =>
    obtain ⟨found, hfound, typed⟩ := ih fun e he => h e (by simp [he])
    unfold allByStem
    split
    · exact ⟨found, hfound, typed⟩
    · have hfirst := h first (by simp)
      obtain ⟨name, hname⟩ := hfirst.stem
      refine ⟨if name = stem then first :: found else found, ?_, ?_⟩
      · simp [hname, hfound, bind, Except.bind, Pure.pure, Except.pure]
      · intro e he
        split at he
        · rcases List.mem_cons.1 he with rfl | he
          · exact hfirst
          · exact typed e he
        · exact typed e he

theorem typed_classScope {key : String} {cls : Symbol} (h : cls.Typed) (origin : Option String)
    (tier : Tier) : (classScope key cls origin tier).Typed := by
  cases h with
  | mk _ children => exact typedMembers_declarations children

namespace Ensures

variable {src : Sources m} {sound : Prop} {holds : ∀ {α : Type}, Query m α → (α → Prop) → Prop}
  (all : Ensures src sound holds) {c : Context}
include all

theorem findScope (hc : sound → c.Typed) (name : String) (tier : Option Tier) :
    holds (findScope src c name tier) fun found => sound → ∀ s ∈ found, s.Typed := by
  unfold Resolve.findScope
  dsimp only
  split
  · exact all.pure fun _ => nofun
  · refine all.bind all.documents fun documents hdocuments => ?_
    -- Addresses are sound for the document itself and for all that are cached.
    have entries : sound → ∀ e ∈ c.entry.toList ++ documents.filter (·.uri != c.uri), e.Typed := by
      intro hs e he
      rcases List.mem_append.1 he with he | he
      · exact ((hc hs).entry e (by simpa using he)).2
      · exact hdocuments hs e (List.mem_filter.1 he).1
    split
    · next e cls hfound =>
      refine all.pure fun hs s hs' => ?_
      obtain rfl := Option.some.inj hs'
      exact typed_classScope (typed_of_findClass (entries hs) hfound) _ _
    · refine all.bind (all.orFault fun hs => ?_) fun document hdocument => ?_
      · obtain ⟨found, hfound, -⟩ := findByStem_ok (entries hs) c.uri _
        exact ⟨found, hfound⟩
      · split
        · next e =>
          refine all.pure fun hs s hs' => ?_
          obtain rfl := Option.some.inj hs'
          obtain ⟨found, hfound, typed⟩ := findByStem_ok (entries hs) c.uri _
          rw [hdocument] at hfound
          obtain rfl := Except.ok.inj hfound
          exact typedMembers_declarations (typed e rfl).table.roots
        · refine all.bind (all.module _) fun mod hmod => ?_
          split
          · next mod =>
            refine all.pure fun hs s hs' => ?_
            obtain rfl := Option.some.inj hs'
            exact hmod hs mod rfl
          · exact all.pure fun _ => nofun

theorem walk (hc : sound → c.Typed) (depth : Nat) (directives : List Symbol)
    (path chain : List String) (w : Walk) (hw : sound → ∀ s ∈ w.scopes, s.Typed) :
    holds (walk src c depth directives path chain w) fun w => sound → ∀ s ∈ w.scopes, s.Typed := by
  -- The cases are those of the walk: nothing left, a directive without a target, the limit of
  -- depth, and a directive that is followed.
  induction depth, directives, path, chain, w using Resolve.walk.induct with
  | case1 depth path chain w =>
    rw [Resolve.walk]
    exact all.pure hw
  | case2 depth path chain w d rest target hempty ih =>
    rw [Resolve.walk.eq_def]
    dsimp only
    rw [if_pos hempty]
    exact ih hw
  | case3 path chain w d rest target hnamed =>
    rw [Resolve.walk, if_neg hnamed]
    exact all.bind (all.warn _) fun _ _ => all.pure hw
  | case4 path chain w d rest target hnamed left ihRest ihParent ihBelow =>
    rw [Resolve.walk, if_neg hnamed]
    refine all.bind (all.findScope hc _ _) fun found hfound => ?_
    split
    · exact all.bind (all.warn _) fun _ _ => ihRest hw
    · next parent =>
      split
      · exact all.bind (all.warn _) fun _ _ => ihRest hw
      · split
        · exact ihRest hw
        · refine all.bind (ihParent parent fun hs s hs' => ?_) ihBelow
          rcases List.mem_append.1 hs' with hs' | hs'
          · exact hw hs s hs'
          · rw [List.mem_singleton.1 hs']
            exact hfound hs parent rfl

theorem ancestors (hc : sound → c.Typed) (directives : List Symbol) (root : String) :
    holds (ancestors src c directives root) fun scopes => sound → ∀ s ∈ scopes, s.Typed :=
  all.bind (all.walk hc _ _ _ _ _ fun _ => nofun) fun _ hw => all.pure hw

end Ensures

/-! ## Sources -/

/-- A symbol that a query has found.  Without sound data nothing is claimed. -/
def Found (sound : Prop) (found : Option ResolvedSymbol) : Prop :=
  sound → ∀ r ∈ found, r.symbol.Typed

/-- Members with where they come from. -/
def Groups (sound : Prop) (groups : List (String × List (String × Symbol))) : Prop :=
  sound → ∀ g ∈ groups, TypedMembers g.2

variable {c : Context} {sound : Prop}

theorem Found.none : Found sound none :=
  fun _ => nofun

theorem Found.some {r : ResolvedSymbol} (h : sound → r.symbol.Typed) : Found sound (some r) := by
  intro hs r' hr
  obtain rfl := Option.some.inj hr
  exact h hs

theorem typed_documentFind (hc : c.Typed) {name : String} {r : ResolvedSymbol}
    (h : documentFind c name = .some r) : r.symbol.Typed := by
  unfold documentFind at h
  split at h
  · next s hs =>
    obtain rfl := Option.some.inj h
    exact (typedMembers_declarations hc.table.roots).get? hs
  · obtain ⟨s, hs, rfl⟩ := Option.map_eq_some_iff.1 h
    obtain ⟨p, hp, hs⟩ := Option.bind_eq_some_iff.1 hs
    exact (hc.program p hp).get? hs

theorem typed_includeFind {name : String} {files : List IncludedFile} {r : ResolvedSymbol}
    (h : ∀ f ∈ files, f.table.Typed) (hr : includeFind name files = .some r) : r.symbol.Typed := by
  induction files with
  | nil => cases hr
  | cons file rest ih =>
    have hrest := ih fun f hf => h f (by simp [hf])
    unfold includeFind at hr
    split at hr
    · next s hs =>
      split at hr
      · exact hrest hr
      · obtain rfl := Option.some.inj hr
        exact (h file (by simp)).get? hs
    · exact hrest hr

theorem typed_groupFind {name : String} {tier : Tier}
    {groups : List (String × List (String × Symbol))}
    {r : ResolvedSymbol} (h : ∀ g ∈ groups, TypedMembers g.2)
    (hr : groupFind name tier groups = .some r) : r.symbol.Typed := by
  induction groups with
  | nil => cases hr
  | cons g rest ih =>
    obtain ⟨origin, members⟩ := g
    unfold groupFind at hr
    split at hr
    · next s hs =>
      obtain rfl := Option.some.inj hr
      have members : TypedMembers members := h (origin, members) (by simp)
      exact members.get? hs
    · exact ih (fun g hg => h g (by simp [hg])) hr

theorem typed_scopeFind {name : String} {tier : Option Tier} {scopes : List Scope}
    {r : ResolvedSymbol}
    (h : ∀ s ∈ scopes, s.Typed) (hr : scopeFind name tier scopes = .some r) : r.symbol.Typed := by
  induction scopes with
  | nil => cases hr
  | cons scope rest ih =>
    unfold scopeFind at hr
    split at hr
    · next s hs =>
      obtain rfl := Option.some.inj hr
      exact TypedMembers.get? (h scope (by simp)) hs
    · exact ih (fun s hs => h s (by simp [hs])) hr

theorem typed_resolvedModule (mod : StdlibModule) : (resolvedModule mod).symbol.Typed :=
  .of_type_eq_none rfl rfl

/-- A member of a module, or nothing. -/
theorem Found.member {mod : StdlibModule} (h : sound → TypedMembers mod.symbols) (name : String)
    (origin : Option String) (tier : Tier) :
    Found sound ((Assoc.get? name mod.symbols).map fun s => { symbol := s, origin, tier }) := by
  intro hs r hr
  obtain ⟨s, hs', rfl⟩ := Option.map_eq_some_iff.1 hr
  exact (h hs).get? hs'

theorem Found.module (mod : Option StdlibModule) : Found sound (mod.map resolvedModule) := by
  intro _ r hr
  obtain ⟨mod, -, rfl⟩ := Option.map_eq_some_iff.1 hr
  exact typed_resolvedModule mod

namespace Ensures

variable {src : Sources m} {holds : ∀ {α : Type}, Query m α → (α → Prop) → Prop}
  (all : Ensures src sound holds)
include all

theorem documentAncestors (hc : sound → c.Typed) :
    holds (documentAncestors src c) fun scopes => sound → ∀ s ∈ scopes, s.Typed := by
  refine all.bind all.get fun f hf => ?_
  split
  · next scopes hscopes => exact all.pure fun hs => (hf hs).ancestors scopes hscopes
  · refine all.bind (all.ancestors hc _ _) fun scopes hscopes =>
      all.bind (all.modify fun g hg hs => ?_) fun _ _ => all.pure hscopes
    refine ⟨(hg hs).includes, fun scopes' h => ?_⟩
    obtain rfl := Option.some.inj h
    exact hscopes hs

theorem resolveIncludes (directives : List Symbol)
    (hc : sound → directives ≠ [] → ∃ path, Uri.toPath c.uri = .ok path) :
    holds (resolveIncludes src c directives) fun files => sound → ∀ f ∈ files, f.table.Typed := by
  induction directives with
  | nil => exact all.pure fun _ => nofun
  | cons d rest ih =>
    have ih := ih fun hs _ => hc hs (by simp)
    refine all.bind (all.included d fun hs => hc hs (by simp)) fun found hfound => ?_
    split
    · exact all.bind (all.warn _) fun _ _ => ih
    · next file =>
      refine all.bind ih fun files hfiles => all.pure fun hs f hf => ?_
      rcases List.mem_cons.1 hf with rfl | hf
      · exact hfound hs f rfl
      · exact hfiles hs f hf

theorem includedFiles (hc : sound → c.Typed) :
    holds (includedFiles src c) fun files => sound → ∀ f ∈ files, f.table.Typed := by
  refine all.bind all.get fun f hf => ?_
  split
  · next files hfiles => exact all.pure fun hs => (hf hs).includes files hfiles
  · refine all.bind (all.resolveIncludes _ fun hs => (hc hs).address) fun files hfiles =>
      all.bind (all.modify fun g hg hs => ?_) fun _ _ => all.pure hfiles
    refine ⟨fun files' h => ?_, (hg hs).ancestors⟩
    obtain rfl := Option.some.inj h
    exact hfiles hs

theorem importScopes (directives : List Symbol) :
    holds (importScopes src c directives) (Groups sound) := by
  induction directives with
  | nil => exact all.pure fun _ => nofun
  | cons d rest ih =>
    unfold Resolve.importScopes
    dsimp only
    split
    · exact ih
    · refine all.bind (all.module _) fun mod hmod => ?_
      split
      · next mod =>
        refine all.bind ih fun groups hgroups => all.pure fun hs g hg => ?_
        rcases List.mem_cons.1 hg with rfl | hg
        · exact hmod hs mod rfl
        · exact hgroups hs g hg
      · refine all.bind all.documents fun entries hentries =>
          all.bind (all.orFault fun hs => ?_) fun matching hmatching => ?_
        · obtain ⟨found, hfound, -⟩ := allByStem_ok (hentries hs) c.uri _
          exact ⟨found, hfound⟩
        · -- A module that is not found is looked for among the documents, by its stem.
          have here :
              Groups sound (matching.map fun e => (e.uri, Symbol.declarations e.table.roots)) := by
            intro hs g hg
            obtain ⟨e, he, rfl⟩ := List.mem_map.1 hg
            obtain ⟨found, hfound, typed⟩ := allByStem_ok (hentries hs) c.uri _
            rw [hmatching] at hfound
            obtain rfl := Except.ok.inj hfound
            exact typedMembers_declarations (typed e he).table.roots
          have rest {groups : List (String × List (String × Symbol))} (h : Groups sound groups) :
              Groups sound
                (matching.map (fun e => (e.uri, Symbol.declarations e.table.roots)) ++ groups) := by
            intro hs g hg
            rcases List.mem_append.1 hg with hg | hg
            · exact here hs g hg
            · exact h hs g hg
          split
          · exact all.bind (all.warn _) fun _ _ => all.bind ih fun _ hgroups =>
              all.pure (rest hgroups)
          · exact all.bind ih fun _ hgroups => all.pure (rest hgroups)

/-- What has been found is the answer; only if there is nothing is something else looked for. -/
theorem orElse {x : Query m (Option ResolvedSymbol)}
    {k : Option ResolvedSymbol → Query m (Option ResolvedSymbol)} (hx : holds x (Found sound))
    (found : ∀ r, k (some r) = Pure.pure (some r)) (missing : holds (k none) (Found sound)) :
    holds (x >>= k) (Found sound) := by
  refine all.bind hx fun symbol hsymbol => ?_
  cases symbol with
  | some r =>
    rw [found]
    exact all.pure hsymbol
  | none => exact missing

theorem stdlibFind (name : String) : holds (stdlibFind src name) (Found sound) := by
  have itself : holds (do
      let mod ← (liftM (src.module name) : Query m _)
      Pure.pure (mod.map resolvedModule)) (Found sound) :=
    all.bind (all.module _) fun mod _ => all.pure (.module mod)
  unfold Resolve.stdlibFind
  split
  · exact all.orElse (all.pure .none) (fun _ => rfl) itself
  · refine all.bind (all.module _) fun mod hmod => ?_
    split
    · exact all.orElse (all.pure .none) (fun _ => rfl) itself
    · next mod =>
      exact all.orElse (all.pure (.member (fun hs => hmod hs mod rfl) _ _ _)) (fun _ => rfl) itself

theorem find (hc : sound → c.Typed) (name : String) (source : Source) :
    holds (source.find src c name) (Found sound) := by
  cases source with
  | document => exact all.pure fun hs r hr => typed_documentFind (hc hs) hr
  | includes =>
    exact all.bind (all.includedFiles hc) fun files hfiles =>
      all.pure fun hs r hr => typed_includeFind (hfiles hs) hr
  | imports =>
    exact all.bind (all.importScopes _) fun groups hgroups =>
      all.pure fun hs r hr => typed_groupFind (hgroups hs) hr
  | inherits =>
    exact all.bind (all.documentAncestors hc) fun scopes hscopes =>
      all.pure fun hs r hr => typed_scopeFind (hscopes hs) hr
  | stdlib => exact all.stdlibFind name

theorem offer (hc : sound → c.Typed) (source : Source) :
    holds (source.visible src c) fun _ => True := by
  cases source with
  | document => exact all.pure trivial
  | includes => exact all.bind (all.includedFiles hc) fun _ _ => all.pure trivial
  | imports => exact all.bind (all.importScopes _) fun _ _ => all.pure trivial
  | inherits => exact all.bind (all.documentAncestors hc) fun _ _ => all.pure trivial
  | stdlib => exact all.pure trivial

theorem waterfall (hc : sound → c.Typed) (name : String) (sources : List Source) :
    holds (waterfall src c name sources) (Found sound) := by
  induction sources with
  | nil => exact all.pure .none
  | cons source rest ih => exact all.orElse (all.find hc name source) (fun _ => rfl) ih

/-- Listing what can be named does not fail. -/
theorem visibleFrom (hc : sound → c.Typed) (sources : List Source)
    (found : List (String × ResolvedSymbol)) :
    holds (visibleFrom src c sources found) fun _ => True := by
  induction sources generalizing found with
  | nil => exact all.pure trivial
  | cons source rest ih => exact all.bind (all.offer hc source) fun more _ => ih _

/-! ## Qualified names -/

theorem scopeOf (hc : sound → c.Typed) {r : ResolvedSymbol} (hr : sound → r.symbol.Typed) :
    holds (scopeOf src c r) fun scope => sound → ∀ s ∈ scope, s.Typed := by
  unfold Resolve.scopeOf
  dsimp only
  split
  · refine all.bind (all.module _) fun mod hmod => all.pure fun hs s hs' => ?_
    obtain ⟨k, hk, rfl⟩ := Option.map_eq_some_iff.1 hs'
    exact hmod hs k hk
  · split
    · refine all.pure fun hs s hs' => ?_
      obtain rfl := Option.some.inj hs'
      exact typed_classScope (hr hs) _ _
    · refine all.bind (all.orFault fun hs => ?_) fun name _ => ?_
      · cases hr hs with
        | mk type _ => exact type
      · split
        · exact all.findScope hc _ none
        · split
          · exact all.findScope hc _ none
          · exact all.pure fun _ s hs => absurd hs (Option.not_mem_none s)

theorem member (hc : sound → c.Typed) {scope : Scope} (hscope : sound → scope.Typed)
    (name : String) : holds (member src c scope name) (Found sound) := by
  unfold Resolve.member
  split
  · next found hfound =>
    refine all.pure (.some fun hs => ?_)
    have here : ∀ s ∈ [scope], s.Typed := fun s hs' => by
      rw [List.mem_singleton.1 hs']
      exact hscope hs
    exact typed_scopeFind here hfound
  · exact all.bind (all.ancestors hc _ _) fun scopes hscopes =>
      all.pure fun hs r hr => typed_scopeFind (hscopes hs) hr

theorem descend (hc : sound → c.Typed) {scope : Option Scope}
    (hscope : sound → ∀ s ∈ scope, s.Typed) (names : List String) :
    holds (descend src c scope names) fun scope => sound → ∀ s ∈ scope, s.Typed := by
  induction names generalizing scope with
  | nil =>
    unfold Resolve.descend
    exact all.pure hscope
  | cons part rest ih =>
    cases scope with
    | none => exact all.pure fun _ => nofun
    | some scope =>
      refine all.bind (all.member hc (fun hs => hscope hs scope rfl) part) fun inner hinner => ?_
      split
      · exact all.pure fun _ => nofun
      · next inner =>
        exact all.bind (all.scopeOf hc fun hs => hinner hs inner rfl) fun next hnext => ih hnext

theorem objectScope (hc : sound → c.Typed) (head : String) (rest : List String) :
    holds (objectScope src c head rest) fun scope => sound → ∀ s ∈ scope, s.Typed := by
  refine all.bind (all.waterfall hc head _) fun found hfound => ?_
  split
  · exact all.pure fun _ => nofun
  · next r =>
    exact all.bind (all.scopeOf hc fun hs => hfound hs r rfl) fun scope hscope =>
      all.descend hc hscope rest

theorem literalPath (objects : List String) (name : String) (last : Access) :
    holds (literalPath src objects name last) (Found sound) := by
  have longer : holds (if last = .dot then do
      let mod ← (liftM (src.module (".".intercalate objects ++ "." ++ name)) : Query m _)
      Pure.pure (mod.map resolvedModule)
    else Pure.pure none) (Found sound) := by
    split
    · exact all.bind (all.module _) fun mod _ => all.pure (.module mod)
    · exact all.pure .none
  refine all.bind (all.module _) fun mod hmod => ?_
  cases mod with
  | none => exact all.orElse (all.pure .none) (fun _ => rfl) longer
  | some mod =>
    exact all.orElse (all.pure (.member (fun hs => hmod hs mod rfl) _ _ _)) (fun _ => rfl) longer

theorem qualified (hc : sound → c.Typed) (name : String) :
    holds (qualified src c name) fun _ => True := by
  unfold Resolve.qualified
  split
  dsimp only
  split
  · exact all.pure trivial
  split
  all_goals
    refine all.bind (P := Found sound)
      (by first | exact all.literalPath _ _ _ | exact all.pure .none)
      fun literal _ => ?_
    split
    · exact all.pure trivial
    refine all.bind (all.objectScope hc _ _) fun scope hscope => ?_
    split
    all_goals
      refine all.bind (P := Found sound) ?_ fun inside _ => ?_
      · first
          | exact all.member hc (fun hs => hscope hs _ rfl) _
          | exact all.pure .none
      split
      · exact all.pure trivial
      · exact all.bind all.documents fun _ _ => all.pure trivial

theorem plain (hc : sound → c.Typed) (name : String) : holds (plain src c name) fun _ => True := by
  refine all.bind (all.waterfall hc name _) fun found _ => ?_
  split
  · exact all.pure trivial
  · split
    · exact all.pure trivial
    · exact all.pure trivial

/-- Looking up a name, qualified or not, does not fail. -/
theorem either (hc : sound → c.Typed) (name : String) :
    holds (if hasAccess name.toList then Resolve.qualified src c name else Resolve.plain src c name)
      fun _ => True := by
  split
  · exact all.qualified hc name
  · exact all.plain hc name

end Ensures

end Resolve

end PikeAnalysis
