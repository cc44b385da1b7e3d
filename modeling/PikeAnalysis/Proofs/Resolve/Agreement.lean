import Mathlib
import PikeAnalysis.Proofs.Resolve.Pervasion
import PikeAnalysis.Proofs.Resolve.Tiers

/-!
# Looking a name up and listing all names

Looking a plain name up asks the sources in the order in which listing all names asks them, and
stops at the first that knows the name; there it is the first that offers it.  So as long as what is
asked of the outside has the same answers, a listed name means what it is listed for
(`listed_name_is_looked_up_alike`), unless it is hidden in an included file.

Between the two queries the outside may change: a cache may have learnt, so states cannot be
required to be equal.  What is required is that they are alike in a sense that the sources define
(`SameAnswers`), and this passes on to every query by `Pervades`.  Then one source after the other
is dealt with, by comparing what is listed and what is found as two functions of the same thing
found out (`agrees_of_common`), and the order of the sources does the rest.

The exception is a name that an included file hides.  It is stated as a condition on the files and
not argued away.
-/

/-!
## What comes of queries

Resolution is written over any monad that provides documents, modules and included files.  `Runs` is
what has to be known of a monad to say what comes of a query, and `SameAnswers` says that what is
asked of the outside has the same answers from two states, be they different states of a cache.
Then so has every query.
-/

namespace PikeAnalysis.Resolve

/-! ### Runs -/

/-- What comes of computations over a state: at most one result, and the state after it.  The laws
are those of the monad's operations and nothing about what sources answer. -/
structure Runs (m : Type → Type) [Monad m] (σ : Type) where
  yields {α : Type} : m α → σ → α → σ → Prop
  yields_pure {α : Type} {a b : α} {s t : σ} : yields (pure a) s b t ↔ b = a ∧ t = s
  yields_bind {α β : Type} {x : m α} {f : α → m β} {s u : σ} {b : β} :
    yields (x >>= f) s b u ↔ ∃ a t, yields x s a t ∧ yields (f a) t b u
  unique {α : Type} {x : m α} {s t u : σ} {a b : α} :
    yields x s a t → yields x s b u → a = b ∧ t = u

namespace Runs

variable {m : Type → Type} [Monad m] {σ α β : Type}

/-- Computations that change a state and may fail.  It is the plainest monad in which a lookup can
ask for something and be told no. -/
def ofState (σ ε : Type) : Runs (StateT σ (Except ε)) σ where
  yields x s a t := x s = .ok (a, t)
  yields_pure {_ a b s t} := by
    change Except.ok (a, s) = Except.ok (b, t) ↔ _
    simp [eq_comm]
  yields_bind {_ _ x f s u b} := by
    change ((x s).bind fun p => f p.1 p.2) = _ ↔ _
    cases hx : x s with
    | error e => simp [Except.bind]
    | ok p =>
      obtain ⟨a, t⟩ := p
      constructor
      · exact fun hf => ⟨a, t, rfl, hf⟩
      · rintro ⟨a', t', he, hf⟩
        obtain ⟨rfl, rfl⟩ := Prod.mk.inj (Except.ok.inj he)
        exact hf
  unique hx hx' := by
    obtain ⟨rfl, rfl⟩ := Prod.mk.inj (Except.ok.inj (hx.symm.trans hx'))
    exact ⟨rfl, rfl⟩

/-- Queries, which also find things out.  Two runs of a query agree if what they find out agrees as
well, since later parts of the query read it. -/
def query (runs : Runs m σ) : Runs (Query m) (Findings × σ) where
  yields x p a q := runs.yields (x p.1) p.2 (a, q.1) q.2
  yields_pure {_ a b p q} := by
    change runs.yields (pure (a, p.1)) p.2 (b, q.1) q.2 ↔ _
    rw [runs.yields_pure, Prod.mk.injEq, Prod.ext_iff, and_assoc]
  yields_bind {_ _ x f p q b} := by
    change runs.yields (x p.1 >>= fun r => f r.1 r.2) p.2 (b, q.1) q.2 ↔ _
    rw [runs.yields_bind]
    constructor
    · rintro ⟨⟨a, g⟩, t, hx, hf⟩
      exact ⟨a, (g, t), hx, hf⟩
    · rintro ⟨a, ⟨g, t⟩, hx, hf⟩
      exact ⟨(a, g), t, hx, hf⟩
  unique hx hx' := by
    obtain ⟨he, ht⟩ := runs.unique hx hx'
    obtain ⟨rfl, hg⟩ := Prod.mk.inj he
    exact ⟨rfl, Prod.ext hg ht⟩

variable {runs : Runs m σ} {p q : Findings × σ} {a : α}

theorem query_lift {x : m α} :
    runs.query.yields (liftM x : Query m α) p a q ↔ runs.yields x p.2 a q.2 ∧ q.1 = p.1 := by
  change runs.yields (x >>= fun b => pure (b, p.1)) p.2 (a, q.1) q.2 ↔ _
  rw [runs.yields_bind]
  constructor
  · rintro ⟨b, t, hx, hpure⟩
    obtain ⟨he, rfl⟩ := runs.yields_pure.mp hpure
    obtain ⟨rfl, hq⟩ := Prod.mk.inj he
    exact ⟨hx, hq⟩
  · rintro ⟨hx, hq⟩
    exact ⟨a, q.2, hx, runs.yields_pure.mpr ⟨by rw [hq], rfl⟩⟩

theorem query_get {f : Findings} : runs.query.yields (get : Query m Findings) p f q ↔
    f = p.1 ∧ q = p := by
  change runs.yields (pure (p.1, p.1)) p.2 (f, q.1) q.2 ↔ _
  rw [runs.yields_pure, Prod.mk.injEq, Prod.ext_iff, and_assoc]

theorem query_modify {f : Findings → Findings} {u : Unit} :
    runs.query.yields (modify f : Query m Unit) p u q ↔ q = (f p.1, p.2) := by
  change runs.yields (pure ((), f p.1)) p.2 (u, q.1) q.2 ↔ _
  rw [runs.yields_pure, Prod.mk.injEq, Prod.ext_iff]
  simp

/-! ### The same answers -/

/-- From states that are alike a computation has the same result, and the states are alike again. -/
def Follows (runs : Runs m σ) (Alike : σ → σ → Prop) (x : m α) : Prop :=
  ∀ s s' a t, Alike s s' → runs.yields x s a t → ∃ t', runs.yields x s' a t' ∧ Alike t t'

/-- A query has the same result, and finds out the same, from states that are alike. -/
def Steady (runs : Runs m σ) (Alike : σ → σ → Prop) (x : Query m α) : Prop :=
  runs.query.Follows (fun p q => p.1 = q.1 ∧ Alike p.2 q.2) x

variable {Alike : σ → σ → Prop} {x : Query m α}

theorem Follows.of_eq (x : m α) : runs.Follows Eq x := by
  rintro s _ a t rfl hyields
  exact ⟨t, hyields, rfl⟩

theorem Follows.pure (a : α) : runs.Follows Alike (pure a : m α) := by
  intro s s' b t halike hyields
  obtain ⟨rfl, rfl⟩ := runs.yields_pure.mp hyields
  exact ⟨s', runs.yields_pure.mpr ⟨rfl, rfl⟩, halike⟩

theorem Follows.bind {x : m α} {f : α → m β} (hx : runs.Follows Alike x)
    (hf : ∀ a, runs.Follows Alike (f a)) : runs.Follows Alike (x >>= f) := by
  intro s s' b u halike hyields
  obtain ⟨a, t, hxa, hfa⟩ := runs.yields_bind.mp hyields
  obtain ⟨t', hxa', halike⟩ := hx s s' a t halike hxa
  obtain ⟨u', hfa', halike⟩ := hf a t t' b u halike hfa
  exact ⟨u', runs.yields_bind.mpr ⟨a, t', hxa', hfa'⟩, halike⟩

theorem Steady.pure (a : α) : runs.Steady Alike (pure a : Query m α) :=
  Follows.pure a

theorem Steady.bind {f : α → Query m β} (hx : runs.Steady Alike x)
    (hf : ∀ a, runs.Steady Alike (f a)) : runs.Steady Alike (x >>= f) :=
  Follows.bind hx hf

theorem Steady.lift {x : m α} (hx : runs.Follows Alike x) :
    runs.Steady Alike (liftM x : Query m α) := by
  rintro p p' a q ⟨hfindings, halike⟩ hyields
  obtain ⟨hxa, hkept⟩ := query_lift.mp hyields
  obtain ⟨t', hxa', halike⟩ := hx _ _ a _ halike hxa
  exact ⟨(p'.1, t'), query_lift.mpr ⟨hxa', rfl⟩, hkept.trans hfindings, halike⟩

theorem Steady.get : runs.Steady Alike (get : Query m Findings) := by
  rintro p p' f q ⟨hfindings, halike⟩ hyields
  obtain ⟨rfl, rfl⟩ := query_get.mp hyields
  exact ⟨p', query_get.mpr ⟨hfindings, rfl⟩, hfindings, halike⟩

theorem Steady.modify (f : Findings → Findings) :
    runs.Steady Alike (modify f : Query m Unit) := by
  rintro p p' u q ⟨hfindings, halike⟩ hyields
  obtain rfl := query_modify.mp hyields
  exact ⟨_, query_modify.mpr rfl, congrArg f hfindings, halike⟩

end Runs

/-- What is asked of the outside has the same answers from states that are alike.  `runs` says how
computations of the monad are followed from one state to another; the four fields are the four ways
in which a lookup touches the outside. -/
structure SameAnswers {m : Type → Type} [Monad m] {σ : Type} (runs : Runs m σ)
    (Alike : σ → σ → Prop) (src : Sources m) : Prop where
  documents : runs.Follows Alike src.documents
  module : ∀ path, runs.Follows Alike (src.module path)
  included : ∀ directive uri, runs.Follows Alike (src.included directive uri)
  fault : ∀ {α : Type} (f : Fault), runs.Follows Alike (src.fault f : m α)

namespace SameAnswers

open Runs

variable {m : Type → Type} [Monad m] {σ : Type} {runs : Runs m σ} {Alike : σ → σ → Prop}
  {src : Sources m}

/-- From one and the same state the answers are the same. -/
theorem refl (runs : Runs m σ) (src : Sources m) : SameAnswers runs Eq src where
  documents := .of_eq _
  module _ := .of_eq _
  included _ _ := .of_eq _
  fault _ := .of_eq _

/-- Whatever is asked has the same answers then, and queries come to the same. -/
theorem pervades (same : SameAnswers runs Alike src) : Pervades src (runs.Steady Alike) where
  pure := .pure
  bind := .bind
  get := .get
  modify := .modify
  documents := .lift same.documents
  module path := .lift (same.module path)
  included directive uri := .lift (same.included directive uri)
  fault f := .lift (same.fault f)

theorem find (same : SameAnswers runs Alike src) (c : Context) (name : String) (source : Source) :
    runs.Steady Alike (source.find src c name) :=
  same.pervades.find c name source

end SameAnswers

end PikeAnalysis.Resolve

namespace PikeAnalysis.Resolve

variable {m : Type → Type} [Monad m] {σ : Type} {runs : Runs m σ} {Alike : σ → σ → Prop}
  {src : Sources m} {c : Context} {n : String} {r : ResolvedSymbol}

/-! ## One source -/

/-- A source finds a name as it lists it.  A name that it does not list it may find all the same. -/
def Agrees (runs : Runs m σ) (src : Sources m) (c : Context) (n : String) (source : Source)
    (p : Findings × σ) : Prop :=
  ∀ more q, runs.query.yields (source.visible src c) p more q →
    runs.query.yields (source.find src c n) p (Assoc.get? n more) q

/-- What is listed and what is found come of one thing that is found out. -/
theorem agrees_of_common {α : Type} {x : Query m α} {p q : Findings × σ}
    {list : α → List (String × ResolvedSymbol)} {find : α → Option ResolvedSymbol}
    {more : List (String × ResolvedSymbol)}
    (common : ∀ a q, runs.query.yields x p a q → find a = Assoc.get? n (list a))
    (h : runs.query.yields (x >>= fun a => pure (list a)) p more q) :
    runs.query.yields (x >>= fun a => pure (find a)) p (Assoc.get? n more) q := by
  obtain ⟨a, z, hx, hpure⟩ := runs.query.yields_bind.mp h
  obtain ⟨rfl, rfl⟩ := runs.query.yields_pure.mp hpure
  exact runs.query.yields_bind.mpr
    ⟨a, q, hx, runs.query.yields_pure.mpr ⟨(common a q hx).symm, rfl⟩⟩

theorem agrees_document (p : Findings × σ) : Agrees runs src c n .document p := by
  intro more q h
  obtain ⟨rfl, rfl⟩ := runs.query.yields_pure.mp h
  exact runs.query.yields_pure.mpr ⟨get?_documentVisible c n, rfl⟩

theorem agrees_includes (plain : '.' ∉ n.toList) {p : Findings × σ}
    (seen : ∀ files q, runs.query.yields (includedFiles src c) p files q →
      (∀ file ∈ files, Built file) ∧ ¬ Hidden n files) : Agrees runs src c n .includes p :=
  fun _ _ h => agrees_of_common (fun files q hfiles =>
    includeFind_eq_visible plain (seen files q hfiles).1 (seen files q hfiles).2) h

theorem agrees_imports (p : Findings × σ) : Agrees runs src c n .imports p :=
  fun _ _ h => agrees_of_common (fun groups _ _ => (get?_importVisible n .imported groups).symm) h

theorem agrees_inherits (p : Findings × σ) : Agrees runs src c n .inherits p :=
  fun _ _ h => agrees_of_common (fun scopes _ _ => (get?_inheritVisible n .inherited scopes).symm) h

/-! ## One source after the other -/

/-- What is listed of a name stays when more is listed.  This is why the first source of a name
wins. -/
theorem get?_of_visibleFrom {sources : List Source} {found v : List (String × ResolvedSymbol)}
    {p q : Findings × σ}
    (h : runs.query.yields (visibleFrom src c sources found) p v q)
    (hfound : Assoc.get? n found = some r) : Assoc.get? n v = some r := by
  -- Later sources are added behind what is there, so the first entry of a name stays.
  induction sources generalizing found p with
  | nil =>
    obtain ⟨rfl, rfl⟩ := runs.query.yields_pure.mp h
    exact hfound
  | cons source rest ih =>
    obtain ⟨more, z, -, hrest⟩ := runs.query.yields_bind.mp h
    refine ih hrest ?_
    rw [Assoc.get?_addAll, hfound]
    rfl

/-- A listed name is found in the first source if that offers it, and else in those after it. -/
theorem waterfall_of_visibleFrom {source : Source} {rest : List Source}
    {found v : List (String × ResolvedSymbol)} {p p' q : Findings × σ}
    (agrees : Agrees runs src c n source p) (steady : runs.Steady Alike (source.find src c n))
    (h : runs.query.yields (visibleFrom src c (source :: rest) found) p v q)
    (unlisted : Assoc.get? n found = none) (listed : Assoc.get? n v = some r)
    (alike : p.1 = p'.1 ∧ Alike p.2 p'.2)
    (next : ∀ more z z', runs.query.yields (source.visible src c) p more z →
      runs.query.yields (visibleFrom src c rest (Assoc.addAll found more)) z v q →
      Assoc.get? n more = none → Assoc.get? n (Assoc.addAll found more) = none →
      z.1 = z'.1 ∧ Alike z.2 z'.2 →
      ∃ q', runs.query.yields (waterfall src c n rest) z' (some r) q') :
    ∃ q', runs.query.yields (waterfall src c n (source :: rest)) p' (some r) q' := by
  obtain ⟨more, z, hvisible, hrest⟩ := runs.query.yields_bind.mp h
  obtain ⟨z', hfind, halike⟩ := steady p p' _ z alike (agrees more z hvisible)
  have hall : Assoc.get? n (Assoc.addAll found more) = Assoc.get? n more := by
    rw [Assoc.get?_addAll, unlisted]
    rfl
  cases hmore : Assoc.get? n more with
  | some other =>
    have hsame := get?_of_visibleFrom hrest (hall.trans hmore)
    obtain rfl := Option.some.inj (hsame.symm.trans listed)
    rw [hmore] at hfind
    exact ⟨z', runs.query.yields_bind.mpr
      ⟨_, z', hfind, runs.query.yields_pure.mpr ⟨rfl, rfl⟩⟩⟩
  | none =>
    obtain ⟨q', hwaterfall⟩ := next more z z' hvisible hrest hmore (hall.trans hmore) halike
    rw [hmore] at hfind
    exact ⟨q', runs.query.yields_bind.mpr ⟨_, z', hfind, hwaterfall⟩⟩

/-- A name that is listed by all sources together is found by one after the other.  The standard
library lists nothing, so the name has been found before. -/
theorem waterfall_of_visible (same : SameAnswers runs Alike src) (plain : '.' ∉ n.toList)
    {v : List (String × ResolvedSymbol)} {p p' q : Findings × σ}
    (h : runs.query.yields (visibleFrom src c Source.all []) p v q)
    (listed : Assoc.get? n v = some r) (alike : p.1 = p'.1 ∧ Alike p.2 p'.2)
    (seen : documentFind c n = none → ∀ files q,
      runs.query.yields (includedFiles src c) p files q →
        (∀ file ∈ files, Built file) ∧ ¬ Hidden n files) :
    ∃ q', runs.query.yields (waterfall src c n Source.all) p' (some r) q' := by
  refine waterfall_of_visibleFrom (agrees_document p) (same.find c n _) h rfl listed alike
    fun more z z' hdocument hrest hmore hnone halike => ?_
  obtain ⟨rfl, hz⟩ := runs.query.yields_pure.mp hdocument
  rw [get?_documentVisible] at hmore
  rw [← hz] at seen
  refine waterfall_of_visibleFrom (agrees_includes plain (seen hmore)) (same.find c n _) hrest hnone
    listed halike fun more z z' _ hrest _ hnone halike => ?_
  refine waterfall_of_visibleFrom (agrees_imports z) (same.find c n _) hrest hnone listed halike
    fun more z z' _ hrest _ hnone halike => ?_
  refine waterfall_of_visibleFrom (agrees_inherits z) (same.find c n _) hrest hnone listed halike
    fun more z z' _ hrest _ hnone halike => ?_
  obtain ⟨nothing, y, hstdlib, hend⟩ := runs.query.yields_bind.mp hrest
  obtain ⟨rfl, -⟩ := runs.query.yields_pure.mp hstdlib
  obtain ⟨rfl, -⟩ := runs.query.yields_pure.mp hend
  rw [Assoc.get?_addAll, hnone] at listed
  cases listed

/-! ## Queries -/

/-- A plain name that is listed among all that can be named is looked up to the same effect. -/
theorem lookup_of_visible (same : SameAnswers runs Alike src) {s s' t : σ} (alike : Alike s s')
    (plain : hasAccess n.toList = false) {v : Resolution}
    (visible : runs.yields (visible src c) s v t)
    (listed : Assoc.get? n v.symbols = some r)
    (seen : documentFind c n = none → ∀ files f u,
      runs.yields ((includedFiles src c).run {}) s (files, f) u →
        (∀ file ∈ files, Built file) ∧ ¬ Hidden n files) :
    ∃ l t', runs.yields (lookup src c n) s' l t' ∧ l.symbol = some r := by
  obtain ⟨⟨symbols, findings⟩, u, hsymbols, hpure⟩ := runs.yields_bind.mp visible
  obtain ⟨rfl, rfl⟩ := runs.yields_pure.mp hpure
  have hvisible : runs.query.yields (visibleFrom src c Source.all []) ({}, s) symbols
      (findings, t) := hsymbols
  have halike : (({}, s) : Findings × σ).1 = (({}, s') : Findings × σ).1 ∧ Alike s s' :=
    ⟨rfl, alike⟩
  obtain ⟨⟨f, u⟩, hwaterfall⟩ :=
    waterfall_of_visible same (not_mem_of_not_hasAccess plain) hvisible listed
    halike fun hnone files q hfiles => seen hnone files q.1 q.2 hfiles
  have hplain : runs.query.yields (Resolve.plain src c n) ({}, s') (some r) (f, u) :=
    runs.query.yields_bind.mpr
      ⟨some r, (f, u), hwaterfall, runs.query.yields_pure.mpr ⟨rfl, rfl⟩⟩
  refine ⟨{ symbol := some r, warnings := f.warnings }, u, ?_, rfl⟩
  unfold lookup
  rw [plain]
  exact runs.yields_bind.mpr ⟨(some r, f), u, hplain, runs.yields_pure.mpr ⟨rfl, rfl⟩⟩

/-- A plain name that is listed among all that can be named in a document is looked up, and always
to the same effect: the symbol, where it comes from and the rule by which it was found.  The two
queries may begin in different states as long as what they ask of the outside has the same answers.
The name must not be hidden in an included file, unless the document itself knows it. -/
theorem listed_name_is_looked_up_alike (same : SameAnswers runs Alike src) {s s' t : σ}
    (alike : Alike s s') (plain : hasAccess n.toList = false) {v : Resolution}
    (visible : runs.yields (visible src c) s v t) (listed : Assoc.get? n v.symbols = some r)
    (seen : documentFind c n = none → ∀ files f u,
      runs.yields ((includedFiles src c).run {}) s (files, f) u →
        (∀ file ∈ files, Built file) ∧ ¬ Hidden n files) :
    (∃ l t', runs.yields (lookup src c n) s' l t') ∧
      ∀ l t', runs.yields (lookup src c n) s' l t' → l.symbol = some r := by
  obtain ⟨found, u, hfound, hsymbol⟩ := lookup_of_visible same alike plain visible listed seen
  refine ⟨⟨found, u, hfound⟩, fun l t' hl => ?_⟩
  rw [(runs.unique hl hfound).1, hsymbol]

/-- A module that declares a name that the file of shapes declares too. -/
def geometry : StdlibModule :=
  { path := "Geometry", symbols := [("area", { name := "area", kind := .const })] }

/-- A document that includes the file of shapes and imports the module. -/
def drawing : Context :=
  { uri := "file:///drawing.pike"
    entry := some {
      uri := "file:///drawing.pike"
      version := 1
      table := .ofRoots [
        { name := "#include", kind := .import, classname := some "shapes.h" },
        { name := "Geometry", kind := .import }] }
    program := none }

/-- Sources that remember which modules they were asked for.  What a lookup asks for becomes part of
the state, so an answer that was not asked for is visible. -/
def remembering : Sources (StateT (List String) (Except Fault)) where
  documents := pure []
  module path := fun asked =>
    .ok (if path = geometry.path then some geometry else none, path :: asked)
  included _ _ := pure (some shapes)
  fault f := fun _ => .error f
  maxDepth := 32

/-- What the sources answer does not depend on what they remember. -/
theorem remembering_same_answers :
    SameAnswers (.ofState (List String) Fault) (fun _ _ => True) remembering where
  documents := .pure _
  module path s s' a t _ h := by
    obtain ⟨rfl, -⟩ := Prod.mk.inj (Except.ok.inj h)
    exact ⟨path :: s', rfl, trivial⟩
  included _ _ := .pure _
  fault f s s' a t _ h := nomatch h

/-- The document lists what the file and the module declare; where both declare a name, the file's
declaration. -/
theorem visible_drawing :
    (visible remembering drawing) [] =
      .ok ({ symbols := includeVisible [shapes] }, ["Geometry"]) := by
  have htarget : cleanTarget "Geometry" = "Geometry" := by decide +kernel
  have himports : importScopes remembering drawing drawing.table.imports =
      fun f asked => .ok (([("Geometry", geometry.symbols)], f), "Geometry" :: asked) := by
    have hdirectives : drawing.table.imports = [{ name := "Geometry", kind := .import }] := by cbv
    have hdirective : Symbol.directiveTarget { name := "Geometry", kind := .import } =
      "Geometry" := rfl
    rw [hdirectives]
    simp only [importScopes, hdirective, htarget]
    rfl
  have hancestors : ancestors remembering drawing drawing.table.inherits drawing.uri = pure [] := by
    have hdirectives : drawing.table.inherits = [] := by cbv
    rw [ancestors, hdirectives, walk]
    rfl
  simp only [visible, visibleFrom, Source.all, Source.visible, documentAncestors,
    hancestors, himports]
  cbv

/-- Looked up after everything has been listed, a name that the file and the module declare means
what it is listed for, though the sources now remember the module. -/
theorem listed_area_is_looked_up :
    ∃ v t r, (visible remembering drawing) [] = .ok (v, t) ∧ t = ["Geometry"] ∧
      Assoc.get? "area" v.symbols = some r ∧ r.origin = some "inc/shapes.h" ∧
      ∃ l t', (lookup remembering drawing "area") t = .ok (l, t') ∧ l.symbol = some r := by
  obtain ⟨r, hlisted, horigin⟩ : ∃ r, Assoc.get? "area" (includeVisible [shapes]) = some r ∧
      r.origin = some "inc/shapes.h" := ⟨_, by rfl, by rfl⟩
  have hplain : hasAccess "area".toList = false := by decide
  have hseen : ∀ files f u, (Runs.ofState (List String) Fault).yields
      ((includedFiles remembering drawing).run {}) [] (files, f) u →
        (∀ file ∈ files, Built file) ∧ ¬ Hidden "area" files := by
    intro files f u h
    have hfiles : ((includedFiles remembering drawing).run {}) [] =
        .ok (([shapes], { includes := some [shapes] }), []) := by cbv
    obtain ⟨he, -⟩ := Prod.mk.inj (Except.ok.inj (hfiles.symm.trans h))
    obtain ⟨rfl, -⟩ := Prod.mk.inj he
    refine ⟨List.forall_mem_singleton.mpr rfl, ?_⟩
    rintro ⟨file, directive, hfile, hfirst, hdirective⟩
    obtain rfl : shapes = file := Option.some.inj hfile
    obtain rfl : { name := "area", kind := .method, qualifiedName := some "area" } = directive :=
      Option.some.inj hfirst
    cases hdirective
  obtain ⟨⟨l, t', hl⟩, hall⟩ := listed_name_is_looked_up_alike remembering_same_answers
    (s := []) trivial hplain visible_drawing hlisted fun _ => hseen
  exact ⟨_, _, r, visible_drawing, rfl, hlisted, horigin, l, t', hl, hall l t' hl⟩

end PikeAnalysis.Resolve
