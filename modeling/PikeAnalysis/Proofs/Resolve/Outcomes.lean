import PikeAnalysis.Resolve.Lookup

/-!
# How queries come out

Resolution is written over any monad that provides documents, modules and included files.
`Outcomes` is what has to be known of a monad to say how a query comes out, with a result or with an
error.  While the answers of the outside do not change (`Answers`), the class or module that a name
refers to is a function of the name (`World.find`), whatever a cache remembers meanwhile.

A query may come out differently each time if the outside does, so nothing can be said of it without
a premise.  `Answers` is the weakest one that serves: there are states called good in which every
question has the answer that one world gives, and asking leaves the state good.  A cache that fills
up while it is asked satisfies it, and so does any monad without a state.
-/

namespace PikeAnalysis.Resolve

/-! ## Outcomes -/

/-- How computations over a state come out: with a result and the state after it, or with an
error. -/
structure Outcomes (m : Type → Type) [Monad m] (σ ε : Type) where
  of {α : Type} : m α → σ → Except ε (α × σ)
  of_pure {α : Type} (a : α) (s : σ) : of (pure a) s = .ok (a, s)
  of_bind {α β : Type} (x : m α) (f : α → m β) (s : σ) :
    of (x >>= f) s = (of x s).bind fun r => of (f r.1) r.2

namespace Outcomes

variable {m : Type → Type} [Monad m] {σ ε α β : Type}

/-- Computations that change a state and may fail. -/
def ofState (σ ε : Type) : Outcomes (StateT σ (Except ε)) σ ε where
  of x s := x s
  of_pure _ _ := rfl
  of_bind _ _ _ := rfl

/-- Queries, which also find things out.  What has been found out is threaded through along with the
state, so the laws follow from those of the outcomes below. -/
def query (out : Outcomes m σ ε) : Outcomes (Query m) (Findings × σ) ε where
  of x p := (out.of (x p.1) p.2).map fun r => (r.1.1, r.1.2, r.2)
  of_pure a p := by
    change (out.of (pure (a, p.1)) p.2).map _ = _
    rw [out.of_pure]
    rfl
  of_bind x f p := by
    change (out.of (x p.1 >>= fun r => f r.1 r.2) p.2).map _ = _
    rw [out.of_bind]
    cases out.of (x p.1) p.2 <;> rfl

variable (out : Outcomes m σ ε)

theorem query_lift (x : m α) (p : Findings × σ) :
    out.query.of (liftM x : Query m α) p = (out.of x p.2).map fun r => (r.1, p.1, r.2) := by
  change (out.of (x >>= fun a => pure (a, p.1)) p.2).map _ = _
  rw [out.of_bind]
  cases out.of x p.2 with
  | error e => rfl
  | ok r =>
    change (out.of (pure (r.1, p.1)) r.2).map _ = _
    rw [out.of_pure]
    rfl

theorem query_modify (f : Findings → Findings) (p : Findings × σ) :
    out.query.of (modify f : Query m Unit) p = .ok ((), f p.1, p.2) := by
  change (out.of (pure ((), f p.1)) p.2).map _ = _
  rw [out.of_pure]
  rfl

theorem of_bind_ok {x : m α} {f : α → m β} {s t : σ} {a : α} (hx : out.of x s = .ok (a, t)) :
    out.of (x >>= f) s = out.of (f a) t := by
  rw [out.of_bind, hx]
  rfl

theorem of_bind_error {x : m α} {f : α → m β} {s : σ} {e : ε} (hx : out.of x s = .error e) :
    out.of (x >>= f) s = .error e := by
  rw [out.of_bind, hx]
  rfl

end Outcomes

/-! ## Fixed answers -/

/-- What there is outside: the documents, and the modules of the standard library.  It is asked by
name or path, and has one answer. -/
structure World where
  documents : List DocumentEntry
  module : String → Option StdlibModule

namespace World

/-- A world that is asked directly.  It answers in a monad of its own, in which nothing but a fault
can happen. -/
def sources (w : World) : Sources (Except Fault) where
  documents := .ok w.documents
  module path := .ok (w.module path)
  included _ _ := .ok none
  fault f := .error f
  maxDepth := 0

/-- The result of a query that is asked of a world. -/
def result {α : Type} (x : Query (Except Fault) α) : Except Fault α :=
  (x.run {}).map (·.1)

section Asking

variable (w : World) {α β : Type}

theorem result_documents_bind (g : List DocumentEntry → Query (Except Fault) β) :
    result (liftM w.sources.documents >>= g) = result (g w.documents) :=
  rfl

theorem result_module_bind (path : String) (g : Option StdlibModule → Query (Except Fault) β) :
    result (liftM (w.sources.module path) >>= g) = result (g (w.module path)) :=
  rfl

theorem result_orFault_bind (r : Except Fault α) (g : α → Query (Except Fault) β) :
    result (orFault w.sources r >>= g) = r.bind fun a => result (g a) := by
  cases r <;> rfl

end Asking

/-- The class or module that a name refers to in a world.  What it says is what every resolver with
this world behind its sources says, however its monad works. -/
def find (w : World) (c : Context) (name : String) (tier : Option Tier) :
    Except Fault (Option Scope) :=
  result (findScope w.sources c name tier)

/-- Where an inherit directive leads, if anywhere.  It is nowhere if nothing is left of the
directive when it is cleaned. -/
def parent (w : World) (c : Context) (d : Symbol) : Except Fault (Option Scope) :=
  if (cleanTarget d.directiveTarget).isEmpty then .ok none
  else w.find c (cleanTarget d.directiveTarget) (some .inherited)

/-! ### Faults -/

/-- A fault of the address of a document.  The document itself counts, as it is looked at like the
others. -/
def HasFault (w : World) (c : Context) (f : Fault) : Prop :=
  ∃ e ∈ c.entry.toList ++ w.documents, Uri.stem e.uri = .error f

theorem fault_of_findByStem {uri stem : String} {entries : List DocumentEntry} {f : Fault}
    (h : findByStem uri stem entries = .error f) : ∃ e ∈ entries, Uri.stem e.uri = .error f := by
  induction entries with
  | nil => cases h
  | cons e rest ih =>
    have hlater (hrest : findByStem uri stem rest = .error f) :
        ∃ d ∈ e :: rest, Uri.stem d.uri = .error f := by
      obtain ⟨d, hd, hf⟩ := ih hrest
      exact ⟨d, List.mem_cons_of_mem _ hd, hf⟩
    rw [findByStem] at h
    split at h
    · exact hlater h
    · cases hstem : Uri.stem e.uri with
      | error g =>
        rw [hstem] at h
        cases h
        exact ⟨e, List.mem_cons_self, hstem⟩
      | ok name =>
        rw [hstem] at h
        change (if name = stem then Except.ok (some e) else findByStem uri stem rest) = _ at h
        split at h
        · cases h
        · exact hlater h

/-- Only because of the address of a document can it fail to find what a name refers to. -/
theorem hasFault_of_find {w : World} {c : Context} {name : String} {tier : Option Tier} {f : Fault}
    (h : w.find c name tier = .error f) : w.HasFault c f := by
  unfold find at h
  rw [findScope] at h
  dsimp only at h
  by_cases hempty : (cleanTarget name).isEmpty = true
  · rw [if_pos hempty] at h
    cases h
  rw [if_neg hempty, result_documents_bind] at h
  cases hclass : findClass (cleanTarget name)
      (c.entry.toList ++ w.documents.filter (·.uri != c.uri)) with
  | some found =>
    rw [hclass] at h
    cases h
  | none =>
    rw [hclass] at h
    dsimp only at h
    rw [result_orFault_bind] at h
    -- Of the three places only the second looks at addresses.
    cases hstem : findByStem c.uri (StdlibModule.lastName (cleanTarget name))
        (c.entry.toList ++ w.documents.filter (·.uri != c.uri)) with
    | error g =>
      rw [hstem] at h
      cases h
      obtain ⟨e, he, hf⟩ := fault_of_findByStem hstem
      exact ⟨e, List.mem_append.mpr
        ((List.mem_append.mp he).imp_right fun he => (List.mem_filter.mp he).1), hf⟩
    | ok document =>
      rw [hstem] at h
      cases document with
      | some e => cases h
      | none =>
        change result (liftM (w.sources.module _) >>= _) = _ at h
        rw [result_module_bind] at h
        cases hmodule : w.module (cleanTarget name) with
        | none =>
          rw [hmodule] at h
          cases h
        | some mod =>
          rw [hmodule] at h
          cases h

end World

variable {m : Type → Type} [Monad m] {σ ε α β : Type}

/-- In good states the answers of the outside are those of one world, and the states after them are
good; a fault is raised as an error. -/
structure Answers (out : Outcomes m σ ε) (Good : σ → Prop) (raise : Fault → ε) (src : Sources m)
    (w : World) : Prop where
  documents {s : σ} : Good s → ∃ t, out.of src.documents s = .ok (w.documents, t) ∧ Good t
  module {s : σ} (path : String) :
    Good s → ∃ t, out.of (src.module path) s = .ok (w.module path, t) ∧ Good t
  fault {α : Type} (f : Fault) (s : σ) : out.of (src.fault f : m α) s = .error (raise f)

/-- In good states a query comes out in one way, and finds nothing out.  It may be asked for many
times, and nothing is noted by it. -/
def Settles (out : Outcomes m σ ε) (Good : σ → Prop) (raise : Fault → ε) (x : Query m α)
    (r : Except Fault α) : Prop :=
  ∀ f s, Good s →
    (∃ a t, r = .ok a ∧ out.query.of x (f, s) = .ok (a, f, t) ∧ Good t) ∨
      ∃ e, r = .error e ∧ out.query.of x (f, s) = .error (raise e)

variable {out : Outcomes m σ ε} {Good : σ → Prop} {raise : Fault → ε} {src : Sources m} {w : World}
  {c : Context}

namespace Settles

theorem pure (a : α) : Settles out Good raise (pure a : Query m α) (.ok a) :=
  fun f s good => .inl ⟨a, s, rfl, out.query.of_pure a (f, s), good⟩

theorem bind {x : Query m α} {g : α → Query m β} {r : Except Fault α} {h : α → Except Fault β}
    (hx : Settles out Good raise x r) (hg : ∀ a, Settles out Good raise (g a) (h a)) :
    Settles out Good raise (x >>= g) (r.bind h) := by
  intro f s good
  rcases hx f s good with ⟨a, t, rfl, ht, goodT⟩ | ⟨e, rfl, he⟩
  · have hga := hg a f t goodT
    rwa [← out.query.of_bind_ok ht] at hga
  · exact .inr ⟨e, rfl, out.query.of_bind_error he⟩

theorem bind_ok {x : Query m α} {g : α → Query m β} {a : α} {r : Except Fault β}
    (hx : Settles out Good raise x (.ok a)) (hg : Settles out Good raise (g a) r) :
    Settles out Good raise (x >>= g) r := by
  intro f s good
  rcases hx f s good with ⟨b, t, hb, ht, goodT⟩ | ⟨e, he, -⟩
  · obtain rfl : a = b := Except.ok.inj hb
    have hga := hg f t goodT
    rwa [← out.query.of_bind_ok ht] at hga
  · cases he

theorem lift {x : m α} {a : α} (hx : ∀ s, Good s → ∃ t, out.of x s = .ok (a, t) ∧ Good t) :
    Settles out Good raise (liftM x : Query m α) (.ok a) := by
  intro f s good
  obtain ⟨t, ht, goodT⟩ := hx s good
  refine .inl ⟨a, t, rfl, ?_, goodT⟩
  rw [out.query_lift, ht]
  rfl

end Settles

namespace Answers

theorem orFault (known : Answers out Good raise src w) (r : Except Fault α) :
    Settles out Good raise (orFault src r) r := by
  cases r with
  | ok a => exact .pure a
  | error e =>
    intro f s _
    refine .inr ⟨e, rfl, ?_⟩
    rw [Resolve.orFault, out.query_lift, known.fault]
    rfl

/-- What a name refers to is what it refers to in the world. -/
theorem findScope (known : Answers out Good raise src w) (c : Context) (name : String)
    (tier : Option Tier) :
    Settles out Good raise (findScope src c name tier) (w.find c name tier) := by
  have hall : Settles out Good raise (liftM src.documents : Query m _) (.ok w.documents) :=
    .lift fun _ => known.documents
  have hmodule (path : String) :
      Settles out Good raise (liftM (src.module path) : Query m _) (.ok (w.module path)) :=
    .lift fun _ => known.module path
  unfold World.find
  rw [Resolve.findScope, Resolve.findScope]
  dsimp only
  -- The three places are looked at in turn: classes, documents by their stem, and modules.
  by_cases hempty : (cleanTarget name).isEmpty = true
  · rw [if_pos hempty, if_pos hempty]
    exact .pure none
  · rw [if_neg hempty, if_neg hempty]
    rw [World.result_documents_bind]
    refine .bind_ok hall ?_
    cases findClass (cleanTarget name) (c.entry.toList ++ w.documents.filter (·.uri != c.uri)) with
    | some found => exact .pure _
    | none =>
      dsimp only
      rw [World.result_orFault_bind]
      refine .bind (known.orFault _) fun document => ?_
      cases document with
      | some e => exact .pure _
      | none =>
        dsimp only
        rw [World.result_module_bind]
        refine .bind_ok (hmodule _) ?_
        cases w.module (cleanTarget name) <;> exact .pure _

end Answers

end PikeAnalysis.Resolve
