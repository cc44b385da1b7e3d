import PikeAnalysis.Proofs.Concurrency.Lasting
import PikeAnalysis.Proofs.Engine.Closed
import PikeAnalysis.Proofs.Validation.Coherence

/-!
# What is kept of the stores

Of all that the engine does, only three things change what is stored of documents: opening one,
closing one and committing a draft.  What each of these keeps of the stores (`Stores.Kept`) is
therefore kept along every course, whatever the engine is told and asked to do, and whatever is
cancelled meanwhile (`stored_of_visits`).

A property of what is stored is kept if opening, closing and committing keep it, which are
statements about the stores alone; the rest is the engine's structure and the same for all such
properties.  So the claims about coherence are proved of the stores in `Proofs/Validation` and
carried over here.

States in the middle of a turn are included.  A turn may change the stores several times, and
whoever reads them from outside may do so between two changes, so `stored_of_visits` speaks of every
state that is passed through.
-/

namespace PikeAnalysis

/-- A property of what is stored of documents that is kept by all that changes it.  These three are
all the changes of documents that there are. -/
structure Stores.Kept (Q : Stores → Prop) : Prop where
  congr {s s' : Stores} : Q s → s'.documents = s.documents → s'.programs = s.programs →
    s'.closings = s.closings → Q s'
  opened {s : Stores} (uri : String) : Q s → Q (s.opened uri)
  closed {s : Stores} (uri : String) : Q s → Q (s.closed uri)
  commit {s s' : Stores} {d : Validation.Draft} {positions : PositionIndex} {now : Instant}
    {log : List LogEntry} : Q s → Validation.commit s d positions now = .stored s' log → Q s'

namespace Engine

open PikeAnalysis.Concurrency

open PikeAnalysis.Scheduler (Effect Event)

/-- A property of the stores, said of the engine.  The loop, the bridge and the scheduler do not
occur in it. -/
def Stored (Q : Stores → Prop) (s : State) : Prop :=
  Q s.stores

/-- The contract of a task that keeps a property of the stores.  It is kept by every step, in a turn
as well as between turns. -/
abbrev upkeep (Q : Stores → Prop) : Contract State Job :=
  keeping (Stored Q)

variable {Q : Stores → Prop} {α β : Type} {s s' : State}

theorem Stored.of_eq (h : Stored Q s) (same : s'.stores = s.stores) : Stored Q s' := by
  rw [Stored, same]
  exact h

open Routine

/-! ## Elsewhere -/

theorem abides_elsewhere {f : State → State × α} (same : ∀ s, (f s).1.stores = s.stores) :
    (Routine.act f : Act α).Abides (upkeep Q) :=
  abides_act fun s hs => ⟨hs.of_eq (same s), hs.of_eq (same s)⟩

variable (kept : Stores.Kept Q)
include kept

theorem Stored.apart {kind : Job → Prop} (h : Stored Q s) (a : Apart kind s s') : Stored Q s' :=
  kept.congr h a.documents a.programs a.closings

theorem obliging_upkeep : Obliging (upkeep Q) where
  waits _ := trivial
  aside _ _ hs a := ⟨hs.apart kept a, hs.apart kept a⟩
  renews _ _ := trivial

/-! ## The scheduler -/

theorem Stored.carryOut (h : Stored Q s) (x : Effect) : Stored Q (Scheduler.carryOut s x) := by
  by_cases hx : ∀ u, x ≠ .closed u
  · exact h.apart kept (Closing.apart_carryOut s hx)
  · obtain ⟨u, rfl⟩ := not_forall_not.mp hx
    exact kept.closed u h

theorem Stored.tell (h : Stored Q s) (e : Event) : Stored Q (Scheduler.tell s e) := by
  have hall : ∀ (out : List Effect) (s : State), Stored Q s →
    Stored Q (out.foldl Scheduler.carryOut s) := by
    intro out
    induction out with
    | nil => exact fun _ hs => hs
    | cons x rest ih => exact fun s hs => ih _ (hs.carryOut kept x)
  exact hall _ (Closing.decided s e) h

theorem abides_modify_tell (e : Event) :
    (Routine.modify fun s => Scheduler.tell s e : Act Unit).Abides (upkeep Q) :=
  abides_modify fun _ hs => ⟨hs.tell kept e, hs.tell kept e⟩

/-! ## Validations -/

theorem Stored.commit (h : Stored Q s) (d : Validation.Draft) (positions : PositionIndex) :
    Stored Q (commit d positions s).1 := by
  unfold Engine.commit
  split
  · exact h
  · next stores log stored => exact kept.commit h stored

/-! ## All tasks -/

/-- Whatever a task does keeps the property. -/
theorem pervades_upkeep : Pervades fun r => r.Abides (upkeep Q) where
  toAsks := (obliging_upkeep kept).asks
  elsewhere same := abides_elsewhere fun s => (same s).stores
  find path := by
    refine abides_elsewhere fun s => ?_
    unfold findModule
    dsimp only
    split <;> rfl
  begin _ _ _ := abides_elsewhere fun _ => rfl
  -- The stores change in a few places only: a miss, a draft, the commit, and when the scheduler is
  -- told something.
  missed miss := by
    refine abides_modify fun s hs => ?_
    obtain ⟨hdocuments, hprograms, hclosings⟩ := Validation.missed_eq s.stores miss
    have hmissed := kept.congr hs hdocuments hprograms hclosings
    exact ⟨hmissed, hmissed⟩
  draft target analysis := by
    refine abides_act fun s hs => ?_
    have hdrafted : Q { s.stores with unavailable := false } := kept.congr hs rfl rfl rfl
    exact ⟨hdrafted, hdrafted⟩
  commit d positions := abides_act fun s hs =>
    ⟨hs.commit kept d positions, hs.commit kept d positions⟩
  delayed next := (abides_aside (obliging_upkeep kept) aside_delay).bind fun _ =>
    abides_wait trivial next
  complete := by
    refine abides_modify fun s hs => ?_
    have hcompleted : Q (Validation.complete s.stores) := kept.congr hs rfl rfl rfl
    exact ⟨hcompleted, hcompleted⟩
  save uri version text := abides_modify_tell kept _
  ended run := by
    refine abides_modify fun s hs => ?_
    have hforgot : Stored Q (Scheduler.forgetTimers (Scheduler.tell s (.ended run))) :=
      (hs.tell kept (.ended run)).of_eq rfl
    exact ⟨hforgot, hforgot⟩
  timer _ := abides_timerBody (obliging_upkeep kept) (abides_modify_tell kept _)
  idle uri _ _ _ goesOn :=
    abides_idle (obliging_upkeep kept) uri trivial goesOn fun _ => abides_elsewhere fun _ => rfl
  stopping := abides_stopBody (obliging_upkeep kept)
    (abides_act fun _ hs => ⟨hs.tell kept .stop, hs.tell kept .stop⟩)
  thread _ := abides_bridgeThread (obliging_upkeep kept) _
  output := abides_readOutput (obliging_upkeep kept)
  errors := abides_readErrors (obliging_upkeep kept)

theorem abides_body (job : Job) : (jobBody job).Abides (upkeep Q) := by
  by_cases request : job.IsRequest
  · cases job with
    | request key method params => exact abides_requestBody (obliging_upkeep kept) method params
    | call | awaitValidation | awaitIdle | load | readOutput | readErrors | timer | run =>
      exact request.elim
  · exact (pervades_upkeep kept).jobBody request

/-! ## Courses -/

theorem Stored.happen (h : Stored Q s) (o : Happening) : Stored Q (happen o s) := by
  cases o with
  | opened uri version text =>
    have hopened : Stored Q { s with stores := s.stores.opened uri } := kept.opened uri h
    exact hopened.tell kept _
  | changed | saved | closed => exact h.tell kept _
  | output w lines ended => exact h.apart kept (aside_feedOutput s w lines ended)
  | errors w lines ended => exact h.apart kept (aside_feedErrors s w lines ended)
  | exited w code quiet => exact h.apart kept (aside_workerExited s w code quiet)
  | delayed n well =>
    refine h.of_eq ?_
    dsimp only [Engine.happen, State.delayOver]
    split <;> rfl
  | passedOn | surroundings | sinks | clock => exact h.of_eq rfl

/-- All that may befall the engine: what happens outside, what it is called for, and the
cancellation of any of its tasks.  Any task may be cancelled, those of requests and loads
included. -/
inductive Occurrence where
  | happens (o : Happening)
  | calls (c : Call)
  | cancels (task : Nat)

/-- The state after an occurrence.  Anything can happen, any call can be made, and any task can be
cancelled, at any time. -/
def occur : Occurrence → State → State
  | .happens o, s => happen o s
  | .calls c, s => { s with loop := (s.loop.create (.call c)).1 }
  | .cancels task, s => { s with loop := (s.loop.cancel task).1 }

/-- Nothing that the engine does ends the property. -/
theorem lasts : Lasts (Stored Q) rules occur where
  loops _ h := h.of_eq rfl
  bodies := abides_body kept
  hooks {s} hook h := by
    cases hook with
    | forgetRequest key task =>
      have haside : Aside s (rules.hook (.forgetRequest key task) s) :=
        aside_tellBridge (.forget key task) s
      exact h.apart kept haside
    | endLoading path => exact h.of_eq rfl
    | runOver run =>
      have htold := h.tell kept (.dropped run)
      exact htold.of_eq rfl
  happens o h := by
    cases o with
    | happens o => exact h.happen kept o
    | calls | cancels => exact h.of_eq rfl

/-- What is kept of the stores holds in every state that an engine comes by.  No premise is made
about the order in which things are done. -/
theorem stored_of_visits {settings : Config.Settings} {typedbBudget stdlibBudget : Int}
    {host : Host}
    {sink : Sink} {os : List Occurrence} (empty : Q { programs := .empty typedbBudget })
    (visited : Visits rules occur (opening settings typedbBudget stdlibBudget host sink) os s) :
    Q s.stores := by
  have start : Upheld (Stored Q) (opening settings typedbBudget stdlibBudget host sink).machine :=
    ⟨empty, fun _ he => absurd he List.not_mem_nil⟩
  exact (lasts kept).visits start visited

end Engine

end PikeAnalysis

/-!
## The cache and the database stay coherent

Documents are opened, edited, saved and closed, any number of them is validated, and programs are
evicted, in whatever order.  All along, a program whose document has not been closed since goes with
an entry of the document that is at least as new, so the database never turns away as stale what a
validation stores (`stores_stay_coherent`).
-/

namespace PikeAnalysis

theorem Stores.kept_coherent : Stores.Kept Stores.Coherent where
  congr h documents programs _ := h.congr documents programs
  opened uri h := h.opened uri
  closed uri h := h.closed uri
  commit h stored := h.commit stored

namespace Engine

open PikeAnalysis.Concurrency

variable {settings : Config.Settings} {typedbBudget stdlibBudget : Int} {host : Host} {sink : Sink}
  {os : List Occurrence} {s : State}

/-- In every state that an engine comes by, whatever happens to it, is asked of it and is cancelled,
in the middle of turns too: if the database holds a program of a document that it does not take for
closed, the cache holds an entry of the document of at least its version.  So when the cache takes
the entry of a draft, the database does not find the draft's program stale. -/
theorem stores_stay_coherent
    (visited : Visits rules occur (opening settings typedbBudget stdlibBudget host sink) os s) :
    (∀ uri p, s.stores.programs.get? uri = some p → uri ∉ s.stores.programs.closed →
      ∃ e, s.stores.documents.get? uri = some e ∧ p.version ≤ e.version) ∧
    ∀ (d : Validation.Draft) (positions : PositionIndex) (now : Instant)
      (documents : DocumentCache), s.stores.documents.set (d.entry positions) = (documents, true) →
      ∀ i, d.program = some i → (s.stores.programs.set (d.programInfo i now)).2 ≠ .stale := by
  have coherent : s.stores.Coherent :=
    stored_of_visits Stores.kept_coherent (Stores.coherent_of_no_programs rfl) visited
  constructor
  · intro uri p stored unclosed
    exact coherent uri p ⟨stored, unclosed⟩
  · intro d positions now documents taken i _
    exact coherent.programs_not_stale taken i

/-- A document has been opened, and its analysis has been asked for. -/
def awaiting : Moment State Trouble Value Job Hook :=
  { machine := ((opening {} 1000000 1000 desk .accepts).happen occur
      (.happens (.opened "file:///a.pike" 1 "int x;"))).machine.settle rules 20 }

/-- The worker's answer: one variable, and one token. -/
def answer : String :=
  "\x7b\"id\": 1, \"result\": \x7b\"result\": \x7b" ++
    "\"introspect\": \x7b\"success\": true, \"symbols\": [\x7b\"name\": \"x\"\x7d]\x7d, " ++
    "\"tokenize\": \x7b\"tokens\": [\x7b\"text\": \"x\", \"line\": 1, \"character\": 4\x7d]" ++
    "\x7d\x7d\x7d\x7d"

/-- The document has been analysed, and its program is stored. -/
def analysed : Moment State Trouble Value Job Hook :=
  { machine :=
      (awaiting.happen occur (.happens (.output 0 [answer] false))).machine.settle rules 20 }

/-- The program of the document goes with an entry that is at least as new. -/
theorem analysed_program_has_entry :
    ∃ p e, analysed.state.stores.programs.get? "file:///a.pike" = some p ∧
      analysed.state.stores.documents.get? "file:///a.pike" = some e ∧ p.version ≤ e.version := by
  have asked : Leads rules occur (opening {} 1000000 1000 desk .accepts)
      [.happens (.opened "file:///a.pike" 1 "int x;")] awaiting :=
        Leads.settle (Leads.refl.happens _) 20
  have course : Leads rules occur (opening {} 1000000 1000 desk .accepts) _ analysed :=
    Leads.settle (asked.happens (.happens (.output 0 [answer] false))) 20
  obtain ⟨covered, -⟩ := stores_stay_coherent (.moment course)
  obtain ⟨hsome, hunclosed⟩ : (analysed.state.stores.programs.get? "file:///a.pike").isSome ∧
      "file:///a.pike" ∉ analysed.state.stores.programs.closed := by decide +kernel
  obtain ⟨p, hp⟩ := Option.isSome_iff_exists.mp hsome
  obtain ⟨e, he, hle⟩ := covered _ p hp hunclosed
  exact ⟨p, e, hp, he, hle⟩

end Engine

end PikeAnalysis
