import PikeAnalysis.Proofs.Scheduler.Documents
import PikeAnalysis.Proofs.Simulation.Agenda
import PikeAnalysis.Proofs.Simulation.Turns

/-!
# What becomes of a document by itself

A document that waits, or that has a run, moves on by itself as time passes: its timer fires, its
validation begins and ends.  `Next` is one such move, and it depends on nothing but the document,
the clock and how long its validations take.  So what becomes of it until some time (`Unfolds`) is
the same wherever the clock stops in between (`Unfolds.unique`), and edits of other documents do not
matter (`Evolves.filter`).

Here the scheduler is seen from the side of one document.  A `Track` is all there is to such a
document: what it holds, which phase it is in, how far the sleep has come that it waits for, and
which validations have begun and ended.  No task, ticket or number occurs in it, so that two
rehearsals in which the same happens to a document can give it the same track although they differ
in everything else.

Two things have to be shown of tracks alone.  One is that at most one thing can become of a track
next (`Next.unique`); the other is that it does not matter where the clock stops while nothing
becomes of it (`Unfolds.shift`).  Together they make what becomes of a document a function of when
and how it is edited.
-/

namespace PikeAnalysis.Simulation.Scheduling

open PikeAnalysis.Concurrency
open PikeAnalysis.Scheduler (Doc Phase)

/-! ## Views -/

/-- The begin or the end of a validation.  A begin is marked with what is validated.  An end is
marked for every validation that gets there, so one that was cancelled has a begin only. -/
inductive Mark where
  | began (t : Instant) (version : Int) (text : String)
  | ended (t : Instant) (version : Int)
  deriving DecidableEq

/-- What is seen of a document: its phase, and the begins and ends of its validations so far.  This
is what is compared between two rehearsals: it depends on the edits of the document and on time, but
not on numbers of tasks, timers or slots. -/
structure View where
  phase : Phase
  marks : List Mark
  deriving DecidableEq

/-- What is seen of a document at some time. -/
abbrev Sight := Instant × View

/-- The sights that differ from the one before.  Two rehearsals in which different numbers of things
happen can have the same changes. -/
def changes (last : View) : List Sight → List Sight
  | [] => []
  | sight :: rest =>
    if sight.2 = last then changes last rest else sight :: changes sight.2 rest

/-- What is seen at last. -/
def lastView (last : View) (sights : List Sight) : View :=
  sights.foldl (fun _ sight => sight.2) last

theorem changes_append (last : View) (sights more : List Sight) :
    changes last (sights ++ more) = changes last sights ++ changes (lastView last sights) more := by
  induction sights generalizing last with
  | nil => rfl
  | cons sight rest ih =>
    rw [List.cons_append, changes, changes]
    split
    · next same => rw [ih, lastView, lastView, List.foldl_cons, same]
    · rw [ih, List.cons_append]
      rfl

theorem lastView_append (last : View) (sights more : List Sight) :
    lastView last (sights ++ more) = lastView (lastView last sights) more :=
  List.foldl_append

/-! ## Tracks -/

/-- How far the sleep has come for which a document waits, or the validation of its run.  A sleep
that is ahead has not begun, though it is certain to in the present instant; one that has begun is
over when it is due. -/
inductive Stage where
  | ahead
  | until (due : Option Instant)

/-- Something moves on: it has not begun, or its time has come. -/
def Stage.Over (now : Instant) : Stage → Prop
  | .ahead => True
  | .until due => Reached now due

end PikeAnalysis.Simulation.Scheduling

namespace PikeAnalysis.Scheduler.Doc

variable {α : Type}

/-- What stands for the timer or run of a document. -/
def stage? : Doc α → Option α
  | .waiting _ _ x | .running _ _ _ _ x => some x
  | _ => none

end PikeAnalysis.Scheduler.Doc

namespace PikeAnalysis.Simulation.Scheduling

open PikeAnalysis.Concurrency
open PikeAnalysis.Scheduler (Doc Phase Sequel)

/-- A document and the begins and ends of its validations so far.  The stage stands where the
scheduler has the number of a timer or run. -/
structure Track where
  doc : Doc Stage
  marks : List Mark

namespace Track

def view (k : Track) : View :=
  ⟨k.doc.phase, k.marks⟩

/-- Nothing becomes of a document at a time.  Time has to pass, or somebody has to edit it, before
it changes. -/
def Idle (now : Instant) (k : Track) : Prop :=
  ∀ stage, k.doc.stage? = some stage → ¬ stage.Over now

/-- Nothing becomes of a document before a time.  The clock does not jump over it. -/
def Until (now : Instant) (k : Track) : Prop :=
  ∀ d, k.doc.stage? = some (.until (some d)) → now ≤ d

/-- A document after an edit.  A timer that the edit starts is due a quiet period from now, and a
run that it starts is ahead. -/
def told (quiet : Duration) (now : Instant) (e : Scheduler.Event) (k : Track) : Track :=
  { k with doc := k.doc.told (.until (now.after quiet)) .ahead e }

end Track

/-- How long the validations of a document may last, by version and text; some take no time. -/
abbrev Lengths := Int → String → Option Duration → Prop

/-- Validations last as what is validated says.  The length is then determined, and with it what
becomes of the document. -/
def lengths (outcome : Int → String → Behaviour) : Lengths := fun version text length =>
  (outcome version text).length = length

section

variable {outcome : Int → String → Behaviour} {lasts : Lengths} {quiet : Duration}
  {now now' target : Instant} {k k' k'' l : Track} {seen more τ τ' : List Sight}

/-- What becomes of a document next by itself, if its validations last as `lasts` says.  The clock
stands still in such a step.  Which one is possible is determined by the track, up to the length of
a validation that begins, and `lasts` determines that. -/
inductive Next (lasts : Lengths) (quiet : Duration) (now : Instant) : Track → Track → Prop
  | fires {version : Int} {text : String} {stage : Stage} {marks : List Mark}
    (past : stage.Over now) :
    Next lasts quiet now ⟨.waiting version text stage, marks⟩ ⟨.begin version text .ahead, marks⟩
  | begins {version : Int} {text : String} {subject : Int × String}
    {sequel : Sequel} {marks : List Mark}
    {d : Duration} (length : lasts subject.1 subject.2 (some d)) :
    Next lasts quiet now ⟨.running version text subject sequel .ahead, marks⟩
      ⟨.running version text subject sequel (.until (now.after d)),
        marks ++ [.began now subject.1 subject.2]⟩
  | passes {version : Int} {text : String} {subject : Int × String}
    {sequel : Sequel} {marks : List Mark} (length : lasts subject.1 subject.2 none) :
    Next lasts quiet now ⟨.running version text subject sequel .ahead, marks⟩
      ⟨(Doc.running version text subject sequel .ahead).ended (.until (now.after quiet)) .ahead,
        marks ++ [.began now subject.1 subject.2] ++ [.ended now subject.1]⟩
  | ends {version : Int} {text : String} {subject : Int × String}
    {sequel : Sequel} {marks : List Mark} {due : Option Instant} (reached : Reached now due) :
    Next lasts quiet now ⟨.running version text subject sequel (.until due), marks⟩
      ⟨(Doc.running version text subject sequel (.until due)).ended
        (.until (now.after quiet)) .ahead, marks ++ [.ended now subject.1]⟩

theorem Next.unique (h : Next (lengths outcome) quiet now k k')
    (h' : Next (lengths outcome) quiet now k k'') :
    k' = k'' := by
  cases h with
  | fires | ends => cases h'; rfl
  | begins length =>
    cases h' with
    | begins length' => cases length.symm.trans length'; rfl
    | passes length' => cases length.symm.trans length'
  | passes length =>
    cases h' with
    | begins length' => cases length.symm.trans length'
    | passes => rfl

theorem Next.view_ne (h : Next lasts quiet now k k') : k'.view ≠ k.view := by
  intro same
  have phase := congrArg View.phase same
  have marks := congrArg View.marks same
  cases h with
  | fires => cases phase
  | begins | passes | ends => simp [Track.view] at marks

theorem Next.over (h : Next lasts quiet now k k') : ∃ stage, k.doc.stage? = some stage ∧
    stage.Over now := by
  cases h with
  | fires past => exact ⟨_, rfl, past⟩
  | begins | passes => exact ⟨_, rfl, trivial⟩
  | ends reached => exact ⟨_, rfl, reached⟩

theorem Track.Idle.not_next (h : k.Idle now) : ¬ Next lasts quiet now k k' := fun next => by
  obtain ⟨stage, hstage, past⟩ := next.over
  exact h stage hstage past

/-! ## Unfolding -/

/-- What becomes of a document by itself until some time, with how it is seen to change.  The clock
may stop at any time in between, also when nothing becomes of the document then. -/
inductive Unfolds (lasts : Lengths) (quiet : Duration) (target : Instant) :
    Instant → Track → List Sight → Track → Prop
  | rests {k : Track} (idle : k.Idle target) : Unfolds lasts quiet target target k [] k
  | moves {now : Instant} {k k' k'' : Track} {τ : List Sight} (next : Next lasts quiet now k k')
    (rest : Unfolds lasts quiet target now k' τ k'') :
    Unfolds lasts quiet target now k ((now, k'.view) :: τ) k''
  | waits {now now' : Instant} {k k' : Track} {τ : List Sight} (idle : k.Idle now) (le : now ≤ now')
    (le_target : now' ≤ target) (until' : k.Until now')
    (rest : Unfolds lasts quiet target now' k τ k') :
    Unfolds lasts quiet target now k τ k'

/-- A document that nothing becomes of before a time is idle until then. -/
theorem Track.Idle.later (h : k.Idle now) {later : Instant} (lt : now' < later)
    (until' : k.Until later) : k.Idle now' := by
  intro stage hstage past
  cases stage with
  | ahead => exact h _ hstage trivial
  | «until» due =>
    obtain ⟨d, rfl, hd⟩ := past
    exact absurd (Int.lt_of_lt_of_le lt (until' d hstage)) (Int.not_lt.mpr hd)

/-- The clock may be set on while nothing becomes of a document. -/
theorem Unfolds.shift (h : Unfolds lasts quiet target now k τ k')
    (idle : k.Idle now) (le : now ≤ now')
    (le_target : now' ≤ target) (until' : k.Until now') :
    Unfolds lasts quiet target now' k τ k' := by
  induction h with
  | rests =>
    obtain rfl := Int.le_antisymm le le_target
    exact .rests idle
  | moves next => exact absurd next idle.not_next
  | @waits now mid k k' τ _ _ mid_le until_mid rest ih =>
    rcases Int.lt_trichotomy now' mid with lt | rfl | lt
    · exact .waits (idle.later lt until_mid) (Int.le_of_lt lt) mid_le until_mid rest
    · exact rest
    · exact ih (idle.later lt until') (Int.le_of_lt lt) until'

theorem Unfolds.rested (h : Unfolds lasts quiet target now k τ k') (le : target ≤ now)
    (idle : k.Idle now) :
    [] = τ ∧ k = k' := by
  induction h with
  | rests => exact ⟨rfl, rfl⟩
  | moves next => exact absurd next idle.not_next
  | waits _ le' le_target _ _ ih =>
    obtain rfl := Int.le_antisymm le' (Int.le_trans le_target le)
    exact ih le idle

/-- What becomes of a document does not depend on where the clock stops on the way. -/
theorem Unfolds.unique (h : Unfolds (lengths outcome) quiet target now k τ k') :
    ∀ {τ' : List Sight} {l : Track}, Unfolds (lengths outcome) quiet target now k τ' l →
      τ = τ' ∧ k' = l := by
  -- Where one of the two waits and the other does not, the clock of the other is set on first.
  induction h with
  | rests idle => exact fun other => other.rested (Int.le_refl _) idle
  | moves next _ ih =>
    intro τ' l other
    cases other with
    | rests idle => exact absurd next idle.not_next
    | moves next' rest' =>
      obtain rfl := next.unique next'
      obtain ⟨rfl, rfl⟩ := ih rest'
      exact ⟨rfl, rfl⟩
    | waits idle => exact absurd next idle.not_next
  | waits idle le le_target until' _ ih =>
    exact fun other => ih (other.shift idle le le_target until')

/-- From one moment to another a document is seen as its own moves say.  It is stated of whatever
follows, so that pieces of a rehearsal can be put together. -/
structure Drifts (lasts : Lengths) (quiet : Duration) (target now : Instant) (k : Track)
    (seen : List Sight) (now' : Instant) (k' : Track) : Prop where
  unfolds : ∀ {τ k''}, Unfolds lasts quiet target now' k' τ k'' →
    Unfolds lasts quiet target now k (changes k.view seen ++ τ) k''
  last : lastView k.view seen = k'.view

theorem Drifts.refl (k : Track) : Drifts lasts quiet target now k [] now k :=
  ⟨fun h => h, rfl⟩

theorem Drifts.trans {now'' : Instant} (h : Drifts lasts quiet target now k seen now' k')
    (h' : Drifts lasts quiet target now' k' more now'' k'') :
    Drifts lasts quiet target now k (seen ++ more) now'' k'' where
  unfolds rest := by
    rw [changes_append, h.last, List.append_assoc]
    exact h.unfolds (h'.unfolds rest)
  last := by rw [lastView_append, h.last, h'.last]

/-- A document is seen as before. -/
theorem Drifts.still (now : Instant) (k : Track) :
    Drifts lasts quiet target now k [(now, k.view)] now k where
  unfolds rest := by
    rw [changes, if_pos rfl]
    exact rest
  last := rfl

theorem Drifts.next (h : Next lasts quiet now k k') :
    Drifts lasts quiet target now k [(now, k'.view)] now k' where
  unfolds rest := by
    rw [changes, if_neg h.view_ne]
    exact .moves h rest
  last := rfl

theorem Drifts.clock (idle : k.Idle now) (le : now ≤ now') (le_target : now' ≤ target)
    (until' : k.Until now') : Drifts lasts quiet target now k [(now', k.view)] now' k where
  unfolds rest := by
    rw [changes, if_pos rfl]
    exact .waits idle le le_target until' rest
  last := rfl

theorem Drifts.rests (h : Drifts lasts quiet target now k seen target k') (idle : k'.Idle target) :
    Unfolds lasts quiet target now k (changes k.view seen) k' := by
  have done := h.unfolds (.rests idle)
  rwa [List.append_nil] at done

end

/-! ## Steps -/

/-- What happens to a rehearsal next: an edit, or time passes.  Several edits may come without any
time between them. -/
inductive Step where
  | edit (e : Edit)
  /-- A number of microseconds. -/
  | pass (micros : Nat)

/-- An edit concerns its document; the passing of time concerns all. -/
def Step.concerns (uri : String) : Step → Bool
  | .edit e => e.event.edits == some uri
  | .pass _ => true

section

variable {uri : String} {outcome : Int → String → Behaviour} {lasts : Lengths} {quiet : Duration}
  {now : Instant} {k : Track} {steps : List Step} {τ τ' : List Sight}

/-- How a document is seen to change along steps.  Edits of other documents are passed over: that is
where it is said that documents do not depend on one another, and the theorem is that what is seen
in a rehearsal of many documents evolves so for each of them. -/
inductive Evolves (uri : String) (lasts : Lengths) (quiet : Duration) :
    List Step → Instant → Track → List Sight → Prop
  | nil {now : Instant} {k : Track} : Evolves uri lasts quiet [] now k []
  | own {e : Edit} {steps : List Step} {now : Instant} {k : Track} {τ : List Sight}
    (edits : e.event.edits = some uri)
    (rest : Evolves uri lasts quiet steps now (k.told quiet now e.event) τ) :
    Evolves uri lasts quiet (.edit e :: steps) now k
      (changes k.view [(now, (k.told quiet now e.event).view)] ++ τ)
  | other {e : Edit} {steps : List Step} {now : Instant} {k : Track} {τ : List Sight}
    (edits : e.event.edits ≠ some uri) (rest : Evolves uri lasts quiet steps now k τ) :
    Evolves uri lasts quiet (.edit e :: steps) now k τ
  | pass {micros : Nat} {steps : List Step} {now : Instant} {k k' : Track} {τ τ' : List Sight}
    (unfolds : Unfolds lasts quiet (now + micros) now k τ k')
    (rest : Evolves uri lasts quiet steps (now + micros) k' τ') :
    Evolves uri lasts quiet (.pass micros :: steps) now k (τ ++ τ')

theorem Evolves.unique (h : Evolves uri (lengths outcome) quiet steps now k τ) :
    ∀ {τ' : List Sight}, Evolves uri (lengths outcome) quiet steps now k τ' → τ = τ' := by
  induction h with
  | nil =>
    intro τ' other
    cases other
    rfl
  | own edits _ ih =>
    intro τ' other
    cases other with
    | own _ rest => rw [ih rest]
    | other edits' => exact absurd edits edits'
  | other edits _ ih =>
    intro τ' other
    cases other with
    | own edits' => exact absurd edits' edits
    | other _ rest => exact ih rest
  | pass unfolds _ ih =>
    intro τ' other
    cases other with
    | pass unfolds' rest =>
      obtain ⟨rfl, rfl⟩ := unfolds.unique unfolds'
      rw [ih rest]

/-- Steps that do not concern a document do not matter to it. -/
theorem Evolves.filter (h : Evolves uri lasts quiet steps now k τ) :
    Evolves uri lasts quiet (steps.filter (Step.concerns uri)) now k τ := by
  induction h with
  | nil => exact .nil
  | own edits _ ih =>
    rw [List.filter_cons_of_pos (by simp [Step.concerns, edits])]
    exact .own edits ih
  | other edits _ ih =>
    rw [List.filter_cons_of_neg (by simp [Step.concerns, edits])]
    exact ih
  | pass unfolds _ ih =>
    rw [List.filter_cons_of_pos rfl]
    exact .pass unfolds ih

end

end PikeAnalysis.Simulation.Scheduling
