import PikeAnalysis.Proofs.Concurrency.Course
import PikeAnalysis.Proofs.Engine.Closed

/-!
# A validation leaves all or nothing

While a validation waits for the worker anything may happen: its document is closed, other
validations are committed, the caches are written to.  Up to its final check a validation itself
changes nothing of what is stored, counted or published.  There it finds out whether it is void, and
either ends without diagnostics or stores one entry with them, and in the same turn hands them to
the sink.  Only then may it wait again, for the sink, before it is counted; what happens meanwhile
comes too late for it, and only a cancellation keeps it from ending with its diagnostics.

The course of a validation is taken apart at its final check (`prepared`, `finalCheck`).  Before it
every change is made aside, which is what a contract says (`keeps_prepared`); after it the changes
are few enough to be listed (`Verdict`).

The statement is about one validation on its course, with anything happening while it waits, rather
than about a machine with many: whatever others do is a change in one of its waits.  The only
premise about them is that the count of closings of a document does not go back (`Patient`), as
nothing in the engine takes a closing back.

The two outcomes are told apart by the state at the final check alone.  If the document was closed
while the validation waited, or a later version of it is there, nothing is left behind; otherwise
one entry is stored, the diagnostics are handed over once, and only the count at the end depends on
whether the wait for the sink is cancelled.
-/

namespace PikeAnalysis.Engine

open PikeAnalysis.Concurrency
open PikeAnalysis.Concurrency.Routine (Course)
open PikeAnalysis.Validation (Draft Miss Target)

/-! ## What a validation leaves -/

/-- A change of the state that stores nothing, counts nothing and publishes nothing.  Everything
that a validation does before it commits is of this kind, so what the stores and the list of
published diagnostics show does not depend on how far a validation has come. -/
structure Untouched (s s' : State) : Prop where
  documents : s'.stores.documents = s.stores.documents
  programs : s'.stores.programs = s.stores.programs
  closings : s'.stores.closings = s.stores.closings
  completed : s'.stores.completed = s.stores.completed
  published : s'.published = s.published

/-- A change that stores the diagnostics of a version of a document, and its program if there is
one. -/
structure Files (uri : String) (version : Int) (text : String)
    (ds : List Diagnostic) (s s' : State) :
    Prop where
  entry : ∃ e, s'.stores.documents.get? uri = some e ∧ e.uri = uri ∧ e.version = version ∧
    e.text = text ∧ e.diagnostics = ds
  others : ∀ other, other ≠ uri → s'.stores.documents.get? other = s.stores.documents.get? other
  programs : s'.stores.programs = s.stores.programs ∨ ∃ info, info.uri = uri ∧
    info.version = version ∧ s'.stores.programs = (s.stores.programs.set info).1
  closings : s'.stores.closings = s.stores.closings
  completed : s'.stores.completed = s.stores.completed
  published : s'.published = s.published

/-- A change that publishes diagnostics once, if there is anybody to publish them to.  The stores
stay as the commitment has left them.  Whether the diagnostics arrive is the sink's affair and is
not told apart here. -/
structure Hands (uri : String) (ds : List Diagnostic) (s s' : State) : Prop where
  stores : s'.stores = s.stores
  published : s'.published = s.published ++ if s.sink = .absent then [] else [(uri, ds)]

/-- A change that counts a validation.  It is the last thing a validation does, after the sink has
been waited for, and nothing else raises the count. -/
structure Completes (s s' : State) : Prop where
  documents : s'.stores.documents = s.stores.documents
  programs : s'.stores.programs = s.stores.programs
  closings : s'.stores.closings = s.stores.closings
  completed : s'.stores.completed = s.stores.completed + 1
  published : s'.published = s.published

/-- Moves that store the diagnostics of a version of a document once and then publish them once, and
leave everything untouched before and after, up to the moves `rest`. -/
def Delivers (uri : String) (version : Int) (text : String) (ds : List Diagnostic)
    (moves rest : List (Move State Trouble Value)) : Prop :=
  ∃ before check stored handed after,
    moves = before ++ .own check stored :: .own stored handed :: (after ++ rest) ∧
      (∀ a b, .own a b ∈ before → Untouched a b) ∧ Files uri version text ds check stored ∧
      Hands uri ds stored handed ∧ ∀ a b, .own a b ∈ after → Untouched a b

/-- A later version of a document is stored.  Whoever stored it, the validation that is about to
commit an earlier one finds it and gives up. -/
def Superseded (uri : String) (version : Int) (s : State) : Prop :=
  ∃ e, s.stores.documents.get? uri = some e ∧ version < e.version

variable {s s' s'' : State} {uri text : String} {version : Int}

theorem Untouched.of_aside (h : Aside s s') : Untouched s s' :=
  ⟨h.documents, h.programs, h.closings, h.completed, h.published⟩

/-! ## The final check -/

/-- What a validation does up to its final check: the draft that it is going to commit with the
positions of the names, or nothing if there is no analysis. -/
def prepared (uri : String) (version : Int) (text : String) :
    Act (Option (Draft × PositionIndex)) := do
  let target ← Routine.read fun (s : State) => Validation.start s.stores uri version text
  match ← analyze target with
  | .error miss =>
    Routine.modify fun (s : State) =>
      let (stores, log) := Validation.missed s.stores miss
      { s with stores }.note log
    return none
  | .ok analysis =>
    let draft ← Routine.act fun (s : State) =>
      let (stores, draft) := Validation.draft s.stores s.settings.maxProblems target analysis
      ({ s with stores }, draft)
    let positions ← buildPositions text draft.table.names draft.tokens true
    return some (draft, positions)

/-- What follows once diagnostics have been stored.  The stores have been written by then; what is
left is the sink and the count. -/
def delivery (uri : String) (diagnostics : List Diagnostic) : Act (Option (List Diagnostic)) := do
  publish uri diagnostics
  Routine.modify fun (s : State) => { s with stores := Validation.complete s.stores }
  return some diagnostics

/-- The final check of a validation, and what follows it.  There is no wait between the check and
the storing, as both are in one change. -/
def finalCheck (uri : String) : Option (Draft × PositionIndex) → Act (Option (List Diagnostic))
  | none => return none
  | some (draft, positions) => do
    match ← Routine.act (commit draft positions) with
    | none => return none
    | some diagnostics => delivery uri diagnostics

theorem validateVersion_eq (uri : String) (version : Int) (text : String) :
    validateVersion uri version text = (prepared uri version text).andThen (finalCheck uri) := by
  unfold validateVersion prepared
  simp only [Routine.bind_eq_andThen, Routine.andThen_assoc]
  congr 1
  funext target
  congr 1
  funext analysis
  cases analysis with
  | error miss => rfl
  | ok analysis =>
    simp only [Routine.andThen_assoc]
    rfl

/-! ## Up to the final check -/

/-- The contract of a routine that leaves everything untouched, whatever happens while it waits. -/
def untouching : Contract State Job where
  step := Untouched
  waits _ := True
  pause _ := True
  renews _ := True

theorem obliging_untouching : Obliging untouching where
  waits _ := trivial
  aside _ _ _ h := ⟨.of_aside h, trivial⟩
  renews _ _ := trivial

/-- What a validation has drafted is of its version, and of the state in which it began. -/
def Drafted (uri : String) (version : Int) (text : String) (first : State) :
    Ending Trouble (Option (Draft × PositionIndex)) → Prop
  | .value (some (draft, _)) => draft.target = Validation.start first.stores uri version text
  | _ => True

/-- The preparation leaves everything untouched, and drafts what it was asked for. -/
theorem keeps_prepared (uri : String) (version : Int) (text : String) (first : State) :
    (prepared uri version text).Keeps untouching
      (fun reached _ => Drafted uri version text first reached) first := by
  unfold prepared
  refine Routine.keeps_read_andThen ?_
  have hanalyze := obliging_untouching.asks.analyze
    (Validation.start first.stores uri version text) first trivial
  refine hanalyze.andThen (fun analysis s _ => ?_) (fun _ _ _ => trivial) fun _ _ => trivial
  cases analysis with
  | error miss =>
    obtain ⟨hdocuments, hprograms, hclosings⟩ := Validation.missed_eq s.stores miss
    exact ⟨⟨hdocuments, hprograms, hclosings, Validation.completed_missed _ _, rfl⟩, trivial⟩
  | ok analysis =>
    refine Routine.keeps_act_andThen ⟨rfl, rfl, rfl, rfl, rfl⟩ ?_
    have hpositions := obliging_untouching.asks.buildPositions text
      (Validation.draft s.stores s.settings.maxProblems
        (Validation.start first.stores uri version text) analysis).2.table.names
      (Validation.draft s.stores s.settings.maxProblems
        (Validation.start first.stores uri version text) analysis).2.tokens true
    exact (hpositions _ trivial).andThen (fun positions t _ => rfl) (fun _ _ _ => trivial)
      fun _ _ => trivial

/-! ## From the final check on -/

/-- The final check finds a draft void if its document was closed since the validation began, or if
a later version of it is there.  It is read off the state at the final check, and nothing that
happens later can make a draft void. -/
def Void (uri : String) (version : Int) (first check : State) : Prop :=
  check.stores.closingsOf uri ≠ first.stores.closingsOf uri ∨ Superseded uri version check

theorem isStale_iff {draft : Draft} {target : Target} (drafted : draft.target = target)
    (positions : PositionIndex) (s : State) :
    s.stores.documents.isStale (draft.entry positions) = true ↔
      Superseded target.uri target.version s := by
  subst drafted
  rw [DocumentCache.isStale, show (draft.entry positions).uri = draft.target.uri from rfl,
    Superseded]
  cases s.stores.documents.get? draft.target.uri with
  | none => simp
  | some e =>
    simp only [Option.some.injEq, exists_eq_left']
    exact decide_eq_true_iff

/-- A void draft is dropped.  The state stays as it is, and there are no diagnostics to be
published. -/
theorem commit_of_void {draft : Draft} {first check : State}
    (drafted : draft.target = Validation.start first.stores uri version text)
    (void : Void uri version first check) (positions : PositionIndex) :
    commit draft positions check = (check, none) := by
  have discarded : Validation.commit check.stores draft positions check.now = .discarded := by
    cases hcommit : Validation.commit check.stores draft positions check.now with
    | discarded => rfl
    | stored stores log =>
      obtain ⟨closings, fresh⟩ := Validation.commit_stored_iff.mp ⟨stores, log, hcommit⟩
      rcases void with closed | superseded
      · rw [drafted] at closings
        exact absurd closings closed
      · have stale := (isStale_iff drafted positions check).mpr superseded
        rw [fresh] at stale
        cases stale
  rw [commit, discarded]

/-- A draft that is not void is stored.  The stores are written in this one step, and the
diagnostics of the draft are what is published. -/
theorem commit_of_valid {draft : Draft} {first check : State}
    (drafted : draft.target = Validation.start first.stores uri version text)
    (valid : ¬ Void uri version first check) (positions : PositionIndex) :
    (commit draft positions check).2 = some draft.diagnostics ∧
      Files uri version text draft.diagnostics check (commit draft positions check).1 := by
  obtain ⟨closings, current⟩ := not_or.mp valid
  have fresh : check.stores.documents.isStale (draft.entry positions) = false := by
    rw [Bool.eq_false_iff, ne_eq, isStale_iff drafted]
    exact current
  have same : check.stores.closingsOf draft.target.uri = draft.target.closings := by
    rw [drafted]
    exact not_not.mp closings
  obtain ⟨stores, log, stored⟩ :=
    (@Validation.commit_stored_iff _ _ positions check.now).mpr ⟨same, fresh⟩
  have huri : draft.target.uri = uri := congrArg Target.uri drafted
  have hversion : draft.target.version = version := congrArg Target.version drafted
  have htext : draft.target.text = text := congrArg Target.text drafted
  rw [commit, stored]
  refine ⟨rfl, ⟨draft.entry positions, ?_, huri, hversion, htext, rfl⟩, fun other hne => ?_, ?_,
    Validation.closings_commit stored, Validation.completed_commit stored, rfl⟩
  · rw [← huri]
    exact Validation.commit_self stored
  · rw [← huri] at hne
    exact (Validation.commit_of_ne hne stored).1
  · rcases Validation.programs_commit stored with same | ⟨i, -, set⟩
    · exact .inl same
    · exact .inr ⟨draft.programInfo i check.now, huri, hversion, set⟩

theorem hands_hand (uri : String) (ds : List Diagnostic) (s : State) :
    Hands uri ds s (hand uri ds s).1 where
  stores := (Closing.hand_eq uri ds s).2.2
  published := by
    unfold hand
    cases s.sink with
    | absent => exact (List.append_nil _).symm
    | accepts | fails | slow => rfl

/-- Waiting for the sink leaves everything untouched, and does not fail. -/
theorem keeps_awaitSink (sink : Sink) (s : State) :
    (awaitSink sink).Keeps untouching (fun reached _ => ∀ why, reached ≠ .error why) s := by
  cases sink with
  | absent | accepts => exact nofun
  | fails => exact ⟨⟨rfl, rfl, rfl, rfl, rfl⟩, nofun⟩
  | slow =>
    have drawn : Untouched s (delay s).1 := .of_aside (aside_delay s)
    refine Routine.keeps_act_andThen (c := untouching) drawn ?_
    refine ⟨trivial, trivial, fun ending t _ => ?_⟩
    dsimp only
    split
    · exact nofun
    · exact ⟨⟨rfl, rfl, rfl, rfl, rfl⟩, nofun⟩
    · exact ⟨⟨rfl, rfl, rfl, rfl, rfl⟩, nofun⟩
    · exact nofun

/-! ## Whole validations -/

/-- What becomes of diagnostics once they are stored: they are published, and unless the wait for
the sink is cancelled the validation is counted. -/
inductive Outcome (uri : String) (ds : List Diagnostic) (stored : State) :
    List (Move State Trouble Value) → State → Ending Trouble (Option (List Diagnostic)) → Prop
  | cancelled {handed last : State} {after : List (Move State Trouble Value)}
      (hands : Hands uri ds stored handed) (untouched : ∀ a b, .own a b ∈ after → Untouched a b) :
      Outcome uri ds stored (.own stored handed :: after) last .cancelled
  | counted {handed counted last : State} {after : List (Move State Trouble Value)}
      (hands : Hands uri ds stored handed) (untouched : ∀ a b, .own a b ∈ after → Untouched a b)
      (completes : Completes counted last) :
      Outcome uri ds stored (.own stored handed :: (after ++ [.own counted last])) last
        (.value (some ds))

variable {first last : State} {moves : List (Move State Trouble Value)}
  {ending : Ending Trouble (Option (List Diagnostic))}

theorem outcome_of_course {ds : List Diagnostic} {stored : State}
    (course : Course (delivery uri ds) stored moves last ending) :
    Outcome uri ds stored moves last ending := by
  unfold delivery publish at course
  simp only [Routine.bind_eq_andThen, Routine.andThen_assoc] at course
  obtain ⟨moves, rfl, rest⟩ := course.of_act
  rw [Routine.andThen_eq_onEnd] at rest
  obtain ⟨after, counted, reached, final, rfl, waited, finished⟩ := rest.of_onEnd
  obtain ⟨unfailed, untouched⟩ := waited.own_of_keeps (fun _ => trivial) (keeps_awaitSink _ _)
  cases reached with
  | error why => exact absurd rfl (unfailed why)
  | cancelled =>
    cases finished
    rw [List.append_nil]
    exact .cancelled (hands_hand uri ds stored) untouched
  | value a =>
    have counting :
        Course
          ((Routine.act fun s : State =>
            ({ s with stores := Validation.complete s.stores }, ())).andThen
        fun _ => .done (some ds)) counted final last ending := finished
    obtain ⟨final, rfl, ended⟩ := counting.of_act
    cases ended
    exact .counted (hands_hand uri ds stored) untouched ⟨rfl, rfl, rfl, rfl, rfl⟩

/-- What a validation comes to at its final check, by what it has drafted: it ends without one, or
finds its draft void, or stores it.  The three cases are a validation without analysis, one that is
void, and one that stores. -/
inductive Verdict (uri : String) (version : Int) (text : String) (first check : State) :
    Ending Trouble (Option (Draft × PositionIndex)) → List (Move State Trouble Value) → State →
      Ending Trouble (Option (List Diagnostic)) → Prop
  | failed (why : Trouble) : Verdict uri version text first check (.error why) [] check (.error why)
  | cancelled : Verdict uri version text first check .cancelled [] check .cancelled
  | missed : Verdict uri version text first check (.value none) [] check (.value none)
  | discarded {drafted : Draft × PositionIndex} (void : Void uri version first check) :
      Verdict uri version text first check (.value (some drafted)) [.own check check] check
        (.value none)
  | stored {drafted : Draft × PositionIndex} {ds : List Diagnostic} {stored last : State}
      {rest : List (Move State Trouble Value)} {ending : Ending Trouble (Option (List Diagnostic))}
      (valid : ¬ Void uri version first check) (files : Files uri version text ds check stored)
      (outcome : Outcome uri ds stored rest last ending) :
      Verdict uri version text first check (.value (some drafted))
        (.own check stored :: rest) last ending

/-- A validation is a preparation that leaves everything untouched, and a verdict. -/
theorem verdict_of_course
    (course : Course (validateVersion uri version text) first moves last ending) :
    ∃ before check reached after, moves = before ++ after ∧
      Course (prepared uri version text) first before check reached ∧
      (∀ a b, .own a b ∈ before → Untouched a b) ∧
      Verdict uri version text first check reached after last ending := by
  rw [validateVersion_eq, Routine.andThen_eq_onEnd] at course
  obtain ⟨before, check, reached, after, hmoves, hprepared, hcheck⟩ := course.of_onEnd
  obtain ⟨drafted, own⟩ :=
    hprepared.own_of_keeps (fun _ => trivial) (keeps_prepared uri version text first)
  refine ⟨before, check, reached, after, hmoves, hprepared, own, ?_⟩
  -- A preparation that fails, is cancelled or finds nothing is the whole validation.
  cases reached with
  | error why =>
    cases hcheck
    exact .failed why
  | cancelled =>
    cases hcheck
    exact .cancelled
  | value found =>
    cases found with
    | none =>
      cases hcheck
      exact .missed
    | some found =>
      obtain ⟨draft, positions⟩ := found
      have final :
          Course ((Routine.act (commit draft positions)).andThen fun stored => match stored with
        | none => .done none
        | some ds => delivery uri ds) check after last ending := hcheck
      obtain ⟨rest, rfl, stored⟩ := final.of_act
      -- Otherwise the final check decides, and only a draft that is valid is stored.
      by_cases void : Void uri version first check
      · rw [commit_of_void drafted void] at stored ⊢
        cases stored
        exact .discarded void
      · obtain ⟨result, files⟩ := commit_of_valid drafted void positions
        rw [result] at stored
        exact .stored void files (outcome_of_course stored)

/-- The document was closed while a validation waited.  It may have been closed several times, or
opened again since; only the number of closings is compared. -/
def Forgets (uri : String) (moves : List (Move State Trouble Value)) : Prop :=
  ∃ a b e, .aside a b e ∈ moves ∧ a.stores.closingsOf uri < b.stores.closingsOf uri

instance : Decidable (Forgets uri moves) :=
  decidable_of_iff (moves.any (fun
      | .own _ _ => false
      | .aside a b _ => decide (a.stores.closingsOf uri < b.stores.closingsOf uri)) = true) <| by
    rw [List.any_eq_true]
    constructor
    · rintro ⟨move, hmem, hlt⟩
      cases move with
      | own => cases hlt
      | aside a b e => exact ⟨a, b, e, hmem, of_decide_eq_true hlt⟩
    · rintro ⟨a, b, e, hmem, hlt⟩
      exact ⟨_, hmem, decide_eq_true hlt⟩

/-- No closing of a document is taken back while a validation waits.  That is all that is asked of
what others do in the meantime, and what every operation of the engine is shown to respect. -/
def Patient (moves : List (Move State Trouble Value)) : Prop :=
  ∀ a b e uri, .aside a b e ∈ moves → a.stores.closingsOf uri ≤ b.stores.closingsOf uri

/-- A state in which a validation makes its final check, after the moves `before`. -/
def ChecksAt (uri : String) (version : Int) (text : String) (first : State)
    (before : List (Move State Trouble Value)) (check : State)
    (moves : List (Move State Trouble Value)) :
    Prop :=
  ∃ after drafted, moves = before ++ after ∧
    Course (prepared uri version text) first before check (.value (some drafted))

/-- The closings that a course counts up.  They never go back, and they go up if the document is
forgotten on the way. -/
theorem closings_of_course {α : Type} {r : Act α} {s t : State} {e : Ending Trouble α}
    (course : Course r s moves t e) (own : ∀ a b, .own a b ∈ moves → Untouched a b)
    (patient : Patient moves) (uri : String) :
    s.stores.closingsOf uri ≤ t.stores.closingsOf uri ∧
      (Forgets uri moves → s.stores.closingsOf uri < t.stores.closingsOf uri) := by
  -- The validation itself closes nothing, so the count only changes in its waits.
  induction course with
  | done | fail | cancelled =>
    exact ⟨Nat.le_refl _, fun ⟨a, b, e, hmem, hlt⟩ => absurd hmem List.not_mem_nil⟩
  | get rest ih => exact ih own patient
  | @set _ s s' t rest _ course ih =>
    have kept : s'.stores.closingsOf uri = s.stores.closingsOf uri :=
      Stores.closingsOf_congr (own s s' List.mem_cons_self).closings uri
    obtain ⟨grown, forgotten⟩ := ih (fun a b h => own a b (List.mem_cons_of_mem _ h))
      fun a b e u h => patient a b e u (List.mem_cons_of_mem _ h)
    rw [kept] at grown forgotten
    refine ⟨grown, fun ⟨a, b, e, hmem, hlt⟩ => forgotten ⟨a, b, e, ?_, hlt⟩⟩
    simpa using hmem
  | @wait _ _ s s' t e rest _ course ih =>
    have waited := patient s s' e uri List.mem_cons_self
    obtain ⟨grown, forgotten⟩ := ih (fun a b h => own a b (List.mem_cons_of_mem _ h))
      fun a b e u h => patient a b e u (List.mem_cons_of_mem _ h)
    refine ⟨Nat.le_trans waited grown, fun ⟨a, b, e', hmem, hlt⟩ => ?_⟩
    rcases List.mem_cons.mp hmem with heq | hmem
    · cases heq
      exact Nat.lt_of_lt_of_le hlt grown
    · exact Nat.lt_of_le_of_lt waited (forgotten ⟨a, b, e', hmem, hlt⟩)

/-- A validation makes its final check in one state at most, in which it finds its draft void if the
document was closed while it waited before, or if a later version is there. -/
theorem ending_of_void {before after waited : List (Move State Trouble Value)}
    {check checked : State} {reached : Ending Trouble (Option (Draft × PositionIndex))}
    (hprepared : Course (prepared uri version text) first before check reached)
    (own : ∀ a b, .own a b ∈ before → Untouched a b)
    (verdict : Verdict uri version text first check reached after last ending)
    (checks : ChecksAt uri version text first waited checked (before ++ after))
    (patient : Patient (before ++ after))
    (void : Forgets uri waited ∨ Superseded uri version checked) : ending = .value none := by
  obtain ⟨after', drafted, same, hprepared'⟩ := checks
  obtain ⟨rfl, rfl, rfl⟩ := hprepared.unique hprepared' same
  have found : Void uri version first check := by
    refine void.imp (fun forgets => ?_) id
    exact Nat.ne_of_gt ((closings_of_course hprepared own
      (fun a b e u h => patient a b e u (List.mem_append_left _ h)) uri).2 forgets)
  cases verdict with
  | discarded => rfl
  | stored valid => exact absurd found valid

/-- A validation is atomic, whatever happens while it waits.  One that ends without diagnostics or
fails has left everything untouched.  It ends without diagnostics if the document was closed before
its final check, or if a later version is stored then.  One that ends with diagnostics has stored
one entry with them and handed them to the sink once, has left everything else untouched, and is
counted in its last move.  A validation that is cancelled has left everything untouched, or has come
as far as to wait for the sink. -/
theorem validation_is_atomic
    (course : Course (validateVersion uri version text) first moves last ending)
    (patient : Patient moves) :
    (ending = .value none ∨ (∃ why, ending = .error why) → ∀ a b, .own a b ∈ moves →
      Untouched a b) ∧
      (∀ before check, ChecksAt uri version text first before check moves →
        Forgets uri before ∨ Superseded uri version check → ending = .value none) ∧
      (∀ ds, ending = .value (some ds) → ∃ counted,
        Delivers uri version text ds moves [.own counted last] ∧ Completes counted last) ∧
      (ending = .cancelled → (∀ a b, .own a b ∈ moves → Untouched a b) ∨
        ∃ ds, Delivers uri version text ds moves []) := by
  -- A validation is a preparation and a verdict, so there is one case for each verdict.
  obtain ⟨before, check, reached, after, rfl, hprepared, own, verdict⟩ := verdict_of_course course
  have ended (none : after = []) (a b : State) (hmem : .own a b ∈ before ++ after) :
      Untouched a b := by
    rw [none, List.append_nil] at hmem
    exact own a b hmem
  refine ⟨fun hnone a b hmem => ?_,
    fun waited checked checks void => ending_of_void hprepared own verdict checks patient void,
    fun ds hds => ?_, fun hcancelled => ?_⟩
  · cases verdict with
    | failed | cancelled | missed => exact ended rfl a b hmem
    | discarded void =>
      rcases List.mem_append.mp hmem with hmem | hmem
      · exact own a b hmem
      · cases List.mem_singleton.mp hmem
        exact ⟨rfl, rfl, rfl, rfl, rfl⟩
    | stored valid files outcome => cases outcome <;> simp at hnone
  · cases verdict with
    | failed | cancelled | missed | discarded => cases hds
    | stored valid files outcome =>
      cases outcome with
      | cancelled => cases hds
      | @counted handed counted _ after hands untouched completes =>
        cases hds
        exact ⟨counted, ⟨before, check, _, handed, after, rfl, own, files, hands, untouched⟩,
          completes⟩
  · cases verdict with
    | failed | missed | discarded => cases hcancelled
    | cancelled => exact .inl (ended rfl)
    | stored valid files outcome =>
      cases outcome with
      | counted => cases hcancelled
      | @cancelled handed _ after hands untouched =>
        refine .inr ⟨_, before, check, _, handed, after, ?_, own, files, hands, untouched⟩
        rw [List.append_nil]

/-- A script in which no closing of a document is taken back makes for patient courses. -/
theorem patient_of_play {α : Type} {r : Act α} {s t : State} {e : Ending Trouble α}
    {script : List ((State → State) × Ending Trouble Value)}
    (played : r.play s script = some (moves, t, e))
    (onward : ∀ scene ∈ script, ∀ s uri, s.stores.closingsOf uri ≤
      (scene.1 s).stores.closingsOf uri) :
    Course r s moves t e ∧ Patient moves := by
  obtain ⟨course, scripted⟩ := Routine.course_of_play played
  refine ⟨course, fun a b e uri hmem => ?_⟩
  obtain ⟨f, hscene, rfl⟩ := scripted a b e hmem
  exact onward (f, e) hscene a uri

/-- A validation that has been played.  It is nothing if the script runs out before the validation
has ended. -/
abbrev Rehearsal : Type :=
  Option (List (Move State Trouble Value) × State × Ending Trouble (Option (List Diagnostic)))

/-- Plays the validation of a document to the answer `{}` of the worker, before which something may
happen, and to the end of a slow sink, before which the document is closed. -/
def rehearse (meanwhile : State → State) : Rehearsal :=
  (validateVersion "file:///a.pike" 1 "int x;").play (opening {} 1000 1000 desk .slow).state
    [(meanwhile, .value (.json (.obj []))),
      (fun s => { s with stores := s.stores.closed "file:///a.pike" }, .value (.taken true))]

/-- Whether a rehearsal ends without diagnostics. -/
def endsEmpty : Rehearsal → Bool
  | some (_, _, .value none) => true
  | _ => false

/-- Whether a rehearsal ends with diagnostics. -/
def endsPublished : Rehearsal → Bool
  | some (_, _, .value (some _)) => true
  | _ => false

theorem course_of_rehearse {meanwhile : State → State}
    (onward : ∀ s uri, s.stores.closingsOf uri ≤ (meanwhile s).stores.closingsOf uri)
    (played : rehearse meanwhile = some (moves, last, ending)) :
    Course (validateVersion "file:///a.pike" 1 "int x;")
      (opening {} 1000 1000 desk .slow).state moves last
      ending ∧ Patient moves := by
  refine patient_of_play played fun scene hscene s uri => ?_
  rcases List.mem_cons.mp hscene with rfl | hscene
  · exact onward s uri
  · cases List.mem_singleton.mp hscene
    rw [Stores.closingsOf_closed]
    exact Nat.le_add_right _ _

/-- A validation whose document is closed while it waits for the worker ends without diagnostics and
leaves everything untouched; one whose document is closed while the sink takes its diagnostics has
stored them. -/
theorem validations_of_a_closed_and_of_an_open_document :
    (∃ moves last, Course (validateVersion "file:///a.pike" 1 "int x;")
        (opening {} 1000 1000 desk .slow).state moves last (.value none) ∧
      ∀ a b, .own a b ∈ moves → Untouched a b) ∧
    ∃ moves last ds counted, Course (validateVersion "file:///a.pike" 1 "int x;")
        (opening {} 1000 1000 desk .slow).state moves last (.value (some ds)) ∧
      Delivers "file:///a.pike" 1 "int x;" ds moves [.own counted last] ∧
        Completes counted last := by
  constructor
  · have hends :
        endsEmpty (rehearse fun s => { s with stores := s.stores.closed "file:///a.pike" }) =
          true := by
      decide +kernel
    unfold endsEmpty at hends
    split at hends
    · next moves last played =>
      obtain ⟨course, patient⟩ := course_of_rehearse (fun s uri => by
        rw [Stores.closingsOf_closed]
        exact Nat.le_add_right _ _) played
      exact ⟨moves, last, course, (validation_is_atomic course patient).1 (.inl rfl)⟩
    · cases hends
  · have hends : endsPublished (rehearse id) = true := by decide +kernel
    unfold endsPublished at hends
    split at hends
    · next moves last ds played =>
      obtain ⟨course, patient⟩ := course_of_rehearse (fun s uri => Nat.le_refl _) played
      obtain ⟨counted, delivers, completes⟩ := (validation_is_atomic course patient).2.2.1 ds rfl
      exact ⟨moves, last, ds, counted, course, delivers, completes⟩
    · cases hends

end PikeAnalysis.Engine
