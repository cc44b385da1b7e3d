import PikeAnalysis.Proofs.Diagnostic.Limit

/-!
# Where diagnostics begin and end

Every diagnostic lies on lines of the document, counted from zero, and none ends before it begins.
Its characters are counted from zero as well, with one exception: a report of the compiler is marked
from its column on, and a column that is negative stays negative
(`ranges_are_proper_unless_left_of_text`).

An editor takes a range with a negative character for an error, so it matters which can occur.
Columns of the compiler count from one, and an absent one is taken for the first; every other
conversion keeps the result from going below zero, and the start of a mark does not.  The theorem
names the reports for which it shows.
-/

namespace PikeAnalysis

theorem Position.before_iff {p q : Position} :
    p.before q = true ↔ p.line < q.line ∨ (p.line = q.line ∧ p.character < q.character) := by
  simp [Position.before]

theorem Position.not_before_iff {p q : Position} :
    p.before q = false ↔ q.line < p.line ∨ (q.line = p.line ∧ q.character ≤ p.character) := by
  rw [← Bool.not_eq_true, Position.before_iff]
  omega

/-- A range on lines of a document that does not end before it begins.  Nothing is said about its
characters, which may be negative: that is what the worker's columns can lead to where they are not
clamped. -/
structure Range.Ordered (r : Range) : Prop where
  start_line : 0 ≤ r.start.line
  stop_line : 0 ≤ r.stop.line
  stop_not_before : r.stop.before r.start = false

/-- A range whose characters lie in their lines, too.  Editors may rely on this one; which
diagnostics are proper depends on the columns that the worker gives. -/
structure Range.Proper (r : Range) : Prop extends r.Ordered where
  start_character : 0 ≤ r.start.character
  stop_character : 0 ≤ r.stop.character

theorem Range.Proper.of_line {line start stop : Int} (hline : 0 ≤ line) (hstart : 0 ≤ start)
    (hstop : start ≤ stop) : Range.Proper ⟨⟨line, start⟩, ⟨line, stop⟩⟩ where
  start_line := hline
  stop_line := hline
  stop_not_before := Position.not_before_iff.mpr (.inr ⟨rfl, hstop⟩)
  start_character := hstart
  stop_character := Int.le_trans hstart hstop

namespace Diagnostic

variable {a : Wire.Analysis} {text : List Char} {uri : String} {limit : Int}
  {lines : List (List Char)} {d : Diagnostic} {r : Wire.Diagnostic} {p : Wire.Position} {c : Int}

/-! ## Columns -/

def NegativeColumn (p : Wire.Position) : Prop :=
  ∃ c, p.column = some c ∧ c < 0

theorem knownColumn?_eq_some_iff :
    knownColumn? p = some c ↔ ∃ column, p.column = some column ∧ column ≠ 0 ∧ c = column - 1 := by
  unfold knownColumn?
  cases p.column with
  | none => simp
  | some column => by_cases h : column = 0 <;> simp [h, eq_comm]

theorem neg_of_knownColumn?_iff (h : knownColumn? p = some c) : c < 0 ↔ NegativeColumn p := by
  obtain ⟨column, hcolumn, hne, rfl⟩ := knownColumn?_eq_some_iff.mp h
  simp only [NegativeColumn, hcolumn, Option.some.injEq, exists_eq_left']
  omega

theorem not_negativeColumn_of_knownColumn? (h : knownColumn? p = none) : ¬ NegativeColumn p := by
  rintro ⟨column, hcolumn, hneg⟩
  have hknown : knownColumn? p = some (column - 1) :=
    knownColumn?_eq_some_iff.mpr ⟨column, hcolumn, Int.ne_of_lt hneg, rfl⟩
  rw [h] at hknown
  cases hknown

/-! ## Reports of the compiler -/

/-- Only a negative column puts the start of a mark in front of its line. -/
theorem markStart_neg_iff (line : List Char) (p : Wire.Position) :
    markStart line p < 0 ↔ NegativeColumn p := by
  unfold markStart
  cases hknown : knownColumn? p with
  | some c => exact neg_of_knownColumn?_iff hknown
  | none =>
    have hlength : (Text.trimLeft Text.isBlank line).length ≤ line.length :=
      (List.dropWhile_suffix _).length_le
    refine iff_of_false (Int.not_lt.mpr ?_) (not_negativeColumn_of_knownColumn? hknown)
    dsimp only
    split <;> omega

theorem le_markStop (line : List Char) (start : Int) : start ≤ markStop line start :=
  Int.le_max_right _ _

/-- The line, counted from zero, on which a report is shown.  A line number below one is taken for
the first line. -/
def shownLine (r : Wire.Diagnostic) : Int :=
  max 0 (r.position.line - 1)

/-- The end that a report gives itself, if its column is known.  An end without a column is ignored,
however far down its line is. -/
def GivesStop (r : Wire.Diagnostic) (stop : Position) : Prop :=
  ∃ e c, r.endPosition = some e ∧ knownColumn? e = some c ∧ stop = ⟨max 0 (e.line - 1), c⟩

theorem GivesStop.unique {stop other : Position} (h : GivesStop r stop) (h' : GivesStop r other) :
    stop = other := by
  obtain ⟨e, c, hend, hknown, rfl⟩ := h
  obtain ⟨e', c', hend', hknown', rfl⟩ := h'
  obtain rfl : e = e' := Option.some.inj (hend.symm.trans hend')
  obtain rfl : c = c' := Option.some.inj (hknown.symm.trans hknown')
  rfl

/-- A report begins where its mark does.  It ends where it says if that is behind its start, and
with its mark otherwise. -/
theorem range_ofCompiler (lines : List (List Char)) (r : Wire.Diagnostic) :
    ∃ line :
    List Char, (ofCompiler lines r).range.start = ⟨shownLine r, markStart line r.position⟩ ∧
      ((∃ stop, GivesStop r stop ∧ (ofCompiler lines r).range.start.before stop = true ∧
          (ofCompiler lines r).range.stop = stop) ∨
        ((∀ stop, GivesStop r stop → (ofCompiler lines r).range.start.before stop = false) ∧
          (ofCompiler lines r).range.stop =
            ⟨shownLine r, markStop line (markStart line r.position)⟩)) := by
  refine ⟨lines.getD (shownLine r).toNat [], rfl, ?_⟩
  cases hend : r.endPosition with
  | none => exact .inr ⟨by simp [GivesStop, hend], by simp [ofCompiler, hend, shownLine]⟩
  | some e =>
    -- An end may come without a column, and is then as good as none.
    cases hknown : knownColumn? e with
    | none =>
      exact .inr ⟨by simp [GivesStop, hend, hknown], by simp [ofCompiler, hend, hknown, shownLine]⟩
    | some c =>
      have hgiven : ∀ stop, GivesStop r stop ↔ stop = ⟨max 0 (e.line - 1), c⟩ := by
        simp [GivesStop, hend, hknown]
      have hstop : (ofCompiler lines r).range.stop =
          if (ofCompiler lines r).range.start.before ⟨max 0 (e.line - 1), c⟩
            then ⟨max 0 (e.line - 1), c⟩
          else ⟨shownLine r, markStop (lines.getD (shownLine r).toNat [])
            (markStart (lines.getD (shownLine r).toNat []) r.position)⟩ := by
        simp only [ofCompiler, hend, hknown]
        rfl
      split at hstop
      · next hbefore => exact .inl ⟨_, (hgiven _).mpr rfl, hbefore, hstop⟩
      · next hbefore =>
        refine .inr ⟨fun stop hgives => ?_, hstop⟩
        rw [(hgiven stop).mp hgives]
        exact Bool.eq_false_iff.mpr hbefore

theorem ordered_ofCompiler (lines : List (List Char)) (r : Wire.Diagnostic) :
    (ofCompiler lines r).range.Ordered := by
  obtain ⟨line, hstart, hstop⟩ := range_ofCompiler lines r
  have hline : 0 ≤ shownLine r := Int.le_max_left _ _
  rcases hstop with ⟨stop, ⟨e, c, -, -, rfl⟩, hbefore, hstop⟩ | ⟨-, hstop⟩
  · refine ⟨hstart ▸ hline, hstop ▸ Int.le_max_left _ _, ?_⟩
    rw [Position.before_iff] at hbefore
    rw [hstop, Position.not_before_iff]
    omega
  · refine ⟨hstart ▸ hline, hstop ▸ hline, ?_⟩
    rw [hstart, hstop, Position.not_before_iff]
    exact .inr ⟨rfl, le_markStop line _⟩

/-- A report whose column is negative, or that ends on a later line at a negative column.  The
second is possible only for a report that gives its own end. -/
def LeftOfText (r : Wire.Diagnostic) : Prop :=
  NegativeColumn r.position ∨
    ∃ e, r.endPosition = some e ∧ NegativeColumn e ∧ shownLine r < e.line - 1

/-- The characters of a report are counted from zero unless one of its columns is negative. -/
theorem proper_ofCompiler_iff (lines : List (List Char)) (r : Wire.Diagnostic) :
    (ofCompiler lines r).range.Proper ↔ ¬ LeftOfText r := by
  obtain ⟨line, hstart, hstop⟩ := range_ofCompiler lines r
  have hline : 0 ≤ shownLine r := Int.le_max_left _ _
  have hmark := markStart_neg_iff line r.position
  constructor
  · rintro ⟨-, hstartsIn, hstopsIn⟩ (hcolumn | ⟨e, hend, hcolumn, hlater⟩)
    · rw [hstart] at hstartsIn
      exact absurd (hmark.mpr hcolumn) (Int.not_lt.mpr hstartsIn)
    · -- A negative end on a later line is behind the start, so the report ends there.
      obtain ⟨c, hknown⟩ : ∃ c, knownColumn? e = some c :=
        Option.ne_none_iff_exists'.mp fun hnone => not_negativeColumn_of_knownColumn? hnone hcolumn
      have hneg := (neg_of_knownColumn?_iff hknown).mpr hcolumn
      have hgives : GivesStop r ⟨max 0 (e.line - 1), c⟩ := ⟨e, c, hend, hknown, rfl⟩
      rcases hstop with ⟨stop, hgives', -, hstop⟩ | ⟨hnone, -⟩
      · obtain rfl := hgives.unique hgives'
        rw [hstop] at hstopsIn
        exact absurd hneg (Int.not_lt.mpr hstopsIn)
      · have hbefore := hnone _ hgives
        rw [hstart, Position.not_before_iff] at hbefore
        dsimp only at hbefore
        omega
  · intro hnot
    obtain ⟨hcolumn, hstops⟩ := not_or.mp hnot
    have hstartsIn : 0 ≤ markStart line r.position := Int.not_lt.mp fun h => hcolumn (hmark.mp h)
    refine ⟨ordered_ofCompiler lines r, hstart ▸ hstartsIn, ?_⟩
    rcases hstop with ⟨stop, ⟨e, c, hend, hknown, rfl⟩, hbefore, hstop⟩ | ⟨-, hstop⟩
    · rw [hstart, Position.before_iff] at hbefore
      rw [hstop]
      refine Int.not_lt.mp fun hneg => hstops
        ⟨e, hend, (neg_of_knownColumn?_iff hknown).mp hneg, ?_⟩
      dsimp only at hbefore hneg
      omega
    · rw [hstop]
      exact Int.le_trans hstartsIn (le_markStop line _)

/-! ## Variables and failures -/

theorem proper_ofUninitialized (u : Wire.Uninitialized) : (ofUninitialized u).range.Proper := by
  refine Range.Proper.of_line (Int.le_max_left _ _) (Int.le_max_left _ _) ?_
  dsimp only
  split
  · exact Int.le_add_of_nonneg_right (by decide)
  · exact Int.le_add_of_nonneg_right (Int.natCast_nonneg _)

theorem proper_ofFailure (failure : Failure) : (ofFailure failure).range.Proper :=
  Range.Proper.of_line (Int.le_refl 0) (Int.le_refl 0) (Int.le_refl 0)

/-! ## All together -/

theorem sublist_takeUpTo (limit : Int) (out : List Diagnostic) :
    (takeUpTo limit out).Sublist out := by
  unfold takeUpTo
  split <;> exact List.take_sublist _ _

/-- Whatever the limit, what is given has been reported. -/
theorem collect_sublist_reported (a : Wire.Analysis) (text : List Char)
    (uri : String) (limit : Int) :
    (collect a text uri limit).Sublist (reported a text uri) := by
  have hadded :
      (addUpTo limit (failureNotes a uri) (reports a text)).1.Sublist (reported a text uri) := by
    rw [reported_eq, (added_addUpTo limit (failureNotes a uri) (reports a text)).eq_take]
    exact List.take_sublist _ _
  rw [collect_eq]
  split
  · exact hadded
  · exact (sublist_takeUpTo limit _).trans hadded

/-- A diagnostic that is given is a note on a section or a variable, whose range is proper, or a
report of the compiler. -/
theorem proper_or_ofCompiler (h : d ∈ collect a text uri limit) :
    d.range.Proper ∨ ∃ r ∈ compilerReports a, d = ofCompiler (Text.lines text) r := by
  have hreported := (collect_sublist_reported a text uri limit).mem h
  simp only [reported, failureNotes, compilerDiagnostics, List.mem_append,
    List.mem_map, Option.mem_toList, List.mem_filter] at hreported
  rcases hreported with (((⟨m, -, rfl⟩ | ⟨m, -, rfl⟩) | ⟨r, ⟨hr, -⟩, rfl⟩) | ⟨u, -, rfl⟩)
  · exact .inl (proper_ofFailure _)
  · exact .inl (proper_ofFailure _)
  · exact .inr ⟨r, hr, rfl⟩
  · exact .inl (proper_ofUninitialized u)

/-- Every diagnostic that is given lies on lines counted from zero and does not end before it
begins.  Its characters are counted from zero, too, exactly if it is not a report of the compiler
with a negative column.  Notes on failed sections and reports on variables are therefore proper
whatever the worker sends, as their columns are clamped. -/
theorem ranges_are_proper_unless_left_of_text (a : Wire.Analysis) (text : List Char)
    (uri : String) (limit : Int) :
    ∀ d ∈ collect a text uri limit, d.range.Ordered ∧
      (d.range.Proper ↔
        ¬ ∃ r ∈ compilerReports a, LeftOfText r ∧ d = ofCompiler (Text.lines text) r) := by
  intro d hd
  constructor
  · rcases proper_or_ofCompiler hd with hproper | ⟨r, -, rfl⟩
    · exact hproper.toOrdered
    · exact ordered_ofCompiler _ r
  · constructor
    · rintro hproper ⟨r, -, hleft, rfl⟩
      exact (proper_ofCompiler_iff _ r).mp hproper hleft
    · intro hnot
      rcases proper_or_ofCompiler hd with hproper | ⟨r, hr, rfl⟩
      · exact hproper
      · exact (proper_ofCompiler_iff _ r).mpr fun hleft => hnot ⟨r, hr, hleft, rfl⟩

/-- A report on the first line. -/
def reportAt (column : Int) : Wire.Diagnostic :=
  { message := "Undefined identifier y"
    severity := "error"
    position := { column := some column }
    endPosition := none }

/-- An analysis with a report at a column of the line and one at a column in front of it. -/
def reportedTwice : Wire.Analysis where
  parse := some { symbols := [], diagnostics := [reportAt 5, reportAt (-3)], tokens := none }

theorem not_leftOfText_reportAt {column : Int} (h : 0 ≤ column) :
    ¬ LeftOfText (reportAt column) := by
  rintro (⟨c, hc, hneg⟩ | ⟨e, hend, -⟩)
  · obtain rfl : column = c := Option.some.inj hc
    exact absurd hneg (Int.not_lt.mpr h)
  · cases hend

/-- The report at the fifth column is marked from there to the end of the line.  The other one
begins in front of the line. -/
theorem negative_column_stays_negative :
    ∃ d e, collect reportedTwice "int x;".toList "file:///x.pike" 100 = [d, e] ∧
      d.range = ⟨⟨0, 4⟩, ⟨0, 6⟩⟩ ∧ d.range.Proper ∧
      e.range = ⟨⟨0, -4⟩, ⟨0, 6⟩⟩ ∧ e.range.Ordered ∧ ¬ e.range.Proper := by
  have hcollect : collect reportedTwice "int x;".toList "file:///x.pike" 100 =
      [ofCompiler ["int x;".toList] (reportAt 5),
        ofCompiler ["int x;".toList] (reportAt (-3))] := by
    decide +kernel
  have hranges := ranges_are_proper_unless_left_of_text reportedTwice "int x;".toList
    "file:///x.pike" 100
  rw [hcollect] at hranges
  obtain ⟨-, hfifth⟩ := hranges _ List.mem_cons_self
  obtain ⟨hordered, hnegative⟩ := hranges _ (List.mem_cons_of_mem _ List.mem_cons_self)
  refine ⟨_, _, hcollect, by decide +kernel, hfifth.mpr ?_, by decide +kernel,
    hordered, fun hproper => ?_⟩
  · rintro ⟨r, hr, hleft, hsame⟩
    rcases List.mem_pair.mp hr with rfl | rfl
    · exact not_leftOfText_reportAt (by decide) hleft
    · exact absurd hsame (by decide +kernel)
  · have hleft : LeftOfText (reportAt (-3)) := .inl ⟨-3, rfl, by decide⟩
    exact hnegative.mp hproper ⟨_, List.mem_cons_of_mem _ List.mem_cons_self, hleft, rfl⟩

end Diagnostic

end PikeAnalysis
