import Mathlib.Data.List.Basic
import PikeAnalysis.Diagnostic.Collect

/-!
# The limit of diagnostics

`reported` lists all that an analysis has to say about a text.  `collect` gives the first entries of
it, as many as the limit allows.  There is one exception (`Overfull`): the notes on failed sections
are made before the limit is looked at, and where a report follows too many of them, all of them are
kept (`collect_is_cut_at_limit`).

The claim that the limit is kept is false in one case, and the module has both the general law and
the case.  Entries are added up to the limit by a function that stops as soon as there is no room
(`addUpTo`), but the notes on failed sections are there before, and if they are too many the
function ends with them as they are.  There are two sections, so this takes a limit of one.
-/

namespace PikeAnalysis.Diagnostic

variable {limit : Int} {out : List Diagnostic} {more : List (Option Diagnostic)} {a : Wire.Analysis}
  {text : List Char} {uri : String}

/-! ## Adding up to a limit -/

/-- How many entries there are at most when more are added.  Entries that are there already stay
even beyond the limit. -/
def room (limit : Int) (out : List Diagnostic) : Nat :=
  max limit.toNat out.length

theorem room_of_le (h : limit ≤ out.length) : room limit out = out.length := by
  unfold room
  omega

theorem room_of_ge (h : (out.length : Int) ≤ limit) : room limit out = limit.toNat := by
  unfold room
  omega

/-- What comes of adding entries: all that there is room for.  Without the flag it is all of them,
and unless there are none there was room for one. -/
structure Added (limit : Int) (out : List Diagnostic) (more : List (Option Diagnostic))
    (r : List Diagnostic × Bool) : Prop where
  eq_take : r.1 = (out ++ more.filterMap id).take (room limit out)
  full : r.2 = true → more ≠ []
  not_full : r.2 = false → r.1 = out ++ more.filterMap id ∧ (more = [] ∨ (out.length : Int) < limit)

theorem added_addUpTo (limit : Int) (out : List Diagnostic) (more : List (Option Diagnostic)) :
    Added limit out more (addUpTo limit out more) := by
  induction more generalizing out with
  | nil =>
    have hroom : out.length ≤ room limit out := Nat.le_max_right _ _
    exact ⟨by simp [addUpTo, List.take_of_length_le hroom], nofun,
      fun _ => ⟨by simp [addUpTo], .inl rfl⟩⟩
  | cons d? rest ih =>
    rw [addUpTo]
    split
    · next hfull =>
      have hroom : room limit out = out.length := room_of_le hfull
      exact ⟨by simp [hroom], fun _ => List.cons_ne_nil _ _, nofun⟩
    · next hfull =>
      have hless : (out.length : Int) < limit := Int.not_le.mp hfull
      have hroom : room limit (out ++ d?.toList) = room limit out := by
        rw [room_of_ge (Int.le_of_lt hless), room_of_ge]
        cases d? <;> simp <;> omega
      have hentries : (out ++ d?.toList) ++ rest.filterMap id = out ++
        (d? :: rest).filterMap id := by
        cases d? <;> simp
      obtain ⟨htake, -, hall⟩ := ih (out ++ d?.toList)
      rw [hroom, hentries] at htake
      rw [hentries] at hall
      exact ⟨htake, fun _ => List.cons_ne_nil _ _, fun h => ⟨(hall h).1, .inr hless⟩⟩

/-- Once the limit has cut something off, nothing more is added. -/
theorem addUpTo_append (limit : Int) (out : List Diagnostic)
    (more others : List (Option Diagnostic)) :
    addUpTo limit out (more ++ others) =
      if (addUpTo limit out more).2 then addUpTo limit out more
      else addUpTo limit (addUpTo limit out more).1 others := by
  induction more generalizing out with
  | nil => simp [addUpTo]
  | cons d? rest ih =>
    rw [List.cons_append, addUpTo, addUpTo]
    split
    · rfl
    · exact ih _

theorem takeUpTo_of_nonneg (h : 0 ≤ limit) (out : List Diagnostic) :
    takeUpTo limit out = out.take limit.toNat :=
  if_neg (Int.not_lt.mpr h)

/-! ## What an analysis reports -/

/-- The diagnostics of the compiler without noise. -/
def compilerDiagnostics (a : Wire.Analysis) (text : List Char) : List Diagnostic :=
  ((compilerReports a).filter fun d => !isNoise d.message).map (ofCompiler (Text.lines text))

/-- All diagnostics of an analysis: the notes on failed sections, then what the compiler reports,
then the variables that may be read before they are set. -/
def reported (a : Wire.Analysis) (text : List Char) (uri : String) : List Diagnostic :=
  failureNotes a uri ++ compilerDiagnostics a text ++ (a.uninitialized.getD []).map ofUninitialized

/-- A report follows the notes, if only a noisy one.  The limit is looked at before it is known
whether a report is noise, so a noisy one counts as well. -/
def HasReports (a : Wire.Analysis) : Prop :=
  compilerReports a ≠ [] ∨ a.uninitialized.getD [] ≠ []

/-- The reports behind the notes, each unless it is noise. -/
def reports (a : Wire.Analysis) (text : List Char) : List (Option Diagnostic) :=
  ((compilerReports a).map fun d =>
      if isNoise d.message then none else some (ofCompiler (Text.lines text) d)) ++
    (a.uninitialized.getD []).map (some ∘ ofUninitialized)

theorem hasReports_iff : HasReports a ↔ reports a text ≠ [] := by
  simp only [HasReports, reports, ne_eq, List.append_eq_nil_iff, List.map_eq_nil_iff, not_and_or]

theorem reported_eq :
    reported a text uri = failureNotes a uri ++ (reports a text).filterMap id := by
  have hnoise (ds : List Wire.Diagnostic) (lines : List (List Char)) :
      (ds.map fun d => if isNoise d.message then none else some (ofCompiler lines d)).filterMap id =
        (ds.filter fun d => !isNoise d.message).map (ofCompiler lines) := by
    induction ds with
    | nil => rfl
    | cons d rest ih => by_cases h : isNoise d.message <;> simp [h] at ih ⊢ <;> exact ih
  rw [reported, compilerDiagnostics, reports, List.filterMap_append, hnoise, List.append_assoc]
  simp [List.filterMap_map]

theorem collect_eq (a : Wire.Analysis) (text : List Char) (uri : String) (limit : Int) :
    collect a text uri limit =
      if (addUpTo limit (failureNotes a uri) (reports a text)).2
      then (addUpTo limit (failureNotes a uri) (reports a text)).1
      else takeUpTo limit (addUpTo limit (failureNotes a uri) (reports a text)).1 := by
  rw [reports, addUpTo_append, collect]
  dsimp only
  split
  · rfl
  · rfl

/-- As many diagnostics are given as there is room for behind the notes if a report follows them,
and as many as the limit says if none does. -/
theorem collect_eq_take (a : Wire.Analysis) (text : List Char) (uri : String) (h : 0 ≤ limit) :
    collect a text uri limit = (reported a text uri).take
      (if reports a text = [] then limit.toNat else room limit (failureNotes a uri)) := by
  have hadded := added_addUpTo limit (failureNotes a uri) (reports a text)
  rw [collect_eq, reported_eq]
  cases hfull : (addUpTo limit (failureNotes a uri) (reports a text)).2 with
  | true =>
    rw [if_pos rfl, if_neg (hadded.full hfull)]
    exact hadded.eq_take
  | false =>
    obtain ⟨hall, hless⟩ := hadded.not_full hfull
    rw [if_neg Bool.false_ne_true, takeUpTo_of_nonneg h, hall]
    split
    · rfl
    · next hsome => rw [room_of_ge (Int.le_of_lt (hless.resolve_left hsome))]

/-! ## The exception -/

/-- Both sections have failed, a report follows the two notes, and the limit allows one diagnostic.
The report need not be one that would be shown. -/
def Overfull (a : Wire.Analysis) (limit : Int) : Prop :=
  limit = 1 ∧ (a.failure? "parse").isSome ∧ (a.failure? "introspect").isSome ∧ HasReports a

theorem lt_length_failureNotes_iff (h : 1 ≤ limit) : limit < (failureNotes a uri).length ↔
    limit = 1 ∧ (a.failure? "parse").isSome ∧ (a.failure? "introspect").isSome := by
  rw [failureNotes]
  cases a.failure? "parse" <;> cases a.failure? "introspect" <;> simp <;> omega

theorem overfull_iff (h : 1 ≤ limit) :
    Overfull a limit ↔ limit < (failureNotes a uri).length ∧ HasReports a := by
  rw [Overfull, lt_length_failureNotes_iff h, and_assoc, and_assoc]

/-- The diagnostics that are given are the first of those reported, as many as the limit allows.
Only where the limit is one and a report follows the notes on two failed sections, both notes are
given.  `Overfull` is this exception: it is met exactly if the limit is one, both sections have
failed, and anything else was reported. -/
theorem collect_is_cut_at_limit (a : Wire.Analysis) (text : List Char) (uri : String) (limit : Int)
    (h : 1 ≤ limit) :
    (collect a text uri limit = (reported a text uri).take limit.toNat ↔ ¬ Overfull a limit) ∧
    (Overfull a limit →
      collect a text uri limit = failureNotes a uri ∧ (failureNotes a uri).length = 2) := by
  have hcollect := collect_eq_take a text uri (Int.le_trans Int.one_nonneg h)
  have hexcept : Overfull a limit →
      collect a text uri limit = failureNotes a uri ∧ (failureNotes a uri).length = 2 := by
    intro hover
    obtain ⟨hless, hreports⟩ := (overfull_iff h).mp hover
    rw [if_neg (hasReports_iff.mp hreports), room_of_le (Int.le_of_lt hless), reported_eq,
      List.take_left] at hcollect
    refine ⟨hcollect, ?_⟩
    obtain ⟨-, hparse, hintrospect, -⟩ := hover
    obtain ⟨m, hm⟩ := Option.isSome_iff_exists.mp hparse
    obtain ⟨m', hm'⟩ := Option.isSome_iff_exists.mp hintrospect
    simp [failureNotes, hm, hm']
  refine ⟨⟨fun hcut hover => ?_, fun hnot => ?_⟩, hexcept⟩
  · obtain ⟨hnotes, htwo⟩ := hexcept hover
    have hlength := congrArg List.length (hnotes.symm.trans hcut)
    rw [htwo, List.length_take, hover.1] at hlength
    omega
  · rw [hcollect]
    split
    · rfl
    · next hsome =>
      have hroom : (failureNotes a uri).length ≤ limit :=
        Int.not_lt.mp fun hless => hnot ((overfull_iff h).mpr ⟨hless, hasReports_iff.mpr hsome⟩)
      rw [room_of_ge hroom]

/-- An analysis of which two sections have failed and that reports a variable. -/
def failedTwice : Wire.Analysis where
  uninitialized := some [⟨"x may be read before it is set", "warning", none, some "x"⟩]
  failures := [("parse", "no"), ("introspect", "no")]

/-- With a limit of one, two diagnostics are given; with a limit of two, the first two of three. -/
theorem failed_twice_exceeds_limit :
    (collect failedTwice "int x;".toList "file:///x.pike" 1).length = 2 ∧
      collect failedTwice "int x;".toList "file:///x.pike" 2 =
        (reported failedTwice "int x;".toList "file:///x.pike").take 2 := by
  have hover : Overfull failedTwice 1 := by
    refine ⟨rfl, rfl, rfl, .inr ?_⟩
    simp [failedTwice]
  have hone := collect_is_cut_at_limit failedTwice "int x;".toList "file:///x.pike" 1 (by decide)
  have htwo := collect_is_cut_at_limit failedTwice "int x;".toList "file:///x.pike" 2 (by decide)
  obtain ⟨hnotes, hlength⟩ := hone.2 hover
  exact ⟨hnotes ▸ hlength, htwo.1.mpr fun h => absurd h.1 (by decide)⟩

end PikeAnalysis.Diagnostic
