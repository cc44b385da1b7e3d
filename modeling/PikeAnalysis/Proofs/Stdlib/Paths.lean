import PikeAnalysis.Proofs.Text.Trimming
import PikeAnalysis.Stdlib.Module

/-!
# Clean paths

The path of a module is cleaned of the blanks at its ends, and then of the dots.  Blanks that stand
behind dots are brought out by that and stay, so a cleaned path never has a dot at either end, and
it has a blank there exactly if the path was ragged: if dots stand apart from the rest at one of its
ends (`trimmed_cleanPath_iff`).  Cleaning it again then changes it (`cleanPath_cleanPath_iff`).

The functions strip blanks once and dots once, in this order, where one would have to go on until
neither is left.  So they are idempotent on most paths and not on all, and the module says on which:
a path is ragged if behind the blanks at one of its ends there are dots, and behind those a blank
again.  Both ends are treated alike, by reversing the text.
-/

namespace PikeAnalysis.StdlibModule

open Text

/-- Dots. -/
def isDot (c : Char) : Bool :=
  c == '.'

/-- Whether dots at the start of a text, behind blanks perhaps, are apart from the rest by a
blank. -/
def DotsApart (s : List Char) : Prop :=
  ∃ (blanks : Run isBlank) (dots : Run isDot) (c : Char) (rest : List Char),
    s = blanks.text ++ (dots.text ++ c :: rest) ∧ dots.text ≠ [] ∧ isBlank c = true ∧
      allBlank rest = false

/-- Whether dots at one of the ends of a path are apart from the rest.  Dots that are followed by a
name right away are not apart from it. -/
def Ragged (path : String) : Prop :=
  DotsApart path.toList ∨ DotsApart path.toList.reverse

/-- What cleaning leaves of the characters of a path. -/
def cleaned (s : List Char) : List Char :=
  trim isDot (trimBlanks s)

theorem toList_cleanPath (path : String) : (cleanPath path).toList = cleaned path.toList :=
  String.toList_ofList

theorem cleaned_reverse (s : List Char) : cleaned s.reverse = (cleaned s).reverse := by
  rw [cleaned, trimBlanks, trim_reverse, trim_reverse]
  rfl

theorem isDot_of_isBlank {c : Char} (h : isBlank c = true) : isDot c = false := by
  rw [isDot, beq_eq_false_iff_ne]
  rintro rfl
  revert h
  decide

theorem isBlank_of_isDot {c : Char} (h : isDot c = true) : isBlank c = false := by
  rw [eq_of_beq h]
  decide

/-! ## Ragged paths -/

/-- Dots that stand apart in front are taken away, and what stands behind them is left with its
blank. -/
theorem head?_cleaned_of_dotsApart {s : List Char} (h : DotsApart s) :
    ∃ c ∈ (cleaned s).head?, isBlank c = true := by
  obtain ⟨lead, dots, c, rest, rfl, hdots, hblank, hrest⟩ := h
  obtain ⟨trail, htrail⟩ := exists_trimRight_run isBlank rest
  have hleft : trimRight isBlank rest ≠ [] := by
    intro hnil
    rw [hnil, List.nil_append] at htrail
    have hall : allBlank rest = true := by
      rw [htrail]
      exact List.all_eq_true.2 trail.mem
    rw [hall] at hrest
    cases hrest
  have hends : Trimmed isBlank (dots.text ++ c :: trimRight isBlank rest) := by
    constructor
    · rw [List.head?_append_of_ne_nil _ hdots]
      exact fun d hd => isBlank_of_isDot (dots.mem d (List.mem_of_mem_head? hd))
    · rw [List.append_cons, List.getLast?_append_of_ne_nil _ hleft]
      exact getLast?_trimRight
  have houter : lead.text ++ (dots.text ++ c :: rest) =
      lead.text ++ (dots.text ++ c :: trimRight isBlank rest) ++ trail.text := by
    conv_lhs => rw [htrail]
    simp
  have hdot : isDot c = false := isDot_of_isBlank hblank
  -- The dots go in the second pass, and blanks are not looked at again.
  have hinner : trimLeft isDot (dots.text ++ c :: trimRight isBlank rest) =
      [c] ++ trimRight isBlank rest := by
    rw [trimLeft_append (by simpa using hdot), dots.trimLeft_eq_nil]
    rfl
  refine ⟨c, ?_, hblank⟩
  rw [houter, cleaned, trimBlanks, trim_runs lead trail hends, trim, hinner,
    trimRight_append (by simpa using hdot)]
  rfl

/-- A cleaned path starts with a blank if and only if dots stood apart at its start. -/
theorem head?_cleaned_iff {s : List Char} :
    (∃ c ∈ (cleaned s).head?, isBlank c = true) ↔ DotsApart s := by
  refine ⟨?_, head?_cleaned_of_dotsApart⟩
  rintro ⟨c, hc, hblank⟩
  obtain ⟨more, hmore⟩ := List.head?_eq_some_iff.1 hc
  obtain ⟨lead, trail, hs⟩ := exists_runs_trim isBlank s
  obtain ⟨dots, dots', hm⟩ := exists_runs_trim isDot (trim isBlank s)
  have hm : trim isBlank s = dots.text ++ c :: (more ++ dots'.text) := by
    rw [hm, show trim isDot (trim isBlank s) = c :: more from hmore]
    simp
  -- without its outer blanks the path neither starts nor ends with a blank, so dots start it, and
  -- something behind the blank ends it
  have hends := trimmed_trim isBlank s
  rw [hm] at hends hs
  refine ⟨lead, dots, c, more ++ dots'.text ++ trail.text, by simpa using hs, ?_, hblank, ?_⟩
  · intro hnil
    rw [hnil] at hends
    have hfirst := hends.1 c rfl
    rw [hblank] at hfirst
    cases hfirst
  · rw [Bool.eq_false_iff]
    intro hall
    have hmiddle : ∀ d ∈ c :: (more ++ dots'.text), isBlank d = true := by
      simp only [allBlank, List.all_append, Bool.and_eq_true] at hall
      rw [List.forall_mem_cons, List.forall_mem_append]
      exact ⟨hblank, List.all_eq_true.1 hall.1.1, List.all_eq_true.1 hall.1.2⟩
    have hne : c :: (more ++ dots'.text) ≠ [] := List.cons_ne_nil _ _
    have hlast : isBlank (List.getLast _ hne) = false := by
      refine hends.2 _ ?_
      rw [List.getLast?_append_of_ne_nil _ hne]
      exact List.getLast?_eq_some_getLast hne
    rw [hmiddle _ (List.getLast_mem hne)] at hlast
    cases hlast

variable {path : String}

/-- A cleaned path has no dot at either end. -/
theorem trimmed_isDot_cleanPath (path : String) : Trimmed isDot (cleanPath path).toList := by
  rw [toList_cleanPath]
  exact trimmed_trim _ _

/-- A cleaned path has a blank at one of its ends if and only if the path was ragged. -/
theorem trimmed_isBlank_cleanPath_iff :
    Trimmed isBlank (cleanPath path).toList ↔ ¬ Ragged path := by
  have hfirst : (∀ c ∈ (cleaned path.toList).head?, isBlank c = false) ↔
    ¬ DotsApart path.toList := by
    rw [← head?_cleaned_iff]
    simp
  have hlast : (∀ c ∈ (cleaned path.toList).getLast?, isBlank c = false) ↔
      ¬ DotsApart path.toList.reverse := by
    rw [← head?_cleaned_iff, cleaned_reverse]
    simp
  rw [toList_cleanPath, Trimmed, hfirst, hlast, Ragged, not_or]

/-- Cleaning changes nothing if and only if there is neither a blank nor a dot at either end. -/
theorem cleanPath_eq_self_iff :
    cleanPath path = path ↔ Trimmed isBlank path.toList ∧ Trimmed isDot path.toList := by
  rw [← String.toList_inj, toList_cleanPath, cleaned]
  constructor
  · intro h
    have hinner : (trim isDot (trimBlanks path.toList)).Sublist (trimBlanks path.toList) :=
      trim_sublist
    have houter : (trimBlanks path.toList).Sublist path.toList := trim_sublist
    rw [h] at hinner
    have hblanks : trimBlanks path.toList = path.toList := houter.antisymm hinner
    rw [hblanks] at h
    exact ⟨trim_eq_self_iff.1 hblanks, trim_eq_self_iff.1 h⟩
  · rintro ⟨hblanks, hdots⟩
    rw [trimBlanks, trim_of_trimmed hblanks, trim_of_trimmed hdots]

/-- Cleaning a cleaned path changes it if and only if the path was ragged. -/
theorem cleanPath_cleanPath_iff : cleanPath (cleanPath path) = cleanPath path ↔ ¬ Ragged path := by
  rw [cleanPath_eq_self_iff, trimmed_isBlank_cleanPath_iff]
  exact and_iff_left (trimmed_isDot_cleanPath path)

/-- Of a path of blanks and dots cleaning leaves nothing if and only if it is not ragged. -/
theorem isEmpty_cleanPath_iff (h : ∀ c ∈ path.toList, isBlank c = true ∨ isDot c = true) :
    (cleanPath path).isEmpty = true ↔ ¬ Ragged path := by
  rw [← trimmed_isBlank_cleanPath_iff, String.isEmpty_iff, ← String.toList_eq_nil_iff]
  constructor
  · intro hnil
    rw [hnil]
    exact trimmed_nil isBlank
  · intro hblanks
    -- the first character that is left would be neither a blank nor a dot
    cases hleft : (cleanPath path).toList with
    | nil => rfl
    | cons c rest =>
      have hfirst : c ∈ (cleanPath path).toList.head? := by rw [hleft]; rfl
      have hsub : (cleanPath path).toList.Sublist path.toList := by
        rw [toList_cleanPath]
        exact trim_sublist.trans trim_sublist
      have hkind := h c (hsub.subset (List.mem_of_mem_head? hfirst))
      rw [hblanks.1 c hfirst, (trimmed_isDot_cleanPath path).1 c hfirst] at hkind
      simp at hkind

end PikeAnalysis.StdlibModule
