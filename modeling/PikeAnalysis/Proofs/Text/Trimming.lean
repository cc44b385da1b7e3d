import Mathlib.Data.List.Basic
import Mathlib.Data.List.TakeWhile
import PikeAnalysis.Text.Character

/-!
# Trimming

What trimming leaves is the middle of the text: it has no character of the class at either end, and
only characters of the class stand around it.  So trimming changes nothing exactly where there is
nothing to trim, and around a middle that is not empty each end is trimmed by itself.

Several functions of the program trim, each for a class of characters of its own, and most claims
about them come down to what trimming leaves and when it leaves everything.  Here this is done once,
for any class.  A text is split into a run, a middle and a run (`exists_runs_trim`), and statements
about trimming become statements about the middle.
-/

namespace PikeAnalysis.Text

/-- A text without a character of a class at either end.  An empty text has no ends. -/
def Trimmed (p : Char → Bool) (s : List Char) : Prop :=
  (∀ c ∈ s.head?, p c = false) ∧ ∀ c ∈ s.getLast?, p c = false

/-- A text of characters of one class.  Theorems about spacing quantify over such texts, so that it
is part of the type that they are blank. -/
structure Run (p : Char → Bool) where
  text : List Char
  mem : ∀ c ∈ text, p c = true

variable {p : Char → Bool} {s t l r : List Char}

theorem trimmed_nil (p : Char → Bool) : Trimmed p [] := by
  simp [Trimmed]

theorem trimmed_reverse : Trimmed p s.reverse ↔ Trimmed p s := by
  simp only [Trimmed, List.head?_reverse, List.getLast?_reverse]
  exact and_comm

theorem trimRight_eq : trimRight p s = (trimLeft p s.reverse).reverse :=
  rfl

/-! ## One end -/

theorem trimLeft_sublist : (trimLeft p s).Sublist s :=
  List.dropWhile_sublist p

theorem trimRight_sublist : (trimRight p s).Sublist s := by
  simpa [trimRight_eq] using (trimLeft_sublist (p := p) (s := s.reverse)).reverse

theorem head?_trimLeft : ∀ c ∈ (trimLeft p s).head?, p c = false := by
  have hfirst := List.head?_dropWhile_not p s
  intro c hc
  rw [trimLeft, Option.mem_def] at hc
  simpa [hc] using hfirst

theorem getLast?_trimRight : ∀ c ∈ (trimRight p s).getLast?, p c = false := by
  rw [trimRight, List.getLast?_reverse]
  exact head?_trimLeft

/-- What stands behind a text that nothing is dropped from stays. -/
theorem trimLeft_append (hs : ∀ c ∈ s.head?, p c = false) :
    trimLeft p (l ++ s) = trimLeft p l ++ s := by
  have hself : trimLeft p s = s := by
    cases s with
    | nil => rfl
    | cons c rest => exact List.dropWhile_cons_of_neg (by simpa using hs c rfl)
  rw [trimLeft, List.dropWhile_append]
  split
  next hall =>
    rw [trimLeft, List.isEmpty_iff.1 hall]
    exact hself
  next => rfl

/-- What stands in front of a text that nothing is dropped from stays. -/
theorem trimRight_append (hs : ∀ c ∈ s.getLast?, p c = false) :
    trimRight p (s ++ r) = s ++ trimRight p r := by
  rw [trimRight_eq, List.reverse_append, trimLeft_append (by simpa using hs), List.reverse_append,
    List.reverse_reverse, ← trimRight_eq]

theorem Run.trimLeft_eq_nil (run : Run p) : trimLeft p run.text = [] :=
  List.dropWhile_eq_nil_iff.2 run.mem

theorem Run.trimRight_eq_nil (run : Run p) : trimRight p run.text = [] := by
  simpa [trimRight] using run.mem

/-- A text is the run that is dropped at its start and what is left. -/
theorem exists_run_trimLeft (p : Char → Bool) (s : List Char) :
    ∃ run : Run p, s = run.text ++ trimLeft p s :=
  ⟨⟨s.takeWhile p, List.all_eq_true.1 List.all_takeWhile⟩, List.takeWhile_append_dropWhile.symm⟩

/-- A text is what is left and the run that is dropped at its end. -/
theorem exists_trimRight_run (p : Char → Bool) (s : List Char) :
    ∃ run : Run p, s = trimRight p s ++ run.text := by
  obtain ⟨run, hs⟩ := exists_run_trimLeft p s.reverse
  refine ⟨⟨run.text.reverse, by simpa using run.mem⟩, ?_⟩
  simpa [trimLeft, trimRight] using congrArg List.reverse hs

/-- A run is dropped even if nothing is left of it but its end. -/
theorem trimLeft_suffix_of_run (run : Run p) (h : s <:+ run.text ++ t) : trimLeft p s <:+ t := by
  obtain ⟨u, hu⟩ := h
  have hdropped : trimLeft p (u ++ s) <:+ t := by
    rw [hu, trimLeft, List.dropWhile_append_of_pos run.mem]
    exact List.dropWhile_suffix p
  rw [trimLeft, List.dropWhile_append] at hdropped
  split at hdropped
  · exact hdropped
  · exact (List.dropWhile_suffix p).trans ((List.suffix_append _ _).trans hdropped)

/-- A run is dropped even if nothing is left of it but its start. -/
theorem trimRight_prefix_of_run (run : Run p) (h : s <+: t ++ run.text) : trimRight p s <+: t := by
  have hreversed : s.reverse <:+ run.text.reverse ++ t.reverse := by
    simpa using List.reverse_suffix.2 h
  rw [trimRight_eq, ← List.reverse_suffix, List.reverse_reverse]
  exact trimLeft_suffix_of_run ⟨run.text.reverse, by simpa using run.mem⟩ hreversed

/-! ## Both ends -/

/-- Around a middle that is not empty each end is trimmed by itself. -/
theorem trim_around (hs : Trimmed p s) (hne : s ≠ []) :
    trim p (l ++ s ++ r) = trimLeft p l ++ s ++ trimRight p r := by
  have hfirst : ∀ c ∈ (s ++ r).head?, p c = false := by
    rw [List.head?_append_of_ne_nil _ hne]
    exact hs.1
  have hlast : ∀ c ∈ (trimLeft p l ++ s).getLast?, p c = false := by
    rw [List.getLast?_append_of_ne_nil _ hne]
    exact hs.2
  rw [trim, List.append_assoc, trimLeft_append hfirst, ← List.append_assoc, trimRight_append hlast]

/-- The middle of a text is left where only characters of the class stand around it. -/
theorem trim_runs (left right : Run p) (hs : Trimmed p s) :
    trim p (left.text ++ s ++ right.text) = s := by
  by_cases hne : s = []
  · subst hne
    have hall : ∀ c ∈ left.text ++ [] ++ right.text, p c = true := by
      simpa [or_imp, forall_and] using ⟨left.mem, right.mem⟩
    rw [trim, Run.trimLeft_eq_nil ⟨_, hall⟩]
    rfl
  · rw [trim_around hs hne, left.trimLeft_eq_nil, right.trimRight_eq_nil, List.nil_append,
      List.append_nil]

theorem trim_of_trimmed (hs : Trimmed p s) : trim p s = s := by
  simpa using trim_runs ⟨[], by simp⟩ ⟨[], by simp⟩ hs

/-- A text is what trimming leaves with characters of the class around it. -/
theorem exists_runs_trim (p : Char → Bool) (s : List Char) :
    ∃ left right : Run p, s = left.text ++ trim p s ++ right.text := by
  obtain ⟨left, hleft⟩ := exists_run_trimLeft p s
  obtain ⟨right, hright⟩ := exists_trimRight_run p (trimLeft p s)
  refine ⟨left, right, ?_⟩
  rw [trim, List.append_assoc, ← hright, ← hleft]

theorem trimmed_trim (p : Char → Bool) (s : List Char) : Trimmed p (trim p s) := by
  refine ⟨fun c hc => ?_, getLast?_trimRight⟩
  -- what is left at the right end starts as the text did before
  obtain ⟨right, hright⟩ := exists_trimRight_run p (trimLeft p s)
  refine head?_trimLeft (s := s) c ?_
  rw [hright, List.head?_append, ← trim, Option.mem_def.1 hc]
  rfl

theorem trim_sublist : (trim p s).Sublist s :=
  trimRight_sublist.trans trimLeft_sublist

theorem trim_eq_self_iff : trim p s = s ↔ Trimmed p s :=
  ⟨fun h => h ▸ trimmed_trim p s, trim_of_trimmed⟩

/-- Trimming works the same way from either side. -/
theorem trim_reverse : trim p s.reverse = (trim p s).reverse := by
  obtain ⟨left, right, hs⟩ := exists_runs_trim p s
  have hback : s.reverse = right.text.reverse ++ (trim p s).reverse ++ left.text.reverse := by
    simpa [List.append_assoc] using congrArg List.reverse hs
  rw [hback]
  exact trim_runs ⟨_, by simpa using right.mem⟩ ⟨_, by simpa using left.mem⟩
    (trimmed_reverse.2 (trimmed_trim p s))

end PikeAnalysis.Text
