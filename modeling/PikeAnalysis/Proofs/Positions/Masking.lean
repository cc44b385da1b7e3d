import Mathlib.Data.List.Forall2
import Mathlib.Data.List.Infix
import PikeAnalysis.Positions.Index

/-!
# What masking leaves

The masked text has the shape of the text: the same length, the same newlines, and every other
character either as it was or blank.  What is left is code (`IsCode`): no quote and no mark that
opens a comment.  Conversely text that is code already is left as it is, so that masking twice is
masking once.

Two things are asked of a mask, and they pull in different directions: it must not move anything,
and it must leave nothing that could be taken for a name in a comment or a string.  The first is a
relation between characters at the same place (`Blanks`), the second a property of what is left
(`IsCode`) that makes no reference to the text before.  That the scan is in some mode is a parameter
of both lemmas, since it is carried from character to character.
-/

namespace PikeAnalysis.Positions

/-! ## Code -/

/-- The marks that open a comment.  All three do so wherever they stand in code, the last one not
only at the start of a text. -/
def commentMarks : List (List Char) := [['/', '/'], ['/', '*'], ['#', '!']]

/-- A text in which no literal and no comment is opened.  Such a text is masked to itself wherever
it stands in code. -/
structure IsCode (s : List Char) : Prop where
  no_quote : '"' ∉ s
  no_apostrophe : '\'' ∉ s
  no_mark : ∀ mark ∈ commentMarks, ¬ mark <:+: s

variable {c d : Char} {s : List Char} {mode : MaskMode}

theorem isCode_nil : IsCode [] where
  no_quote := List.not_mem_nil
  no_apostrophe := List.not_mem_nil
  no_mark := by simp [commentMarks]

theorem isCode_cons : IsCode (c :: s) ↔
    c ≠ '"' ∧ c ≠ '\'' ∧ (∀ mark ∈ commentMarks, ¬ mark <+: c :: s) ∧ IsCode s := by
  constructor
  · intro h
    refine ⟨fun hc => h.no_quote (hc ▸ List.mem_cons_self),
      fun hc => h.no_apostrophe (hc ▸ List.mem_cons_self),
      fun mark hmark hpre => h.no_mark mark hmark hpre.isInfix, ?_, ?_, ?_⟩
    · exact fun hs => h.no_quote (List.mem_cons_of_mem _ hs)
    · exact fun hs => h.no_apostrophe (List.mem_cons_of_mem _ hs)
    · exact fun mark hmark hs => h.no_mark mark hmark (List.infix_cons_iff.mpr (.inr hs))
  · rintro ⟨hquote, hapostrophe, hstart, h⟩
    refine ⟨?_, ?_, fun mark hmark hs => ?_⟩
    · simpa using ⟨hquote.symm, h.no_quote⟩
    · simpa using ⟨hapostrophe.symm, h.no_apostrophe⟩
    · exact (List.infix_cons_iff.mp hs).elim (hstart mark hmark) (h.no_mark mark hmark)

/-- A character with which no mark begins goes before code. -/
theorem IsCode.cons (h : IsCode s) (plain : c ∉ ['"', '\'', '/', '#']) : IsCode (c :: s) := by
  simp only [List.mem_cons, List.not_mem_nil, or_false, not_or] at plain
  obtain ⟨hquote, hapostrophe, hslash, hhash⟩ := plain
  refine isCode_cons.mpr ⟨hquote, hapostrophe, ?_, h⟩
  simp [commentMarks, List.cons_prefix_cons, Ne.symm hslash, Ne.symm hhash]

/-! ## Shape -/

/-- The second character is the first, or a blank in its place; newlines stay. -/
def Blanks (c d : Char) : Prop :=
  d = c ∨ c ≠ '\n' ∧ d = ' '

theorem blanks_blanked (c : Char) : Blanks c (blanked c) := by
  unfold blanked
  split
  · next h => exact .inl h.symm
  · next h => exact .inr ⟨h, rfl⟩

theorem Blanks.newline (h : Blanks c d) : d = '\n' ↔ c = '\n' := by
  rcases h with rfl | ⟨hc, rfl⟩
  · rfl
  · exact iff_of_false (by decide) hc

/-- A literal is not closed by a newline.  All literals that the scan opens are between quotes, so
this is no restriction. -/
def MaskMode.Closes : MaskMode → Prop
  | .literal quote _ => quote ≠ '\n'
  | _ => True

theorem MaskMode.closes_code : MaskMode.code.Closes :=
  trivial

/-- Masking keeps the shape of a text.  Every character stays or becomes a blank, and line breaks
stay. -/
theorem maskFrom_blanks (closes : mode.Closes) (s : List Char) :
    List.Forall₂ Blanks s (maskFrom mode s) := by
  have blank {c : Char} (h : c ≠ '\n') : Blanks c ' ' := .inr ⟨h, rfl⟩
  fun_induction maskFrom mode s with
  | case1 => exact .nil
  | case2 _ ih | case3 _ ih | case4 _ ih | case10 _ ih =>
    exact .cons (blank (by decide)) (.cons (blank (by decide)) (ih trivial))
  | case5 _ ih =>
    have hquote : '"' ≠ '\n' := by decide
    exact .cons (blank (by decide)) (.cons (blank (by decide)) (ih hquote))
  | case6 c rest _ _ _ _ hquote ih =>
    have hc : c ≠ '\n' := by rintro rfl; revert hquote; decide
    exact .cons (blank hc) (ih hc)
  | case7 c rest _ _ _ _ _ ih => exact .cons (.inl rfl) (ih trivial)
  | case8 rest ih => exact .cons (.inl rfl) (ih trivial)
  | case9 c rest hline ih => exact .cons (blank hline) (ih trivial)
  | case11 c rest _ ih => exact .cons (blanks_blanked c) (ih trivial)
  | case12 q m c rest ih => exact .cons (blank (by decide)) (.cons (blanks_blanked c) (ih closes))
  | case13 q m rest _ ih => exact .cons (blank closes) (ih trivial)
  | case14 q m c rest _ _ hend ih => exact .cons (.inl hend.1.symm) (ih trivial)
  | case15 q m c rest _ _ _ ih => exact .cons (blanks_blanked c) (ih closes)

/-- A character that is left was there. -/
theorem exists_of_maskFrom_eq_cons (closes : mode.Closes) {rest : List Char}
    (h : maskFrom mode s = c :: rest) (hc : c ≠ ' ') : ∃ t, s = c :: t := by
  have hshape := maskFrom_blanks closes s
  rw [h] at hshape
  obtain ⟨b, t, hb, -, rfl⟩ := List.forall₂_cons_right_iff.mp hshape
  rcases hb with rfl | ⟨-, hblank⟩
  · exact ⟨t, rfl⟩
  · exact absurd hblank hc

/-! ## What is left -/

theorem isCode_blanked_cons (h : IsCode s) (c : Char) : IsCode (blanked c :: s) := by
  unfold blanked
  split <;> exact h.cons (by decide)

/-- Whatever the scan is inside of, it leaves code. -/
theorem isCode_maskFrom (mode : MaskMode) (s : List Char) : IsCode (maskFrom mode s) := by
  have blank {s : List Char} (h : IsCode s) : IsCode (' ' :: s) := h.cons (by decide)
  fun_induction maskFrom mode s with
  | case1 => exact isCode_nil
  | case2 _ ih | case3 _ ih | case4 _ ih | case5 _ ih | case10 _ ih => exact blank (blank ih)
  | case6 _ _ _ _ _ _ _ ih | case9 _ _ _ ih | case13 _ _ _ _ ih => exact blank ih
  | case7 c rest hline hbang hblock _ hquote ih =>
    obtain ⟨hdouble, hsingle⟩ := not_or.mp hquote
    refine isCode_cons.mpr ⟨hdouble, hsingle, ?_, ih⟩
    -- A mark that starts here would have been seen here: its second character is not a blank.
    have second {b : Char} (hb : b ≠ ' ') (h : [b] <+: maskFrom .code rest) :
        ∃ t, rest = b :: t := by
      obtain ⟨t, ht⟩ := h
      exact exists_of_maskFrom_eq_cons MaskMode.closes_code ht.symm hb
    simp only [commentMarks, List.forall_mem_cons, List.cons_prefix_cons, not_and]
    refine ⟨fun hc h => ?_, fun hc h => ?_, fun hc h => ?_, nofun⟩
    · obtain ⟨t, ht⟩ := second (by decide) h
      exact hline t hc.symm ht
    · obtain ⟨t, ht⟩ := second (by decide) h
      exact hblock t hc.symm ht
    · obtain ⟨t, ht⟩ := second (by decide) h
      exact hbang t hc.symm ht
  | case8 _ ih => exact ih.cons (by decide)
  | case11 c rest _ ih => exact isCode_blanked_cons ih c
  | case12 q m c rest ih => exact blank (isCode_blanked_cons ih c)
  | case14 q m c rest _ _ hend ih =>
    obtain ⟨rfl, -⟩ := hend
    exact ih.cons (by decide)
  | case15 q m c rest _ _ _ ih => exact isCode_blanked_cons ih c

/-- Code is left as it is.  Together with the former lemma, masking twice is masking once. -/
theorem mask_of_isCode (h : IsCode s) : mask s = s := by
  unfold mask
  induction s with
  | nil => rw [maskFrom]
  | cons c rest ih =>
    obtain ⟨hquote, hapostrophe, hmark, hrest⟩ := isCode_cons.mp h
    simp only [commentMarks, List.forall_mem_cons, List.cons_prefix_cons, not_and] at hmark
    obtain ⟨hline, hblock, hbang, -⟩ := hmark
    rw [maskFrom, if_neg (not_or.mpr ⟨hquote, hapostrophe⟩), ih hrest]
    · rintro t rfl rfl
      exact hline rfl ⟨t, rfl⟩
    · rintro t rfl rfl
      exact hbang rfl ⟨t, rfl⟩
    · rintro t rfl rfl
      exact hblock rfl ⟨t, rfl⟩
    · rintro t rfl rfl
      exact hrest.no_quote List.mem_cons_self

theorem mask_eq_self_iff : mask s = s ↔ IsCode s :=
  ⟨fun h => h ▸ isCode_maskFrom .code s, mask_of_isCode⟩

/-- Masking keeps the length of a text and the places of its newlines, leaves every other character
or puts a blank in its place, and leaves neither a quote nor a mark that opens a comment.  Only a
text without them is left as it is, and such is every masked text. -/
theorem mask_leaves_code (s : List Char) :
    (mask s).length = s.length ∧
    List.Forall₂ (fun c d => (d = '\n' ↔ c = '\n') ∧ (d = c ∨ d = ' ')) s (mask s) ∧
    '"' ∉ mask s ∧ '\'' ∉ mask s ∧
    ¬ ['/', '/'] <:+: mask s ∧ ¬ ['/', '*'] <:+: mask s ∧ ¬ ['#', '!'] <:+: mask s ∧
    mask (mask s) = mask s ∧ (mask s = s ↔ IsCode s) := by
  have hshape : List.Forall₂ Blanks s (mask s) := maskFrom_blanks MaskMode.closes_code s
  have hcode : IsCode (mask s) := isCode_maskFrom .code s
  have hmark : ∀ mark ∈ commentMarks, ¬ mark <:+: mask s := hcode.no_mark
  simp only [commentMarks, List.forall_mem_cons] at hmark
  obtain ⟨hline, hblock, hbang, -⟩ := hmark
  refine ⟨hshape.length_eq.symm, ?_, hcode.no_quote, hcode.no_apostrophe, hline, hblock, hbang,
    mask_of_isCode hcode, mask_eq_self_iff⟩
  exact hshape.imp fun c d h => ⟨h.newline, h.imp_right And.right⟩

example : mask "s = \"a\\\"b\"; // c".toList = "s =       ;     ".toList := by decide

end PikeAnalysis.Positions
