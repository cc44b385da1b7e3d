import Mathlib.Data.List.Infix
import PikeAnalysis.Positions.Index
import PikeAnalysis.Proofs.Completion.Chains

/-!
# Identifiers in a text

The scan of a line takes the first name start and then all word characters, and goes on behind them.
What it finds are the identifiers that are not followed by a word character and do not begin inside
another one (`mem_identifiers`).  A name is therefore listed where it stands between characters that
are no word characters, and also behind digits and other word characters that belong to no
identifier (`names_are_listed_where_they_stand`).

Identifiers are meant to be matched as a whole, and that is not quite what the scan does: it begins
at the first character that can open a name, also when a digit stands right before it.  So there are
two statements.  What stands between characters that are no word characters is listed, and what is
listed besides stands behind word characters that belong to no identifier (`Joined`); nothing else
is listed.
-/

namespace PikeAnalysis.PositionIndex

open Text CompletionContext

/-! ## One line -/

variable {line rest name run : List Char} {c : Char} {i k : Nat}

/-- No word character comes next. -/
def Ends (after : List Char) : Prop :=
  ∀ c ∈ after.head?, isWord c = false

/-- No word character comes right before. -/
def Apart (before : List Char) : Prop :=
  ∀ c ∈ before.getLast?, isWord c = false

/-- No identifier goes as far as the end of what comes before.  It is what decides whether a name
that stands in the text is listed: the scan takes identifiers as long as they are. -/
def Unbegun (before : List Char) : Prop :=
  ∀ s, isIdentifier s → ¬ s <:+ before

/-- Word characters come right before that belong to no identifier: digits, say. -/
def Joined (before : List Char) : Prop :=
  ¬ Apart before ∧ Unbegun before

/-- A name stands whole at a character of a line: no word character follows it, and no identifier
that began before goes as far.  That is what the scan takes. -/
def Whole (line name : List Char) (i : Nat) : Prop :=
  isIdentifier name ∧ ∃ before after, line = before ++ name ++ after ∧
    before.length = i ∧ Ends after ∧
    Unbegun before

theorem exists_of_isIdentifier (h : isIdentifier name) :
    ∃ c rest, name = c :: rest ∧ isNameStart c ∧ ∀ d ∈ rest, isWord d := by
  cases name with
  | nil => cases h
  | cons c rest =>
    simp only [isIdentifier, Bool.and_eq_true, List.all_eq_true] at h
    exact ⟨c, rest, rfl, h⟩

theorem Apart.unbegun {before : List Char} (h : Apart before) : Unbegun before := by
  rintro s hs ⟨t, rfl⟩
  obtain rfl | ⟨init, c, rfl⟩ := List.eq_nil_or_concat' s
  · cases hs
  · have hc : isWord c = false := h c (by simp [← List.append_assoc])
    exact absurd (isWord_of_mem_isIdentifier hs c (by simp)) (by simp [hc])

/-- The first part of an identifier is one, unless it is empty. -/
theorem isIdentifier_of_append {first more : List Char} (h : isIdentifier (first ++ more))
    (nonempty : first ≠ []) : isIdentifier first := by
  cases first with
  | nil => exact absurd rfl nonempty
  | cons c tail =>
    simp only [List.cons_append, isIdentifier, List.all_append, Bool.and_eq_true] at h ⊢
    exact ⟨h.1, h.2.1⟩

theorem takeWhile_append_of_ends (all : ∀ d ∈ name, isWord d) (ends : Ends rest) :
    (name ++ rest).takeWhile isWord = name := by
  rw [List.takeWhile_append_of_pos all]
  cases rest with
  | nil => simp
  | cons d more => simp [ends d rfl]

/-- Two identifiers at the same place that are not followed by word characters are the same. -/
theorem eq_of_append_eq_append {more : List Char} (hname : isIdentifier name)
    (hrun : isIdentifier run)
    (ends : Ends more) (ends' : Ends rest) (h : name ++ more = run ++ rest) : name = run := by
  rw [← takeWhile_append_of_ends (isWord_of_mem_isIdentifier hname) ends, h,
    takeWhile_append_of_ends (isWord_of_mem_isIdentifier hrun) ends']

/-- Nothing begins at a character that cannot open a name.  So the places in what follows are one
further. -/
theorem whole_cons (hc : isNameStart c = false) :
    Whole (c :: rest) name i ↔ ∃ k, i = k + 1 ∧ Whole rest name k := by
  constructor
  · rintro ⟨hname, before, after, hline, rfl, ends, unbegun⟩
    cases before with
    | nil =>
      obtain ⟨d, tail, rfl, hd, -⟩ := exists_of_isIdentifier hname
      obtain ⟨rfl, -⟩ := List.cons.inj hline
      exact absurd hd (by simp [hc])
    | cons d before =>
      obtain ⟨rfl, hrest⟩ := List.cons.inj hline
      exact ⟨before.length, rfl, hname, before, after, hrest, rfl, ends,
        fun s hs hsuffix => unbegun s hs (hsuffix.trans (List.suffix_cons _ _))⟩
  · rintro ⟨k, rfl, hname, before, after, rfl, rfl, ends, unbegun⟩
    refine ⟨hname, c :: before, after, rfl, rfl, ends, fun s hs hsuffix => ?_⟩
    rcases List.suffix_cons_iff.mp hsuffix with rfl | hsuffix
    · simp [isIdentifier, hc] at hs
    · exact unbegun s hs hsuffix

/-- Of what begins in an identifier, only the identifier itself is whole. -/
theorem whole_append (hrun : isIdentifier run) (ends : Ends rest) :
    Whole (run ++ rest) name i ↔ (name = run ∧ i = 0) ∨ ∃ k, i = run.length + k ∧
      Whole rest name k := by
  constructor
  · rintro ⟨hname, before, after, hline, rfl, ends', unbegun⟩
    rw [List.append_assoc] at hline
    rcases List.append_eq_append_iff.mp hline with ⟨mid, rfl, hrest⟩ | ⟨mid, rfl, hmid⟩
    · refine .inr ⟨mid.length, by simp, hname, mid, after, by simp [hrest], rfl, ends', ?_⟩
      exact fun s hs hsuffix => unbegun s hs (List.suffix_append_of_suffix hsuffix)
    · cases before with
      | nil => exact .inl ⟨eq_of_append_eq_append hname hrun ends' ends (by simpa using hmid), rfl⟩
      | cons d before =>
        exact absurd (List.suffix_refl _) (unbegun _ (isIdentifier_of_append hrun (by simp)))
  · rintro (⟨rfl, rfl⟩ | ⟨k, rfl, hname, before, after, rfl, rfl, ends', unbegun⟩)
    · refine ⟨hrun, [], rest, rfl, rfl, ends, fun s hs hsuffix => ?_⟩
      exact ne_nil_of_isIdentifier hs (List.suffix_nil.mp hsuffix)
    · refine ⟨hname, run ++ before, after, by simp, by simp, ends', fun s hs hsuffix => ?_⟩
      obtain ⟨t, ht⟩ := hsuffix
      rcases List.append_eq_append_iff.mp ht with ⟨mid, -, rfl⟩ | ⟨mid, rfl, hbefore⟩
      · -- What comes behind the run would begin with a word character.
        have hword : ∀ d ∈ before ++ name, isWord d := by
          intro d hd
          rcases List.mem_append.mp hd with hd | hd
          · exact isWord_of_mem_isIdentifier hs d (List.mem_append_right _ hd)
          · exact isWord_of_mem_isIdentifier hname d hd
        obtain ⟨d, more, hfirst⟩ := List.exists_cons_of_ne_nil
          (List.append_ne_nil_of_right_ne_nil before (ne_nil_of_isIdentifier hname))
        have hd : isWord d = false := ends d (by simp [hfirst])
        exact absurd (hword d (by simp [hfirst])) (by simp [hd])
      · exact unbegun s hs ⟨mid, hbefore.symm⟩

/-- Characters that have been taken already are passed over. -/
theorem identifiersFrom_skip (k i : Nat) (line : List Char) :
    identifiersFrom k i line = identifiersFrom 0 (i + k) (line.drop k) := by
  induction line generalizing k i with
  | nil => simp [identifiersFrom]
  | cons c rest ih =>
    cases k with
    | zero => rfl
    | succ k =>
      rw [identifiersFrom, ih, List.drop_succ_cons, Nat.add_right_comm, Nat.add_assoc]

theorem identifiersFrom_of_isNameStart (hc : isNameStart c) :
    identifiersFrom 0 i (c :: rest) = (c :: rest.takeWhile isWord, i) ::
      identifiersFrom 0 (i + (c :: rest.takeWhile isWord).length) (rest.dropWhile isWord) := by
  have hdrop :
      (rest.takeWhile isWord ++ rest.dropWhile isWord).drop (rest.takeWhile isWord).length =
      rest.dropWhile isWord := List.drop_left
  rw [List.takeWhile_append_dropWhile] at hdrop
  rw [identifiersFrom, if_pos hc]
  dsimp only
  rw [identifiersFrom_skip, hdrop, List.length_cons, Nat.add_right_comm, Nat.add_assoc]

theorem ends_dropWhile (line : List Char) : Ends (line.dropWhile isWord) := by
  intro c hc
  have hhead := List.head?_dropWhile_not isWord line
  rwa [hc] at hhead

/-- The scan of a line finds what stands whole in it.  Places are counted from the `i` at which the
line is taken up. -/
theorem mem_identifiersFrom :
    (name, k) ∈ identifiersFrom 0 i line ↔ ∃ j, k = i + j ∧ Whole line name j := by
  -- The scan skips a whole identifier at once, so the induction is on the length of what is left.
  induction hn : line.length using Nat.strong_induction_on generalizing line i with
  | _ n ih =>
    subst hn
    cases line with
    | nil =>
      simp only [identifiersFrom, List.not_mem_nil, false_iff, not_exists, not_and]
      rintro j - ⟨hname, before, after, hline, -⟩
      simp [ne_nil_of_isIdentifier hname] at hline
    | cons c rest =>
      by_cases hc : isNameStart c
      · have hidentifier : isIdentifier (c :: rest.takeWhile isWord) := by
          simp [isIdentifier, hc]
        have hline : c :: rest = (c :: rest.takeWhile isWord) ++ rest.dropWhile isWord := by
          rw [List.cons_append, List.takeWhile_append_dropWhile]
        have hshorter : (rest.dropWhile isWord).length < (c :: rest).length :=
          Nat.lt_succ_of_le (List.dropWhile_suffix isWord).length_le
        rw [identifiersFrom_of_isNameStart hc, List.mem_cons, ih _ hshorter rfl, hline]
        simp only [whole_append hidentifier (ends_dropWhile rest), Prod.mk.injEq,
          and_or_left, exists_or]
        refine or_congr ?_ ?_
        · constructor
          · rintro ⟨rfl, rfl⟩
            exact ⟨0, rfl, rfl, rfl⟩
          · rintro ⟨_, rfl, rfl, rfl⟩
            exact ⟨rfl, rfl⟩
        · constructor
          · rintro ⟨j, rfl, hj⟩
            exact ⟨_, Nat.add_assoc _ _ _, j, rfl, hj⟩
          · rintro ⟨_, rfl, j, rfl, hj⟩
            exact ⟨j, (Nat.add_assoc _ _ _).symm, hj⟩
      · rw [identifiersFrom, if_neg hc, ih rest.length (Nat.lt_succ_self _) rfl]
        simp only [whole_cons (Bool.eq_false_iff.mpr hc)]
        constructor
        · rintro ⟨j, rfl, hj⟩
          exact ⟨j + 1, by omega, j, rfl, hj⟩
        · rintro ⟨_, rfl, j, rfl, hj⟩
          exact ⟨j, by omega, hj⟩

theorem mem_identifiers : (name, i) ∈ identifiers line ↔ Whole line name i := by
  simp [identifiers, mem_identifiersFrom]

/-- The identifiers of a line are found from left to right. -/
theorem pairwise_identifiersFrom (skip i : Nat) (line : List Char) :
    (∀ e ∈ identifiersFrom skip i line, i ≤ e.2) ∧
      (identifiersFrom skip i line).Pairwise (·.2 < ·.2) := by
  fun_induction identifiersFrom skip i line with
  | case1 => simp
  | case2 skip i c rest ih | case4 i c rest _ ih =>
    exact ⟨fun e he => Nat.le_of_succ_le (ih.1 e he), ih.2⟩
  | case3 i c rest _ tail ih =>
    refine ⟨List.forall_mem_cons.mpr ⟨Nat.le_refl i, fun e he => Nat.le_of_succ_le (ih.1 e he)⟩, ?_⟩
    exact List.pairwise_cons.mpr ⟨ih.1, ih.2⟩

/-! ## The places of a name -/

/-- The places of a name in an index. -/
def places (name : String) (index : PositionIndex) : List Position :=
  (Assoc.get? name index).getD []

theorem places_note (name other : String) (p : Position) (index : PositionIndex) :
    (note other p index).places name = index.places name ++ if other = name then [p] else [] := by
  by_cases h : other = name
  · subst h
    simp [places, note]
  · simp [places, note, h, Assoc.get?_set_of_ne (Ne.symm h)]

/-- Noting what has been found, if its name is wanted, adds the places of a name that is wanted. -/
theorem places_foldl_note (names : List String) (found : List (String × Position)) (name : String)
    (index : PositionIndex) :
    (found.foldl (fun index e => if names.contains e.1 then note e.1 e.2 index else index)
      index).places
        name =
      index.places name ++
        if name ∈ names then (found.filter fun e => e.1 = name).map (·.2) else [] := by
  induction found generalizing index with
  | nil => simp
  | cons e rest ih =>
    rw [List.foldl_cons, ih]
    by_cases hname : e.1 = name
    · subst hname
      by_cases hwanted : e.1 ∈ names <;> simp [hwanted, places_note]
    · by_cases hwanted : e.1 ∈ names <;> simp [hwanted, hname, places_note]

/-! ## The whole text -/

/-- What the scan finds in a text, line by line.  Names and places come in reading order, before
they are sorted into an index. -/
def found (text : List Char) : List (String × Position) :=
  (Text.lines (Positions.mask text)).zipIdx.flatMap fun (line, n) =>
    (identifiers line).map fun (name, i) => (String.ofList name, (⟨n, i⟩ : Position))

theorem places_ofText (text : List Char) (names : List String) (name : String) :
    (ofText text names).places name =
      if name ∈ names then ((found text).filter fun e => e.1 = name).map (·.2) else [] := by
  rw [ofText]
  exact (places_foldl_note names (found text) name []).trans (List.nil_append _)

/-- What is found comes in reading order. -/
theorem pairwise_found (text : List Char) : (found text).Pairwise fun e f => e.2.before f.2 := by
  refine List.pairwise_flatMap.mpr ⟨fun l _ => ?_, ?_⟩
  · refine List.pairwise_map.mpr ((pairwise_identifiersFrom 0 0 l.1).2.imp fun h => ?_)
    simp [Position.before, h]
  · have hlines : (Text.lines (Positions.mask text)).zipIdx.Pairwise (·.2 < ·.2) := by
      refine List.pairwise_map.mp ?_
      rw [List.zipIdx_map_snd]
      exact List.pairwise_lt_range'
    refine hlines.imp fun h e he f hf => ?_
    obtain ⟨-, -, rfl⟩ := List.mem_map.mp he
    obtain ⟨-, -, rfl⟩ := List.mem_map.mp hf
    simp [Position.before, h]

/-- A name stands at a place of the masked text.  No word character follows it, and what comes
before it on the line is as `before` says. -/
def StandsAt (text : List Char) (name : String) (p : Position) (fore : List Char → Prop) : Prop :=
  isIdentifier name.toList ∧ ∃ (n : Nat) (line before after : List Char),
    (Text.lines (Positions.mask text))[n]? = some line ∧ line = before ++ name.toList ++ after ∧
    p = ⟨n, before.length⟩ ∧ Ends after ∧ fore before

variable {text : List Char} {names : List String} {p : Position}

theorem mem_found {name : String} : (name, p) ∈ found text ↔ StandsAt text name p Unbegun := by
  simp only [found, List.mem_flatMap, List.mem_map, Prod.exists, List.mk_mem_zipIdx_iff_getElem?,
    mem_identifiers, Prod.mk.injEq]
  constructor
  · rintro ⟨line, n, hline, s, i, ⟨hs, before, after, rfl, rfl, ends, unbegun⟩, rfl, rfl⟩
    rw [← String.toList_ofList (l := s)] at hs
    exact ⟨hs, n, _, before, after, hline, by simp, rfl, ends, unbegun⟩
  · rintro ⟨hname, n, line, before, after, hline, rfl, rfl, ends, unbegun⟩
    exact ⟨_, n, hline, name.toList, before.length, ⟨hname, before, after, rfl, rfl, ends, unbegun⟩,
      String.ofList_toList, rfl⟩

theorem mem_places_ofText {name : String} :
    p ∈ (ofText text names).places name ↔ name ∈ names ∧ StandsAt text name p Unbegun := by
  rw [places_ofText, ← mem_found]
  split <;> simp [*]

theorem standsAt_unbegun_iff {name : String} : StandsAt text name p Unbegun ↔
    StandsAt text name p Apart ∨ StandsAt text name p Joined := by
  constructor
  · rintro ⟨hname, n, line, before, after, hline, hparts, hp, ends, unbegun⟩
    by_cases hapart : Apart before
    · exact .inl ⟨hname, n, line, before, after, hline, hparts, hp, ends, hapart⟩
    · exact .inr ⟨hname, n, line, before, after, hline, hparts, hp, ends, hapart, unbegun⟩
  · rintro (⟨hname, n, line, before, after, hline, hparts, hp, ends, hapart⟩ |
      ⟨hname, n, line, before, after, hline, hparts, hp, ends, hjoined⟩)
    · exact ⟨hname, n, line, before, after, hline, hparts, hp, ends, hapart.unbegun⟩
    · exact ⟨hname, n, line, before, after, hline, hparts, hp, ends, hjoined.2⟩

theorem not_joined_of_apart {name : String} (h : StandsAt text name p Apart) :
    ¬ StandsAt text name p Joined := by
  obtain ⟨-, n, line, before, after, hline, hparts, rfl, -, hapart⟩ := h
  rintro ⟨-, m, line', before', after', hline', hparts', hp, -, hjoined⟩
  have hp := Position.mk.inj hp
  obtain rfl : n = m := Int.ofNat.inj hp.1
  obtain rfl : line = line' := Option.some.inj (hline.symm.trans hline')
  have hbefore : before = before' := by
    rw [hparts, List.append_assoc, List.append_assoc] at hparts'
    exact (List.append_inj hparts' (Int.ofNat.inj hp.2)).1
  exact hjoined.1 (hbefore ▸ hapart)

/-- The scan of a text lists the places of a name in reading order, none of them twice.  It lists a
name that is asked for wherever it stands in the masked text with no word character on either side,
and behind word characters that belong to no identifier; so it lists what stands between other
characters, and nothing else, unless a name stands behind such word characters. -/
theorem names_are_listed_where_they_stand (text : List Char) (names : List String) (name : String) :
    ((ofText text names).places name).Pairwise (fun p q => p.before q) ∧
    ((ofText text names).places name).Nodup ∧
    ∀ p, (p ∈ (ofText text names).places name ↔
        name ∈ names ∧ (StandsAt text name p Apart ∨ StandsAt text name p Joined)) ∧
      ((p ∈ (ofText text names).places name ↔ name ∈ names ∧ StandsAt text name p Apart) ↔
        ¬ (name ∈ names ∧ StandsAt text name p Joined)) := by
  have hordered : ((ofText text names).places name).Pairwise fun p q => p.before q := by
    rw [places_ofText]
    split
    · exact List.pairwise_map.mpr ((pairwise_found text).filter _)
    · exact .nil
  have hdistinct : ((ofText text names).places name).Nodup :=
    hordered.imp fun h hpq => by simp [hpq, Position.before] at h
  refine ⟨hordered, hdistinct, fun p => ?_⟩
  have hlisted : p ∈ (ofText text names).places name ↔
      name ∈ names ∧ (StandsAt text name p Apart ∨ StandsAt text name p Joined) := by
    rw [mem_places_ofText, standsAt_unbegun_iff]
  refine ⟨hlisted, ?_⟩
  rw [hlisted]
  constructor
  · rintro h ⟨hname, hjoined⟩
    exact not_joined_of_apart (h.mp ⟨hname, .inr hjoined⟩).2 hjoined
  · intro h
    exact and_congr_right fun hname => or_iff_left fun hjoined => h ⟨hname, hjoined⟩

/-- The letters in a hexadecimal number are listed, although a digit comes right before them. -/
theorem hexadecimal_letters_are_listed :
    ⟨0, 5⟩ ∈ (ofText "n = 0x1f;".toList ["x1f"]).places "x1f" ∧
      ¬ StandsAt "n = 0x1f;".toList "x1f" ⟨0, 5⟩ Apart := by
  have hlisted := (names_are_listed_where_they_stand "n = 0x1f;".toList ["x1f"] "x1f").2.2 ⟨0, 5⟩
  have hjoined : StandsAt "n = 0x1f;".toList "x1f" ⟨0, 5⟩ Joined := by
    refine ⟨by decide, 0, "n = 0x1f;".toList, "n = 0".toList, [';'], by decide, by decide, rfl,
      ?_, ?_, ?_⟩
    · intro c hc
      obtain rfl : ';' = c := Option.some.inj hc
      rfl
    · exact fun hapart => absurd (hapart '0' rfl) (by decide)
    · intro s hs hsuffix
      have hnone : ∀ s ∈ "n = 0".toList.tails, isIdentifier s = false := by decide
      exact absurd hs (by simp [hnone s ((List.mem_tails s _).mpr hsuffix)])
  refine ⟨hlisted.1.mpr ⟨by simp, .inr hjoined⟩, fun hapart => ?_⟩
  exact not_joined_of_apart hapart hjoined

end PikeAnalysis.PositionIndex
