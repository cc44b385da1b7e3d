import PikeAnalysis.Text.Utf8
import PikeAnalysis.Text.Lines

/-!
# Texts that come back

A text comes back from its own bytes.  A character of one byte is read at once.  A longer one is
opened by its first byte, which says how many more there are and, where the length or the gap of the
surrogates would be overstepped, narrows what may come second; each further byte adds six bits.
Pieces that hold no separator come back when they are joined and split again, and splitting makes no
other pieces.

Decoding is written as a machine that reads byte by byte and knows how many bytes a character still
lacks, with bounds for the next one.  So the lemmas are about one byte each, and a character of
three or four bytes is read by three or four of them; what has to be checked is that the bounds
which exclude overlong forms and surrogates let every character pass.
-/

namespace PikeAnalysis.Text

/-! ## The bytes of a character -/

/-- A byte that carries six bits of a character. -/
def tailByte (n : Nat) : UInt8 :=
  UInt8.ofNat (n % 64 + 0x80)

theorem toNat_tailByte (n : Nat) : (tailByte n).toNat = n % 64 + 0x80 := by
  rw [tailByte, UInt8.toNat_ofNat']
  omega

/-- A byte behind an unfinished character that lacks one more adds the last six bits. -/
theorem utf8DecodeFrom_last {bits low high n : Nat} (hlow : low ≤ n % 64 + 0x80)
    (hhigh : n % 64 + 0x80 ≤ high) (rest : List UInt8) :
    utf8DecodeFrom (some ⟨bits, 1, low, high⟩) (tailByte n :: rest) =
      Char.ofNat (bits * 64 + n % 64) :: utf8DecodeFrom none rest := by
  rw [utf8DecodeFrom, toNat_tailByte, utf8Step, if_pos ⟨hlow, hhigh⟩, if_pos (Nat.le_refl 1),
    Nat.add_sub_cancel]
  rfl

/-- A byte behind an unfinished character that lacks more than one adds six bits. -/
theorem utf8DecodeFrom_tail {bits owed low high n : Nat} (howed : 1 ≤ owed)
    (hlow : low ≤ n % 64 + 0x80) (hhigh : n % 64 + 0x80 ≤ high) (rest : List UInt8) :
    utf8DecodeFrom (some ⟨bits, owed + 1, low, high⟩) (tailByte n :: rest) =
      utf8DecodeFrom (some ⟨bits * 64 + n % 64, owed, 0x80, 0xBF⟩) rest := by
  rw [utf8DecodeFrom, toNat_tailByte, utf8Step, if_pos ⟨hlow, hhigh⟩, if_neg (by dsimp only; omega),
    Nat.add_sub_cancel]
  rfl

/-! ## Reading a character -/

/-- Code points leave out the surrogates and end at `0x10FFFF`. -/
theorem toNat_char (c : Char) : c.toNat < 0xD800 ∨ 0xDFFF < c.toNat ∧ c.toNat < 0x110000 :=
  c.valid

/-- What a first byte does that opens a character of several bytes. -/
theorem utf8DecodeFrom_opener {b : Nat} (small : b < 256) {p : Utf8Partial}
    (opens : Utf8Partial.open? b = some (.inr p)) (rest : List UInt8) :
    utf8DecodeFrom none (UInt8.ofNat b :: rest) = utf8DecodeFrom (some p) rest := by
  have hb : (UInt8.ofNat b).toNat = b := by
    rw [UInt8.toNat_ofNat']
    omega
  rw [utf8DecodeFrom, hb, utf8Step, utf8Open, opens]
  rfl

section Sizes

variable {c : Char}

theorem utf8DecodeFrom_one (size : c.toNat ≤ 0x7F) (rest : List UInt8) :
    utf8DecodeFrom none (String.utf8EncodeChar c ++ rest) = c :: utf8DecodeFrom none rest := by
  have hbyte : (UInt8.ofNat c.toNat).toNat = c.toNat := by
    rw [UInt8.toNat_ofNat']
    omega
  have hchar : String.utf8EncodeChar c = [UInt8.ofNat c.toNat] := by
    simp only [String.utf8EncodeChar, Char.toNat_val, if_pos size]
  have hopen : Utf8Partial.open? c.toNat = some (.inl c) := by
    rw [Utf8Partial.open?, if_pos (by omega), Char.ofNat_toNat]
  rw [hchar, List.singleton_append, utf8DecodeFrom, hbyte, utf8Step, utf8Open, hopen]
  rfl

theorem utf8DecodeFrom_two (low : 0x7F < c.toNat) (size : c.toNat ≤ 0x7FF) (rest : List UInt8) :
    utf8DecodeFrom none (String.utf8EncodeChar c ++ rest) = c :: utf8DecodeFrom none rest := by
  have hchar : String.utf8EncodeChar c =
      [UInt8.ofNat (c.toNat / 64 % 32 + 0xC0), tailByte c.toNat] := by
    simp only [String.utf8EncodeChar, Char.toNat_val, if_neg (Nat.not_le.mpr low), if_pos size]
    rfl
  have hopen : Utf8Partial.open? (c.toNat / 64 % 32 + 0xC0) =
      some (.inr ⟨c.toNat / 64, 1, 0x80, 0xBF⟩) := by
    have hbits : c.toNat / 64 % 32 + 0xC0 - 0xC0 = c.toNat / 64 := by omega
    rw [Utf8Partial.open?, if_neg (by omega), if_neg (by omega), if_pos (by omega), hbits]
  have hbits : c.toNat / 64 * 64 + c.toNat % 64 = c.toNat := by omega
  rw [hchar, List.cons_append, List.singleton_append, utf8DecodeFrom_opener (by omega) hopen,
    utf8DecodeFrom_last (by omega) (by omega), hbits, Char.ofNat_toNat]

/-- The second byte of three says neither that two would do nor that the character is a
surrogate. -/
theorem utf8DecodeFrom_three (low : 0x7FF < c.toNat) (size : c.toNat ≤ 0xFFFF) (rest : List UInt8) :
    utf8DecodeFrom none (String.utf8EncodeChar c ++ rest) = c :: utf8DecodeFrom none rest := by
  have hvalid := toNat_char c
  have hchar : String.utf8EncodeChar c = [UInt8.ofNat (c.toNat / 4096 % 16 + 0xE0),
      tailByte (c.toNat / 64), tailByte c.toNat] := by
    simp only [String.utf8EncodeChar, Char.toNat_val, if_neg (show ¬ c.toNat ≤ 0x7F by omega),
      if_neg (Nat.not_le.mpr low), if_pos size]
    rfl
  generalize hlo : (if c.toNat / 4096 % 16 + 0xE0 = 0xE0 then 0xA0 else 0x80) = lo
  generalize hhi : (if c.toNat / 4096 % 16 + 0xE0 = 0xED then 0x9F else 0xBF) = hi
  have hopen : Utf8Partial.open? (c.toNat / 4096 % 16 + 0xE0) =
      some (.inr ⟨c.toNat / 4096, 2, lo, hi⟩) := by
    have hbits : c.toNat / 4096 % 16 + 0xE0 - 0xE0 = c.toNat / 4096 := by omega
    rw [Utf8Partial.open?, if_neg (by omega), if_neg (by omega),
      if_neg (by omega), if_pos (by omega), hlo, hhi, hbits]
  have hsecond : lo ≤ c.toNat / 64 % 64 + 0x80 ∧ c.toNat / 64 % 64 + 0x80 ≤ hi := by
    subst hlo hhi
    constructor <;> split <;> omega
  have hbits : (c.toNat / 4096 * 64 + c.toNat / 64 % 64) * 64 + c.toNat % 64 = c.toNat := by omega
  rw [hchar, List.cons_append, List.cons_append, List.singleton_append,
    utf8DecodeFrom_opener (by omega) hopen,
    utf8DecodeFrom_tail (Nat.le_refl 1) hsecond.1 hsecond.2,
    utf8DecodeFrom_last (by omega) (by omega), hbits, Char.ofNat_toNat]

/-- The second byte of four says neither that three would do nor that the character is past the
last. -/
theorem utf8DecodeFrom_four (low : 0xFFFF < c.toNat) (rest : List UInt8) :
    utf8DecodeFrom none (String.utf8EncodeChar c ++ rest) = c :: utf8DecodeFrom none rest := by
  have hvalid := toNat_char c
  have hchar : String.utf8EncodeChar c = [UInt8.ofNat (c.toNat / 262144 % 8 + 0xF0),
      tailByte (c.toNat / 4096), tailByte (c.toNat / 64), tailByte c.toNat] := by
    simp only [String.utf8EncodeChar, Char.toNat_val, if_neg (show ¬ c.toNat ≤ 0x7F by omega),
      if_neg (show ¬ c.toNat ≤ 0x7FF by omega), if_neg (Nat.not_le.mpr low)]
    rfl
  generalize hlo : (if c.toNat / 262144 % 8 + 0xF0 = 0xF0 then 0x90 else 0x80) = lo
  generalize hhi : (if c.toNat / 262144 % 8 + 0xF0 = 0xF4 then 0x8F else 0xBF) = hi
  have hopen : Utf8Partial.open? (c.toNat / 262144 % 8 + 0xF0) =
      some (.inr ⟨c.toNat / 262144, 3, lo, hi⟩) := by
    have hbits : c.toNat / 262144 % 8 + 0xF0 - 0xF0 = c.toNat / 262144 := by omega
    rw [Utf8Partial.open?, if_neg (by omega), if_neg (by omega),
      if_neg (by omega), if_neg (by omega), if_pos (by omega), hlo, hhi, hbits]
  have hsecond : lo ≤ c.toNat / 4096 % 64 + 0x80 ∧ c.toNat / 4096 % 64 + 0x80 ≤ hi := by
    subst hlo hhi
    constructor <;> split <;> omega
  have hbits : ((c.toNat / 262144 * 64 + c.toNat / 4096 % 64) * 64 + c.toNat / 64 % 64) * 64 +
      c.toNat % 64 = c.toNat := by omega
  rw [hchar, List.cons_append, List.cons_append, List.cons_append, List.singleton_append,
    utf8DecodeFrom_opener (by omega) hopen,
    utf8DecodeFrom_tail (by omega) hsecond.1 hsecond.2,
    utf8DecodeFrom_tail (Nat.le_refl 1) (by omega) (by omega),
    utf8DecodeFrom_last (by omega) (by omega), hbits, Char.ofNat_toNat]

end Sizes

/-- Every character comes back from its bytes. -/
theorem utf8DecodeFrom_utf8EncodeChar (c : Char) (rest : List UInt8) :
    utf8DecodeFrom none (String.utf8EncodeChar c ++ rest) = c :: utf8DecodeFrom none rest := by
  by_cases h1 : c.toNat ≤ 0x7F
  · exact utf8DecodeFrom_one h1 rest
  · by_cases h2 : c.toNat ≤ 0x7FF
    · exact utf8DecodeFrom_two (Nat.not_le.mp h1) h2 rest
    · by_cases h3 : c.toNat ≤ 0xFFFF
      · exact utf8DecodeFrom_three (Nat.not_le.mp h2) h3 rest
      · exact utf8DecodeFrom_four (Nat.not_le.mp h3) rest

/-- A text comes back from its bytes. -/
theorem utf8Decode_utf8Encode (s : List Char) : utf8Decode (utf8Encode s) = s := by
  rw [utf8Decode, utf8Encode]
  induction s with
  | nil => rfl
  | cons c rest ih => rw [List.flatMap_cons, utf8DecodeFrom_utf8EncodeChar, ih]

/-! ## Splitting and joining -/

variable {sep : Char} {piece : List Char}

theorem splitOn_of_not_mem (h : sep ∉ piece) : splitOn sep piece = [piece] := by
  induction piece with
  | nil => rfl
  | cons c rest ih =>
    rw [List.mem_cons, not_or] at h
    simp [splitOn, Ne.symm h.1, ih h.2]

theorem splitOn_append_sep (h : sep ∉ piece) (s : List Char) :
    splitOn sep (piece ++ sep :: s) = piece :: splitOn sep s := by
  induction piece with
  | nil => simp [splitOn]
  | cons c rest ih =>
    rw [List.mem_cons, not_or] at h
    simp [splitOn, Ne.symm h.1, ih h.2]

theorem splitOn_joinWith {first : List Char} {more : List (List Char)}
    (h : ∀ piece ∈ first :: more, sep ∉ piece) :
    splitOn sep (joinWith [sep] (first :: more)) = first :: more := by
  induction more generalizing first with
  | nil => exact splitOn_of_not_mem (h first (by simp))
  | cons name rest ih =>
    have hrest := ih fun piece hp => h piece (List.mem_cons_of_mem _ hp)
    simp only [joinWith, List.append_assoc, List.singleton_append]
    rw [splitOn_append_sep (h first (by simp)), hrest]

end PikeAnalysis.Text
