import PikeAnalysis.Proofs.Json.ReadBack

/-!
# Values are written in printable ASCII

Whatever characters a value holds, its compact text has none but the printable ones of ASCII: the
text of a value is one line, and one byte a character.

That is what framing rests on: a newline behind the text of a value is the only newline, and a line
of bytes is a line of characters.  The writer escapes control characters and everything above ASCII,
so the proof is by cases of what is done with a character, and then goes along the structure of the
value.
-/

namespace PikeAnalysis.Json

/-- A character of ASCII that is neither a control character nor a line end. -/
def Printable (c : Char) : Prop :=
  32 ≤ c.toNat ∧ c.toNat < 127

instance (c : Char) : Decidable (Printable c) :=
  inferInstanceAs (Decidable (_ ∧ _))

/-- A text of such characters. -/
def PrintableText (s : List Char) : Prop :=
  ∀ c ∈ s, Printable c

instance (s : List Char) : Decidable (PrintableText s) :=
  List.decidableBAll Printable s

namespace PrintableText

variable {s t : List Char}

@[simp] theorem nil : PrintableText [] := by
  intro c hc
  cases hc

@[simp] theorem cons_iff {c : Char} : PrintableText (c :: s) ↔ Printable c ∧ PrintableText s :=
  List.forall_mem_cons

@[simp] theorem append_iff : PrintableText (s ++ t) ↔ PrintableText s ∧ PrintableText t :=
  List.forall_mem_append

/-! ## Single values -/

theorem of_isDigit {c : Char} (digit : c.isDigit) : Printable c := by
  simp only [Char.isDigit, Bool.and_eq_true, decide_eq_true_eq] at digit
  have low : '0'.toNat ≤ c.toNat := digit.1
  have high : c.toNat ≤ '9'.toNat := digit.2
  constructor
  · exact Nat.le_trans (by decide) low
  · exact Nat.lt_of_le_of_lt high (by decide)

theorem toDigits (n : Nat) : PrintableText (Nat.toDigits 10 n) :=
  fun _ hc => of_isDigit (isDigit_of_mem_toDigits hc)

theorem zeros (n : Nat) : PrintableText (List.replicate n '0') :=
  fun _ hc => of_isDigit (isDigit_of_mem_zeros hc)

theorem digitChar : ∀ n < 16, Printable (Nat.digitChar n) := by
  decide

theorem unitEscape {n : Nat} (h : n < 0x10000) : PrintableText (unitEscape n) := by
  have digit (k : Nat) : Printable (Nat.digitChar (k % 16)) :=
    digitChar _ (Nat.mod_lt _ (by decide))
  have first : Printable (Nat.digitChar (n / 0x1000)) := digitChar _ (by omega)
  rw [Json.unitEscape, hex4_eq h]
  simp [first, digit]
  decide

/-- Every character is escaped to printable ones.  Those beyond are written by their number. -/
theorem escapeChar (c : Char) : PrintableText (escapeChar c) := by
  have valid : c.toNat < 0xD800 ∨ (0xDFFF < c.toNat ∧ c.toNat < 0x110000) := c.valid
  unfold Json.escapeChar
  split_ifs with _ _ _ _ _ _ _ printable unit
  · decide
  · decide
  · decide
  · decide
  · decide
  · decide
  · decide
  · exact cons_iff.mpr ⟨printable, nil⟩
  · exact unitEscape unit
  · exact append_iff.mpr ⟨unitEscape (by omega), unitEscape (by omega)⟩

theorem quoted (s : String) : PrintableText (quoted s) := by
  have body : PrintableText (s.toList.flatMap Json.escapeChar) := by
    intro c hc
    obtain ⟨x, _, hx⟩ := List.mem_flatMap.mp hc
    exact escapeChar x c hx
  rw [Json.quoted]
  simp [body]
  decide

theorem intText (n : Int) : PrintableText (intText n) := by
  cases n with
  | ofNat n =>
    rw [Int.ofNat_eq_natCast, intText_ofNat]
    exact toDigits n
  | negSucc n =>
    rw [intText_negSucc, cons_iff]
    exact ⟨by decide, toDigits _⟩

theorem exponentText (e : Int) : PrintableText (Decimal.exponentText e) := by
  have digits : PrintableText (Decimal.paddedDigits 2 e.natAbs) :=
    append_iff.mpr ⟨zeros _, toDigits _⟩
  rw [Decimal.exponentText, cons_iff]
  constructor
  · split_ifs <;> decide
  · exact digits

theorem layout {ds : List Char} (h : PrintableText ds) (point : Int) :
    PrintableText (Decimal.layout ds point) := by
  have dot : Printable '.' := by decide
  have zero : Printable '0' := by decide
  have e : Printable 'e' := by decide
  unfold Decimal.layout
  split_ifs with near front
  · simp [dot, zero, zeros, h]
  · have front : PrintableText (ds.take point.toNat) := fun c hc => h c (List.mem_of_mem_take hc)
    have back : PrintableText (ds.drop point.toNat) := fun c hc => h c (List.mem_of_mem_drop hc)
    dsimp only
    split_ifs
    · simp [front, zeros, dot, zero]
    · simp [front, zeros, dot, back]
  · cases ds with
    | nil => exact nil
    | cons d rest =>
      rw [cons_iff] at h
      dsimp only
      split_ifs
      · simp [h.1, e, exponentText]
      · simp [h.1, h.2, dot, e, exponentText]

theorem floatText (x : Float) : PrintableText (floatText x) := by
  have minus : Printable '-' := by decide
  rw [Json.floatText, Decimal.shortest]
  cases Decimal.Binary.ofFloat x with
  | nan => decide
  | infinite negative => cases negative <;> decide
  | finite negative m e =>
    have digits : PrintableText (Decimal.shortestDigits m e).1 := by
      intro c hc
      rw [Decimal.shortestDigits, List.mem_reverse] at hc
      exact toDigits _ c (List.mem_reverse.mp (List.dropWhile_subset _ hc))
    have body : PrintableText (if m = 0 then ['0', '.', '0'] else
        Decimal.layout (Decimal.shortestDigits m e).1 (Decimal.shortestDigits m e).2) := by
      split_ifs
      · decide
      · exact layout digits _
    dsimp only
    rw [String.toList_ofList]
    cases negative with
    | false => exact body
    | true => exact cons_iff.mpr ⟨minus, body⟩

end PrintableText

/-! ## All values -/

theorem printable_item : PrintableText Spacing.compact.item := by
  decide

theorem printable_key : PrintableText Spacing.compact.key := by
  decide

mutual

/-- The compact text of every value is printable.  Line breaks are not printable, so the text is a
single line. -/
theorem printable_write : ∀ v : Json, PrintableText (write .compact v)
  | .null => by rw [write]; decide
  | .bool true => by rw [write]; decide
  | .bool false => by rw [write]; decide
  | .int n => by rw [write]; exact .intText n
  | .float x => by rw [write]; exact .floatText x
  | .str s => by rw [write]; exact .quoted s
  | .arr [] => by rw [write]; decide
  | .arr (x :: xs) => by
    rw [write]
    simp [printable_write x, printable_writeItems xs]
    decide
  | .obj [] => by rw [write]; decide
  | .obj ((k, v) :: fs) => by
    rw [write]
    simp [PrintableText.quoted k, printable_key, printable_write v, printable_writeFields fs]
    decide

theorem printable_writeItems : ∀ xs : List Json, PrintableText (writeItems .compact xs)
  | [] => by rw [writeItems]; exact .nil
  | x :: xs => by
    rw [writeItems]
    simp [printable_item, printable_write x, printable_writeItems xs]

theorem printable_writeFields : ∀ fs : List (String × Json), PrintableText (writeFields .compact fs)
  | [] => by rw [writeFields]; exact .nil
  | (k, v) :: fs => by
    rw [writeFields]
    simp [printable_item, PrintableText.quoted k, printable_key, printable_write v,
      printable_writeFields fs]

end

end PikeAnalysis.Json
