import Mathlib
import PikeAnalysis.Decimal.Binary
import PikeAnalysis.Decimal.Shortest

/-!
# Rounding to the nearest double

The whole-number arithmetic of `nearestBits`, read as arithmetic of fractions.  Every fraction in
the interval that rounds to a double is taken to the bits of that double, also below a power of two,
where the significand is carried into the exponent.

The reader of numbers has no fractions: it compares whole numbers that have been scaled by powers of
two and ten.  The first part recovers the fractions, so that everything after is arithmetic of
rational numbers.  `Rounds` describes the interval of a double in these terms, with its ends in it
or not, and narrower below where the double is a power of two; `nearestBits_of_rounds` is the one
statement about the algorithm that is needed elsewhere.

A double is treated as its bits throughout.  That the fields of the bits determine the double is a
fact about the type and not about this program, and is shown first.
-/

/-!
## The bits of a double

A double is determined by its sixty-four bits, and `Binary.ofFloat` reads all of them: the sign, and
below it the exponent and the fraction in one number.  So a double is built again from what
`Binary.ofFloat` says of it.
-/

namespace PikeAnalysis.Decimal

open Float.Model (Format)
open Float.Model.UnpackedFloat

/-! ### Packing what was unpacked -/

theorem toBitVec_ofBitVec (v : BitVec 1) : (Sign.ofBitVec v).toBitVec = v := by
  revert v
  decide

/-- Sixty-four bits are their sign, exponent and fraction fields put together again. -/
theorem packComponents_unpack (b : BitVec Format.binary64.numBits) :
    packComponents .binary64 (Sign.ofBitVec (unpackSign b)) (unpackExponent b) (unpackMantissa b) =
      b := by
  simp only [packComponents, toBitVec_ofBitVec, unpackSign, unpackExponent, unpackMantissa,
    BitVec.extractLsb]
  ext i hi
  grind

/-- A subnormal significand does not reach the leading bit. -/
theorem packed_subnormal (s : Sign) {m : BitVec 52} {e : Int} (he : e = -1074)
    (positive : 0 < m.toNat) :
    pack .binary64 (.finite s m.toNat e positive) = packComponents .binary64 s 0#_ m := by
  have small : m.toNat < 2 ^ 52 := m.isLt
  have leading : ¬ m.toNat.log2 + 1 = Format.binary64.mantissaBits := by
    have h : m.toNat.log2 < 52 := (Nat.log2_lt (by omega)).mpr small
    show ¬ m.toNat.log2 + 1 = 53
    omega
  rw [pack, he]
  simp only [leading, if_false]
  rw [if_neg (by decide), BitVec.ofNat_toNat, BitVec.setWidth_eq]

/-- A normal significand is its fraction behind the leading bit. -/
theorem packed_normal (s : Sign) {m : BitVec 52} {field : BitVec 11} (high : field.toNat < 2047)
    {e : Int} (he : e = field.toNat - 1075) (positive : 0 < (1#1 ++ m).toNat) :
    pack .binary64 (.finite s (1#1 ++ m).toNat e positive) =
      packComponents .binary64 s field m := by
  have small : m.toNat < 2 ^ 52 := m.isLt
  have value : (1#1 ++ m).toNat = 2 ^ 52 + m.toNat := by
    rw [BitVec.toNat_append, Nat.shiftLeft_eq, BitVec.toNat_ofNat, Nat.mod_eq_of_lt (by decide),
      Nat.or_comm, Nat.one_mul, Nat.or_two_pow_eq_add_of_lt small, Nat.add_comm]
  have leading : (1#1 ++ m).toNat.log2 + 1 = Format.binary64.mantissaBits := by
    have above : 52 ≤ (1#1 ++ m).toNat.log2 := (Nat.le_log2 (by omega)).mpr (by omega)
    have below : (1#1 ++ m).toNat.log2 < 53 := (Nat.log2_lt (by omega)).mpr (by omega)
    show (1#1 ++ m).toNat.log2 + 1 = 53
    omega
  have biased : (e + (Format.binary64.exponentBias : Nat) +
      (Format.binary64.mantissaBitsWithoutImplicit : Nat)).toNat = field.toNat := by
    show (e + 1023 + 52).toNat = field.toNat
    omega
  rw [pack]
  simp only [biased, leading, if_true]
  rw [if_neg (by show ¬ 2048 ≤ field.toNat + 1; omega), BitVec.ofNat_toNat, BitVec.setWidth_eq]
  congr 1
  apply BitVec.eq_of_toNat_eq
  rw [BitVec.toNat_ofNat, value, Nat.add_mod_left, Nat.mod_eq_of_lt small]

/-- Unpacking keeps all of the bits, because not-a-number has one pattern only. -/
theorem pack_unpack {b : BitVec Format.binary64.numBits} (valid : Format.binary64.Valid b) :
    pack .binary64 (unpack .binary64 b) = b := by
  have whole := packComponents_unpack b
  rw [unpack]
  split_ifs with full empty none zero
  · rw [full, empty] at whole
    exact whole
  · exact (valid.eq_packedNaN full empty).symm
  · rw [none, zero] at whole
    exact whole
  · rw [packed_subnormal _ (by rw [none]; decide), ← none, whole]
  · have small : (unpackExponent b).toNat < 2048 := (unpackExponent b).isLt
    have below : (unpackExponent b).toNat ≠ 2047 := by
      intro h
      exact full (BitVec.eq_of_toNat_eq h)
    refine (packed_normal _ ?_ ?_ _).trans whole
    · exact Nat.lt_of_le_of_ne (Nat.le_of_lt_succ small) below
    · rfl

/-- The bits of a double make that double. -/
theorem ofBits_toBits (x : Float) : Float.ofBits x.toBits = x := by
  obtain ⟨bits, valid⟩ := x
  have h := pack_unpack valid
  simp only [Float.ofBits, Float.toBits, Float.Model.ofBits, Float.Model.pack, h]

/-! ### Reading the fields -/

theorem ofBits_of_toNat {x : Float} {negative : Bool} {bits : Nat}
    (h : x.toBits.toNat = (if negative then Nat.pow 2 63 else 0) + bits) :
    ofBits negative bits = x := by
  rw [ofBits, ← h, UInt64.ofNat_toNat, ofBits_toBits]

/-- A double is its sign, and its exponent and fraction fields behind that. -/
theorem ofBits_fields (x : Float) :
    ofBits (x.toBits.toNat / Nat.pow 2 63 == 1)
      (x.toBits.toNat / Nat.pow 2 52 % Nat.pow 2 11 * Nat.pow 2 52 +
        x.toBits.toNat % Nat.pow 2 52) = x := by
  have small : x.toBits.toNat < 2 ^ 64 := x.toBits.toNat_lt
  apply ofBits_of_toNat
  simp only [Nat.pow_eq, Nat.reducePow] at small ⊢
  by_cases sign : x.toBits.toNat / 9223372036854775808 = 1
  · simp only [sign, beq_self_eq_true, if_true]
    omega
  · simp only [beq_false_of_ne sign, Bool.false_eq_true, if_false]
    omega

/-- A full exponent field behind which something stands is that of the one not-a-number. -/
theorem toNat_toBits_of_nan {x : Float} (full : x.toBits.toNat / Nat.pow 2 52 % Nat.pow 2 11 = 2047)
    (fraction : x.toBits.toNat % Nat.pow 2 52 ≠ 0) : x.toBits.toNat = nanBits := by
  obtain ⟨bits, valid⟩ := x
  have exponent : @unpackExponent Format.binary64 bits.toBitVec = -1#11 := by
    apply BitVec.eq_of_toNat_eq
    show (bits.toNat >>> 52) % 2 ^ 11 = 2047
    rw [Nat.shiftRight_eq_div_pow]
    exact full
  have mantissa : @unpackMantissa Format.binary64 bits.toBitVec ≠ 0#52 := by
    intro h
    apply fraction
    have := congrArg BitVec.toNat h
    exact this
  have h := valid.eq_packedNaN exponent mantissa
  exact congrArg BitVec.toNat h

/-! ### What the reading says -/

theorem eq_ofBits_of_nan {x : Float} (h : Binary.ofFloat x = .nan) : x = ofBits false nanBits := by
  simp only [Binary.ofFloat] at h
  split_ifs at h with full fraction
  exact (ofBits_of_toNat (by simp [toNat_toBits_of_nan full fraction])).symm

theorem eq_ofBits_of_infinite {x : Float} {negative : Bool}
    (h : Binary.ofFloat x = .infinite negative) : x = ofBits negative infinityBits := by
  have fields := ofBits_fields x
  simp only [Binary.ofFloat] at h
  split_ifs at h with full fraction
  rw [full, fraction] at fields
  cases h
  exact fields.symm

/-- What holds of the significand and the exponent of every double.  The last field is normality: at
the least exponent a significand may be small, above it the leading bit is set, and so a value has
one such form only. -/
structure Fits (m : Nat) (e : Int) : Prop where
  small : m < Nat.pow 2 53
  low : -1074 ≤ e
  high : e ≤ 971
  normal : e = -1074 ∨ Nat.pow 2 52 ≤ m

theorem eq_ofBits_of_finite {x : Float} {negative : Bool} {m : Nat} {e : Int}
    (h : Binary.ofFloat x = .finite negative m e) :
    x = ofBits negative ((e + 1074).toNat * Nat.pow 2 52 + m) ∧ Fits m e := by
  have fields := ofBits_fields x
  have field : x.toBits.toNat / Nat.pow 2 52 % Nat.pow 2 11 < Nat.pow 2 11 :=
    Nat.mod_lt _ (by decide)
  have fraction : x.toBits.toNat % Nat.pow 2 52 < Nat.pow 2 52 := Nat.mod_lt _ (by decide)
  simp only [Binary.ofFloat] at h
  simp only [Nat.pow_eq, Nat.reducePow] at field fraction fields h
  split_ifs at h with full _ none
  · cases h
    rw [none] at fields
    exact ⟨fields.symm, Nat.lt_trans fraction (by decide), by omega, by omega, .inl rfl⟩
  · cases h
    constructor
    · -- the leading bit of the significand is the last unit of the exponent field
      refine fields.symm.trans (congrArg (ofBits _) ?_)
      simp only [Nat.pow_eq, Nat.reducePow]
      omega
    · constructor
      · show _ < 2 ^ 53
        omega
      · omega
      · omega
      · right
        exact Nat.le_add_right _ _

end PikeAnalysis.Decimal

namespace PikeAnalysis.Decimal

/-! ## Fractions -/

theorem scale_pos (n : Nat) {base : Nat} (hb : 0 < base) (e : Int) : 0 < (scale n base e).2 := by
  cases e with
  | ofNat k => exact Nat.one_pos
  | negSucc k => exact Nat.pow_pos hb

/-- `scale` is a multiplication by a power. -/
theorem scale_value (n base : Nat) (e : Int) :
    ((scale n base e).1 : ℚ) / (scale n base e).2 = n * (base : ℚ) ^ e := by
  cases e with
  | ofNat k => simp [scale]
  | negSucc k => simp [scale, zpow_negSucc, div_eq_mul_inv]

/-! ## Rounding a quotient -/

/-- A quotient within a half of a whole number rounds to it, at a half if it is even. -/
theorem roundHalfEven_eq {num den r : Nat} (hden : 0 < den) (low : 2 * r * den ≤ 2 * num + den)
    (high : 2 * num ≤ (2 * r + 1) * den)
    (odd : r % 2 = 1 → 2 * r * den < 2 * num + den ∧ 2 * num < (2 * r + 1) * den) :
    roundHalfEven num den = r := by
  have whole := Nat.div_add_mod num den
  have small := Nat.mod_lt num hden
  rw [roundHalfEven]
  generalize num / den = q at *
  generalize num % den = rest at *
  -- A quotient within a half of a whole number has that number as its floor, or the one after its
  -- floor.
  have near : r = q ∨ r = q + 1 := by
    have h₁ : r < q + 2 := by
      by_contra h
      have := Nat.mul_le_mul_right den (show 2 * (q + 2) ≤ 2 * r by omega)
      nlinarith
    have h₂ : q ≤ r := by
      by_contra h
      have := Nat.mul_le_mul_right den (show 2 * (r + 1) ≤ 2 * q by omega)
      nlinarith
    omega
  have expand : (2 * q + 1) * den = 2 * (den * q) + den := by ring
  have expand' : 2 * (q + 1) * den = 2 * (den * q) + 2 * den := by ring
  have expand'' : 2 * q * den = 2 * (den * q) := by ring
  rcases near with rfl | rfl
  · rw [expand] at high odd
    split_ifs with below above even
    · rfl
    · omega
    · rfl
    · omega
  · rw [expand'] at low odd
    split_ifs with below above even
    · omega
    · rfl
    · omega
    · rfl

/-- The same, of a fraction.  Half way is allowed on both sides if the result is even. -/
theorem roundHalfEven_of_near {num den r : Nat} (hden : 0 < den) {v : ℚ} (hv : (num : ℚ) / den = v)
    (low : (r : ℚ) - 1 / 2 ≤ v) (high : v ≤ r + 1 / 2)
    (odd : r % 2 = 1 → (r : ℚ) - 1 / 2 < v ∧ v < r + 1 / 2) : roundHalfEven num den = r := by
  have hd : (0 : ℚ) < den := Nat.cast_pos.mpr hden
  have hnum : (num : ℚ) = v * den := by
    rw [← hv]
    field_simp
  have lift {a b : Nat} : a ≤ b ↔ (a : ℚ) ≤ b := Nat.cast_le.symm
  have lift' {a b : Nat} : a < b ↔ (a : ℚ) < b := Nat.cast_lt.symm
  apply roundHalfEven_eq hden
  · rw [lift]
    push_cast
    rw [hnum]
    nlinarith
  · rw [lift]
    push_cast
    rw [hnum]
    nlinarith
  · intro h
    obtain ⟨h₁, h₂⟩ := odd h
    rw [lift', lift']
    push_cast
    rw [hnum]
    constructor <;> nlinarith

/-! ## The exponent -/

theorem two_zpow_pos (e : Int) : (0 : ℚ) < 2 ^ e := zpow_pos (by norm_num) e

theorem two_zpow_add (a b : Int) : (2 : ℚ) ^ (a + b) = 2 ^ a * 2 ^ b := zpow_add₀ (by norm_num) a b

theorem log2_bounds {n : Nat} (h : 0 < n) :
    (2 : ℚ) ^ (n.log2 : Int) ≤ n ∧ (n : ℚ) < 2 ^ ((n.log2 : Int) + 1) := by
  constructor
  · exact_mod_cast Nat.log2_self_le (by omega)
  · exact_mod_cast Nat.lt_log2_self

variable {num den : Nat}

/-- `binaryExponent` finds the exponent of a fraction.  It is the one for which the significand has
fifty-three bits, or the least there is. -/
theorem binaryExponent_eq (hnum : 0 < num) (hden : 0 < den) {v : ℚ} (hv : (num : ℚ) / den = v)
    {e : Int} (least : -1074 ≤ e) (low : e = -1074 ∨ 2 ^ (52 + e) ≤ v) (high : v < 2 ^ (53 + e)) :
    binaryExponent num den = e := by
  obtain ⟨hn₁, hn₂⟩ := log2_bounds hnum
  obtain ⟨hd₁, hd₂⟩ := log2_bounds hden
  have hd : (0 : ℚ) < den := Nat.cast_pos.mpr hden
  rw [binaryExponent]
  generalize hg : (num.log2 : Int) - den.log2 - 53 = g
  have hp := scale_value num 2 (-g)
  have hq : (0 : ℚ) < (scale num 2 (-g)).2 := Nat.cast_pos.mpr (scale_pos num (by decide) (-g))
  -- the guess is right or one too low
  have above : 2 ^ (52 + g) < v := by
    rw [← hv, lt_div_iff₀ hd]
    calc (2 : ℚ) ^ (52 + g) * den < 2 ^ (52 + g) * 2 ^ ((den.log2 : Int) + 1) :=
          mul_lt_mul_of_pos_left hd₂ (two_zpow_pos _)
      _ = 2 ^ (num.log2 : Int) := by
          rw [← two_zpow_add]
          congr 1
          omega
      _ ≤ num := hn₁
  have below : v < 2 ^ (54 + g) := by
    rw [← hv, div_lt_iff₀ hd]
    calc (num : ℚ) < 2 ^ ((num.log2 : Int) + 1) := hn₂
      _ = 2 ^ (54 + g) * 2 ^ (den.log2 : Int) := by
          rw [← two_zpow_add]
          congr 1
          omega
      _ ≤ 2 ^ (54 + g) * den := mul_le_mul_of_nonneg_left hd₁ (two_zpow_pos _).le
  have test : (scale num 2 (-g)).1 ≥ Nat.pow 2 53 * ((scale num 2 (-g)).2 * den) ↔
      2 ^ (53 + g) ≤ v := by
    have moved : v * 2 ^ (-g) = (scale num 2 (-g)).1 / ((scale num 2 (-g)).2 * den) := by
      rw [← div_div, hp, ← hv]
      push_cast
      ring
    have undo : (2 : ℚ) ^ (53 + g) = 2 ^ 53 / 2 ^ (-g) := by
      rw [two_zpow_add, zpow_neg, div_inv_eq_mul]
      norm_num
    rw [undo, div_le_iff₀ (two_zpow_pos _), moved, le_div_iff₀ (mul_pos hq hd)]
    exact_mod_cast Iff.rfl
  -- the power of two below the fraction is unique
  have between {a b : Int} (h : (2 : ℚ) ^ a < 2 ^ b) : a < b :=
    (zpow_lt_zpow_iff_right₀ (by norm_num)).mp h
  simp only [test]
  rcases low with rfl | low
  · have h := between (above.trans high)
    split_ifs with carry
    · have := between (carry.trans_lt high)
      omega
    · omega
  · have h₁ := between (above.trans high)
    have h₂ := between (low.trans_lt below)
    split_ifs with carry
    · have := between (carry.trans_lt high)
      omega
    · have := between (low.trans_lt (not_le.mp carry))
      omega

/-! ## The interval of a double -/

/-- How far below a double the interval that rounds to it reaches, in units of its last place: half
way to the next smaller double, which is half as far away below a power of two. -/
def reach (m : Nat) (e : Int) : ℚ :=
  if m = Nat.pow 2 52 ∧ e > -1074 then 1 / 4 else 1 / 2

/-- The fractions that round to `m · 2 ^ e`; the ends of the interval do if `m` is even.  Below the
middle of the lower neighbour and above that of the upper one fractions round to other doubles. -/
structure Rounds (m : Nat) (e : Int) (v : ℚ) : Prop where
  low : (m - reach m e) * 2 ^ e ≤ v
  high : v ≤ (m + 1 / 2) * 2 ^ e
  odd : m % 2 = 1 → (m - reach m e) * 2 ^ e < v ∧ v < (m + 1 / 2) * 2 ^ e

theorem Rounds.of_between {m : Nat} {e : Int} {v : ℚ} (low : (m - reach m e) * 2 ^ e < v)
    (high : v < (m + 1 / 2) * 2 ^ e) : Rounds m e v :=
  ⟨low.le, high.le, fun _ => ⟨low, high⟩⟩

theorem reach_pos (m : Nat) (e : Int) : 0 < reach m e := by
  rw [reach]
  split_ifs <;> norm_num

theorem reach_le (m : Nat) (e : Int) : reach m e ≤ 1 / 2 := by
  rw [reach]
  split_ifs <;> norm_num

theorem RoundingInterval.of_den_pos (m : Nat) (e : Int) : 0 < (RoundingInterval.of m e).den :=
  Nat.mul_pos (by decide) (scale_pos (4 * m) (by decide) e)

/-- The unit of the last place of a double, over the denominator of its interval's fractions. -/
theorem scale_unit {m : Nat} (hm : 0 < m) (e : Int) :
    ∃ unit : Nat, (scale (4 * m) 2 e).1 / m / 4 = unit ∧ (scale (4 * m) 2 e).1 = 4 * m * unit ∧
      (unit : ℚ) / (scale (4 * m) 2 e).2 = 2 ^ e := by
  cases e with
  | ofNat k =>
    refine ⟨2 ^ k, ?_, rfl, by simp [scale]⟩
    show 4 * m * 2 ^ k / m / 4 = 2 ^ k
    rw [show 4 * m * 2 ^ k = m * (4 * 2 ^ k) by ring, Nat.mul_div_cancel_left _ hm,
      Nat.mul_div_cancel_left _ (by decide)]
  | negSucc k =>
    refine ⟨1, ?_, by simp [scale], by simp [scale, zpow_negSucc]⟩
    show 4 * m / m / 4 = 1
    rw [Nat.mul_div_cancel _ hm]

/-- The three numerators of an interval over its denominator.  The lower end is nearer than the
upper one for powers of two, which is what `reach` accounts for. -/
theorem RoundingInterval.of_values {m : Nat} (hm : 0 < m) (e : Int) :
    ((of m e).low : ℚ) / (of m e).den = (m - reach m e) * 2 ^ e ∧
      ((of m e).value : ℚ) / (of m e).den = m * 2 ^ e ∧
      ((of m e).high : ℚ) / (of m e).den = (m + 1 / 2) * 2 ^ e := by
  obtain ⟨unit, hunit, hnum, hvalue⟩ := scale_unit hm e
  have hd : (0 : ℚ) < (scale (4 * m) 2 e).2 := Nat.cast_pos.mpr (scale_pos _ (by decide) e)
  have hone : (1 : ℚ) ≤ m := Nat.one_le_cast.mpr hm
  generalize hnarrow : (if m = Nat.pow 2 52 ∧ e > -1074 then 1 else 2 : Nat) = narrow
  have hreach : reach m e = narrow / 4 := by
    rw [reach, ← hnarrow]
    split_ifs <;> norm_num
  have within : narrow * unit ≤ 4 * m * unit := by
    apply Nat.mul_le_mul_right
    have : narrow ≤ 2 := by
      rw [← hnarrow]
      split_ifs <;> omega
    omega
  simp only [of, hnarrow, hunit]
  rw [hnum, hreach, ← hvalue]
  push_cast [Nat.cast_sub within]
  refine ⟨?_, ?_, ?_⟩ <;>
  · field_simp
    try ring

/-- An interval contains the fractions that round to its double. -/
theorem RoundingInterval.of_contains_iff {m : Nat} (hm : 0 < m) (e : Int) (p : Nat) {q : Nat}
    (hq : 0 < q) : (of m e).contains p q = true ↔ Rounds m e ((p : ℚ) / q) := by
  obtain ⟨low, _, high⟩ := of_values hm e
  have hd : (0 : ℚ) < (of m e).den := Nat.cast_pos.mpr (of_den_pos m e)
  have hq' : (0 : ℚ) < q := Nat.cast_pos.mpr hq
  have closed : (of m e).closed = decide (m % 2 = 0) := rfl
  rw [contains, closed]
  -- The test is on whole numbers; each of its comparisons is one of fractions, cleared of
  -- denominators.
  have lower : (of m e).low * q ≤ p * (of m e).den ↔ (m - reach m e) * 2 ^ e ≤ (p : ℚ) / q := by
    rw [← low, div_le_div_iff₀ hd hq']
    exact_mod_cast Iff.rfl
  have upper : p * (of m e).den ≤ (of m e).high * q ↔ (p : ℚ) / q ≤ (m + 1 / 2) * 2 ^ e := by
    rw [← high, div_le_div_iff₀ hq' hd]
    exact_mod_cast Iff.rfl
  have lower' : (of m e).low * q < p * (of m e).den ↔ (m - reach m e) * 2 ^ e < (p : ℚ) / q := by
    rw [← low, div_lt_div_iff₀ hd hq']
    exact_mod_cast Iff.rfl
  have upper' : p * (of m e).den < (of m e).high * q ↔ (p : ℚ) / q < (m + 1 / 2) * 2 ^ e := by
    rw [← high, div_lt_div_iff₀ hq' hd]
    exact_mod_cast Iff.rfl
  by_cases even : m % 2 = 0
  · simp only [even, decide_true, if_true, Bool.and_eq_true, decide_eq_true_eq, lower, upper]
    constructor
    · intro h
      exact ⟨h.1, h.2, fun odd => by omega⟩
    · intro h
      exact ⟨h.low, h.high⟩
  · simp only [even, decide_false, Bool.false_eq_true, if_false, Bool.and_eq_true,
      decide_eq_true_eq, lower', upper']
    constructor
    · intro h
      exact ⟨h.1.le, h.2.le, fun _ => h⟩
    · intro h
      exact h.odd (by omega)

/-! ## The nearest double -/

/-- The bits follow from the exponent of a fraction and from the significand nearest to it. -/
theorem nearestBits_eq {v : ℚ} (hnum : 0 < num) (hden : 0 < den) (hv : (num : ℚ) / den = v)
    {e : Int} {r : Nat} (least : -1074 ≤ e) (low : e = -1074 ∨ 2 ^ (52 + e) ≤ v)
    (high : v < 2 ^ (53 + e)) (above : ((r : ℚ) - 1 / 2) * 2 ^ e ≤ v)
    (below : v ≤ (r + 1 / 2) * 2 ^ e)
    (odd : r % 2 = 1 → ((r : ℚ) - 1 / 2) * 2 ^ e < v ∧ v < (r + 1 / 2) * 2 ^ e) :
    nearestBits num den = min infinityBits ((e + 1074).toNat * Nat.pow 2 52 + r) := by
  have pos := two_zpow_pos e
  have quotient : ((scale num 2 (-e)).1 : ℚ) / ((scale num 2 (-e)).2 * den : Nat) = v / 2 ^ e := by
    push_cast
    rw [← div_div, scale_value, ← hv, zpow_neg]
    field_simp
    norm_num
  have nearest : roundHalfEven (scale num 2 (-e)).1 ((scale num 2 (-e)).2 * den) = r := by
    apply roundHalfEven_of_near (Nat.mul_pos (scale_pos num (by decide) _) hden) quotient
    · rwa [le_div_iff₀ pos]
    · rwa [div_le_iff₀ pos]
    · intro h
      rw [lt_div_iff₀ pos, div_lt_iff₀ pos]
      exact odd h
  rw [nearestBits, binaryExponent_eq hnum hden hv least low high]
  simp only [nearest]

/-- Every fraction in the interval of a double has that double's bits.  Ties go to the even
significand, as the ends of the interval do. -/
theorem nearestBits_of_rounds {m : Nat} {e : Int} (fits : Fits m e) (hm : 0 < m) (hnum : 0 < num)
    (hden : 0 < den) (rounds : Rounds m e ((num : ℚ) / den)) :
    nearestBits num den = (e + 1074).toNat * Nat.pow 2 52 + m := by
  obtain ⟨small, least, greatest, normal⟩ := fits
  have power : Nat.pow 2 52 = 4503599627370496 := by norm_num
  have power' : Nat.pow 2 53 = 9007199254740992 := by norm_num
  have pos := two_zpow_pos e
  have hm53 : (m : ℚ) + 1 ≤ 2 ^ 53 := by
    rw [power'] at small
    exact_mod_cast small
  have high : (num : ℚ) / den < 2 ^ (53 + e) := by
    rw [two_zpow_add]
    refine rounds.high.trans_lt (mul_lt_mul_of_pos_right ?_ pos)
    norm_num at hm53 ⊢
    linarith
  have finite : min infinityBits ((e + 1074).toNat * Nat.pow 2 52 + m) =
      (e + 1074).toNat * Nat.pow 2 52 + m := by
    rw [power'] at small
    rw [infinityBits, power]
    omega
  by_cases carry : m = Nat.pow 2 52 ∧ e > -1074 ∧ (num : ℚ) / den < 2 ^ (52 + e)
  · -- below the power of two the exponent is one less, and the significand rounds up to `2 ^ 53`
    obtain ⟨rfl, hne, hlt⟩ := carry
    have half : (2 : ℚ) ^ e = 2 * 2 ^ (e - 1) := by
      rw [show e = 1 + (e - 1) by omega, two_zpow_add]
      norm_num
    have pos' := two_zpow_pos (e - 1)
    have hlow := rounds.low
    rw [reach, if_pos ⟨rfl, hne⟩, half, power] at hlow
    rw [two_zpow_add, half] at hlt
    norm_num at hlow hlt
    rw [nearestBits_eq hnum hden rfl (e := e - 1) (r := Nat.pow 2 53) (by omega) (.inr ?_) ?_ ?_ ?_
      ?_]
    · rw [infinityBits, power, power']
      omega
    · rw [two_zpow_add]
      norm_num
      linarith
    · rw [two_zpow_add]
      norm_num
      linarith
    · rw [power']
      norm_num
      linarith
    · rw [power']
      norm_num
      linarith
    · intro h
      rw [power'] at h
      omega
  · have wide : ((m : ℚ) - 1 / 2) * 2 ^ e ≤ (m - reach m e) * 2 ^ e :=
      mul_le_mul_of_nonneg_right (by linarith [reach_le m e]) pos.le
    rw [nearestBits_eq hnum hden rfl least ?_ high (wide.trans rounds.low) rounds.high ?_, finite]
    · rcases normal with bottom | normal
      · exact .inl bottom
      · by_cases bottom : e = -1074
        · exact .inl bottom
        · right
          by_contra hlt
          have hne : m ≠ Nat.pow 2 52 := by
            intro h
            exact carry ⟨h, by omega, not_le.mp hlt⟩
          have hm52 : (4503599627370496 : ℚ) + 1 ≤ m := by
            have : 4503599627370496 + 1 ≤ m := by omega
            exact_mod_cast this
          rw [two_zpow_add, not_le] at hlt
          norm_num at hlt
          have hle : (4503599627370496 : ℚ) * 2 ^ e ≤ (m - 1 / 2) * 2 ^ e :=
            mul_le_mul_of_nonneg_right (by linarith) pos.le
          linarith [wide.trans rounds.low]
    · intro h
      exact ⟨wide.trans_lt (rounds.odd h).1, (rounds.odd h).2⟩

/-! ## Decimals -/

theorem ten_zpow_pos (e : Int) : (0 : ℚ) < 10 ^ e := zpow_pos (by norm_num) e

theorem ten_zpow_add (a b : Int) : (10 : ℚ) ^ (a + b) = 10 ^ a * 10 ^ b :=
  zpow_add₀ (by norm_num) a b

theorem ten_zpow_le {a b : Int} (h : a ≤ b) : (10 : ℚ) ^ a ≤ 10 ^ b :=
  zpow_le_zpow_right₀ (by norm_num) h

/-- A number of `k` digits lies between the powers of ten at `k - 1` and `k`. -/
theorem toDigits_bounds {n : Nat} (h : 0 < n) :
    (10 : ℚ) ^ ((Nat.toDigits 10 n).length - 1 : Int) ≤ n ∧
      (n : ℚ) < 10 ^ ((Nat.toDigits 10 n).length : Int) := by
  have hlen : 0 < (Nat.toDigits 10 n).length := Nat.length_toDigits_pos
  constructor
  · obtain ⟨k, hk⟩ := Nat.exists_eq_succ_of_ne_zero hlen.ne'
    rw [hk, Nat.cast_succ, add_sub_cancel_right, zpow_natCast]
    by_contra hlt
    rw [not_le] at hlt
    have hlt : n < 10 ^ k := by exact_mod_cast hlt
    rcases Nat.eq_zero_or_pos k with rfl | hpos
    · rw [pow_zero] at hlt
      omega
    · have := (Nat.length_toDigits_le_iff (by decide) hpos).mpr hlt
      omega
  · rw [zpow_natCast]
    exact_mod_cast (Nat.length_toDigits_le_iff (by decide) hlen).mp le_rfl

theorem least_double_range : (10 : ℚ) ^ (-401 : Int) < 1 / 2 * 2 ^ (-1074 : Int) := by
  have h : (2 : ℚ) * 2 ^ 1074 < 10 ^ 401 := by
    exact_mod_cast (by decide +kernel : 2 * 2 ^ 1074 < 10 ^ 401)
  rw [zpow_neg, zpow_neg, one_div, ← mul_inv]
  exact inv_strictAnti₀ (by positivity) (by exact_mod_cast h)

theorem greatest_double_range : (2 : ℚ) ^ (53 : Int) * 2 ^ (971 : Int) < 10 ^ (400 : Int) := by
  exact_mod_cast (by decide +kernel : 2 ^ 53 * 2 ^ 971 < 10 ^ 400)

/-- What rounds to a double lies well within the range that needs the power. -/
theorem Rounds.range {m : Nat} {e : Int} {v : ℚ} (rounds : Rounds m e v) (fits : Fits m e)
    (hm : 0 < m) : 10 ^ (-401 : Int) < v ∧ v < 10 ^ (400 : Int) := by
  have hone : (1 : ℚ) ≤ m := Nat.one_le_cast.mpr hm
  have hsmall : (m : ℚ) + 1 ≤ 2 ^ (53 : Int) := by exact_mod_cast fits.small
  constructor
  · calc (10 : ℚ) ^ (-401 : Int) < 1 / 2 * 2 ^ (-1074 : Int) := least_double_range
      _ ≤ 1 / 2 * 2 ^ e :=
          mul_le_mul_of_nonneg_left (zpow_le_zpow_right₀ (by norm_num) fits.low) (by norm_num)
      _ ≤ (m - reach m e) * 2 ^ e :=
          mul_le_mul_of_nonneg_right (by linarith [reach_le m e]) (two_zpow_pos e).le
      _ ≤ v := rounds.low
  · calc v ≤ (m + 1 / 2) * 2 ^ e := rounds.high
      _ ≤ 2 ^ (53 : Int) * 2 ^ e :=
          mul_le_mul_of_nonneg_right (by linarith) (two_zpow_pos e).le
      _ ≤ 2 ^ (53 : Int) * 2 ^ (971 : Int) :=
          mul_le_mul_of_nonneg_left (zpow_le_zpow_right₀ (by norm_num) fits.high) (by norm_num)
      _ < 10 ^ (400 : Int) := greatest_double_range

/-- Every decimal in the interval of a double has that double's bits. -/
theorem decimalBits_of_rounds {m : Nat} {e : Int} (fits : Fits m e) (hm : 0 < m) {digits : Nat}
    (hdigits : 0 < digits) {exponent : Int}
    (rounds : Rounds m e (digits * 10 ^ exponent)) :
    decimalBits digits exponent = (e + 1074).toNat * Nat.pow 2 52 + m := by
  obtain ⟨low, high⟩ := toDigits_bounds hdigits
  obtain ⟨range₁, range₂⟩ := rounds.range fits hm
  have pos := ten_zpow_pos exponent
  have value := scale_value digits 10 exponent
  rw [Nat.cast_ofNat] at value
  have hden := scale_pos digits (show 0 < 10 by decide) exponent
  have hnum : 0 < (scale digits 10 exponent).1 := by
    cases exponent with
    | ofNat k => exact Nat.mul_pos hdigits (Nat.pow_pos (by decide))
    | negSucc k => exact hdigits
  rw [decimalBits, if_neg hdigits.ne', if_neg, if_neg]
  · exact nearestBits_of_rounds fits hm hnum hden (value ▸ rounds)
  · -- Exponents far out of range are answered without computing.  A number that rounds to a double
    -- has none of them.
    intro tiny
    have hlt : (digits : ℚ) * 10 ^ exponent < 10 ^ (-401 : Int) := by
      calc (digits : ℚ) * 10 ^ exponent
          < 10 ^ ((Nat.toDigits 10 digits).length : Int) * 10 ^ exponent :=
            mul_lt_mul_of_pos_right high pos
        _ = 10 ^ (((Nat.toDigits 10 digits).length : Int) + exponent) := (ten_zpow_add _ _).symm
        _ ≤ 10 ^ (-401 : Int) := ten_zpow_le (by omega)
    exact lt_asymm hlt range₁
  · intro huge
    have hle : (10 : ℚ) ^ (400 : Int) ≤ digits * 10 ^ exponent := by
      calc (10 : ℚ) ^ (400 : Int)
          ≤ 10 ^ (((Nat.toDigits 10 digits).length - 1 : Int) + exponent) :=
            ten_zpow_le (by omega)
        _ = 10 ^ ((Nat.toDigits 10 digits).length - 1 : Int) * 10 ^ exponent := ten_zpow_add _ _
        _ ≤ digits * 10 ^ exponent := mul_le_mul_of_nonneg_right low pos.le
    exact not_lt.mpr hle range₂

end PikeAnalysis.Decimal
