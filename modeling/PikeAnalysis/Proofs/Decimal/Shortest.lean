import Mathlib.Data.Nat.Cast.Order.Field
import PikeAnalysis.Proofs.Decimal.Rounding

/-!
# The shortest digits of a double

The search for a decimal that reads back ends, because seventeen digits always suffice: decimals of
seventeen digits are closer to each other than the interval of a double is wide.  So the digits it
gives stand for a number in that interval.

Nothing is said about shortness, which no claim is about.  What matters is that the digits read
back: the search looks at one count of digits after the other and takes the first at which a
candidate lies in the interval, so whatever it gives rounds to the double, and it gives something
because at seventeen digits there is a candidate.
-/

namespace PikeAnalysis.Decimal

/-! ## The place of the first digit -/

theorem magnitude_le {num den : Nat} (hnum : 0 < num) (hden : 0 < den) :
    (10 : ℚ) ^ (magnitude num den - 1) ≤ num / den := by
  have hn : (0 : ℚ) < num := Nat.cast_pos.mpr hnum
  have hd : (0 : ℚ) < den := Nat.cast_pos.mpr hden
  rw [magnitude]
  by_cases whole : num ≥ den
  · rw [if_pos whole]
    have hq : 0 < num / den := Nat.div_pos whole hden
    exact (toDigits_bounds hq).1.trans Nat.cast_div_le
  · rw [if_neg whole]
    have hq : 0 < den / num := Nat.div_pos (by omega) hnum
    have hlen : 0 < (Nat.toDigits 10 (den / num)).length := Nat.length_toDigits_pos
    have hlt := (Nat.length_toDigits_le_iff (by decide) hlen).mp
      (le_refl (Nat.toDigits 10 (den / num)).length)
    generalize (Nat.toDigits 10 (den / num)).length = guess at hlen hlt
    -- one below the power that brings the fraction to one
    have bound {k : Nat} (h : den ≤ num * 10 ^ k) : (10 : ℚ) ^ (-(k : Int)) ≤ num / den := by
      rw [le_div_iff₀ hd, zpow_neg, zpow_natCast, inv_mul_le_iff₀ (by positivity), mul_comm]
      exact_mod_cast h
    dsimp only
    split_ifs with first
    · rw [show (2 : Int) - guess - 1 = -((guess - 1 : Nat) : Int) by omega]
      exact bound first
    · rw [show (1 : Int) - guess - 1 = -(guess : Int) by omega]
      apply bound
      have hstep := Nat.lt_mul_div_succ den hnum
      exact hstep.le.trans (Nat.mul_le_mul_left num hlt)

/-! ## Candidates -/

theorem roundHalfEven_near (num den : Nat) :
    roundHalfEven num den = num / den ∨ roundHalfEven num den = num / den + 1 := by
  rw [roundHalfEven]
  split_ifs
  · exact .inl rfl
  · exact .inr rfl
  · exact .inl rfl
  · exact .inr rfl

variable {m : Nat} {e : Int}

/-- A candidate is inside the interval just if what it stands for rounds to the double. -/
theorem inside_iff (hm : 0 < m) (k : Int) (n d : Nat) :
    (RoundingInterval.of m e).contains (scale d 10 (k - n)).1 (scale d 10 (k - n)).2 = true ↔
      Rounds m e (d * 10 ^ (k - n)) := by
  rw [RoundingInterval.of_contains_iff hm e _ (scale_pos d (by decide) _), scale_value]
  norm_num

/-- Whatever is given at a digit count rounds to the double. -/
theorem rounds_of_atDigits? (hm : 0 < m) {k : Int} {n d : Nat}
    (h : (RoundingInterval.of m e).atDigits? k n = some d) :
    Rounds m e (d * 10 ^ (k - n)) := by
  rw [RoundingInterval.atDigits?] at h
  dsimp only at h
  split at h
  · cases h
  · next below above =>
    cases h
    exact (inside_iff hm k n _).mp below
  · next below above =>
    cases h
    exact (inside_iff hm k n _).mp above
  · next below above =>
    cases h
    rcases roundHalfEven_near (scale (RoundingInterval.of m e).value 10 (n - k)).1
      ((scale (RoundingInterval.of m e).value 10 (n - k)).2 * (RoundingInterval.of m e).den)
      with near | near
    · rw [near]
      exact (inside_iff hm k n _).mp below
    · rw [near]
      exact (inside_iff hm k n _).mp above

/-- Nothing is given at a digit count only where the interval is no wider than the decimals of that
count are apart. -/
theorem width_le_of_atDigits?_eq_none (hm : 0 < m) {k : Int} {n : Nat}
    (h : (RoundingInterval.of m e).atDigits? k n = none) :
    (1 / 2 + reach m e) * 2 ^ e ≤ 10 ^ (k - n) := by
  obtain ⟨_, value, _⟩ := RoundingInterval.of_values hm e
  have pos := two_zpow_pos e
  have pos' := ten_zpow_pos (k - n)
  -- the candidates next to the value, in the unit of the last digit
  have hv : ((scale (RoundingInterval.of m e).value 10 (n - k)).1 : ℚ) /
      ((scale (RoundingInterval.of m e).value 10 (n - k)).2 * (RoundingInterval.of m e).den : Nat) *
        10 ^ (k - n) = m * 2 ^ e := by
    push_cast
    rw [← div_div, scale_value, ← value, Nat.cast_ofNat, show (k - n : Int) = -(n - k) by omega,
      zpow_neg]
    field_simp
  have hden :=
    Nat.mul_pos (scale_pos (RoundingInterval.of m e).value (show 0 < 10 by decide) (n - k))
    (RoundingInterval.of_den_pos m e)
  rw [RoundingInterval.atDigits?] at h
  dsimp only at h
  generalize (scale (RoundingInterval.of m e).value 10 (n - k)).1 = num at h hv
  generalize (scale (RoundingInterval.of m e).value 10 (n - k)).2 * (RoundingInterval.of m e).den =
    den at h hv hden
  split at h
  · next below above =>
    have hd : (0 : ℚ) < den := Nat.cast_pos.mpr hden
    have floor : ((num / den : Nat) : ℚ) * 10 ^ (k - n) ≤ m * 2 ^ e := by
      rw [← hv]
      exact mul_le_mul_of_nonneg_right Nat.cast_div_le pos'.le
    have ceil : m * 2 ^ e < ((num / den + 1 : Nat) : ℚ) * 10 ^ (k - n) := by
      rw [← hv]
      apply mul_lt_mul_of_pos_right _ pos'
      rw [div_lt_iff₀ hd, mul_comm]
      exact_mod_cast Nat.lt_mul_div_succ num hden
    have small := mul_pos (reach_pos m e) pos
    have lower : ((num / den : Nat) : ℚ) * 10 ^ (k - n) ≤ (m - reach m e) * 2 ^ e := by
      by_contra hlt
      rw [Bool.eq_false_iff, ne_eq, inside_iff hm] at below
      exact below (.of_between (not_le.mp hlt) (by linarith))
    have upper : (m + 1 / 2) * 2 ^ e ≤ ((num / den + 1 : Nat) : ℚ) * 10 ^ (k - n) := by
      by_contra hlt
      rw [Bool.eq_false_iff, ne_eq, inside_iff hm] at above
      exact above (.of_between (by linarith) (not_le.mp hlt))
    push_cast at lower upper
    linarith
  all_goals cases h

/-- Seventeen digits suffice.  So the search for the shortest digits always finds some. -/
theorem atDigits?_seventeen (fits : Fits m e) (hm : 0 < m) :
    (RoundingInterval.of m e).atDigits?
      (magnitude (RoundingInterval.of m e).value (RoundingInterval.of m e).den) 17 ≠ none := by
  intro h
  -- If no decimal of seventeen digits were in the interval, it would be narrower than their
  -- distance.
  have wide := width_le_of_atDigits?_eq_none hm h
  obtain ⟨_, value, _⟩ := RoundingInterval.of_values hm e
  have pos := two_zpow_pos e
  have hone : (1 : ℚ) ≤ m := Nat.one_le_cast.mpr hm
  have hden := RoundingInterval.of_den_pos m e
  have hvalue : 0 < (RoundingInterval.of m e).value := by
    by_contra hzero
    rw [Nat.eq_zero_of_not_pos hzero, Nat.cast_zero, zero_div] at value
    nlinarith
  have first := magnitude_le hvalue hden
  rw [value] at first
  generalize magnitude (RoundingInterval.of m e).value (RoundingInterval.of m e).den = k
    at wide first
  have apart : (10 : ℚ) ^ (k - (17 : Nat)) = 10 ^ (k - 1) / 10 ^ (16 : Nat) := by
    rw [show k - (17 : Nat) = k - 1 + -(16 : Nat) by omega, ten_zpow_add, zpow_neg, zpow_natCast,
      div_eq_mul_inv]
  have narrow : (1 / 2 + reach m e) * 10 ^ 16 ≤ m := by
    rw [apart, le_div_iff₀ (by positivity)] at wide
    have h : (1 / 2 + reach m e) * 10 ^ 16 * 2 ^ e ≤ m * 2 ^ e := by linarith
    exact le_of_mul_le_mul_right h pos
  rw [reach] at narrow
  split_ifs at narrow with power
  · rw [power.1] at narrow
    norm_num at narrow
  · have hsmall : (m : ℚ) ≤ 2 ^ 53 := by exact_mod_cast fits.small.le
    norm_num at narrow hsmall
    linarith

/-! ## The search -/

theorem atDigits?_search (r : RoundingInterval) (k : Int) {fuel n j : Nat} (hj : j < fuel)
    (found : r.atDigits? k (n + j) ≠ none) :
    r.atDigits? k (r.search k fuel n).1 = some (r.search k fuel n).2 := by
  induction fuel generalizing n j with
  | zero => cases hj
  | succ fuel ih =>
    rw [RoundingInterval.search]
    cases here : r.atDigits? k n with
    | some d => exact here
    | none =>
      cases j with
      | zero => exact absurd here found
      | succ j => exact ih (Nat.lt_of_succ_lt_succ hj) (by rwa [Nat.add_right_comm])

/-! ## Zeros at the end -/

/-- The digits of a number without the zeros at their end are those of a number smaller by that many
powers of ten. -/
theorem exists_toDigits_trimmed {d : Nat} (hd : 0 < d) :
    ∃ t z : Nat, 0 < t ∧ d = t * 10 ^ z ∧
      ((Nat.toDigits 10 d).reverse.dropWhile (· == '0')).reverse = Nat.toDigits 10 t ∧
      (Nat.toDigits 10 d).length = (Nat.toDigits 10 t).length + z := by
  induction d using Nat.strongRecOn with
  | ind d ih =>
    by_cases last : d % 10 = 0
    · have more := Nat.toDigits_of_base_le (show 1 < 10 by decide) (show 10 ≤ d by omega)
      obtain ⟨t, z, ht, hdiv, htrim, hlen⟩ := ih (d / 10) (by omega) (by omega)
      refine ⟨t, z + 1, ht, ?_, ?_, ?_⟩
      · rw [pow_succ, ← mul_assoc, ← hdiv]
        omega
      · rw [more, last, List.reverse_append]
        exact htrim
      · rw [more, List.length_append, hlen]
        rfl
    · refine ⟨d, 0, hd, by simp, ?_, rfl⟩
      have stops : (Nat.digitChar (d % 10) == '0') = false := by
        rw [beq_eq_false_iff_ne, ne_eq, Nat.digitChar_eq_zero]
        exact last
      have ending : ∃ front, Nat.toDigits 10 d = front ++ [Nat.digitChar (d % 10)] := by
        by_cases small : d < 10
        · exact ⟨[], by rw [Nat.toDigits_of_lt_base small, Nat.mod_eq_of_lt small]; rfl⟩
        · exact ⟨_, Nat.toDigits_of_base_le (by decide) (by omega)⟩
      obtain ⟨front, hfront⟩ := ending
      rw [hfront, List.reverse_append, List.reverse_singleton, List.singleton_append,
        List.dropWhile_cons_of_neg (by rw [stops]; decide), List.reverse_cons, List.reverse_reverse]

/-- The digits of a double are those of a whole number, and with the point in its place they stand
for a number that rounds to the double.  This is all that the text of a double needs. -/
theorem shortestDigits_rounds (fits : Fits m e) (hm : 0 < m) :
    ∃ (d : Nat) (point : Int), 0 < d ∧ shortestDigits m e = (Nat.toDigits 10 d, point) ∧
      Rounds m e (d * 10 ^ (point - (Nat.toDigits 10 d).length)) := by
  have found := atDigits?_search (RoundingInterval.of m e)
    (magnitude (RoundingInterval.of m e).value (RoundingInterval.of m e).den)
    (show 16 < 17 by decide) (n := 1) (atDigits?_seventeen fits hm)
  rw [shortestDigits]
  dsimp only
  generalize magnitude (RoundingInterval.of m e).value (RoundingInterval.of m e).den = k at found ⊢
  generalize (RoundingInterval.of m e).search k 17 1 = result at found ⊢
  obtain ⟨n, d⟩ := result
  have rounds := rounds_of_atDigits? hm found
  -- Zero rounds to no double that is positive.
  have hd : 0 < d := by
    by_contra hzero
    have hone : (1 : ℚ) ≤ m := Nat.one_le_cast.mpr hm
    have low := rounds.low
    rw [Nat.eq_zero_of_not_pos hzero, Nat.cast_zero, zero_mul] at low
    nlinarith [reach_le m e, two_zpow_pos e]
  obtain ⟨t, z, ht, hdt, htrim, hlen⟩ := exists_toDigits_trimmed hd
  refine ⟨t, k + ((Nat.toDigits 10 d).length - n), ht, by rw [htrim], ?_⟩
  have value :
      (t : ℚ) * 10 ^ (k + ((Nat.toDigits 10 d).length - n) - (Nat.toDigits 10 t).length : Int) =
      d * 10 ^ (k - n) := by
    rw [hlen, hdt]
    push_cast
    rw [mul_assoc, ← zpow_natCast, ← ten_zpow_add]
    congr 2
    omega
  rw [value]
  exact rounds

end PikeAnalysis.Decimal
