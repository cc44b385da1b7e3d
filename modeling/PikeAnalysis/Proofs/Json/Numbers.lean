import PikeAnalysis.Json.Reader
import PikeAnalysis.Json.Writer
import PikeAnalysis.Proofs.Decimal.Shortest

/-!
# Numbers as text

The reader takes the text of every number back to that number: of a whole number of any size, and of
every double, the infinities and not-a-number among them.

Whole numbers are read digit by digit and have no limit.  A double is written with the shortest
digits that read back, in one of three layouts by the place of the point, and each layout is read as
a decimal that stands for the same fraction as the digits did.  That this fraction rounds to the
double is the result of `Proofs/Decimal`.  Names for the infinities and for what is no number are
read as themselves.

The sections follow the grammar.  What ends a number comes first, since every lemma has the
condition that the text behind does not go on with it.  Then come the parts of a decimal, each with
its own value as a fraction, and a layout is a way of putting them together.
-/

namespace PikeAnalysis.Json

/-! ## What ends a number -/

/-- Whether a text may follow a number: it does not go on with it.  Without this the number that is
read could be a longer one. -/
def EndsNumber (rest : List Char) : Prop :=
  ∀ c ∈ rest.head?, c.isDigit = false ∧ c ≠ '.' ∧ c ≠ 'e' ∧ c ≠ 'E'

theorem endsNumber_nil : EndsNumber [] := by
  intro c hc
  cases hc

theorem endsNumber_cons {c : Char} (h : c.isDigit = false ∧ c ≠ '.' ∧ c ≠ 'e' ∧ c ≠ 'E')
    (rest : List Char) : EndsNumber (c :: rest) := by
  intro d hd
  rw [List.head?_cons, Option.mem_some_iff] at hd
  exact hd ▸ h

/-! ## Digits -/

theorem intText_ofNat (n : Nat) : intText n = Nat.toDigits 10 n := by
  rw [intText, Int.toString_eq_repr, Int.repr.eq_def]
  exact Nat.toList_repr

theorem intText_negSucc (n : Nat) : intText (.negSucc n) = '-' :: Nat.toDigits 10 (n + 1) := by
  rw [intText, Int.toString_eq_repr, Int.repr]
  simp

theorem isDigit_of_mem_toDigits {n : Nat} {c : Char} (h : c ∈ Nat.toDigits 10 n) : c.isDigit :=
  Nat.isDigit_of_mem_toDigits (by decide) (by decide) h

theorem digitsValue_toDigits (n : Nat) : digitsValue (Nat.toDigits 10 n) = n := by
  have h := Nat.ofDigitChars_ten_toDigits (n := n)
  rw [Nat.ofDigitChars_eq_foldl] at h
  simpa only [digitsValue, Nat.mul_comm 10, show '0'.toNat = 48 from rfl] using h

/-- Only zero is written with a zero in front.  So the reader, for which a leading zero ends the
number, never stops too early. -/
theorem eq_zero_of_toDigits_eq_cons {n : Nat} {ds : List Char} (h : Nat.toDigits 10 n = '0' :: ds) :
    n = 0 := by
  induction n using Nat.strongRecOn generalizing ds with
  | ind n ih =>
    rcases Nat.lt_or_ge n 10 with hn | hn
    · rw [Nat.toDigits_of_lt_base hn] at h
      exact Nat.digitChar_eq_zero.mp (List.cons.inj h).1
    · rw [Nat.toDigits_of_base_le (by decide) hn] at h
      cases hd : Nat.toDigits 10 (n / 10) with
      | nil => exact absurd hd Nat.toDigits_ne_nil
      | cons d ds' =>
        rw [hd, List.cons_append] at h
        rw [(List.cons.inj h).1] at hd
        have := ih (n / 10) (by omega) hd
        omega

theorem ne_of_isDigit {c x : Char} (digit : c.isDigit) (hx : x.isDigit = false) : c ≠ x := by
  rintro rfl
  exact absurd digit (by rw [hx]; decide)

theorem exists_toDigits_eq_cons (n : Nat) :
    ∃ d ds, Nat.toDigits 10 n = d :: ds ∧ d.isDigit ∧ (0 < n → d ≠ '0') := by
  cases hd : Nat.toDigits 10 n with
  | nil => exact absurd hd Nat.toDigits_ne_nil
  | cons d ds =>
    refine ⟨d, ds, rfl, isDigit_of_mem_toDigits (hd ▸ List.mem_cons_self), ?_⟩
    rintro pos rfl
    exact absurd (eq_zero_of_toDigits_eq_cons hd) (Nat.ne_of_gt pos)

theorem takeWhile_isDigit_of_head {ds rest : List Char} (digits : ∀ c ∈ ds, c.isDigit)
    (ends : ∀ c ∈ rest.head?, c.isDigit = false) :
    (ds ++ rest).takeWhile Char.isDigit = ds := by
  rw [List.takeWhile_append_of_pos digits]
  cases rest with
  | nil => simp
  | cons c rest => rw [List.takeWhile_cons_of_neg (by simp [ends c rfl]), List.append_nil]

theorem takeWhile_isDigit {ds rest : List Char} (digits : ∀ c ∈ ds, c.isDigit)
    (ends : EndsNumber rest) : (ds ++ rest).takeWhile Char.isDigit = ds :=
  takeWhile_isDigit_of_head digits fun c hc => (ends c hc).1

/-! ## Whole numbers -/

theorem readFraction_of_ends {rest : List Char} (ends : EndsNumber rest) :
    readFraction rest = ([], rest) := by
  cases rest with
  | nil => rfl
  | cons c rest => simp [readFraction, (ends c rfl).2.1]

theorem readExponent_of_ends {rest : List Char} (ends : EndsNumber rest) :
    readExponent rest = (none, rest) := by
  cases rest with
  | nil => rfl
  | cons c rest => simp [readExponent, (ends c rfl).2.2]

/-- A whole number reads back, up to what ends it.  What follows must not go on with the number. -/
theorem readNumber_intText (n : Int) {rest : List Char} (ends : EndsNumber rest) :
    readNumber (intText n ++ rest) = some (.int n, rest) := by
  have digits {m : Nat} {d : Char} {ds : List Char} (hd : Nat.toDigits 10 m = d :: ds) :
      (d :: (ds ++ rest)).takeWhile Char.isDigit = d :: ds := by
    have h :=
      takeWhile_isDigit (fun c (hc : c ∈ Nat.toDigits 10 m) => isDigit_of_mem_toDigits hc) ends
    rwa [hd] at h
  have value {m : Nat} {d : Char} {ds : List Char} (hd : Nat.toDigits 10 m = d :: ds) :
      digitsValue (d :: ds) = m :=
    hd ▸ digitsValue_toDigits m
  match n with
  | .ofNat 0 =>
    -- a zero in front is read alone
    rw [show intText (.ofNat 0) = ['0'] from rfl]
    simp [readNumber, readFraction_of_ends ends, readExponent_of_ends ends, digitsValue]
  | .ofNat (m + 1) =>
    obtain ⟨d, ds, hd, digit, nonzero⟩ := exists_toDigits_eq_cons (m + 1)
    rw [Int.ofNat_eq_natCast, intText_ofNat, hd, List.cons_append]
    simp [readNumber, nonzero (Nat.succ_pos m), ne_of_isDigit digit (x := '-') rfl, digits hd,
      value hd, readFraction_of_ends ends, readExponent_of_ends ends]
  | .negSucc m =>
    obtain ⟨d, ds, hd, digit, nonzero⟩ := exists_toDigits_eq_cons (m + 1)
    rw [intText_negSucc, hd, List.cons_append, Int.negSucc_eq]
    simp [readNumber, nonzero (Nat.succ_pos m), digits hd, value hd, readFraction_of_ends ends,
      readExponent_of_ends ends]

/-! ## The parts of a decimal -/

theorem digitsValue_append (a b : List Char) :
    digitsValue (a ++ b) = digitsValue a * 10 ^ b.length + digitsValue b := by
  have go (n : Nat) : b.foldl (fun n d => n * 10 + (d.toNat - 48)) n =
      n * 10 ^ b.length + digitsValue b := by
    induction b generalizing n with
    | nil => simp [digitsValue]
    | cons c b ih =>
      rw [digitsValue, List.foldl_cons, List.foldl_cons, ih, ih (0 * 10 + _), List.length_cons]
      ring
  rw [digitsValue, List.foldl_append, go]
  rfl

theorem digitsValue_zeros (n : Nat) : digitsValue (List.replicate n '0') = 0 := by
  induction n with
  | zero => rfl
  | succ n ih =>
    rw [List.replicate_succ', digitsValue_append, ih, Nat.zero_mul]
    rfl

theorem isDigit_of_mem_zeros {n : Nat} {c : Char} (h : c ∈ List.replicate n '0') : c.isDigit := by
  rw [List.eq_of_mem_replicate h]
  rfl

/-- A fraction of at least one digit is read up to what ends it. -/
theorem readFraction_of_digits {part : List Char} (rest : List Char)
    (digits : ∀ c ∈ part, c.isDigit)
    (some : part ≠ []) (ends : ∀ c ∈ rest.head?, c.isDigit = false) :
    readFraction ('.' :: part ++ rest) = (part, rest) := by
  simp [readFraction, takeWhile_isDigit_of_head digits ends, some]

/-- An exponent reads back.  Its sign is always written, and a single digit has a zero in front. -/
theorem readExponent_exponentText (e : Int) {rest : List Char} (ends : EndsNumber rest) :
    readExponent ('e' :: Decimal.exponentText e ++ rest) = (some e, rest) := by
  have digits : ∀ c ∈ Decimal.paddedDigits 2 e.natAbs, c.isDigit := by
    intro c hc
    rcases List.mem_append.mp hc with zero | digit
    · exact isDigit_of_mem_zeros zero
    · exact isDigit_of_mem_toDigits digit
  have value : digitsValue (Decimal.paddedDigits 2 e.natAbs) = e.natAbs := by
    rw [Decimal.paddedDigits, digitsValue_append, digitsValue_zeros, digitsValue_toDigits,
      Nat.zero_mul, Nat.zero_add]
  have nonempty : Decimal.paddedDigits 2 e.natAbs ≠ [] := by
    rw [Decimal.paddedDigits, ne_eq, List.append_eq_nil_iff]
    exact fun h => Nat.toDigits_ne_nil h.2
  have taken := takeWhile_isDigit digits ends
  by_cases negative : e < 0
  · simp [readExponent, Decimal.exponentText, negative, taken, nonempty, value, abs_of_neg negative]
  · simp [readExponent, Decimal.exponentText, negative, taken, nonempty, value,
      abs_of_nonneg (not_lt.mp negative)]

/-! ## Decimals -/

/-- The digits before the point: one zero, or digits that do not start with one.  This is what the
grammar allows, and also what the decimal text of a natural number looks like, so one lemma about
reading covers both whole numbers and the part of a double before its point. -/
inductive IsWhole : List Char → Prop
  | zero : IsWhole ['0']
  | digits {d : Char} {ds : List Char} (nonzero : d ≠ '0') (digit : d.isDigit)
      (more : ∀ c ∈ ds, c.isDigit) : IsWhole (d :: ds)

/-- The sign in front of a number. -/
def signText (negative : Bool) : List Char :=
  if negative then ['-'] else []

/-- A number with a fraction or an exponent is read as the double nearest to it. -/
theorem readNumber_decimal (negative : Bool) {whole more part behind rest : List Char}
    {exponent : Option Int} (isWhole : IsWhole whole)
    (ends : ∀ c ∈ more.head?, c.isDigit = false) (fraction : readFraction more = (part, behind))
    (hexponent : readExponent behind = (exponent, rest))
    (pointed : part = [] → exponent ≠ none) :
    readNumber (signText negative ++ (whole ++ more)) =
      some (.float (Decimal.ofBits negative
        (Decimal.decimalBits (digitsValue (whole ++ part)) (exponent.getD 0 - part.length))),
        rest) := by
  cases isWhole with
  | zero =>
    -- a zero in front is read alone
    cases negative <;>
      simpa [readNumber, signText, fraction, hexponent] using pointed
  | @digits d ds nonzero digit digits =>
    have taken : (d :: (ds ++ more)).takeWhile Char.isDigit = d :: ds :=
      takeWhile_isDigit_of_head (List.forall_mem_cons.mpr ⟨digit, digits⟩) ends
    cases negative with
    | false =>
      simpa [readNumber, signText, nonzero, ne_of_isDigit digit (x := '-') rfl, taken, fraction,
        hexponent] using pointed
    | true =>
      simpa [readNumber, signText, nonzero, taken, fraction, hexponent] using pointed

theorem isWhole_toDigits {n : Nat} (h : 0 < n) : IsWhole (Nat.toDigits 10 n) := by
  obtain ⟨d, ds, hd, digit, nonzero⟩ := exists_toDigits_eq_cons n
  rw [hd]
  refine .digits (nonzero h) digit fun c hc => isDigit_of_mem_toDigits (n := n) ?_
  rw [hd]
  exact List.mem_cons_of_mem _ hc

theorem IsWhole.isDigit {ds : List Char} (h : IsWhole ds) : ∀ c ∈ ds, c.isDigit := by
  intro c hc
  cases h with
  | zero =>
    rw [List.mem_singleton.mp hc]
    rfl
  | digits _ digit more =>
    rcases List.mem_cons.mp hc with rfl | hc
    · exact digit
    · exact more c hc

theorem IsWhole.ne_nil {ds : List Char} (h : IsWhole ds) : ds ≠ [] := by
  cases h <;> simp

/-- The first digits of a number, with zeros behind them. -/
theorem IsWhole.take_append {ds : List Char} (h : IsWhole ds) (some : ds ≠ ['0']) {n : Nat}
    (hn : 0 < n) (zeros : Nat) : IsWhole (ds.take n ++ List.replicate zeros '0') := by
  cases h with
  | zero => exact absurd rfl some
  | digits nonzero digit more =>
    obtain ⟨k, rfl⟩ := Nat.exists_eq_succ_of_ne_zero hn.ne'
    rw [List.take_succ_cons, List.cons_append]
    refine .digits nonzero digit ?_
    intro c hc
    rcases List.mem_append.mp hc with hc | hc
    · exact more c (List.mem_of_mem_take hc)
    · exact isDigit_of_mem_zeros hc

/-! ## Layouts -/

/-- A text that is read as a double, up to `rest`, from a decimal that stands for `v`.  The decimal
may have zeros at its end that the digits did not have. -/
def ReadsAs (negative : Bool) (text rest : List Char) (v : ℚ) : Prop :=
  ∃ (digits : Nat) (exponent : Int),
    readNumber (signText negative ++ (text ++ rest)) =
      some (.float (Decimal.ofBits negative (Decimal.decimalBits digits exponent)), rest) ∧
    0 < digits ∧ (digits : ℚ) * 10 ^ exponent = v

theorem head_dot (s : List Char) : ∀ c ∈ ('.' :: s).head?, c.isDigit = false := by
  intro c hc
  cases hc
  rfl

variable {ds rest : List Char} {d : Nat}

/-- Digits some places behind the point.  These places are zeros, by which the value is scaled
down. -/
theorem readsAs_small (negative : Bool) (whole : IsWhole ds) (value : digitsValue ds = d)
    (hd : 0 < d) (zeros : Nat) (ends : EndsNumber rest) :
    ReadsAs negative ('0' :: '.' :: List.replicate zeros '0' ++ ds) rest
      (d * 10 ^ (-(zeros : Int) - ds.length)) := by
  have digits : ∀ c ∈ List.replicate zeros '0' ++ ds, c.isDigit := by
    intro c hc
    rcases List.mem_append.mp hc with hc | hc
    · exact isDigit_of_mem_zeros hc
    · exact whole.isDigit c hc
  have some : List.replicate zeros '0' ++ ds ≠ [] := by simp [whole.ne_nil]
  have read := readNumber_decimal negative .zero (head_dot _)
    (readFraction_of_digits _ digits some fun c hc => (ends c hc).1) (readExponent_of_ends ends)
    fun h => absurd h some
  have hdigits : digitsValue (['0'] ++ (List.replicate zeros '0' ++ ds)) = d := by
    rw [digitsValue_append, digitsValue_append, digitsValue_zeros, value]
    simp [digitsValue]
  have places : (none : Option Int).getD 0 - ((List.replicate zeros '0' ++ ds).length : Nat) =
      -(zeros : Int) - ds.length := by
    rw [List.length_append, List.length_replicate, Option.getD_none]
    omega
  rw [hdigits, places] at read
  exact ⟨d, _, by simpa using read, hd, rfl⟩

/-- Digits around the point, or before it with zeros up to it.  If the digits do not go beyond the
point, a zero stands behind it. -/
theorem readsAs_positional (negative : Bool) (whole : IsWhole ds) (value : digitsValue ds = d)
    (hd : 0 < d) {n : Nat} (hn : 0 < n) (ends : EndsNumber rest) :
    ReadsAs negative (ds.take n ++ List.replicate (n - ds.length) '0' ++ '.' ::
      (if (ds.drop n).isEmpty then ['0'] else ds.drop n)) rest
      (d * 10 ^ ((n : Int) - ds.length)) := by
  have stop : ∀ c ∈ rest.head?, c.isDigit = false := fun c hc => (ends c hc).1
  have hne : ds ≠ ['0'] := by
    rintro rfl
    have : d = 0 := value.symm
    omega
  -- The point stands among the digits, or behind them with zeros up to it.
  by_cases inside : n < ds.length
  · have some : ds.drop n ≠ [] := by
      rw [ne_eq, List.drop_eq_nil_iff]
      omega
    have read := readNumber_decimal negative (whole.take_append hne hn (n - ds.length)) (head_dot _)
      (readFraction_of_digits _ (fun c hc => whole.isDigit c (List.mem_of_mem_drop hc)) some stop)
      (readExponent_of_ends ends) fun h => absurd h some
    have places : (none : Option Int).getD 0 - ((ds.drop n).length : Nat) = n - ds.length := by
      rw [List.length_drop, Option.getD_none]
      omega
    rw [Nat.sub_eq_zero_of_le inside.le, List.replicate_zero, List.append_nil,
      List.take_append_drop, value, places] at read
    refine ⟨d, _, ?_, hd, rfl⟩
    simpa [Nat.sub_eq_zero_of_le inside.le, some] using read
  · have none : ds.drop n = [] := List.drop_eq_nil_iff.mpr (by omega)
    have all : ds.take n = ds := List.take_of_length_le (by omega)
    have read := readNumber_decimal negative (whole.take_append hne hn (n - ds.length)) (head_dot _)
      (readFraction_of_digits _ IsWhole.zero.isDigit (by simp) stop)
      (readExponent_of_ends ends) (by simp)
    have hdigits : digitsValue (ds ++ List.replicate (n - ds.length) '0' ++ ['0']) =
        d * 10 ^ (n - ds.length) * 10 := by
      rw [digitsValue_append, digitsValue_append, digitsValue_zeros, value]
      simp [digitsValue]
    rw [all, hdigits] at read
    refine ⟨d * 10 ^ (n - ds.length) * 10, _, by simpa [none, all] using read, by positivity, ?_⟩
    rw [show (n : Int) - ds.length = ((n - ds.length : Nat) : Int) by omega, zpow_natCast]
    push_cast
    norm_num
    ring

/-- One digit before the point, and the place of the point as an exponent. -/
theorem readsAs_exponent (negative : Bool) {c : Char} (whole : IsWhole (c :: ds))
    (value : digitsValue (c :: ds) = d) (hd : 0 < d) (point : Int) (ends : EndsNumber rest) :
    ReadsAs negative
      ((if ds.isEmpty then [c] else c :: '.' :: ds) ++ 'e' :: Decimal.exponentText (point - 1))
      rest (d * 10 ^ (point - (c :: ds).length)) := by
  have first : IsWhole [c] := by
    cases whole with
    | zero => exact .zero
    | digits nonzero digit _ => exact .digits nonzero digit (by simp)
  have exponent := readExponent_exponentText (point - 1) ends
  -- A single digit is written without a point.
  cases ds with
  | nil =>
    have none : readFraction ('e' :: Decimal.exponentText (point - 1) ++ rest) =
        ([], 'e' :: Decimal.exponentText (point - 1) ++ rest) := by
      simp [readFraction]
    have read := readNumber_decimal negative first (by simp) none exponent (by simp)
    refine ⟨d, point - 1, ?_, hd, rfl⟩
    rw [List.append_nil, value] at read
    simpa using read
  | cons c' ds =>
    have digits : ∀ x ∈ c' :: ds, x.isDigit :=
      fun x hx => whole.isDigit x (List.mem_cons_of_mem _ hx)
    have read := readNumber_decimal negative first (head_dot _)
      (readFraction_of_digits ('e' :: Decimal.exponentText (point - 1) ++ rest) digits (by simp)
        (by simp)) exponent (by simp)
    have places : (some (point - 1)).getD 0 - ((c' :: ds).length : Nat) =
        point - (c :: c' :: ds).length := by
      rw [Option.getD_some, List.length_cons (a := c)]
      omega
    rw [show digitsValue ([c] ++ c' :: ds) = d from value, places] at read
    exact ⟨d, _, by simpa using read, hd, rfl⟩

/-- Every layout of a number's digits is read from a decimal that stands for it. -/
theorem readsAs_layout (negative : Bool) {d : Nat} (hd : 0 < d) (point : Int) {rest : List Char}
    (ends : EndsNumber rest) :
    ReadsAs negative (Decimal.layout (Nat.toDigits 10 d) point) rest
      (d * 10 ^ (point - (Nat.toDigits 10 d).length)) := by
  have whole := isWhole_toDigits hd
  have value := digitsValue_toDigits d
  unfold Decimal.layout
  split_ifs with near front
  · have h := readsAs_small negative whole value hd point.natAbs ends
    rwa [show -(point.natAbs : Int) = point by omega] at h
  · obtain ⟨n, rfl⟩ := Int.eq_ofNat_of_zero_le (show 0 ≤ point by omega)
    exact readsAs_positional negative whole value hd (by omega) ends
  · obtain ⟨c, ds, hds, _⟩ := exists_toDigits_eq_cons d
    rw [hds] at whole value ⊢
    exact readsAs_exponent negative whole value hd point ends

theorem exists_layout_eq_cons {d : Nat} (point : Int) :
    ∃ c t, Decimal.layout (Nat.toDigits 10 d) point = c :: t ∧ c.isDigit := by
  obtain ⟨c, ds, hds, digit, _⟩ := exists_toDigits_eq_cons d
  rw [hds]
  unfold Decimal.layout
  split_ifs with near front
  · exact ⟨'0', _, rfl, rfl⟩
  · obtain ⟨n, hn⟩ := Nat.exists_eq_succ_of_ne_zero (show point.toNat ≠ 0 by omega)
    rw [hn]
    exact ⟨c, _, rfl, digit⟩
  · by_cases single : ds.isEmpty
    · exact ⟨c, _, by simp only [single, if_true]; rfl, digit⟩
    · exact ⟨c, _, by simp only [single]; rfl, digit⟩

/-! ## Doubles -/

theorem signText_append (negative : Bool) (body : List Char) :
    (if negative then '-' :: body else body) = signText negative ++ body := by
  cases negative <;> rfl

/-- A finite double reads back from its text, which is a sign and a digit with more behind it. -/
theorem readNumber_floatText {x : Float} {negative : Bool} {m : Nat} {e : Int}
    (h : Decimal.Binary.ofFloat x = .finite negative m e) :
    ∃ c body, floatText x = signText negative ++ c :: body ∧ c.isDigit ∧
      ∀ rest, EndsNumber rest → readNumber (floatText x ++ rest) = some (.float x, rest) := by
  obtain ⟨hx, fits⟩ := Decimal.eq_ofBits_of_finite h
  rw [floatText, Decimal.shortest, h]
  dsimp only
  rw [String.toList_ofList, signText_append]
  -- Zero is written by itself; it has no digits that round to it.
  by_cases zero : m = 0
  · subst zero
    rw [if_pos rfl]
    refine ⟨'0', _, rfl, rfl, ?_⟩
    intro rest ends
    have read := readNumber_decimal negative .zero (head_dot _)
      (readFraction_of_digits _ IsWhole.zero.isDigit (by simp) fun c hc => (ends c hc).1)
      (readExponent_of_ends ends) (by simp)
    have bottom : e = -1074 := fits.normal.resolve_right (by decide)
    have bits :
        Decimal.decimalBits (digitsValue (['0'] ++ ['0'])) (none.getD 0 - (['0'].length : Nat)) =
        (e + 1074).toNat * Nat.pow 2 52 + 0 := by
      rw [bottom]
      rfl
    rw [bits, ← hx] at read
    simpa using read
  · rw [if_neg zero]
    obtain ⟨d, point, hd, hdigits, rounds⟩ :=
      Decimal.shortestDigits_rounds fits (Nat.pos_of_ne_zero zero)
    rw [hdigits]
    obtain ⟨c, t, hlayout, digit⟩ := exists_layout_eq_cons (d := d) point
    refine ⟨c, t, by rw [← hlayout], digit, ?_⟩
    intro rest ends
    obtain ⟨digits, exponent, read, positive, value⟩ := readsAs_layout negative hd point ends
    rw [← value] at rounds
    rw [Decimal.decimalBits_of_rounds fits (Nat.pos_of_ne_zero zero) positive rounds, ← hx] at read
    rw [List.append_assoc]
    exact read

/-- The text of a double is a name or a number.  The names come first in the reader, so it matters
that the text of a finite double begins with a digit once its sign is off, and that what comes
behind it cannot be taken for more of it. -/
inductive FloatForm (x : Float) (text : List Char) : Prop
  | nan (text_eq : text = "NaN".toList) (value : x = Decimal.ofBits false Decimal.nanBits)
  | infinite (negative : Bool) (text_eq : text = signText negative ++ "Infinity".toList)
      (value : x = Decimal.ofBits negative Decimal.infinityBits)
  | finite (negative : Bool) (c : Char) (body : List Char)
      (text_eq : text = signText negative ++ c :: body) (digit : c.isDigit)
      (read : ∀ rest, EndsNumber rest → readNumber (text ++ rest) = some (.float x, rest))

theorem floatForm (x : Float) : FloatForm x (floatText x) := by
  cases h : Decimal.Binary.ofFloat x with
  | nan =>
    refine .nan ?_ (Decimal.eq_ofBits_of_nan h)
    rw [floatText, Decimal.shortest, h]
  | infinite negative =>
    refine .infinite negative ?_ (Decimal.eq_ofBits_of_infinite h)
    rw [floatText, Decimal.shortest, h]
    cases negative <;> rfl
  | finite negative m e =>
    obtain ⟨c, body, text, digit, read⟩ := readNumber_floatText h
    exact .finite negative c body text digit read

end PikeAnalysis.Json
