import PikeAnalysis.Decimal.Fixed

/-!
# Shortest text that reads back

The decimal with the fewest digits that a correctly rounding reader takes back to the same double;
among those, the one nearest to the exact value.  Written positionally while the point stays within
sixteen digits after the first and four before it.

The digits are searched for by their number: for each number of digits there is one decimal nearest
to the value, and it is tested against the interval of the values that are rounded to the same
double.  Seventeen digits always suffice.  Nothing is ever printed and read back; the interval is a
pair of fractions, and the test compares whole numbers.
-/

namespace PikeAnalysis.Decimal

/-- The open or closed interval of exact values that round to one double, as numerators over a
common denominator. -/
structure RoundingInterval where
  low : Nat
  value : Nat
  high : Nat
  den : Nat
  closed : Bool

/-- The values that round to `m · 2 ^ e`.  Below a power of two the next smaller double is half as
far away as the next larger one. -/
def RoundingInterval.of (m : Nat) (e : Int) : RoundingInterval :=
  let narrow : Nat := if m = Nat.pow 2 52 ∧ e > -1074 then 1 else 2
  let (num, den) := scale (4 * m) 2 e
  let unit := num / m / 4
  { low := num - narrow * unit
    value := num
    high := num + 2 * unit
    den := 4 * den
    closed := m % 2 = 0 }

/-- Whether the fraction `p / q` lies in the interval. -/
def RoundingInterval.contains (r : RoundingInterval) (p q : Nat) : Bool :=
  let x := p * r.den
  let lo := r.low * q
  let hi := r.high * q
  if r.closed then lo ≤ x && x ≤ hi else lo < x && x < hi

/-- The number of decimal digits of a fraction before the point, zero or negative when it is below
one: the least `k` with `num / den < 10 ^ k`. -/
def magnitude (num den : Nat) : Int :=
  if num ≥ den then (Nat.toDigits 10 (num / den)).length
  else
    -- `10 ^ j · num / den` first reaches one at the number of zeros after the point, plus one
    let guess := (Nat.toDigits 10 (den / num)).length
    if num * Nat.pow 10 (guess - 1) ≥ den then 2 - (guess : Int) else 1 - (guess : Int)

/-- The decimal of `n` digits nearest to the value that lies in the interval, if one does: its
digits as a whole number. -/
def RoundingInterval.atDigits? (r : RoundingInterval) (k : Int) (n : Nat) : Option Nat :=
  -- the candidate `d` stands for `d · 10 ^ (k - n)`
  let (num, den) := scale r.value 10 (n - k)
  let den := den * r.den
  let below := num / den
  let inside (d : Nat) : Bool :=
    let (p, q) := scale d 10 (k - n)
    r.contains p q
  match inside below, inside (below + 1) with
  | false, false => none
  | true, false => some below
  | false, true => some (below + 1)
  | true, true => some (roundHalfEven num den)

/-- The first digit count from `n` on at which a decimal reads back, with that decimal's digits. -/
def RoundingInterval.search (r : RoundingInterval) (k : Int) : Nat → Nat → Nat × Nat
  | 0, n => (n, 0)
  | fuel + 1, n =>
    match r.atDigits? k n with
    | some d => (n, d)
    | none => r.search k fuel (n + 1)

/-- The digits of a positive double, without zeros at the end, and the place of the point counted
from before the first digit.  Rounding up to a power of ten gains a digit, which moves the point. -/
def shortestDigits (m : Nat) (e : Int) : List Char × Int :=
  let r := RoundingInterval.of m e
  let k := magnitude r.value r.den
  let (n, d) := r.search k 17 1
  let ds := Nat.toDigits 10 d
  ((ds.reverse.dropWhile (· == '0')).reverse, k + ((ds.length : Int) - n))

/-- The exponent part: a sign and at least two digits. -/
def exponentText (e : Int) : List Char :=
  (if e < 0 then '-' else '+') :: paddedDigits 2 e.natAbs

/-- The text of a positive decimal given by its digits and the place of its point. -/
def layout (ds : List Char) (point : Int) : List Char :=
  if -4 < point ∧ point ≤ 16 then
    if point ≤ 0 then '0' :: '.' :: List.replicate point.natAbs '0' ++ ds
    else
      let n := point.toNat
      let whole := ds.take n ++ List.replicate (n - ds.length) '0'
      let part := ds.drop n
      whole ++ '.' :: (if part.isEmpty then ['0'] else part)
  else
    match ds with
    | [] => []
    | d :: rest =>
      (if rest.isEmpty then [d] else d :: '.' :: rest) ++ 'e' :: exponentText (point - 1)

/-- The text of a double.  Not-a-number and the infinities are named. -/
def shortest (nan infinity : String) (x : Float) : String :=
  match Binary.ofFloat x with
  | .nan => nan
  | .infinite negative => if negative then "-" ++ infinity else infinity
  | .finite negative m e =>
    let body :=
      if m = 0 then ['0', '.', '0']
      else
        let (ds, point) := shortestDigits m e
        layout ds point
    String.ofList (if negative then '-' :: body else body)

end PikeAnalysis.Decimal
