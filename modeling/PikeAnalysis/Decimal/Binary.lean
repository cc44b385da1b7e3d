/-!
# Binary floating-point values as exact numbers

A finite double is `± significand · 2 ^ exponent` with whole numbers.  The texts of floating-point
values are computed from this form, never from the approximate printing of the core library.

A double can be taken apart into its sign, its significand and its exponent, and the other way round
the double nearest to a fraction can be found.  Between these two all arithmetic is on whole
numbers, where rounding is said explicitly and a proof can follow it.
-/

namespace PikeAnalysis.Decimal

/-- What the bits of a double say. -/
inductive Binary where
  | nan
  | infinite (negative : Bool)
  | finite (negative : Bool) (significand : Nat) (exponent : Int)
  deriving Repr, DecidableEq

/-- Reads the sign, the exponent field and the fraction field of the sixty-four bits. -/
def Binary.ofFloat (x : Float) : Binary :=
  let bits : Nat := x.toBits.toNat
  let negative : Bool := bits / Nat.pow 2 63 == 1
  let field : Nat := bits / Nat.pow 2 52 % Nat.pow 2 11
  let fraction : Nat := bits % Nat.pow 2 52
  if field = 2047 then if fraction = 0 then .infinite negative else .nan
  else if field = 0 then .finite negative fraction (-1074)
  else .finite negative (Nat.pow 2 52 + fraction) ((field : Int) - 1075)

/-- `n · base ^ e` as a fraction of whole numbers. -/
def scale (n base : Nat) (e : Int) : Nat × Nat :=
  match e with
  | .ofNat k => (n * Nat.pow base k, 1)
  | .negSucc k => (n, Nat.pow base (k + 1))

/-- The quotient of two whole numbers rounded to the nearest whole number, a half to the even
one. -/
def roundHalfEven (num den : Nat) : Nat :=
  let q := num / den
  let r := num % den
  if 2 * r < den then q
  else if 2 * r > den then q + 1
  else if q % 2 = 0 then q else q + 1

/-! ## The nearest double

A fraction, and so a decimal, is taken to the double nearest to it, a half to the even one.  All of
it is whole-number arithmetic: the sixty-three bits behind the sign count the doubles from zero
upwards, so a significand that rounds up to the next power of two moves into the exponent field by
itself. -/

/-- The double of a sign and the sixty-three bits behind it. -/
def ofBits (negative : Bool) (bits : Nat) : Float :=
  Float.ofBits (UInt64.ofNat ((if negative then Nat.pow 2 63 else 0) + bits))

/-- The bits of infinity: the exponent field is full, the fraction field is empty. -/
def infinityBits : Nat := 2047 * Nat.pow 2 52

/-- The bits of not-a-number. -/
def nanBits : Nat := infinityBits + Nat.pow 2 51

/-- The exponent `e` at which a positive fraction is `q · 2 ^ e` with `q` between `2 ^ 52` and
`2 ^ 53`.  No double has an exponent below `-1074`, so a smaller fraction has a smaller `q`. -/
def binaryExponent (num den : Nat) : Int :=
  let guess : Int := (num.log2 : Int) - den.log2 - 53
  let (p, q) := scale num 2 (-guess)
  max (-1074) (if p ≥ Nat.pow 2 53 * (q * den) then guess + 1 else guess)

/-- The bits of the double nearest to a positive fraction. -/
def nearestBits (num den : Nat) : Nat :=
  let e := binaryExponent num den
  let (p, q) := scale num 2 (-e)
  min infinityBits ((e + 1074).toNat * Nat.pow 2 52 + roundHalfEven p (q * den))

/-- The bits of the double nearest to `digits · 10 ^ exponent`.  Exponents far outside the range of
doubles are decided without computing the power. -/
def decimalBits (digits : Nat) (exponent : Int) : Nat :=
  let width : Int := (Nat.toDigits 10 digits).length
  if digits = 0 then 0
  else if exponent + width > 400 then infinityBits
  else if exponent + width < -400 then 0
  else
    let (num, den) := scale digits 10 exponent
    nearestBits num den

end PikeAnalysis.Decimal
