import PikeAnalysis.Decimal.Binary

/-!
# Fixed-point text

A double written with a fixed number of places.  The exact value is rounded once, a half to the even
neighbour.

The exact value is a fraction whose denominator is a power of two, so scaling it by a power of ten
and rounding once gives the text of the right number without any second rounding.  The sign is put
in front afterwards; a negative number that rounds to zero keeps it.
-/

namespace PikeAnalysis.Decimal

/-- The digits of `n`, with zeros in front up to `width` of them. -/
def paddedDigits (width n : Nat) : List Char :=
  let ds := Nat.toDigits 10 n
  List.replicate (width - ds.length) '0' ++ ds

/-- `units / 10 ^ places` in fixed-point notation. -/
def fixedText (places units : Nat) : String :=
  let whole := Nat.toDigits 10 (units / Nat.pow 10 places)
  let part := paddedDigits places (units % Nat.pow 10 places)
  String.ofList (whole ++ '.' :: part)

/-- A double with `places` places after the point. -/
def fixed (places : Nat) (x : Float) : String :=
  match Binary.ofFloat x with
  | .nan => "nan"
  | .infinite negative => if negative then "-inf" else "inf"
  | .finite negative m e =>
    let (num, den) := scale (m * Nat.pow 10 places) 2 e
    let text := fixedText places (roundHalfEven num den)
    if negative then "-" ++ text else text

end PikeAnalysis.Decimal
