import PikeAnalysis.Decimal.Binary

/-!
# Time

Points in time and lengths of time, both in whole microseconds.  A length of time may be endless.

Whole microseconds are fine enough for every delay that settings can give, and arithmetic on them is
exact.  A length of time that is endless has no end to add up to, and so a timer that waits that
long has no due time at all; it is not a very late one.
-/

namespace PikeAnalysis

/-- A point in time, in microseconds. -/
abbrev Instant := Int

/-- A length of time in microseconds; none is endless. -/
abbrev Duration := Option Int

namespace Duration

/-- Whole milliseconds. -/
def milliseconds (n : Int) : Duration :=
  some (n * 1000)

/-- Seconds, rounded to the nearest microsecond.  What is no number is no time at all. -/
def seconds (x : Float) : Duration :=
  match Decimal.Binary.ofFloat x with
  | .nan => some 0
  | .infinite negative => if negative then some 0 else none
  | .finite negative m e =>
    let (num, den) := Decimal.scale (m * 1000000) 2 e
    let n : Int := Decimal.roundHalfEven num den
    some (if negative then -n else n)

end Duration

namespace Instant

/-- The point in time a length of time later; there is none after an endless one. -/
def after (now : Instant) (d : Duration) : Option Instant :=
  d.map (now + ·)

/-- Whether a length of time has not passed yet since `start`. -/
def within (d : Duration) (start now : Instant) : Bool :=
  match d with
  | none => true
  | some length => decide (now - start < length)

end Instant

end PikeAnalysis
