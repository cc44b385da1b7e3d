import PikeAnalysis.Json.Reader
import PikeAnalysis.Text.Character
import PikeAnalysis.Text.Lines

/-!
# Numbers and flags written as text

The lenient reading of texts where a number or a flag is expected: whole numbers with blanks around
them, a sign, single underscores between digits and zeros after a point; floating-point numbers in
positional or exponent notation; flags as words.

A setting in a file or in the environment may be written as a text where something else is meant, so
checking is lenient in this one respect.  What is accepted is narrow all the same: an exponent is
refused where a whole number is expected, and so are two underscores in a row and an underscore at
either end.
-/

namespace PikeAnalysis.Shape

open Text

/-- The blanks that may surround a number: all but the information separators. -/
def isMargin (c : Char) : Bool :=
  isBlank c && !(28 ≤ c.toNat && c.toNat ≤ 31)

/-- The digits of a run in which single underscores may stand between digits. -/
def groupedDigits? (s : List Char) : Option (List Char) :=
  let groups := splitOn '_' s
  if groups.all (fun g => !g.isEmpty && g.all Char.isDigit) then some groups.flatten else none

/-- The sign in front of a number, and the rest. -/
def signed (s : List Char) : Bool × List Char :=
  match s with
  | '-' :: rest => (true, rest)
  | '+' :: rest => (false, rest)
  | rest => (false, rest)

/-- The whole number that a text denotes.  Blanks around it, a sign and underscores between digits
are allowed, and so is a fraction of zeros. -/
def wholeOfText? (s : List Char) : Option Int := do
  let (negative, body) := signed (trim isMargin s)
  let digits := body.takeWhile (· != '.')
  let part := body.drop digits.length
  let ds ← groupedDigits? digits
  if part.isEmpty ∨ (part.length ≥ 2 ∧ part.tail.all (· == '0')) then
    let n : Int := Json.digitsValue ds
    some (if negative then -n else n)
  else none

/-- A floating-point number without underscores or blanks around it. -/
def plainFloat? (s : List Char) : Option Float := do
  let (negative, body) := signed s
  let word := String.ofList (body.map Char.toLower)
  let magnitude ←
    if word = "inf" ∨ word = "infinity" then some Decimal.infinityBits
    else if word = "nan" then some Decimal.nanBits
    else
      let whole := body.takeWhile Char.isDigit
      let rest := body.drop whole.length
      let (part, rest) :=
        match rest with
        | '.' :: r =>
          let ds := r.takeWhile Char.isDigit
          (ds, r.drop ds.length)
        | r => ([], r)
      let (exponent, rest) := Json.readExponent rest
      if (whole.isEmpty && part.isEmpty) || !rest.isEmpty then none
      else
        some (Decimal.decimalBits (Json.digitsValue (whole ++ part))
          (exponent.getD 0 - (part.length : Int)))
  some (Decimal.ofBits negative magnitude)

/-- The floating-point number that a text denotes.  Underscores may stand between characters, but
neither at an end nor next to each other. -/
def floatOfText? (s : List Char) : Option Float :=
  match plainFloat? (trim isMargin s) with
  | some x => some x
  | none =>
    if s.head? == some '_' || s.getLast? == some '_' || !s.contains '_' || doubled s then none
    else plainFloat? (s.filter (· != '_'))
where
  doubled : List Char → Bool
    | '_' :: '_' :: _ => true
    | _ :: rest => doubled rest
    | [] => false

/-- The words for true. -/
def trueWords : List String := ["1", "on", "t", "true", "y", "yes"]

/-- The words for false. -/
def falseWords : List String := ["0", "off", "f", "false", "n", "no"]

/-- The flag that a text denotes, in any case. -/
def flagOfText? (s : String) : Option Bool :=
  let word := String.ofList (s.toList.map Char.toLower)
  if trueWords.contains word then some true
  else if falseWords.contains word then some false
  else none

end PikeAnalysis.Shape
