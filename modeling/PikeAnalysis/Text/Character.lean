/-!
# Classes of characters

The characters that count as blank in source text and names, and the trimming of a run of characters
of some class from either end; and the digits of every script, which come in runs of ten, from zero
to nine.  Nothing here knows about lines.

Blanks, word characters and printable characters are three classes of their own, each with its
table.  This one is what stripping a text goes by; the blanks between tokens of JSON and the margins
of a number are narrower classes, and are defined where they are used.
-/

namespace PikeAnalysis.Text

/-! ## Blanks -/

/-- Code points of the blank characters beyond the controls `9 … 13`, the separators `28 … 31` and
the space. -/
def wideBlanks : List Nat :=
  [0x85, 0xA0, 0x1680, 0x2000, 0x2001, 0x2002, 0x2003, 0x2004, 0x2005, 0x2006, 0x2007, 0x2008,
    0x2009, 0x200A, 0x2028, 0x2029, 0x202F, 0x205F, 0x3000]

/-- A blank: any character of the Unicode space class or one of the four information separators. -/
def isBlank (c : Char) : Bool :=
  let n := c.toNat
  (9 ≤ n && n ≤ 13) || (28 ≤ n && n ≤ 32) || wideBlanks.contains n

/-! ## Trimming -/

/-- Drops the longest leading run of characters that satisfy `p`. -/
def trimLeft (p : Char → Bool) (s : List Char) : List Char :=
  s.dropWhile p

/-- Drops the longest trailing run of characters that satisfy `p`. -/
def trimRight (p : Char → Bool) (s : List Char) : List Char :=
  (s.reverse.dropWhile p).reverse

/-- Drops the runs of characters that satisfy `p` at both ends. -/
def trim (p : Char → Bool) (s : List Char) : List Char :=
  trimRight p (trimLeft p s)

/-- Drops blanks at both ends. -/
def trimBlanks (s : List Char) : List Char :=
  trim isBlank s

/-- A text without any character that is not blank. -/
def allBlank (s : List Char) : Bool :=
  s.all isBlank

/-! ## Decimal digits -/

/-- Code points of the zeros of the scripts beyond ASCII, in increasing order. -/
def wideZeros : List Nat :=
  [1632, 1776, 1984, 2406, 2534, 2662, 2790, 2918, 3046, 3174, 3302, 3430, 3558, 3664, 3792, 3872,
    4160, 4240, 6112, 6160, 6470, 6608, 6784, 6800, 6992, 7088, 7232, 7248, 42528, 43216, 43264,
    43472, 43504, 43600, 44016, 65296, 66720, 68912, 69734, 69872, 69942, 70096, 70384, 70736,
    70864, 71248, 71360, 71472, 71904, 72016, 72784, 73040, 73120, 92768, 92864, 93008, 120782,
    120792, 120802, 120812, 120822, 123200, 123632, 125264, 130032]

/-- Decimal digits of any script. -/
def isDecimalDigit (c : Char) : Bool :=
  c.isDigit || wideZeros.any fun z => z ≤ c.toNat && c.toNat < z + 10

end PikeAnalysis.Text
