import PikeAnalysis.Json.Writer
import PikeAnalysis.Text.Printable

/-!
# Values as messages show them

The literal notation of values in messages and log lines: `None`, `True`, quoted texts, lists and
tables.  A text that stands alone is shown without quotes.

The notation differs from JSON in more than the words for nothing and for truth: texts are between
single quotes where that can be done without escapes, characters outside ASCII are shown as they are
if they are printable, and blanks follow commas and colons.  Reasons of failures and the lines of a
log are written in it, so both depend on it to the character.
-/

namespace PikeAnalysis.Json

/-! ## Quoted texts -/

/-- The last `width` hexadecimal digits of a number. -/
def hexDigits (width n : Nat) : List Char :=
  let ds := Nat.toDigits 16 n
  List.replicate (width - ds.length) '0' ++ ds

/-- The form of one character in a text between `quote`s.  Characters that are not printable are
written by their number, with as few digits as are enough. -/
def literalChar (quote c : Char) : List Char :=
  if c = quote ∨ c = '\\' then ['\\', c]
  else if c = '\n' then ['\\', 'n']
  else if c = '\r' then ['\\', 'r']
  else if c = '\t' then ['\\', 't']
  else if Text.isPrintable c then [c]
  else if c.toNat < 0x100 then '\\' :: 'x' :: hexDigits 2 c.toNat
  else if c.toNat < 0x10000 then '\\' :: 'u' :: hexDigits 4 c.toNat
  else '\\' :: 'U' :: hexDigits 8 c.toNat

/-- A text between single quotes, or double ones if it holds single quotes only. -/
def literalText (s : String) : List Char :=
  let quote := if s.toList.contains '\'' && !s.toList.contains '"' then '"' else '\''
  quote :: s.toList.flatMap (literalChar quote) ++ [quote]

/-! ## Values -/

mutual

/-- The literal notation of a value.  This notation stands in messages that quote a value.  It is
not read back, so it does not have to be JSON. -/
def literal : Json → List Char
  | .null => "None".toList
  | .bool true => "True".toList
  | .bool false => "False".toList
  | .int n => intText n
  | .float x => (Decimal.shortest "nan" "inf" x).toList
  | .str s => literalText s
  | .arr [] => ['[', ']']
  | .arr (x :: xs) => '[' :: literal x ++ literalItems xs ++ [']']
  | .obj [] => ['{', '}']
  | .obj ((k, v) :: fs) =>
    '{' :: literalText k ++ [':', ' '] ++ literal v ++ literalFields fs ++ ['}']

/-- The items after the first. -/
def literalItems : List Json → List Char
  | [] => []
  | x :: xs => ',' :: ' ' :: literal x ++ literalItems xs

/-- The fields after the first. -/
def literalFields : List (String × Json) → List Char
  | [] => []
  | (k, v) :: fs =>
    ',' :: ' ' :: literalText k ++ [':', ' '] ++ literal v ++ literalFields fs

end

/-- A value as a message shows it. -/
def display : Json → String
  | .str s => s
  | v => String.ofList (literal v)

end PikeAnalysis.Json
