import PikeAnalysis.Json.Basic
import PikeAnalysis.Decimal.Shortest

/-!
# JSON text

Writes values in ASCII.  Characters outside it become one `\u` escape, or two for those beyond
`0xFFFF`.  Separators and indentation are the caller's choice; the compact form has neither blanks
nor newlines.

Strings hold nothing but printable ASCII once they are written: quotes, backslashes and controls are
escaped, and so is everything from `0x7f` on.  A written value therefore contains a newline only
where the indented form puts one, which is what makes one line of text one message on the wire.
-/

namespace PikeAnalysis.Json

/-! ## Strings -/

/-- Four lower-case hexadecimal digits. -/
def hex4 (n : Nat) : List Char :=
  let ds := Nat.toDigits 16 n
  List.replicate (4 - ds.length) '0' ++ ds

/-- A `\u` escape of one sixteen-bit unit. -/
def unitEscape (n : Nat) : List Char :=
  '\\' :: 'u' :: hex4 n

/-- The written form of one character of a string.  Whatever is not printable ASCII is escaped, and
characters beyond sixteen bits are two units. -/
def escapeChar (c : Char) : List Char :=
  if c = '"' then ['\\', '"']
  else if c = '\\' then ['\\', '\\']
  else if c = '\n' then ['\\', 'n']
  else if c = '\r' then ['\\', 'r']
  else if c = '\t' then ['\\', 't']
  else if c = '\x0c' then ['\\', 'f']
  else if c = '\x08' then ['\\', 'b']
  else if 32 ≤ c.toNat ∧ c.toNat < 127 then [c]
  else if c.toNat < 0x10000 then unitEscape c.toNat
  else
    let n := c.toNat - 0x10000
    unitEscape (0xD800 + n / 0x400) ++ unitEscape (0xDC00 + n % 0x400)

/-- A string between quotes. -/
def quoted (s : String) : List Char :=
  '"' :: s.toList.flatMap escapeChar ++ ['"']

/-! ## Numbers -/

/-- A whole number in decimal notation. -/
def intText (n : Int) : List Char :=
  (toString n).toList

/-- A floating-point number; the values without a decimal are named. -/
def floatText (x : Float) : List Char :=
  (Decimal.shortest "NaN" "Infinity" x).toList

/-! ## Values -/

/-- How the parts of a value are set apart. -/
structure Spacing where
  item : List Char
  key : List Char

/-- Nothing but the commas and colons. -/
def Spacing.compact : Spacing := ⟨[','], [':']⟩

/-- A blank after each comma and colon. -/
def Spacing.spaced : Spacing := ⟨[',', ' '], [':', ' ']⟩

mutual

/-- The text of a value on one line.  How items and keys are set apart is a parameter: the compact
text and the spaced one differ in nothing else. -/
def write (sp : Spacing) : Json → List Char
  | .null => ['n', 'u', 'l', 'l']
  | .bool true => ['t', 'r', 'u', 'e']
  | .bool false => ['f', 'a', 'l', 's', 'e']
  | .int n => intText n
  | .float x => floatText x
  | .str s => quoted s
  | .arr [] => ['[', ']']
  | .arr (x :: xs) => '[' :: write sp x ++ writeItems sp xs ++ [']']
  | .obj [] => ['{', '}']
  | .obj ((k, v) :: fs) => '{' :: quoted k ++ sp.key ++ write sp v ++ writeFields sp fs ++ ['}']

/-- The items after the first, each behind its separator. -/
def writeItems (sp : Spacing) : List Json → List Char
  | [] => []
  | x :: xs => sp.item ++ write sp x ++ writeItems sp xs

/-- The fields after the first, each behind its separator. -/
def writeFields (sp : Spacing) : List (String × Json) → List Char
  | [] => []
  | (k, v) :: fs => sp.item ++ quoted k ++ sp.key ++ write sp v ++ writeFields sp fs

end

/-- The compact text of a value. -/
def compact (v : Json) : String :=
  String.ofList (write .compact v)

/-- The text of a value with a blank after each comma and colon. -/
def spaced (v : Json) : String :=
  String.ofList (write .spaced v)

/-! ## Indented text -/

/-- A new line at a depth, two blanks for each level. -/
def freshLine (depth : Nat) : List Char :=
  '\n' :: List.replicate (2 * depth) ' '

mutual

/-- The text of a value over several lines, one item or field to a line. -/
def writeIndented (depth : Nat) : Json → List Char
  | .arr [] => ['[', ']']
  | .arr (x :: xs) =>
    '[' :: freshLine (depth + 1) ++ writeIndented (depth + 1) x ++ indentedItems (depth + 1) xs
      ++ freshLine depth ++ [']']
  | .obj [] => ['{', '}']
  | .obj ((k, v) :: fs) =>
    '{' :: freshLine (depth + 1) ++ quoted k ++ [':', ' '] ++ writeIndented (depth + 1) v
      ++ indentedFields (depth + 1) fs ++ freshLine depth ++ ['}']
  | .null => ['n', 'u', 'l', 'l']
  | .bool true => ['t', 'r', 'u', 'e']
  | .bool false => ['f', 'a', 'l', 's', 'e']
  | .int n => intText n
  | .float x => floatText x
  | .str s => quoted s

/-- The items after the first, each on its own line. -/
def indentedItems (depth : Nat) : List Json → List Char
  | [] => []
  | x :: xs => ',' :: freshLine depth ++ writeIndented depth x ++ indentedItems depth xs

/-- The fields after the first, each on its own line. -/
def indentedFields (depth : Nat) : List (String × Json) → List Char
  | [] => []
  | (k, v) :: fs =>
    ',' :: freshLine depth ++ quoted k ++ [':', ' '] ++ writeIndented depth v
      ++ indentedFields depth fs

end

/-- The text of a value over several lines. -/
def indented (v : Json) : String :=
  String.ofList (writeIndented 0 v)

/-! ## One order of fields -/

mutual

/-- The value with the fields of every object in the order of their keys' code points. -/
def sortKeys : Json → Json
  | .arr items => .arr (sortItems items)
  | .obj fields => .obj ((sortFields fields).mergeSort fun a b => decide (a.1 ≤ b.1))
  | v => v

/-- The items, each with its fields in order. -/
def sortItems : List Json → List Json
  | [] => []
  | x :: xs => sortKeys x :: sortItems xs

/-- The fields, each value with its own fields in order. -/
def sortFields : List (String × Json) → List (String × Json)
  | [] => []
  | (k, v) :: fs => (k, sortKeys v) :: sortFields fs

end

end PikeAnalysis.Json
