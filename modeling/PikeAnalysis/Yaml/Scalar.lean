import PikeAnalysis.Shape.Literal

/-!
# YAML scalars

What plain scalars stand for, and the two kinds of quoted ones.

A plain scalar is resolved by its spelling alone: the empty text and the words for nothing, the
words for truth, whole numbers to the bases two, eight, ten, sixteen and sixty, numbers with a
point, and everything else as a text.  A leading zero means base eight, underscores may stand
between digits, and an exponent needs its sign; these rules are those of version 1.1 of the
language.

Quoted scalars are never resolved.  They are read up to their closing quote together with what
follows it, so that the reader can go on from there; an escape that does not exist makes the whole
scalar wrong.
-/

namespace PikeAnalysis.Yaml

open Text

/-! ## Plain scalars -/

def nullWords : List String := ["", "~", "null", "Null", "NULL"]

def trueWords : List String :=
  ["yes", "Yes", "YES", "true", "True", "TRUE", "on", "On", "ON"]

def falseWords : List String :=
  ["no", "No", "NO", "false", "False", "FALSE", "off", "Off", "OFF"]

/-- The number of digits to a base, underscores aside; none if something else is among them or there
is nothing. -/
def digitsTo? (base : Nat) (s : List Char) : Option Nat :=
  if s.isEmpty then none
  else
    (s.filter (· != '_')).foldlM (fun n c =>
      match Json.hexDigit? c with
      | some d => if d < base then some (n * base + d) else none
      | none => none) 0

/-- A number of up to two digits below sixty. -/
def sixtieth? (s : List Char) : Option Nat :=
  if s.isEmpty ∨ s.length > 2 ∨ ¬ s.all Char.isDigit then none
  else
    let n := Json.digitsValue s
    if n < 60 then some n else none

/-- Numbers to the base of sixty, between colons. -/
def sexagesimal? (s : List Char) : Option Nat :=
  match splitOn ':' s with
  | first :: second :: rest => do
    if !(first.head?.any fun c => '1' ≤ c ∧ c ≤ '9') then none
    let whole ← digitsTo? 10 first
    let parts ← (second :: rest).mapM sixtieth?
    some (parts.foldl (fun n p => n * 60 + p) whole)
  | _ => none

/-- The whole number that a plain scalar without a sign stands for. -/
def natural? (s : List Char) : Option Nat :=
  match s with
  | ['0'] => some 0
  | '0' :: 'b' :: rest => digitsTo? 2 rest
  | '0' :: 'x' :: rest => digitsTo? 16 rest
  | '0' :: rest => digitsTo? 8 rest
  | c :: rest => if c.isDigit then digitsTo? 10 (c :: rest) <|> sexagesimal? s else none
  | [] => none

/-- An exponent with its sign, or nothing. -/
def isExponent (s : List Char) : Bool :=
  match s with
  | [] => true
  | e :: sign :: digits =>
    (e == 'e' || e == 'E') && (sign == '+' || sign == '-') && !digits.isEmpty
      && digits.all Char.isDigit
  | _ => false

/-- Whether a plain scalar without a sign is a number with a point. -/
def isPointed (s : List Char) : Bool :=
  let whole := s.takeWhile fun c => c.isDigit || c == '_'
  match s.drop whole.length with
  | '.' :: rest =>
    let part := rest.takeWhile fun c => c.isDigit || c == '_'
    let opened := if whole.isEmpty then part else whole
    opened.head?.any Char.isDigit && isExponent (rest.drop part.length)
  | _ => false

/-- The floating-point number that a plain scalar stands for.  Infinity and no number have words of
their own, and a number has a point in it. -/
def floating? (s : List Char) : Option Float :=
  let (negative, body) := Shape.signed s
  let word := String.ofList body
  let signless := body.length = s.length
  if [".inf", ".Inf", ".INF"].contains word then
    some (Decimal.ofBits negative Decimal.infinityBits)
  else if signless ∧ [".nan", ".NaN", ".NAN"].contains word then
    some (Decimal.ofBits false Decimal.nanBits)
  else if isPointed body ∧ (signless ∨ body.head? != some '.') then
    Shape.plainFloat? (s.filter (· != '_'))
  else none

/-- What a plain scalar stands for.  Whatever is no word, whole number or floating-point number is a
text. -/
def resolve (s : List Char) : Json :=
  let word := String.ofList s
  if nullWords.contains word then .null
  else if trueWords.contains word then .bool true
  else if falseWords.contains word then .bool false
  else
    let (negative, body) := Shape.signed s
    match natural? body with
    | some n => .int (if negative then -(n : Int) else n)
    | none =>
      match floating? s with
      | some x => .float x
      | none => .str word

/-- The characters that a plain scalar cannot start with. -/
def indicators : List Char :=
  [',', '[', ']', '{', '}', '#', '&', '*', '!', '|', '>', '\'', '"', '%', '@', '\x60']

/-- Whether a plain scalar can start like this: with no indicator, and with a dash, colon or
question mark only if something follows it at once. -/
def opensPlain : List Char → Bool
  | [] => false
  | c :: rest =>
    if ['-', ':', '?'].contains c then rest.head?.any fun d => d != ' '
    else !indicators.contains c

/-! ## Quoted scalars -/

/-- A single-quoted scalar behind its quote, and what follows it. -/
def singleQuoted : List Char → Option (List Char × List Char)
  | [] => none
  | '\'' :: '\'' :: rest => (singleQuoted rest).map fun (s, left) => ('\'' :: s, left)
  | '\'' :: rest => some ([], rest)
  | c :: rest => (singleQuoted rest).map fun (s, left) => (c :: s, left)

/-- The character that an escape of one letter stands for.  Those by number are read elsewhere, as
they take digits. -/
def escaped? : Char → Option Char
  | '0' => some '\x00'
  | 'a' => some '\x07'
  | 'b' => some '\x08'
  | 't' | '\t' => some '\t'
  | 'n' => some '\n'
  | 'v' => some '\x0b'
  | 'f' => some '\x0c'
  | 'r' => some '\r'
  | 'e' => some '\x1b'
  | ' ' => some ' '
  | '"' => some '"'
  | '\\' => some '\\'
  | '/' => some '/'
  | 'N' => some '\u0085'
  | '_' => some '\u00a0'
  | 'L' => some '\u2028'
  | 'P' => some '\u2029'
  | _ => none

/-- How many hexadecimal digits an escape takes. -/
def escapeWidth? : Char → Option Nat
  | 'x' => some 2
  | 'u' => some 4
  | 'U' => some 8
  | _ => none

/-- A double-quoted scalar behind its quote, and what follows it; `fuel` bounds its length. -/
def doubleQuoted : Nat → List Char → Option (List Char × List Char)
  | 0, _ => none
  | _, [] => none
  | _, '"' :: rest => some ([], rest)
  | fuel + 1, '\\' :: c :: rest =>
    match escaped? c with
    | some d => (doubleQuoted fuel rest).map fun (s, left) => (d :: s, left)
    | none => do
      let width ← escapeWidth? c
      let digits := rest.take width
      if digits.length < width then none
      let n ← digits.foldlM (fun n d => (Json.hexDigit? d).map (n * 16 + ·)) 0
      let (s, left) ← doubleQuoted fuel (rest.drop width)
      some (Char.ofNat n :: s, left)
  | fuel + 1, c :: rest => (doubleQuoted fuel rest).map fun (s, left) => (c :: s, left)

/-- A quoted scalar, and what follows it. -/
def quoted? (s : List Char) : Option (List Char × List Char) :=
  match s with
  | '\'' :: rest => singleQuoted rest
  | '"' :: rest => doubleQuoted (rest.length + 1) rest
  | _ => none

end PikeAnalysis.Yaml
