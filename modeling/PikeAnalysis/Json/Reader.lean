import PikeAnalysis.Decimal.Binary
import PikeAnalysis.Json.Basic

/-!
# Reading JSON

Reads one value from a text.  Besides the standard grammar it takes the names of not-a-number and
the two infinities.  Of two fields of one name the later value counts, at the earlier place.  A
lone half of a surrogate pair reads as the replacement character.
-/

namespace PikeAnalysis.Json

/-! ## Small parts -/

/-- The blanks between tokens. -/
def isSpace (c : Char) : Bool :=
  c == ' ' || c == '\t' || c == '\n' || c == '\r'

/-- The text without blanks in front. -/
def skipSpace (s : List Char) : List Char :=
  s.dropWhile isSpace

/-- The text after `word`, if it starts with it. -/
def afterWord? (word : String) (s : List Char) : Option (List Char) :=
  if word.toList.isPrefixOf s then some (s.drop word.length) else none

/-- The value of a hexadecimal digit. -/
def hexDigit? (c : Char) : Option Nat :=
  let n := c.toNat
  if 48 ≤ n ∧ n ≤ 57 then some (n - 48)
  else if 97 ≤ n ∧ n ≤ 102 then some (n - 87)
  else if 65 ≤ n ∧ n ≤ 70 then some (n - 55)
  else none

/-- Four hexadecimal digits as a number. -/
def hex4? : List Char → Option (Nat × List Char)
  | a :: b :: c :: d :: rest => do
    let w ← hexDigit? a
    let x ← hexDigit? b
    let y ← hexDigit? c
    let z ← hexDigit? d
    some (((w * 16 + x) * 16 + y) * 16 + z, rest)
  | _ => none

/-- The character of a sixteen-bit unit; a lone surrogate has none. -/
def unitChar (n : Nat) : Char :=
  if 0xD800 ≤ n ∧ n < 0xE000 then '\ufffd' else Char.ofNat n

/-! ## Strings -/

/-- The character that a one-letter escape stands for.  Escapes by number are not among them; they
are read by `hex4?`. -/
def escapeMeaning? (c : Char) : Option Char :=
  match c with
  | '"' => some '"'
  | '\\' => some '\\'
  | '/' => some '/'
  | 'b' => some '\x08'
  | 'f' => some '\x0c'
  | 'n' => some '\n'
  | 'r' => some '\r'
  | 't' => some '\t'
  | _ => none

/-- The string up to its closing quote, and the text after it.  The fuel bounds how many characters
are read, and the length of the text is enough. -/
def readString : Nat → List Char → Option (List Char × List Char)
  | 0, _ => none
  | _ + 1, [] => none
  | _ + 1, '"' :: rest => some ([], rest)
  | fuel + 1, '\\' :: 'u' :: rest => do
    let (n, rest) ← hex4? rest
    -- Two escapes may stand for one character, the halves of a surrogate pair.
    let pair : Option (Nat × List Char) :=
      match rest with
      | '\\' :: 'u' :: more =>
        if 0xD800 ≤ n ∧ n < 0xDC00 then
          match hex4? more with
          | some (m, after) => if 0xDC00 ≤ m ∧ m < 0xE000 then some (m, after) else none
          | none => none
        else none
      | _ => none
    match pair with
    | some (m, after) =>
      let (s, tail) ← readString fuel after
      some (Char.ofNat (0x10000 + (n - 0xD800) * 0x400 + (m - 0xDC00)) :: s, tail)
    | none =>
      let (s, tail) ← readString fuel rest
      some (unitChar n :: s, tail)
  | fuel + 1, '\\' :: c :: rest => do
    let e ← escapeMeaning? c
    let (s, tail) ← readString fuel rest
    some (e :: s, tail)
  | fuel + 1, c :: rest =>
    if c = '\\' ∨ c.toNat < 32 then none
    else do
      let (s, tail) ← readString fuel rest
      some (c :: s, tail)

/-! ## Numbers -/

/-- The value of a run of decimal digits. -/
def digitsValue (ds : List Char) : Nat :=
  ds.foldl (fun n d => n * 10 + (d.toNat - 48)) 0

/-- The part after the point: at least one digit. -/
def readFraction : List Char → List Char × List Char
  | '.' :: rest =>
    let ds := rest.takeWhile Char.isDigit
    if ds.isEmpty then ([], '.' :: rest) else (ds, rest.drop ds.length)
  | s => ([], s)

/-- The exponent part: a sign if there is one, and at least one digit. -/
def readExponent (s : List Char) : Option Int × List Char :=
  match s with
  | e :: rest =>
    if e = 'e' ∨ e = 'E' then
      let (negative, body) :=
        match rest with
        | '-' :: r => (true, r)
        | '+' :: r => (false, r)
        | r => (false, r)
      let ds := body.takeWhile Char.isDigit
      if ds.isEmpty then (none, s)
      else
        let n : Int := digitsValue ds
        (some (if negative then -n else n), body.drop ds.length)
    else (none, s)
  | [] => (none, s)

/-- A number: whole if it has neither point nor exponent.  Zero opens no longer number, so digits
behind a leading zero are left over. -/
def readNumber (s : List Char) : Option (Json × List Char) :=
  let (negative, body) :=
    match s with
    | '-' :: r => (true, r)
    | r => (false, r)
  let whole : List Char :=
    match body with
    | '0' :: _ => ['0']
    | _ => body.takeWhile Char.isDigit
  if whole.isEmpty then none
  else
    let (part, rest) := readFraction (body.drop whole.length)
    let (exponent, rest) := readExponent rest
    if part.isEmpty ∧ exponent.isNone then
      let n : Int := digitsValue whole
      some (.int (if negative then -n else n), rest)
    else
      let bits := Decimal.decimalBits (digitsValue (whole ++ part)) (exponent.getD 0 - part.length)
      some (.float (Decimal.ofBits negative bits), rest)

/-! ## Values -/

mutual

/-- A value, and the text after it.  Blanks in front of it are skipped.  The fuel bounds the nesting
and the number of items together. -/
def readValue : Nat → List Char → Option (Json × List Char)
  | 0, _ => none
  | fuel + 1, s =>
    match skipSpace s with
    | [] => none
    | '"' :: rest => do
      let (cs, tail) ← readString (rest.length + 1) rest
      some (.str (String.ofList cs), tail)
    | '[' :: rest =>
      match skipSpace rest with
      | ']' :: tail => some (.arr [], tail)
      | body => do
        let (items, tail) ← readItems fuel body
        some (.arr items, tail)
    | '{' :: rest =>
      match skipSpace rest with
      | '}' :: tail => some (.obj [], tail)
      | body => do
        let (pairs, tail) ← readPairs fuel body
        some (.obj (fieldsOfPairs pairs), tail)
    | s =>
      match afterWord? "null" s, afterWord? "true" s, afterWord? "false" s with
      | some tail, _, _ => some (.null, tail)
      | _, some tail, _ => some (.bool true, tail)
      | _, _, some tail => some (.bool false, tail)
      | none, none, none =>
        -- Words that are no valid JSON, but which the reader accepts as numbers.
        match afterWord? "NaN" s, afterWord? "Infinity" s, afterWord? "-Infinity" s with
        | some tail, _, _ => some (.float (Decimal.ofBits false Decimal.nanBits), tail)
        | _, some tail, _ => some (.float (Decimal.ofBits false Decimal.infinityBits), tail)
        | _, _, some tail => some (.float (Decimal.ofBits true Decimal.infinityBits), tail)
        | none, none, none => readNumber s

/-- The items of an array up to its closing bracket.  There is at least one, since the caller has
looked for the closing bracket. -/
def readItems : Nat → List Char → Option (List Json × List Char)
  | 0, _ => none
  | fuel + 1, s => do
    let (v, rest) ← readValue fuel s
    match skipSpace rest with
    | ',' :: more => do
      let (vs, tail) ← readItems fuel more
      some (v :: vs, tail)
    | ']' :: tail => some ([v], tail)
    | _ => none

/-- The pairs of an object up to its closing brace.  There is at least one.  Keys may come twice
here; which of them counts is decided by `fieldsOfPairs`. -/
def readPairs : Nat → List Char → Option (List (String × Json) × List Char)
  | 0, _ => none
  | fuel + 1, s =>
    match skipSpace s with
    | '"' :: body => do
      let (key, rest) ← readString (body.length + 1) body
      match skipSpace rest with
      | ':' :: rest => do
        let (v, rest) ← readValue fuel rest
        match skipSpace rest with
        | ',' :: more => do
          let (ps, tail) ← readPairs fuel more
          some ((String.ofList key, v) :: ps, tail)
        | '}' :: tail => some ([(String.ofList key, v)], tail)
        | _ => none
      | _ => none
    | _ => none

end

/-- The value that a whole text holds, blanks around it aside. -/
def read? (s : List Char) : Option Json :=
  match readValue (s.length + 2) s with
  | some (v, rest) => if (skipSpace rest).isEmpty then some v else none
  | none => none

end PikeAnalysis.Json
