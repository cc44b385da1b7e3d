/-!
# UTF-8

Texts as bytes.  Encoding is total.  Decoding is total too: each longest run of bytes that starts a
character without finishing it becomes one replacement character, and so does a byte that starts
none.

The decoder is a machine with one state: what has been read of a character that is not finished,
with the range in which the next byte must lie.  That range keeps out overlong forms, surrogates and
everything beyond the last code point at the second byte already, so no character is ever taken
back.  Decoding what was encoded gives the text again.
-/

namespace PikeAnalysis.Text

/-- The bytes of a text. -/
def utf8Encode (s : List Char) : List UInt8 :=
  s.flatMap String.utf8EncodeChar

/-- A character whose first bytes have been read: the bits so far, the bytes still owed, and the
least and greatest byte that may come next. -/
structure Utf8Partial where
  bits : Nat
  owed : Nat
  low : Nat
  high : Nat

/-- The character that stands for bytes that are not UTF-8. -/
def replacement : Char := '\ufffd'

/-- How a byte opens a character: a whole one, the start of one, or neither. -/
def Utf8Partial.open? (b : Nat) : Option (Char ⊕ Utf8Partial) :=
  if b < 0x80 then some (.inl (Char.ofNat b))
  else if b < 0xC2 then none
  else if b < 0xE0 then some (.inr ⟨b - 0xC0, 1, 0x80, 0xBF⟩)
  else if b < 0xF0 then
    some (.inr ⟨b - 0xE0, 2, if b = 0xE0 then 0xA0 else 0x80, if b = 0xED then 0x9F else 0xBF⟩)
  else if b < 0xF5 then
    some (.inr ⟨b - 0xF0, 3, if b = 0xF0 then 0x90 else 0x80, if b = 0xF4 then 0x8F else 0xBF⟩)
  else none

/-- What a byte does where a character may start: the characters it completes, and the character it
leaves unfinished. -/
def utf8Open (b : Nat) : List Char × Option Utf8Partial :=
  match Utf8Partial.open? b with
  | none => ([replacement], none)
  | some (.inl c) => ([c], none)
  | some (.inr p) => ([], some p)

/-- What a byte does behind the bytes of an unfinished character, if there is one. -/
def utf8Step (part : Option Utf8Partial) (b : Nat) : List Char × Option Utf8Partial :=
  match part with
  | none => utf8Open b
  | some p =>
    if p.low ≤ b ∧ b ≤ p.high then
      let bits := p.bits * 64 + (b - 0x80)
      if p.owed ≤ 1 then ([Char.ofNat bits], none)
      else ([], some ⟨bits, p.owed - 1, 0x80, 0xBF⟩)
    else
      let (out, next) := utf8Open b
      (replacement :: out, next)

/-- The text read behind the bytes of an unfinished character. -/
def utf8DecodeFrom : Option Utf8Partial → List UInt8 → List Char
  | none, [] => []
  | some _, [] => [replacement]
  | part, b :: rest =>
    let (out, next) := utf8Step part b.toNat
    out ++ utf8DecodeFrom next rest

/-- The text of a byte sequence, with replacement characters for what is not UTF-8. -/
def utf8Decode (bytes : List UInt8) : List Char :=
  utf8DecodeFrom none bytes

end PikeAnalysis.Text
