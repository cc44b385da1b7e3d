import PikeAnalysis.Text.Character
import PikeAnalysis.Text.Lines

/-!
# Widths and wrapping

How many columns of a terminal a text takes, and its lines of a width.  Ideographs and most pictures
take two columns, combining marks none.  Words stay whole where they can; one that is wider than a
line is folded, or left to be cut.

A text is split into words, each with the blanks behind it, and words are put into lines until one
does not fit; the blanks at the end of a line may lie beyond the width and are dropped.  All lengths
are columns and not characters, so a wide character that would have to be cut leaves a blank column.
-/

namespace PikeAnalysis.Terminal

/-! ## Widths -/

/-- Ranges of characters that take two columns.  They are in increasing order.  Characters that take
no column at all are listed by themselves. -/
def wideRanges : List (Nat × Nat) :=
  [(0x1100, 0x115f), (0x231a, 0x231b), (0x2329, 0x232a), (0x23e9, 0x23ec), (0x23f0, 0x23f0),
    (0x23f3, 0x23f3), (0x25fd, 0x25fe), (0x2614, 0x2615), (0x2648, 0x2653), (0x267f, 0x267f),
    (0x2693, 0x2693), (0x26a1, 0x26a1), (0x26aa, 0x26ab), (0x26bd, 0x26be), (0x26c4, 0x26c5),
    (0x26ce, 0x26ce), (0x26d4, 0x26d4), (0x26ea, 0x26ea), (0x26f2, 0x26f3), (0x26f5, 0x26f5),
    (0x26fa, 0x26fa), (0x26fd, 0x26fd), (0x2705, 0x2705), (0x270a, 0x270b), (0x2728, 0x2728),
    (0x274c, 0x274c), (0x274e, 0x274e), (0x2753, 0x2755), (0x2757, 0x2757), (0x2795, 0x2797),
    (0x27b0, 0x27b0), (0x27bf, 0x27bf), (0x2b1b, 0x2b1c), (0x2b50, 0x2b50), (0x2b55, 0x2b55),
    (0x2e80, 0x2e99), (0x2e9b, 0x2ef3), (0x2f00, 0x2fd5), (0x2ff0, 0x303e), (0x3041, 0x3096),
    (0x309b, 0x30ff), (0x3105, 0x312f), (0x3131, 0x318e), (0x3190, 0x31e3), (0x31ef, 0x321e),
    (0x3220, 0x3247), (0x3250, 0xa48c), (0xa490, 0xa4c6), (0xa960, 0xa97c), (0xac00, 0xd7a3),
    (0xf900, 0xfaff), (0xfe10, 0xfe19), (0xfe30, 0xfe52), (0xfe54, 0xfe66), (0xfe68, 0xfe6b),
    (0xff01, 0xff60), (0xffe0, 0xffe6), (0x16fe0, 0x16fe3), (0x17000, 0x187f7), (0x18800, 0x18cd5),
    (0x1b000, 0x1b2fb), (0x1f004, 0x1f004), (0x1f0cf, 0x1f0cf), (0x1f18e, 0x1f18e),
    (0x1f191, 0x1f19a), (0x1f200, 0x1f202), (0x1f210, 0x1f23b), (0x1f240, 0x1f248),
    (0x1f250, 0x1f251), (0x1f260, 0x1f265), (0x1f300, 0x1f320), (0x1f32d, 0x1f335),
    (0x1f337, 0x1f37c), (0x1f37e, 0x1f393), (0x1f3a0, 0x1f3ca), (0x1f3cf, 0x1f3d3),
    (0x1f3e0, 0x1f3f0), (0x1f3f4, 0x1f3f4), (0x1f3f8, 0x1f43e), (0x1f440, 0x1f440),
    (0x1f442, 0x1f4fc), (0x1f4ff, 0x1f53d), (0x1f54b, 0x1f54e), (0x1f550, 0x1f567),
    (0x1f57a, 0x1f57a), (0x1f595, 0x1f596), (0x1f5a4, 0x1f5a4), (0x1f5fb, 0x1f64f),
    (0x1f680, 0x1f6c5), (0x1f6cc, 0x1f6cc), (0x1f6d0, 0x1f6d2), (0x1f6d5, 0x1f6d7),
    (0x1f6dc, 0x1f6df), (0x1f6eb, 0x1f6ec), (0x1f6f4, 0x1f6fc), (0x1f7e0, 0x1f7eb),
    (0x1f7f0, 0x1f7f0), (0x1f90c, 0x1f93a), (0x1f93c, 0x1f945), (0x1f947, 0x1f9ff),
    (0x1fa70, 0x1fa7c), (0x1fa80, 0x1fa89), (0x1fa8f, 0x1fac6), (0x1face, 0x1fadc),
    (0x1fadf, 0x1fae9), (0x1faf0, 0x1faf8), (0x20000, 0x2fffd), (0x30000, 0x3fffd)]

/-- Ranges of characters that take no column. -/
def markRanges : List (Nat × Nat) :=
  [(0x300, 0x36f), (0x483, 0x489), (0x591, 0x5bd), (0x5bf, 0x5bf), (0x5c1, 0x5c2), (0x5c4, 0x5c5),
    (0x5c7, 0x5c7), (0x610, 0x61a), (0x64b, 0x65f), (0x670, 0x670), (0x6d6, 0x6dc), (0x6df, 0x6e4),
    (0x6e7, 0x6e8), (0x6ea, 0x6ed), (0x711, 0x711), (0x730, 0x74a), (0x900, 0x903), (0x93a, 0x93c),
    (0x93e, 0x94f), (0x951, 0x957), (0x962, 0x963), (0xe31, 0xe31), (0xe34, 0xe3a), (0xe47, 0xe4e),
    (0x1ab0, 0x1ace), (0x1dc0, 0x1dff), (0x200b, 0x200f), (0x2028, 0x202e), (0x2060, 0x2064),
    (0x2066, 0x206f), (0x20d0, 0x20f0), (0x302a, 0x302f), (0x3099, 0x309a), (0xfe00, 0xfe0f),
    (0xfe20, 0xfe2f), (0xe0100, 0xe01ef)]

/-- Whether a number is in one of some ranges. -/
def isWithin (ranges : List (Nat × Nat)) (n : Nat) : Bool :=
  ranges.any fun r => r.1 ≤ n && n ≤ r.2

/-- How many columns a character takes. -/
def charWidth (c : Char) : Nat :=
  let n := c.toNat
  if n < 0x300 then (if n < 32 || (127 ≤ n && n < 160) then 0 else 1)
  else if isWithin markRanges n then 0
  else if isWithin wideRanges n then 2
  else 1

/-- How many columns a text takes. -/
def width (s : List Char) : Nat :=
  s.foldl (fun n c => n + charWidth c) 0

/-- As much of a text as fits into some columns; a column that a wide character would need half of
stays blank. -/
def crop (columns : Nat) : List Char → List Char
  | [] => []
  | c :: rest =>
    if charWidth c ≤ columns then c :: crop (columns - charWidth c) rest
    else List.replicate columns ' '

open Text

/-! ## Words -/

/-- The words of a text, each with the blanks behind it; the first has those before it, too.
`inWord` tells whether the last character belonged to a word. -/
def wordsFrom : Bool → List Char → List Char → List (List Char)
  | inWord, word, [] => if inWord || word.any (!isBlank ·) then [word.reverse] else []
  | inWord, word, c :: rest =>
    if isBlank c then wordsFrom false (c :: word) rest
    else if inWord || word.all isBlank then wordsFrom true (c :: word) rest
    else word.reverse :: wordsFrom true [c] rest

/-- The words of a text with their blanks. -/
def words (s : List Char) : List (List Char) :=
  wordsFrom false [] s

/-- A word in pieces of a width. -/
def fold (columns : Nat) : List Char → Nat → List Char → List (List Char)
  | line, _, [] => [line.reverse]
  | line, used, c :: rest =>
    if used + charWidth c > columns then line.reverse :: fold columns [c] (charWidth c) rest
    else fold columns (c :: line) (used + charWidth c) rest

/-! ## Lines -/

/-- How lines that are too long are dealt with. -/
inductive Overflow where
  | fold | ellipsis
  deriving DecidableEq, Repr

/-- Puts words into lines of a width.  `line` is the current line backwards, and `used` the columns
that it takes. -/
def fill (columns : Nat) (overflow : Overflow) :
    List Char → Nat → List (List Char) → List (List Char)
  | line, _, [] => [line]
  | line, used, word :: rest =>
    let size := width (trimRight isBlank word)
    if used + size ≤ columns then
      fill columns overflow (line ++ word) (used + width word) rest
    else if size > columns then
      match overflow with
      | .fold =>
        let parts := fold columns [] 0 word
        let last := parts.getLastD []
        (if line.isEmpty then [] else [line]) ++ parts.dropLast
          ++ fill columns overflow last (width last) rest
      | .ellipsis =>
        (if line.isEmpty then [] else [line]) ++ fill columns overflow word (width word) rest
    else if used = 0 ∨ line.isEmpty then
      fill columns overflow (line ++ word) used rest
    else line :: fill columns overflow word (width word) rest

/-- A line without the blanks at its end that lie beyond a width. -/
def dropExcess (columns : Nat) (s : List Char) : List Char :=
  let excess := s.length - columns
  let blanks := (s.reverse.takeWhile isBlank).length
  s.take (s.length - min excess blanks)

/-- A line cut to a width. -/
def truncate (columns : Nat) (overflow : Overflow) (s : List Char) : List Char :=
  if width s ≤ columns then s
  else
    match overflow with
    | .ellipsis => crop (columns - 1) s ++ ['…']
    | .fold => crop columns s

/-- A text with blanks in place of its tabs. -/
def expandTabs (s : List Char) : List Char :=
  (s.foldl (fun (acc : List Char × Nat) c =>
    if c == '\t' then
      let n := 8 - acc.2 % 8
      (acc.1 ++ List.replicate n ' ', acc.2 + n)
    else (acc.1 ++ [c], acc.2 + charWidth c)) ([], 0)).1

/-- A line of text in lines of a width. -/
def wrapLine (columns : Nat) (overflow : Overflow) (s : List Char) : List (List Char) :=
  let s := expandTabs s
  let ls := if s.all isBlank then [s] else fill columns overflow [] 0 (words s)
  ls.map (dropExcess columns)

/-- A text in lines of a width. -/
def wrap (columns : Nat) (overflow : Overflow) (s : List Char) : List (List Char) :=
  (lines s).flatMap (wrapLine columns overflow)

/-! ## Placing -/

/-- A line filled with blanks up to a width. -/
def padRight (columns : Nat) (s : List Char) : List Char :=
  s ++ List.replicate (columns - width s) ' '

/-- A line in the middle of a width. -/
def centred (columns : Nat) (overflow : Overflow) (s : List Char) : List Char :=
  let s := truncate columns overflow (trimRight isBlank s)
  padRight columns (List.replicate ((columns - width s) / 2) ' ' ++ s)

end PikeAnalysis.Terminal
