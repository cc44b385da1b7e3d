/-!
# Splitting and searching

Texts are lists of characters, so every index counts characters.  A text has one line more than it
has newlines; a separator never belongs to a piece.

Splitting and joining are inverse to each other, and most of what the parsers of this library do is
done with these few functions: lines of a document, parts of a path, names of a dotted path.  The
separator is a single character everywhere but in a search, where it is a text.
-/

namespace PikeAnalysis.Text

/-! ## Splitting -/

/-- The pieces between the occurrences of a separator: one more piece than there are separators. -/
def splitOn (sep : Char) : List Char → List (List Char)
  | [] => [[]]
  | c :: rest =>
    if c = sep then [] :: splitOn sep rest
    else match splitOn sep rest with
      | [] => [[c]]
      | piece :: more => (c :: piece) :: more

/-- The lines of a text. -/
def lines (s : List Char) : List (List Char) :=
  splitOn '\n' s

/-- A text with every kind of line end as a newline. -/
def unifyLineEnds : List Char → List Char
  | [] => []
  | '\r' :: '\n' :: rest => '\n' :: unifyLineEnds rest
  | '\r' :: rest => '\n' :: unifyLineEnds rest
  | c :: rest => c :: unifyLineEnds rest

/-- The pieces joined again, with `sep` between them. -/
def joinWith (sep : List Char) : List (List Char) → List Char
  | [] => []
  | [piece] => piece
  | piece :: more => piece ++ sep ++ joinWith sep more

/-- What stands before and after the last `sep`, if there is one. -/
def cutLast (sep : Char) (s : List Char) : Option (List Char × List Char) :=
  if s.contains sep then
    let tail := s.reverse.takeWhile (· != sep)
    some ((s.reverse.drop (tail.length + 1)).reverse, tail.reverse)
  else none

/-- The part after the last `sep`; the whole text if there is none. -/
def afterLast (sep : Char) (s : List Char) : List Char :=
  (s.reverse.takeWhile (· != sep)).reverse

/-! ## Searching -/

/-- The index of the first place from `i` on where `pat` stands. -/
def findFrom (pat : List Char) : List Char → Nat → Option Nat
  | [], i => if pat.isEmpty then some i else none
  | c :: rest, i => if pat.isPrefixOf (c :: rest) then some i else findFrom pat rest (i + 1)

/-- The index of the first place where `pat` stands. -/
def find? (pat s : List Char) : Option Nat :=
  findFrom pat s 0

/-- Whether `pat` stands somewhere in the text. -/
def containsText (pat s : List Char) : Bool :=
  (find? pat s).isSome

/-! ## Case

Comparison of ASCII patterns with text regardless of case.  Four characters outside ASCII fold onto
an ASCII letter: the two Turkish i's, the long s and the Kelvin sign. -/

/-- The letter that a character matches when case is ignored. -/
def foldCase (c : Char) : Char :=
  if c = '\u0130' ∨ c = '\u0131' then 'i'
  else if c = '\u017f' then 's'
  else if c = '\u212a' then 'k'
  else c.toLower

/-- Whether `pat`, given in lower-case ASCII, stands in the text in any case. -/
def containsFolded (pat : String) (s : List Char) : Bool :=
  containsText pat.toList (s.map foldCase)

/-- Whether `pat`, given in lower-case ASCII, stands in the lower-cased text.  No character outside
ASCII has an ASCII letter other than `i` and `k` as its lower case. -/
def containsLowered (pat : String) (s : List Char) : Bool :=
  containsText pat.toList (s.map Char.toLower)

end PikeAnalysis.Text
