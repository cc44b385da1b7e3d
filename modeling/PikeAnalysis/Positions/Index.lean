import PikeAnalysis.Assoc
import PikeAnalysis.Position
import PikeAnalysis.Text.Lines
import PikeAnalysis.Text.Word

/-!
# Position index

Where the names of a document occur.  There are three sources: the tokens of the worker, its list of
occurrences, and a scan of the text in which comments, string literals and character literals are
replaced by blanks, character for character.  Newlines stay, so that a place in the masked text is
the same place in the text.  Each source names the places in the order in which it meets them.

The three sources differ in what they check.  A token counts only if its text really stands at its
place, with no word character on either side; occurrences are taken as they come; the scan finds
identifiers and looks them up among the names.  The engine takes the tokens if they yield anything,
else the occurrences if they cover every name, else the scan.
-/

namespace PikeAnalysis.Positions

/-- What the scan is inside of. -/
inductive MaskMode where
  | code
  | lineComment
  | blockComment
  /-- A literal closed by `quote`; one that is not `multiline` also ends before a newline. -/
  | literal (quote : Char) (multiline : Bool)
  deriving DecidableEq, Repr

/-- A blank in place of a character that is not a newline. -/
def blanked (c : Char) : Char :=
  if c = '\n' then '\n' else ' '

/-- The masked form of a text whose scan starts in a mode.  A backslash in a literal takes the next
character with it. -/
def maskFrom : MaskMode → List Char → List Char
  | _, [] => []
  | .code, '/' :: '/' :: rest => ' ' :: ' ' :: maskFrom .lineComment rest
  | .code, '#' :: '!' :: rest => ' ' :: ' ' :: maskFrom .lineComment rest
  | .code, '/' :: '*' :: rest => ' ' :: ' ' :: maskFrom .blockComment rest
  | .code, '#' :: '"' :: rest => ' ' :: ' ' :: maskFrom (.literal '"' true) rest
  | .code, c :: rest =>
    if c = '"' ∨ c = '\'' then ' ' :: maskFrom (.literal c false) rest
    else c :: maskFrom .code rest
  | .lineComment, c :: rest =>
    if c = '\n' then '\n' :: maskFrom .code rest else ' ' :: maskFrom .lineComment rest
  | .blockComment, '*' :: '/' :: rest => ' ' :: ' ' :: maskFrom .code rest
  | .blockComment, c :: rest => blanked c :: maskFrom .blockComment rest
  | .literal q m, '\\' :: c :: rest => ' ' :: blanked c :: maskFrom (.literal q m) rest
  | .literal q m, c :: rest =>
    if c = q then ' ' :: maskFrom .code rest
    else if c = '\n' ∧ m = false then '\n' :: maskFrom .code rest
    else blanked c :: maskFrom (.literal q m) rest

/-- The text with comments and literals blanked out. -/
def mask (s : List Char) : List Char :=
  maskFrom .code s

end PikeAnalysis.Positions

namespace PikeAnalysis

/-- The places of each name, names in the order of their first place. -/
abbrev PositionIndex := List (String × List Position)

namespace PositionIndex

/-- The index with one more place of a name. -/
def note (name : String) (p : Position) (index : PositionIndex) : PositionIndex :=
  Assoc.set name ((Assoc.get? name index).getD [] ++ [p]) index

/-! ## From tokens -/

/-- What a token says about the text: that it is elsewhere, that its name stands there, or that its
character lies beyond the line, which only an empty token can get as far as. -/
inductive TokenPlace where
  | elsewhere
  | at (p : Position)
  | beyond
  deriving DecidableEq, Repr

/-- Looks a token up in the lines of the text.  It counts if its text stands at its place with no
word character on either side. -/
def tokenPlace (lines : List (List Char)) (t : Wire.Token) : TokenPlace :=
  if t.character < 0 ∨ t.line - 1 < 0 then .elsewhere
  else
    match lines[(t.line - 1).toNat]? with
    | none => .elsewhere
    | some row =>
      let start := t.character.toNat
      let name := t.text.toList
      if (row.drop start).take name.length ≠ name then .elsewhere
      else if start > 0 ∧ row.length < start then .beyond
      else
        let before := if start = 0 then none else row[start - 1]?
        let after := row[start + name.length]?
        if before.any Text.isWord || after.any Text.isWord then .elsewhere
        else .at ⟨t.line - 1, t.character⟩

/-- The index of the tokens that stand in the text; none if a token lies beyond its line. -/
def ofTokens? (text : List Char) (names : List String) (tokens : List Wire.Token) :
    Option PositionIndex :=
  let lines := Text.lines text
  tokens.foldlM (fun index t =>
    if names.contains t.text then
      match tokenPlace lines t with
      | .elsewhere => some index
      | .at p => some (note t.text p index)
      | .beyond => none
    else some index) []

/-! ## From occurrences -/

/-- The index of the occurrences of the given names, taken as they come. -/
def ofOccurrences (names : List String) (occurrences : List Wire.Occurrence) : PositionIndex :=
  occurrences.foldl (fun index o =>
    if names.contains o.text then note o.text ⟨max 0 (o.line - 1), o.character⟩ index
    else index) []

/-! ## From the text -/

/-- The identifiers of a line and their characters: from the first character that can open a name,
as far as word characters go.  `skip` characters have been taken already. -/
def identifiersFrom : Nat → Nat → List Char → List (List Char × Nat)
  | _, _, [] => []
  | skip + 1, i, _ :: rest => identifiersFrom skip (i + 1) rest
  | 0, i, c :: rest =>
    if Text.isNameStart c then
      let tail := rest.takeWhile Text.isWord
      (c :: tail, i) :: identifiersFrom tail.length (i + 1) rest
    else identifiersFrom 0 (i + 1) rest

/-- The identifiers of a line, each with its character. -/
def identifiers (line : List Char) : List (List Char × Nat) :=
  identifiersFrom 0 0 line

/-- The index of a text, line by line, of the names that stand in it as code. -/
def ofText (text : List Char) (names : List String) : PositionIndex :=
  let found := (Text.lines (Positions.mask text)).zipIdx.flatMap fun (line, n) =>
    (identifiers line).map fun (name, i) => (String.ofList name, (⟨n, i⟩ : Position))
  found.foldl (fun index e => if names.contains e.1 then note e.1 e.2 index else index) []

end PositionIndex

end PikeAnalysis
