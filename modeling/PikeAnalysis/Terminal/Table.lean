import PikeAnalysis.Terminal.Wrap
import PikeAnalysis.Text.Character
import PikeAnalysis.Text.Lines

/-!
# Tables

Lays tables out in the width of a terminal: a title, a header, and rows of cells, with or without
lines around them.  Cells have a blank on either side.  Columns that are too wide give way, the
widest first.  Styles are written in a text as tags in brackets.  Without colour nothing is left of
a tag, but a tag that closes nothing is an error.

Widths are settled before anything is drawn: each column asks for its longest line, and when all
together are too wide the widest are reduced to the next widest, step by step, until they fit.
Cells are then wrapped to their columns, and a row is as high as its highest cell.
-/

namespace PikeAnalysis.Terminal

/-! ## Markup -/

/-- A tag that closes what is not open. -/
inductive MarkupFault where
  | closesNothing
  deriving DecidableEq, Repr

/-- A piece of a marked-up text. -/
inductive Piece where
  | text (s : List Char)
  | tag (s : List Char)
  deriving DecidableEq, Repr

/-- Whether a tag can begin with a character. -/
def opensTag (c : Char) : Bool :=
  ('a' ≤ c && c ≤ 'z') || c == '#' || c == '/' || c == '@'

/-- The inside of a tag behind its bracket, and what follows it; there is no bracket within a
tag. -/
def tagEnd : List Char → Option (List Char × List Char)
  | [] => none
  | ']' :: rest => some ([], rest)
  | '[' :: _ => none
  | c :: rest => (tagEnd rest).map fun (s, left) => (c :: s, left)

/-- The tag that a text begins with. -/
def tagAt? (s : List Char) : Option (List Char × List Char) :=
  match s with
  | '[' :: c :: rest =>
    if opensTag c then (tagEnd rest).map fun (t, left) => (c :: t, left) else none
  | _ => none

/-- The pieces of a text.  Backslashes before a tag count in pairs; one that is left over makes the
tag text.  `skip` characters have been taken already. -/
def piecesFrom : Nat → Nat → List Char → List Piece
  | _, _, [] => []
  | skip + 1, slashes, _ :: rest => piecesFrom skip slashes rest
  | 0, slashes, '\\' :: rest =>
    let run := (rest.takeWhile (· == '\\')).length + 1
    match tagAt? (rest.drop (run - 1)) with
    | some (t, _) =>
      let lead := Piece.text (List.replicate (run / 2) '\\')
      if run % 2 = 1 then lead :: .text ('[' :: t ++ [']']) ::
        piecesFrom (run - 1 + t.length + 2) 0 rest
      else lead :: .tag t :: piecesFrom (run - 1 + t.length + 2) 0 rest
    | none => .text (List.replicate run '\\') :: piecesFrom (run - 1) slashes rest
  | 0, slashes, c :: rest =>
    match tagAt? (c :: rest) with
    | some (t, _) => .tag t :: piecesFrom (t.length + 1) slashes rest
    | none => .text [c] :: piecesFrom 0 slashes rest

/-- The pieces of a text. -/
def pieces (s : List Char) : List Piece :=
  piecesFrom 0 0 s

/-- The name of a style in one form. -/
def styleName (s : List Char) : List Char :=
  (Text.trimBlanks (s.takeWhile (· != '='))).map Char.toLower

/-- The tags left open when one is closed: the innermost if it is not named, else the innermost of
that name. -/
def close (name : List Char) : List (List Char) → Option (List (List Char))
  | [] => none
  | t :: rest =>
    if name.isEmpty || t == name then some rest else (close name rest).map (t :: ·)

/-- What is left of pieces without their tags. -/
def strip : List (List Char) → List Piece → Except MarkupFault (List Char)
  | _, [] => .ok []
  | opened, .text s :: rest => (strip opened rest).map (s ++ ·)
  | opened, .tag ('/' :: t) :: rest =>
    match close (styleName t) opened with
    | some left => strip left rest
    | none => .error .closesNothing
  | opened, .tag t :: rest => strip (styleName t :: opened) rest

/-- The characters that are not shown. -/
def isControl (c : Char) : Bool :=
  [7, 8, 11, 12, 13].contains c.toNat

/-- The text that is shown of a marked-up one. -/
def plainText (s : String) : Except MarkupFault (List Char) :=
  (strip [] (pieces s.toList)).map fun t => t.filter fun c => !isControl c

/-! ## Tables -/

/-- A table of marked-up texts. -/
structure Table where
  title : Option String := none
  /-- The header; a table without one has no lines around it. -/
  header : Option (List String)
  columns : Nat
  rows : List (List String)

/-- How wide a terminal is. -/
def screenWidth : Nat := 80

/-! ## Widths -/

/-- The longest line of a cell with its padding. -/
def cellWidth (s : List Char) : Nat :=
  ((Text.lines s).map width).foldl max 0 + 2

/-- The columns of several widths together. -/
def total (widths : List Nat) : Nat :=
  widths.foldl (· + ·) 0

/-- The whole number nearest to a quotient, the even one of two. -/
def nearest (num den : Nat) : Nat :=
  let q := num / den
  let r := num % den
  if 2 * r < den then q else if 2 * r > den then q + 1 else if q % 2 = 0 then q else q + 1

/-- Takes `excess` columns off the widths marked, evenly, and no more than `most` off any. -/
def reduce : Nat → Nat → Nat → List (Nat × Bool) → List Nat
  | _, _, _, [] => []
  | excess, shares, most, (w, marked) :: rest =>
    if marked ∧ shares > 0 then
      let n := min most (nearest excess shares)
      (w - n) :: reduce (excess - n) (shares - 1) most rest
    else w :: reduce excess shares most rest

/-- Makes the widest columns as narrow as the next widest, until all fit; `fuel` bounds the
steps. -/
def collapse (limit : Nat) : Nat → List Nat → List Nat
  | 0, ws => ws
  | fuel + 1, ws =>
    let excess := total ws - limit
    if excess = 0 then ws
    else
      let widest := ws.foldl max 0
      let second := (ws.filter (· != widest)).foldl max 0
      if widest - second = 0 then ws
      else
        let marked := ws.map fun w => (w, w == widest)
        collapse limit fuel
          (reduce excess (ws.countP (· == widest)) (min excess (widest - second)) marked)

/-- The widths of the columns within a limit. -/
def columnWidths (limit : Nat) (natural : List Nat) : List Nat :=
  let natural := natural.map (min limit)
  if total natural ≤ limit then natural
  else
    let ws := collapse limit (total natural + 1) natural
    if total ws ≤ limit then ws
    else
      reduce (total ws - limit) ws.length (ws.foldl max 0) (ws.map fun w => (w, true))

/-! ## Drawing -/

/-- The lines of a cell, padded and as wide as its column. -/
def cellLines (column : Nat) (s : List Char) : List (List Char) :=
  let inner := column - 2
  (wrap inner .ellipsis s).map fun l => ' ' :: padRight inner (truncate inner .ellipsis l) ++ [' ']

/-- The lines of a row between three separators. -/
def rowLines (left middle right : List Char) (widths : List Nat) (cells : List (List Char)) :
    List (List Char) :=
  let drawn := (widths.zip cells).map fun (w, c) => (w, cellLines w c)
  let height := (drawn.map (·.2.length)).foldl max 1
  (List.range height).map fun i =>
    let parts := drawn.map fun (w, ls) => ls.getD i (List.replicate w ' ')
    left ++ Text.joinWith middle parts ++ right

/-- A line across a table. -/
def rule (left line middle right : Char) (widths : List Nat) : List Char :=
  left :: Text.joinWith [middle] (widths.map fun w => List.replicate w line) ++ [right]

/-- The lines of a table.  A table with a header has a frame.  Columns are as wide as their widest
cell, and are narrowed together if that is too wide for the screen. -/
def Table.lines (t : Table) : Except MarkupFault (List (List Char)) := do
  let header ← t.header.mapM fun cells => cells.mapM plainText
  let rows ← t.rows.mapM fun cells => cells.mapM plainText
  let title ← t.title.mapM plainText
  let all := header.toList ++ rows
  let natural := (List.range t.columns).map fun i =>
    (all.map fun cells => cellWidth (cells.getD i [])).foldl max 1
  let framed := header.isSome
  let extra := if framed then t.columns + 1 else 0
  let widths := columnWidths (screenWidth - extra) natural
  let outer := total widths + extra
  let top := title.elim [] fun s => (wrap outer .fold s).map (centred outer .fold)
  match header with
  | none => return top ++ rows.flatMap (rowLines [] [] [] widths)
  | some cells =>
    return top ++ [rule '┏' '━' '┳' '┓' widths] ++ rowLines ['┃'] ['┃'] ['┃'] widths cells
      ++ [rule '┡' '━' '╇' '┩' widths] ++ rows.flatMap (rowLines ['│'] ['│'] ['│'] widths)
      ++ [rule '└' '─' '┴' '┘' widths]

/-- The text of a table. -/
def Table.text (t : Table) : Except MarkupFault String := do
  return String.ofList ((← t.lines).flatMap fun l => l ++ ['\n'])

/-! ## Messages -/

/-- The text of a marked-up message on its own lines. -/
def messageText (s : String) : Except MarkupFault String := do
  let ls := wrap screenWidth .fold (← plainText s)
  return String.ofList ((ls.map (truncate screenWidth .fold)).flatMap fun l => l ++ ['\n'])

end PikeAnalysis.Terminal
