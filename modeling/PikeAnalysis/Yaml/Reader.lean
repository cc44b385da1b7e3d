import PikeAnalysis.Json.Literal
import PikeAnalysis.Yaml.Scalar

/-!
# Reading YAML

The part of YAML in which configuration files are written: block and flow mappings and lists,
comments, plain and quoted scalars.  What cannot be read is none.  A key that is no text stands for
the text of its scalar.

Lines are taken first, each with its indentation, and blocks are put together from them; flow
collections are read by characters and have to end on the line on which they begin.  A tab in the
indentation makes a file unreadable.  Anchors, tags and block scalars are not part of it: a text
with any of them is one that cannot be read.
-/

namespace PikeAnalysis.Yaml

open Text

/-! ## Lines -/

/-- A line that is neither blank nor a comment: its indentation and its text. -/
structure Line where
  indent : Nat
  text : List Char
  deriving Repr

/-- A text without the comment at its end.  A number sign opens a comment behind a space, but not
within quotes; a quote counts only where a scalar can begin. -/
def dropComment (quote : Option Char) (before : Char) : List Char → List Char
  | [] => []
  | '\\' :: c :: rest =>
    if quote = some '"' then '\\' :: c :: dropComment quote c rest
    else '\\' :: dropComment quote '\\' (c :: rest)
  | c :: rest =>
    match quote with
    | some q => c :: dropComment (if c == q then none else quote) c rest
    | none =>
      if c == '#' && (before == ' ' || before == '\t') then []
      else
        let opens := (c == '\'' || c == '"') && [' ', '[', '{', ',', c].contains before
        c :: dropComment (if opens then some c else none) c rest

/-- A line of a file; none if it is indented by a tab, and nothing if there is nothing on it. -/
def readLine (s : List Char) : Option (Option Line) :=
  let spaces := s.takeWhile (· == ' ')
  let text := trimRight (fun c => c == ' ' || c == '\t')
    (dropComment none ' ' (s.drop spaces.length))
  match text with
  | [] => some none
  | '\t' :: _ => none
  | text => some (some ⟨spaces.length, text⟩)

/-- The lines of a file that say something. -/
def readLines (s : List Char) : Option (List Line) :=
  ((lines s).mapM readLine).map fun ls => ls.filterMap id

/-! ## Flow -/

def skipSpaces (s : List Char) : List Char :=
  s.dropWhile (· == ' ')

/-- The end of a plain scalar within a flow collection.  Inside of brackets and braces commas end a
scalar, which they do not outside. -/
def plainInFlow : List Char → List Char × List Char
  | [] => ([], [])
  | c :: rest =>
    let ends := [',', '[', ']', '{', '}', '?'].contains c
      || (c == ':' && rest.head?.all fun d => [' ', ',', '[', ']', '{', '}'].contains d)
    if ends then ([], c :: rest)
    else
      let (s, left) := plainInFlow rest
      (c :: s, left)

/-- The text of a key. -/
def keyText : Json → String
  | .str s => s
  | v => v.display

mutual

/-- A value within a flow collection, and what follows it; `fuel` bounds the nesting. -/
def flowValue : Nat → List Char → Option (Json × List Char)
  | 0, _ => none
  | fuel + 1, s =>
    match skipSpaces s with
    | '[' :: rest => flowItems fuel [] rest
    | '{' :: rest => flowFields fuel [] rest
    | rest =>
      match quoted? rest with
      | some (text, left) => some (.str (String.ofList text), left)
      | none =>
        let (plain, left) := plainInFlow rest
        if opensPlain plain then some (resolve (trimRight (· == ' ') plain), left) else none

/-- The items of a flow list, behind its bracket.  An item with a colon behind it is a mapping with
one field. -/
def flowItems : Nat → List Json → List Char → Option (Json × List Char)
  | 0, _, _ => none
  | fuel + 1, items, s =>
    match skipSpaces s with
    | ']' :: rest => some (.arr items.reverse, rest)
    | rest => do
      let (v, left) ← flowValue fuel rest
      let (v, left) ←
        match skipSpaces left with
        | ':' :: more => do
          let (w, left) ← flowEntry fuel more
          some (Json.obj [(keyText v, w)], left)
        | left => some (v, left)
      match skipSpaces left with
      | ',' :: more => flowItems fuel (v :: items) more
      | ']' :: more => some (.arr (v :: items).reverse, more)
      | _ => none

/-- The fields of a flow mapping, behind its brace.  A key without a colon has the value null. -/
def flowFields : Nat → List (String × Json) → List Char → Option (Json × List Char)
  | 0, _, _ => none
  | fuel + 1, fields, s =>
    match skipSpaces s with
    | '}' :: rest => some (.obj (Json.fieldsOfPairs fields.reverse), rest)
    | rest => do
      let (k, left) ← flowValue fuel rest
      let (v, left) ←
        match skipSpaces left with
        | ':' :: more => flowEntry fuel more
        | left => some (.null, left)
      let fields := (keyText k, v) :: fields
      match skipSpaces left with
      | ',' :: more => flowFields fuel fields more
      | '}' :: more => some (.obj (Json.fieldsOfPairs fields.reverse), more)
      | _ => none

/-- The value behind a colon, which may be missing. -/
def flowEntry : Nat → List Char → Option (Json × List Char)
  | 0, _ => none
  | fuel + 1, s =>
    match skipSpaces s with
    | ',' :: _ | ']' :: _ | '}' :: _ => some (.null, skipSpaces s)
    | rest => flowValue fuel rest

end

/-! ## Blocks -/

/-- Whether a line is an item of a list. -/
def isItem (s : List Char) : Bool :=
  match s with
  | ['-'] => true
  | '-' :: ' ' :: _ => true
  | _ => false

/-- The key and the value of a line behind a plain key. -/
def splitPlainKey : List Char → Option (List Char × List Char)
  | [] => none
  | [':'] => some ([], [])
  | ':' :: ' ' :: rest => some ([], skipSpaces rest)
  | c :: rest => (splitPlainKey rest).map fun (k, v) => (c :: k, v)

/-- The key of a line, and its value if it stands on the same line. -/
def splitKey (s : List Char) : Option (Json × List Char) :=
  match s with
  | '\'' :: _ | '"' :: _ => do
    let (key, rest) ← quoted? s
    match skipSpaces rest with
    | [':'] => some (.str (String.ofList key), [])
    | ':' :: ' ' :: v => some (.str (String.ofList key), skipSpaces v)
    | _ => none
  | _ => do
    let (key, v) ← splitPlainKey s
    let key := trimRight (· == ' ') key
    if opensPlain key then some (resolve key, v) else none

/-- Joins the lines that continue a value: those that are indented deeper than `parent`. -/
def joinDeeper (parent : Int) : List Char → List Line → List Char × List Line
  | s, [] => (s, [])
  | s, l :: rest =>
    if (l.indent : Int) > parent then joinDeeper parent (s ++ ' ' :: l.text) rest
    else (s, l :: rest)

/-- A value that starts on a line, with the lines that continue it. -/
def inlineValue (parent : Int) (s : List Char) (rest : List Line) : Option (Json × List Line) :=
  let (whole, left) := joinDeeper parent s rest
  match s with
  | '[' :: _ | '{' :: _ => do
    let (v, more) ← flowValue (whole.length + 1) whole
    if (skipSpaces more).isEmpty then some (v, left) else none
  | '\'' :: _ | '"' :: _ => do
    let (text, more) ← quoted? whole
    if (skipSpaces more).isEmpty then some (.str (String.ofList text), left) else none
  | _ =>
    if isItem s || !opensPlain s || (splitPlainKey whole).isSome then none
    else some (resolve whole, left)

mutual

/-- A block that begins with the first line; `fuel` bounds the number of lines. -/
def block : Nat → Int → List Line → Option (Json × List Line)
  | _, _, [] => some (.null, [])
  | 0, _, _ => none
  | fuel + 1, parent, l :: rest =>
    if isItem l.text then blockItems fuel l.indent [] (l :: rest)
    else if (splitKey l.text).isSome then blockFields fuel l.indent [] (l :: rest)
    else inlineValue parent l.text rest

/-- The items of a block list.  They stand at one indent; what is indented further belongs to the
item before. -/
def blockItems : Nat → Nat → List Json → List Line → Option (Json × List Line)
  | 0, _, _, _ => none
  | _, _, items, [] => some (.arr items.reverse, [])
  | fuel + 1, indent, items, l :: rest =>
    if l.indent > indent then none
    else if l.indent = indent && isItem l.text then
      let inner := skipSpaces l.text.tail
      let shift := l.text.length - inner.length
      let value :=
        if inner.isEmpty then
          match rest with
          | next :: _ => if next.indent > indent then block fuel indent rest else some (.null, rest)
          | [] => some (.null, [])
        else block fuel indent (⟨indent + shift, inner⟩ :: rest)
      match value with
      | some (v, left) => blockItems fuel indent (v :: items) left
      | none => none
    else some (.arr items.reverse, l :: rest)

/-- The fields of a block mapping.  A value on the lines that follow is indented further, but for a
list, which may stand at the indent of its key. -/
def blockFields : Nat → Nat → List (String × Json) → List Line → Option (Json × List Line)
  | 0, _, _, _ => none
  | _, _, fields, [] => some (.obj (Json.fieldsOfPairs fields.reverse), [])
  | fuel + 1, indent, fields, l :: rest =>
    if l.indent > indent then none
    else if l.indent < indent then
      some (.obj (Json.fieldsOfPairs fields.reverse), l :: rest)
    else
      match splitKey l.text with
      | none =>
        if isItem l.text then some (.obj (Json.fieldsOfPairs fields.reverse), l :: rest) else none
      | some (key, inline) =>
        let value :=
          if inline.isEmpty then
            match rest with
            | next :: _ =>
              if next.indent > indent then block fuel indent rest
              else if next.indent = indent && isItem next.text then blockItems fuel indent [] rest
              else some (.null, rest)
            | [] => some (.null, [])
          else inlineValue indent inline rest
        match value with
        | some (v, left) => blockFields fuel indent ((keyText key, v) :: fields) left
        | none => none

end

/-! ## Documents -/

/-- The lines of the only document of a file, without the marks around it. -/
def documentLines : List Line → List Line
  | ⟨0, ['-', '-', '-']⟩ :: rest => untilEnd rest
  | ls => untilEnd ls
where
  untilEnd : List Line → List Line
    | [] => []
    | l :: rest => if l.indent = 0 && l.text == ['.', '.', '.'] then [] else l :: untilEnd rest

/-- Whether a character may stand in a file: no control character other than a tab, a line end or
the next-line mark, and no noncharacter at the end of the first plane. -/
def isReadable (c : Char) : Bool :=
  let n := c.toNat
  c == '\t' || c == '\n' || c == '\r' || (32 ≤ n && n ≤ 126) || n == 133
    || (160 ≤ n && n ≤ 65533) || 65536 ≤ n

/-- The value of a file; null if it says nothing. -/
def read? (text : List Char) : Option Json := do
  let text := unifyLineEnds text
  if !text.all isReadable then none
  let ls := documentLines (← readLines text)
  let (v, left) ← block (2 * ls.length + text.length + 2) (-1) ls
  if left.isEmpty then some v else none

end PikeAnalysis.Yaml
