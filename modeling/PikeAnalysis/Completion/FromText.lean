import PikeAnalysis.Completion.Context
import PikeAnalysis.Text.Character
import PikeAnalysis.Text.Lines
import PikeAnalysis.Text.Word

/-!
# Contexts from text

The context of a cursor, read off the line in front of it.  Used when there are no tokens; it sees
neither comments nor brackets.

The line is read from its end.  The run of word characters there is the name being typed; what is in
front of it decides the rest: `::` makes a scope access, whatever stands before it; an arrow or a
dot makes a member access if a path of names stands before it, with blanks allowed around the
operator; everything else is a name.  A position before all code is the start of the document, and
so is one on a line that does not exist.

A negative character counts from the end of the line.
-/

namespace PikeAnalysis.CompletionContext

/-- The text up to index `n`; a negative index counts from the end. -/
def upTo (n : Int) (s : List Char) : List Char :=
  if 0 ≤ n then s.take n.toNat else s.take (s.length - n.natAbs)

/-- The longest run of characters that satisfy `p` at the end of a text. -/
def trailing (p : Char → Bool) (s : List Char) : List Char :=
  (s.reverse.takeWhile p).reverse

/-- The text without its last `n` characters. -/
def dropEnd (n : Nat) (s : List Char) : List Char :=
  s.take (s.length - n)

/-- The text in front of an ending, if it has that ending. -/
def withoutSuffix? (ending s : List Char) : Option (List Char) :=
  if ending.reverse.isPrefixOf s.reverse then some (dropEnd ending.length s) else none

/-- The longest list of names joined by single dots at the end of a text. -/
def trailingPath (s : List Char) : List Char :=
  let pieces := Text.splitOn '.' (trailing (fun c => Text.isWord c || c == '.') s)
  Text.joinWith ['.'] (pieces.reverse.takeWhile (!·.isEmpty)).reverse

/-- An access to a scope: names and dots, `::`, and the name being typed. -/
def scopeAccess? (front : List Char) : Option CompletionContext :=
  let typed := trailing Text.isWord front
  (withoutSuffix? [':', ':'] (dropEnd typed.length front)).map fun rest =>
    ⟨.scopeAccess, trailing (fun c => Text.isWord c || c == '.') rest, typed, [':', ':']⟩

/-- An access to a member: a path, an operator with blanks around it, and the name being typed. -/
def memberAccess? (front : List Char) : Option CompletionContext :=
  let typed := trailing Text.isWord front
  let rest := Text.trimRight Text.isBlank (dropEnd typed.length front)
  let split :=
    match withoutSuffix? ['-', '>'] rest with
    | some r => some (['-', '>'], r)
    | none => (withoutSuffix? ['.'] rest).map (['.'], ·)
  split.bind fun (operator, r) =>
    let path := trailingPath (Text.trimRight Text.isBlank r)
    if path.isEmpty then none else some ⟨.memberAccess, path, typed, operator⟩

/-- The context of a cursor in a text.  This is the way that needs no worker: only the line of the
cursor up to the cursor is read, and what was there before matters only if that is blank. -/
def ofText (text : List Char) (line character : Int) : CompletionContext :=
  let lines := Text.lines text
  if line < 0 then atStart
  else
    match lines[line.toNat]? with
    | none => atStart
    | some current =>
      let front := upTo character current
      if (lines.take line.toNat).all Text.allBlank && Text.allBlank front then atStart
      else
        match scopeAccess? front with
        | some c => c
        | none =>
          match memberAccess? front with
          | some c => c
          | none => inName (trailing Text.isWord front)

end PikeAnalysis.CompletionContext
