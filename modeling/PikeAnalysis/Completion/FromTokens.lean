import PikeAnalysis.Completion.Context
import PikeAnalysis.Text.Character
import PikeAnalysis.Text.Word
import PikeAnalysis.Wire.Payload

/-!
# Contexts from tokens

The context of a cursor, read off the tokens in front of it.  The object of an access is rebuilt
backward from the operator: names joined by dots, each with the calls and indexings behind it.

Tokens are read from the cursor backwards.  Blanks and comments are set aside first, so that they
may stand anywhere; then the operator is found, either right in front of the cursor or in front of
the name being typed, and the object behind it is collected: a name, the bracketed groups that
belong to it, and whatever is joined to it by dots.  A group is skipped by counting brackets of its
own kind only.
-/

namespace PikeAnalysis.CompletionContext

/-- A token that counts, with its line and character from zero. -/
structure Lexeme where
  text : List Char
  line : Int
  character : Int
  deriving DecidableEq, Repr

/-- Blanks and comments. -/
def isTrivia (text : List Char) : Bool :=
  Text.allBlank text || ['/', '/'].isPrefixOf text || ['/', '*'].isPrefixOf text
    || ['#', '!'].isPrefixOf text

/-- The tokens that count: those with a known place that are neither blank nor comment. -/
def significant (tokens : List Wire.Token) : List Lexeme :=
  (tokens.filter fun t => !isTrivia t.text.toList && 0 ≤ t.character).map fun t =>
    ⟨t.text.toList, t.line - 1, t.character⟩

/-! ## The object of an access -/

/-- The bracket that a closing bracket closes. -/
def opener? (text : List Char) : Option (List Char) :=
  if text = [')'] then some ['('] else if text = [']'] then some ['['] else none

/-- Splits a reversed token list behind the bracket that balances `depth` closed ones, counting only
brackets of the one kind.  The first part holds the group, reversed. -/
def splitGroup (closer opener : List Char) : Nat → List Lexeme → Option (List Lexeme × List Lexeme)
  | _, [] => none
  | depth, t :: rest =>
    if t.text = closer then
      (splitGroup closer opener (depth + 1) rest).map fun (g, r) => (t :: g, r)
    else if t.text = opener then
      if depth ≤ 1 then some ([t], rest)
      else (splitGroup closer opener (depth - 1) rest).map fun (g, r) => (t :: g, r)
    else (splitGroup closer opener depth rest).map fun (g, r) => (t :: g, r)

theorem length_of_splitGroup {closer opener : List Char} :
    ∀ {depth : Nat} {tokens g r : List Lexeme},
      splitGroup closer opener depth tokens = some (g, r) → r.length < tokens.length
  | _, [], _, _, h => by simp [splitGroup] at h
  | depth, t :: rest, g, r, h => by
    simp only [splitGroup] at h
    split at h
    · obtain ⟨⟨g', r'⟩, h', he⟩ := Option.map_eq_some_iff.1 h
      simp only [Prod.mk.injEq] at he
      have := length_of_splitGroup h'
      simp only [List.length_cons, ← he.2]
      omega
    · split at h
      · split at h
        · simp only [Option.some.injEq, Prod.mk.injEq] at h
          simp [← h.2]
        · obtain ⟨⟨g', r'⟩, h', he⟩ := Option.map_eq_some_iff.1 h
          simp only [Prod.mk.injEq] at he
          have := length_of_splitGroup h'
          simp only [List.length_cons, ← he.2]
          omega
      · obtain ⟨⟨g', r'⟩, h', he⟩ := Option.map_eq_some_iff.1 h
        simp only [Prod.mk.injEq] at he
        have := length_of_splitGroup h'
        simp only [List.length_cons, ← he.2]
        omega

/-- The texts of tokens in a row, with a blank where two of them would run together. -/
def joinTexts (tokens : List Lexeme) : List Char :=
  tokens.foldl (fun out t =>
    if Text.isIdentifier t.text && out.getLast?.any Text.isWord then out ++ ' ' :: t.text
    else out ++ t.text) []

/-- The texts of the longest access path that ends in front of a reversed token list's start. -/
def pathTexts (rev : List Lexeme) : List Char :=
  match rev with
  | [] => []
  | t :: rest =>
    match opener? t.text with
    | some opener =>
      match h : splitGroup t.text opener 0 (t :: rest) with
      | some (group, more) =>
        have := length_of_splitGroup h
        pathTexts more ++ joinTexts group.reverse
      | none => []
    | none =>
      if Text.isIdentifier t.text then
        match rest with
        | d :: more => if d.text = ['.'] then pathTexts more ++ '.' :: t.text else t.text
        | [] => t.text
      else []
termination_by rev.length
decreasing_by
  · exact this
  · exact Nat.lt_succ_of_lt (Nat.lt_succ_self _)

/-- The object expression that ends with the last of some tokens. -/
def objectBefore (tokens : List Lexeme) : List Char :=
  (pathTexts tokens.reverse).dropWhile (· == '.')

/-! ## Classification -/

/-- The context behind tokens that all start before the cursor, the last of which may reach it. -/
def classifyBefore (before : List Lexeme) (line character : Int) : CompletionContext :=
  match before.getLast? with
  | none => atStart
  | some last =>
    let touches := Text.isIdentifier last.text && last.line == line
      && character ≤ last.character + last.text.length
    let typed := if touches then last.text.take (character - last.character).toNat else []
    let front := if touches then before.dropLast else before
    match front.getLast? with
    | none => inName typed
    | some op =>
      match accessKind? op.text with
      | none => inName typed
      | some kind => ⟨kind, objectBefore front.dropLast, typed, op.text⟩

/-- The context of a cursor among the tokens of the worker. -/
def ofTokens (tokens : List Wire.Token) (line character : Int) : CompletionContext :=
  classifyBefore ((significant tokens).filter fun t =>
    t.line < line || (t.line == line && t.character < character)) line character

end PikeAnalysis.CompletionContext
