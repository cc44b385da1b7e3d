/-!
# Completion contexts

What the cursor stands in: at the start of the document, in a name, behind an access to a member, or
behind an access to a scope.

A context can be found in two ways, from tokens and from text, and both make values of this one
type; that the two agree where both apply is a theorem about them.  Which kind of access an operator
makes is said once, here.
-/

namespace PikeAnalysis

/-- The kinds of contexts. -/
inductive ContextKind where
  | global | identifier | memberAccess | scopeAccess
  deriving DecidableEq, Repr

/-- The word for a kind of context. -/
def ContextKind.text : ContextKind → String
  | .global => "global"
  | .identifier => "identifier"
  | .memberAccess => "member_access"
  | .scopeAccess => "scope_access"

/-- The context of a cursor: the object whose member or scope is accessed, the part of the name in
front of the cursor, and the operator between them. -/
structure CompletionContext where
  kind : ContextKind
  object : List Char := []
  typed : List Char := []
  operator : List Char := []
  deriving DecidableEq, Repr

namespace CompletionContext

/-- The context in front of all code. -/
def atStart : CompletionContext := ⟨.global, [], [], []⟩

/-- The context in a name that nothing is accessed through. -/
def inName (typed : List Char) : CompletionContext := ⟨.identifier, [], typed, []⟩

/-- The kind of access that an operator makes. -/
def accessKind? (operator : List Char) : Option ContextKind :=
  if operator = ['-', '>'] ∨ operator = ['.'] then some .memberAccess
  else if operator = [':', ':'] then some .scopeAccess
  else none

end CompletionContext

end PikeAnalysis
