import PikeAnalysis.Document.Cache
import PikeAnalysis.Include.Cache
import PikeAnalysis.Program.Database
import PikeAnalysis.Stdlib.Module
import PikeAnalysis.Symbol.TypeName

/-!
# What a name can mean

The result of resolving a name: a symbol with where it comes from and by which rule it was found,
and warnings about what could not be followed on the way.

A scope is named by its key: a walk over ancestors compares keys and not members, so two scopes with
one key are taken for the same class.  A class of a document has the address of the document in its
key, a document has its address, and a module its path.

Tiers are tried in a fixed order, and a result names the one that it was found by.  What could not
be followed becomes a warning with the chain of classes that led to it; a lookup collects warnings
and goes on.  Members of a scope are declarations only, one for each name, so the directives of
a class are never found as its members.
-/

namespace PikeAnalysis

/-- The rules by which a name is found, in the order in which they are tried; classes elsewhere in
the workspace come last. -/
inductive Tier where
  | current | included | imported | inherited | stdlib | workspace
  deriving DecidableEq, Repr, Inhabited

/-- The word for a rule. -/
def Tier.text : Tier → String
  | .current => "current"
  | .included => "include"
  | .imported => "import"
  | .inherited => "inherit"
  | .stdlib => "stdlib"
  | .workspace => "workspace"

/-- A symbol and where it comes from.  The origin is an address, a path or a name, depending on the
rule, and is missing where nothing is known of it. -/
structure ResolvedSymbol where
  symbol : Symbol
  origin : Option String
  tier : Tier

/-- Something that could not be followed, with the inherited classes that led to it.  They are given
along with a result and never instead of one. -/
structure ResolutionWarning where
  kind : String
  message : String
  chain : List String := []
  deriving DecidableEq, Repr

/-- What a name means.  Nothing is found if there is no symbol; warnings may be there in either
case. -/
structure Lookup where
  symbol : Option ResolvedSymbol
  warnings : List ResolutionWarning := []

/-- Everything that can be named.  Each name occurs once, with its first meaning in the order of the
sources. -/
structure Resolution where
  symbols : List (String × ResolvedSymbol)
  warnings : List ResolutionWarning := []

/-- The members of a class, module or document.  Scopes with the same key are the same. -/
structure Scope where
  key : String
  label : String
  members : List (String × Symbol)
  origin : Option String
  tier : Tier
  /-- The inherit directives of the scope. -/
  directives : List Symbol := []

namespace Symbol

/-- The first declaration of each name; directives declare nothing. -/
def declarations (symbols : List Symbol) : List (String × Symbol) :=
  symbols.foldl (fun index s => if s.kind.isDirective then index else Assoc.add s.name s index) []

/-- The dotted name of a symbol if it has one that is not empty, else its plain name. -/
def knownAs (s : Symbol) : String :=
  match s.qualifiedName with
  | some q => if q.isEmpty then s.name else q
  | none => s.name

end Symbol

end PikeAnalysis
