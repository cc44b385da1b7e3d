import PikeAnalysis.Symbol.Table

/-!
# Merging

The symbols that the parser found, completed by what introspection knows about them.  Positions come
from the parser; types and modifiers come from introspection where it has them.  Symbols that
introspection alone knows are added behind.

Only the roots are completed.  What is inside a class is looked up by nobody under its plain name,
and introspection does not say in which class a name was found; for the same reason an introspected
symbol is added only if no parsed one has its name, however deep.
-/

namespace PikeAnalysis.Symbol

/-- The first symbol of each name. -/
def firstByName (symbols : List Symbol) : List (String × Symbol) :=
  symbols.foldl (fun index s => Assoc.add s.name s index) []

/-- A parsed symbol with what introspection knows about it.  Directives stay as they are. -/
def complete (known : List (String × Symbol)) (s : Symbol) : Symbol :=
  match Assoc.get? s.name known with
  | none => s
  | some m =>
    if s.kind.isDirective then s
    else { s with
      type := m.type <|> s.type
      modifiers := if m.modifiers.isEmpty then s.modifiers else m.modifiers
      documentation := s.documentation.filter (!·.isEmpty) <|> m.documentation }

/-- The parsed symbols, completed, and behind them the introspected ones whose name no parsed symbol
has at any depth. -/
def merge (parsed introspected : List Symbol) : List Symbol :=
  let known := firstByName introspected
  let parsedNames := (flattenList "" parsed).map (·.name)
  parsed.map (complete known)
    ++ (known.filter fun e => !parsedNames.contains e.1).map (·.2)

end PikeAnalysis.Symbol
