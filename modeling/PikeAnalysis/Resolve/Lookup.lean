import PikeAnalysis.Resolve.Source

/-!
# Looking names up

What a plain or qualified name means in a document.  A plain name is looked for in the sources in
turn.  A qualified one is first taken for a path of the standard library, then its object is looked
up and its member looked for there, and last in any class of the workspace of the object's name.

What the object of a qualified name is has to be found out before its member can be looked for, and
an object may be a module, a class, or a variable whose declared type names one of these.  `scopeOf`
takes a symbol to the members that can be reached through it, and `descend` goes on from there part
after part.  None of the four ways to read a qualified name is an error if it does not lead
anywhere: the next one is tried, and a name that no way leads to means nothing.
-/

namespace PikeAnalysis.Resolve

variable {m : Type → Type} [Monad m]

/-! ## Members -/

/-- The members that can be reached through a symbol: those of a module, of a class, or of the class
that its declared type names.  Any other symbol leads nowhere. -/
def scopeOf (src : Sources m) (c : Context) (r : ResolvedSymbol) : Query m (Option Scope) := do
  let s := r.symbol
  if s.kind = .module then
    return (← liftM (src.module s.knownAs : m _)).map moduleScope
  else if s.kind = .klass ∧ ¬ s.children.isEmpty then
    return some (classScope (classKey (r.origin.getD "None") s) s r.origin r.tier)
  else
    match ← orFault src s.typeName? with
    | some name => findScope src c name none
    | none => if s.kind = .klass then findScope src c s.name none else return none

/-- A member of a scope or of its ancestors.  Its own members come first, and the ancestors are only
looked for if it has none of that name. -/
def member (src : Sources m) (c : Context) (scope : Scope) (name : String) :
    Query m (Option ResolvedSymbol) := do
  match scopeFind name none [scope] with
  | some found => return some found
  | none => return scopeFind name none (← ancestors src c scope.directives scope.key)

/-- The scope that member after member leads to.  Where a part is not found there is no scope. -/
def descend (src : Sources m) (c : Context) : Option Scope → List String → Query m (Option Scope)
  | scope, [] => return scope
  | none, _ :: _ => return none
  | some scope, part :: rest => do
    match ← member src c scope part with
    | none => return none
    | some inner => descend src c (← scopeOf src c inner) rest

/-- The scope of the object of a qualified name.  The first part is looked up as a plain name would
be, and the others are members, one of the other. -/
def objectScope (src : Sources m) (c : Context) (head : String) (rest : List String) :
    Query m (Option Scope) := do
  match ← waterfall src c head Source.all with
  | none => return none
  | some found => descend src c (← scopeOf src c found) rest

/-! ## Qualified names -/

/-- A qualified name as a path of the standard library, to a member of a module or to a module. -/
def literalPath (src : Sources m) (objects : List String) (name : String) (last : Access) :
    Query m (Option ResolvedSymbol) := do
  let path := ".".intercalate objects
  let inside ←
    match ← liftM (src.module path : m _) with
    | none => pure none
    | some mod =>
      pure ((Assoc.get? name mod.symbols).map fun s =>
        ({ symbol := s, origin := some (mod.fileOr path), tier := .stdlib } : ResolvedSymbol))
  match inside with
  | some found => return some found
  | none =>
    if last = .dot then
      return (← liftM (src.module (path ++ "." ++ name) : m _)).map resolvedModule
    else return none

/-- A member of the first class of a name that has it, in any document.  It is a last resort:
the class is chosen by its name alone. -/
def workspaceMember (cls name : String) : List DocumentEntry → Option ResolvedSymbol
  | [] => none
  | e :: rest =>
    let found := (e.table.findClass? cls).bind fun k =>
      k.children.find? fun s => s.name == name && !s.kind.isDirective
    match found with
    | some s => some { symbol := s, origin := some e.uri, tier := .workspace }
    | none => workspaceMember cls name rest

/-- What a qualified name means.  The four ways are tried in this order, and the first that finds
something decides. -/
def qualified (src : Sources m) (c : Context) (name : String) :
    Query m (Option ResolvedSymbol) := do
  let (head, rest) := splitAccess name.toList
  let parts := (head :: rest.map (·.2)).map String.ofList
  let operators := rest.map (·.1)
  if parts.any (·.isEmpty) then return none
  let objects := parts.dropLast
  let wanted := parts.getLastD ""
  let literal ←
    if operators.dropLast.all (· == .dot) then
      literalPath src objects wanted (operators.getLastD .dot)
    else pure none
  match literal with
  | some found => return some found
  | none =>
    let inside ←
      match ← objectScope src c (objects.headD "") objects.tail with
      | some scope => member src c scope wanted
      | none => pure none
    match inside with
    | some found => return some found
    | none =>
      return workspaceMember (objects.getLastD "") wanted (← liftM (src.documents : m _))

/-! ## Queries -/

/-- What a plain name means; members of classes of the document come last.  The last place to look
is the table of the document, which knows names at every depth. -/
def plain (src : Sources m) (c : Context) (name : String) : Query m (Option ResolvedSymbol) := do
  match ← waterfall src c name Source.all with
  | some found => return some found
  | none =>
    match c.table.get? name with
    | some s =>
      return if s.kind.isDirective then none
        else some { symbol := s, origin := some c.uri, tier := .current }
    | none => return none

/-- What a name means in a document.  It is taken for a qualified name if there is an operator in
it. -/
def lookup (src : Sources m) (c : Context) (name : String) : m Lookup := do
  let query := if hasAccess name.toList then qualified src c name else plain src c name
  let (symbol, findings) ← query.run {}
  return { symbol, warnings := findings.warnings }

/-- Everything that can be named in a document.  Members of classes are not in it, nor is the
standard library. -/
def visible (src : Sources m) (c : Context) : m Resolution := do
  let (symbols, findings) ← (visibleFrom src c Source.all []).run {}
  return { symbols, warnings := findings.warnings }

end PikeAnalysis.Resolve
