import PikeAnalysis.Resolve.Scope

/-!
# The sources of names

The five places in which a plain name is looked for: the document itself, the files it includes, the
modules it imports, the classes it inherits, and the standard library.  Each can look up one name
and, but for the last, list everything it offers.

Looking a name up in a source and listing what it offers are two functions, written next to each
other for each source, and they need not agree: an included file is passed over if a directive of
the name comes first in it, although what it declares is listed.  `Source.find` and `Source.visible`
collect them, and `waterfall` and `visibleFrom` go through the sources in the same order.
-/

namespace PikeAnalysis.Resolve

/-- A place in which names are looked for. -/
inductive Source where
  | document | includes | imports | inherits | stdlib
  deriving DecidableEq, Repr

namespace Source

/-- All sources in the order in which they are tried.  The order is what decides between two
meanings of a name. -/
def all : List Source :=
  [.document, .includes, .imports, .inherits, .stdlib]

/-- The rule that a source stands for. -/
def tier : Source → Tier
  | .document => .current
  | .includes => .included
  | .imports => .imported
  | .inherits => .inherited
  | .stdlib => .stdlib

end Source

variable {m : Type → Type} [Monad m]

/-- Members with where they come from, behind those of the same name that are there already. -/
def addMembers (origin : Option String) (tier : Tier) (members : List (String × Symbol))
    (found : List (String × ResolvedSymbol)) : List (String × ResolvedSymbol) :=
  members.foldl (fun acc e => Assoc.add e.1 { symbol := e.2, origin, tier } acc) found

/-! ## The document -/

def documentFind (c : Context) (name : String) : Option ResolvedSymbol :=
  match Assoc.get? name (Symbol.declarations c.table.roots) with
  | some s => some { symbol := s, origin := some c.uri, tier := .current }
  | none =>
    (c.program.bind fun p => Assoc.get? name p.symbols).map fun s =>
      { symbol := s, origin := some c.uri, tier := .current }

def documentVisible (c : Context) : List (String × ResolvedSymbol) :=
  addMembers (some c.uri) .current (c.program.elim [] (·.symbols))
    (addMembers (some c.uri) .current (Symbol.declarations c.table.roots) [])

/-! ## Included files -/

/-- The files that include directives name.  One that cannot be resolved is warned of and passed
over. -/
def resolveIncludes (src : Sources m) (c : Context) : List Symbol → Query m (List IncludedFile)
  | [] => pure []
  | d :: rest => do
    match ← liftM (src.included d c.uri : m _) with
    | none =>
      warn { kind := "unresolved_include",
             message := "Cannot resolve include " ++ d.directiveTarget }
      resolveIncludes src c rest
    | some file => return file :: (← resolveIncludes src c rest)

/-- The files that the document includes, found out once.  The second time they are read from the
findings of the query. -/
def includedFiles (src : Sources m) (c : Context) : Query m (List IncludedFile) := do
  match (← get).includes with
  | some files => return files
  | none =>
    let files ← resolveIncludes src c c.table.includes
    modify fun f => { f with includes := some files }
    return files

/-- The symbol of a name in an included file, unless it is a directive. -/
def includeFind (name : String) : List IncludedFile → Option ResolvedSymbol
  | [] => none
  | file :: rest =>
    match file.table.get? name with
    | some s =>
      if s.kind.isDirective then includeFind name rest
      else some { symbol := s, origin := some file.resolvedPath, tier := .included }
    | none => includeFind name rest

def includeVisible (files : List IncludedFile) : List (String × ResolvedSymbol) :=
  files.foldl (fun acc file =>
    addMembers (some file.resolvedPath) .included (Symbol.declarations file.table.flat) acc) []

/-! ## Imported modules -/

/-- The members that import directives bring in, each group with where it comes from: a module of
the standard library, else every other document of that name. -/
def importScopes (src : Sources m) (c : Context) :
    List Symbol → Query m (List (String × List (String × Symbol)))
  | [] => pure []
  | d :: rest => do
    let target := cleanTarget d.directiveTarget
    if target.isEmpty then importScopes src c rest
    else
      match ← liftM (src.module target : m _) with
      | some mod => return (mod.origin, mod.symbols) :: (← importScopes src c rest)
      | none =>
        let entries ← liftM (src.documents : m _)
        let matching ← orFault src (allByStem c.uri (StdlibModule.lastName target) entries)
        if matching.isEmpty then
          warn { kind := "unresolved_import", message := "Cannot resolve import " ++ target }
        let here := matching.map fun e => (e.uri, Symbol.declarations e.table.roots)
        return here ++ (← importScopes src c rest)

def groupFind (name : String) (tier : Tier) :
    List (String × List (String × Symbol)) → Option ResolvedSymbol
  | [] => none
  | (origin, members) :: rest =>
    match Assoc.get? name members with
    | some s => some { symbol := s, origin := some origin, tier }
    | none => groupFind name tier rest

/-! ## Inherited classes -/

/-- The ancestors of the document, found out once.  They are those of the directives at the top of
the document, with the document itself as their root. -/
def documentAncestors (src : Sources m) (c : Context) : Query m (List Scope) := do
  match (← get).ancestors with
  | some scopes => return scopes
  | none =>
    let scopes ← ancestors src c c.table.inherits c.uri
    modify fun f => { f with ancestors := some scopes }
    return scopes

/-- The member of a name in the first scope that has one, found by the rule given or by that of the
scope. -/
def scopeFind (name : String) (tier : Option Tier) : List Scope → Option ResolvedSymbol
  | [] => none
  | scope :: rest =>
    match Assoc.get? name scope.members with
    | some s => some { symbol := s, origin := scope.origin, tier := tier.getD scope.tier }
    | none => scopeFind name tier rest

/-! ## The standard library -/

/-- A module, by the rule of the standard library. -/
def resolvedModule (mod : StdlibModule) : ResolvedSymbol :=
  { symbol := mod.asSymbol, origin := some mod.origin, tier := .stdlib }

/-- A member of a module by its dotted path, else a module.  A dotted name can be either, and the
member has precedence. -/
def stdlibFind (src : Sources m) (name : String) : Query m (Option ResolvedSymbol) := do
  let member ←
    match Text.cutLast '.' name.toList with
    | none => pure none
    | some (path, member) => do
      let path := String.ofList path
      match ← liftM (src.module path : m _) with
      | none => pure none
      | some mod =>
        pure ((Assoc.get? (String.ofList member) mod.symbols).map fun s =>
          ({ symbol := s, origin := some (mod.fileOr path), tier := .stdlib } : ResolvedSymbol))
  match member with
  | some found => return some found
  | none => return (← liftM (src.module name : m _)).map resolvedModule

/-! ## Looking up and listing -/

/-- Looks a name up in a source.  A source that knows nothing of the name may still have given
warnings. -/
def Source.find (src : Sources m) (c : Context) (name : String) :
    Source → Query m (Option ResolvedSymbol)
  | .document => return documentFind c name
  | .includes => return includeFind name (← includedFiles src c)
  | .imports => return groupFind name .imported (← importScopes src c c.table.imports)
  | .inherits => return scopeFind name (some .inherited) (← documentAncestors src c)
  | .stdlib => stdlibFind src name

/-- Lists what a source offers.  The standard library lists nothing, as it is not known what there
is in it. -/
def Source.visible (src : Sources m) (c : Context) :
    Source → Query m (List (String × ResolvedSymbol))
  | .document => return documentVisible c
  | .includes => return includeVisible (← includedFiles src c)
  | .imports => do
    let groups ← importScopes src c c.table.imports
    return groups.foldl (fun acc g => addMembers (some g.1) .imported g.2 acc) []
  | .inherits => do
    let scopes ← documentAncestors src c
    return scopes.foldl (fun acc s => addMembers s.origin .inherited s.members acc) []
  | .stdlib => return []

/-- The first source that knows a name says what it means.  Those after it are not asked. -/
def waterfall (src : Sources m) (c : Context) (name : String) :
    List Source → Query m (Option ResolvedSymbol)
  | [] => return none
  | s :: rest => do
    match ← s.find src c name with
    | some found => return some found
    | none => waterfall src c name rest

/-- Everything that the sources offer; the first that offers a name wins.  All sources are asked,
since each may offer further names. -/
def visibleFrom (src : Sources m) (c : Context) :
    List Source → List (String × ResolvedSymbol) → Query m (List (String × ResolvedSymbol))
  | [], found => return found
  | s :: rest, found => do
    let more ← s.visible src c
    visibleFrom src c rest (Assoc.addAll found more)

end PikeAnalysis.Resolve
