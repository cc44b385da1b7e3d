import PikeAnalysis.Document.Uri
import PikeAnalysis.Resolve.Model
import PikeAnalysis.Text.Character
import PikeAnalysis.Text.Lines

/-!
# Names and scopes

What a directive names, the parts of a qualified name with the operators between them, the class or
module that a name refers to, and the ancestors of a scope.  Modules and included files come from
outside, so finding them is written over any monad that can provide them.

A query carries what it has found out (`Findings`), so that the files a document includes and the
ancestors it has are worked out once, and a warning is given once.  It ends with the query: nothing
of it is kept for the next.

The walk over ancestors is bounded twice.  A scope is followed only the first time it is reached,
and only while levels are left, so it ends whatever directives lead to.  The limit of depth is a
limit on the chain by which a scope was reached first.
-/

namespace PikeAnalysis.Resolve

/-! ## Directives -/

/-- The class or module that a directive names: without blanks, quotes and leading dots or colons,
and without the extension of a file. -/
def cleanTarget (target : String) : String :=
  let s := Text.trimBlanks target.toList
  let s := Text.trim (· == '"') s
  let s := Text.trimBlanks (Text.trimLeft (fun c => c == ':' || c == '.') s)
  let ending := ".pike".toList
  String.ofList (if ending.isSuffixOf s then s.take (s.length - ending.length) else s)

/-! ## Qualified names -/

/-- The operators of a qualified name. -/
inductive Access where
  | arrow | scope | dot
  deriving DecidableEq, Repr

/-- The operator at the start of a text, and what follows it.  A single colon or dash is none. -/
def accessAt? : List Char → Option (Access × List Char)
  | '-' :: '>' :: rest => some (.arrow, rest)
  | ':' :: ':' :: rest => some (.scope, rest)
  | '.' :: rest => some (.dot, rest)
  | _ => none

/-- Whether a text holds an operator. -/
def hasAccess : List Char → Bool
  | [] => false
  | c :: rest => (accessAt? (c :: rest)).isSome || hasAccess rest

theorem accessAt?_length {s rest : List Char} {op : Access} (h : accessAt? s = some (op, rest)) :
    rest.length < s.length := by
  unfold accessAt? at h
  split at h
  · simp only [Option.some.injEq, Prod.mk.injEq] at h
    obtain ⟨_, rfl⟩ := h
    simp only [List.length_cons]
    omega
  · simp only [Option.some.injEq, Prod.mk.injEq] at h
    obtain ⟨_, rfl⟩ := h
    simp only [List.length_cons]
    omega
  · simp only [Option.some.injEq, Prod.mk.injEq] at h
    obtain ⟨_, rfl⟩ := h
    simp only [List.length_cons]
    omega
  · simp at h

theorem length_trimLeft (p : Char → Bool) (s : List Char) :
    (Text.trimLeft p s).length ≤ s.length :=
  (List.dropWhile_suffix p).length_le

/-- The first part of a name, and each operator with the part after it.  Blanks around an operator
belong to neither part; `piece` holds the characters of the part being read, the last one first. -/
def splitFrom (piece : List Char) (s : List Char) : List Char × List (Access × List Char) :=
  match s with
  | [] => (piece.reverse, [])
  | c :: rest =>
    match h : accessAt? (c :: rest) with
    | some (op, after) =>
      have : (Text.trimLeft Text.isBlank after).length < (c :: rest).length :=
        Nat.lt_of_le_of_lt (length_trimLeft _ _) (accessAt?_length h)
      let (next, more) := splitFrom [] (Text.trimLeft Text.isBlank after)
      ((piece.dropWhile Text.isBlank).reverse, (op, next) :: more)
    | none => splitFrom (c :: piece) rest
termination_by s.length
decreasing_by
  · exact this
  · exact Nat.lt_succ_self _

/-- The parts of a name and the operators between them.  A text without an operator is one part. -/
def splitAccess (name : List Char) : List Char × List (Access × List Char) :=
  splitFrom [] (Text.trimBlanks name)

/-! ## Outside -/

/-- What resolution needs from outside.  A fault is raised in the same monad, so that the engine can
turn it into an error of its own. -/
structure Sources (m : Type → Type) where
  /-- The documents in the cache at the moment. -/
  documents : m (List DocumentEntry)
  /-- The module of the standard library at a path. -/
  module : String → m (Option StdlibModule)
  /-- The file that an include directive of a document names. -/
  included : Symbol → String → m (Option IncludedFile)
  /-- Gives up because of a fault. -/
  fault : {α : Type} → Fault → m α
  maxDepth : Nat

/-- One document seen from inside.  It is fixed for the whole of a query; `entry` and `program` are
missing for a document that has not been validated. -/
structure Context where
  uri : String
  entry : Option DocumentEntry
  program : Option ProgramInfo

/-- The symbols of the document; none if it is not known. -/
def Context.table (c : Context) : SymbolTable :=
  c.entry.elim .empty (·.table)

/-- What has been found out about a document during one query.  The included files and the ancestors
are kept so that a query asks for each of them once at most. -/
structure Findings where
  warnings : List ResolutionWarning := []
  includes : Option (List IncludedFile) := none
  ancestors : Option (List Scope) := none

variable {m : Type → Type} [Monad m]

/-- A query in progress.  What was found out is handed on from one part of it to the next, also
where a part has found nothing. -/
abbrev Query (m : Type → Type) := StateT Findings m

/-- Adds a warning unless it has been given.  So a warning is given once in a query, however often
it is met. -/
def warn (w : ResolutionWarning) : Query m Unit :=
  modify fun f => if f.warnings.contains w then f else { f with warnings := f.warnings ++ [w] }

/-- The result of something that can be at fault.  It ends the whole query, unlike a name that is
not found. -/
def orFault {α : Type} (src : Sources m) (r : Except Fault α) : Query m α :=
  match r with
  | .ok a => pure a
  | .error e => liftM (src.fault e : m α)

/-! ## Scopes of classes, documents and modules -/

/-- The inherit directives among the members of a class.  They stay in their order, which is the
order in which ancestors are found. -/
def inheritsOf (members : List Symbol) : List Symbol :=
  members.filter (·.kind == .inherit)

/-- The key of a class.  It has the dotted name of the class if that is known, and else the plain
one, so it depends on how the symbol was come by. -/
def classKey (origin : String) (cls : Symbol) : String :=
  origin ++ "#" ++ cls.knownAs

/-- The scope of a class. -/
def classScope (key : String) (cls : Symbol) (origin : Option String) (tier : Tier) : Scope :=
  { key
    label := cls.name
    members := Symbol.declarations cls.children
    origin
    tier
    directives := inheritsOf cls.children }

/-- The scope of a whole document.  Its members are the roots of the document; what is inside its
classes is not among them. -/
def documentScope (e : DocumentEntry) (label : String) (tier : Tier) : Scope :=
  { key := e.uri
    label
    members := Symbol.declarations e.table.roots
    origin := some e.uri
    tier
    directives := e.table.inherits }

/-- The scope of a module.  The programs that the module inherits are given as directives, so that
they are walked like those of a class. -/
def moduleScope (mod : StdlibModule) : Scope :=
  { key := "stdlib:" ++ mod.path
    label := mod.path
    members := mod.symbols
    origin := some mod.origin
    tier := .stdlib
    directives := mod.inherits.map fun p =>
      { name := p, kind := .inherit, classname := some p } }

/-- The first document outside `uri` whose file name is `stem`.  An address that is at fault ends
the search if it comes before the document that would have been found. -/
def findByStem (uri stem : String) : List DocumentEntry → Except Fault (Option DocumentEntry)
  | [] => .ok none
  | e :: rest =>
    if e.uri = uri then findByStem uri stem rest
    else do
      if (← Uri.stem e.uri) = stem then return some e
      findByStem uri stem rest

/-- The documents outside `uri` whose file name is `stem`. -/
def allByStem (uri stem : String) : List DocumentEntry → Except Fault (List DocumentEntry)
  | [] => .ok []
  | e :: rest =>
    if e.uri = uri then allByStem uri stem rest
    else do
      let found := decide ((← Uri.stem e.uri) = stem)
      let more ← allByStem uri stem rest
      return if found then e :: more else more

/-- The first class of a name in the documents.  The documents are looked at in the order of the
list. -/
def findClass (target : String) : List DocumentEntry → Option (DocumentEntry × Symbol)
  | [] => none
  | e :: rest =>
    match e.table.findClass? target with
    | some cls => some (e, cls)
    | none => findClass target rest

/-- The class or module that a name refers to: a class of the document or of another one, another
document, a module of the standard library.  With a tier given the scope belongs to that one.  The
ways are tried in this order. -/
def findScope (src : Sources m) (c : Context) (name : String) (tier : Option Tier) :
    Query m (Option Scope) := do
  let target := cleanTarget name
  if target.isEmpty then return none
  let others := (← liftM (src.documents : m _)).filter (·.uri != c.uri)
  let entries := c.entry.toList ++ others
  match findClass target entries with
  | some (e, cls) =>
    let own : Tier := if e.uri = c.uri then .current else .workspace
    return some (classScope (classKey e.uri cls) cls (some e.uri) (tier.getD own))
  | none =>
    let stem := StdlibModule.lastName target
    match ← orFault src (findByStem c.uri stem entries) with
    | some e => return some (documentScope e stem (tier.getD .workspace))
    | none =>
      match ← liftM (src.module target : m _) with
      | some mod => return some { moduleScope mod with tier := tier.getD .stdlib }
      | none => return none

/-! ## Ancestors -/

/-- The ancestors found so far, and the keys of all scopes that have been reached. -/
structure Walk where
  visited : List String
  scopes : List Scope := []

/-- Follows inherit directives depth first.  `path` holds the keys and `chain` the names that led
here; `depth` is how many levels may still follow.  A scope on the path is a cycle and is not
followed; one reached before by another path is passed over.  A directive without a target is passed
over without a warning. -/
def walk (src : Sources m) (c : Context) (depth : Nat) (directives : List Symbol)
    (path chain : List String) (w : Walk) : Query m Walk :=
  match directives with
  | [] => pure w
  | d :: rest => do
    let target := cleanTarget d.directiveTarget
    if target.isEmpty then walk src c depth rest path chain w
    else
      match depth with
      | 0 => do
        warn {
          kind := "inherit_depth_exceeded"
          message := "Inheritance deeper than " ++ toString src.maxDepth ++ " levels"
          chain := chain ++ [target] }
        return w
      | left + 1 => do
        match ← findScope src c target (some .inherited) with
        | none =>
          warn {
            kind := "unresolved_inherit"
            message := "Cannot resolve inherited class " ++ target
            chain := chain ++ [target] }
          walk src c (left + 1) rest path chain w
        | some parent =>
          -- The path decides on cycles, and what was visited on whether there is anything new.
          if path.contains parent.key then
            warn {
              kind := "cyclic_inherit"
              message := "Cyclic inheritance through " ++ target
              chain := chain ++ [target] }
            walk src c (left + 1) rest path chain w
          else if w.visited.contains parent.key then walk src c (left + 1) rest path chain w
          else
            let below ← walk src c left parent.directives (path ++ [parent.key]) (chain ++ [target])
              { visited := w.visited ++ [parent.key], scopes := w.scopes ++ [parent] }
            walk src c (left + 1) rest path chain below
termination_by (depth, directives.length)

/-- The ancestors of a scope, the nearest first.  That is depth first, in the order of the
directives, each scope at the place where it was reached first. -/
def ancestors (src : Sources m) (c : Context) (directives : List Symbol) (root : String) :
    Query m (List Scope) := do
  return (← walk src c src.maxDepth directives [root] [] { visited := [root] }).scopes

end PikeAnalysis.Resolve
