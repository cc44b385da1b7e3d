import PikeAnalysis.Diagnostic.Collect
import PikeAnalysis.Log
import PikeAnalysis.Stdlib.Module
import PikeAnalysis.Symbol.Merge
import PikeAnalysis.Wire.Payload
import PikeAnalysis.Document.Cache
import PikeAnalysis.Program.Database

/-!
# One validation

A validation analyzes one version of a document, drafts what is known about it, and commits the
draft to the stores in one step, unless the document was closed meanwhile or a later version is
there.  Between these steps other things may happen; within them nothing does.  The stores are the
document cache and the type database, with the marks by which a validation finds out that its
document was closed meanwhile.

A validation is made of functions on the stores, one for each stretch in which nothing else can
happen: beginning it, giving up, drafting, committing and counting.  The engine puts its waits in
between.  The closings of a document are counted, and a target remembers the count it began with, so
whether a document was closed meanwhile is a comparison of two numbers at the moment of the
commitment.
-/

namespace PikeAnalysis

/-! ## Stores -/

/-- The stores that validations share.  Validations of different documents share them and
interleave, so each change of them is made in one turn. -/
structure Stores where
  documents : DocumentCache := {}
  programs : TypeDatabase := {}
  /-- How often each document was closed. -/
  closings : List (String × Nat) := []
  /-- Whether the worker could not be reached last. -/
  unavailable : Bool := false
  /-- How many validations were completed. -/
  completed : Nat := 0

namespace Stores

/-- How often a document was closed. -/
def closingsOf (s : Stores) (uri : String) : Nat :=
  (Assoc.get? uri s.closings).getD 0

/-- Marks a document as closed for the validations in flight. -/
def forget (s : Stores) (uri : String) : Stores :=
  { s with closings := Assoc.set uri (s.closingsOf uri + 1) s.closings }

/-- What follows the opening of a document: a program from before it was closed is dropped. -/
def opened (s : Stores) (uri : String) : Stores :=
  { s with programs := (s.programs.reopen uri).1 }

/-- What follows the closing of a document: its validations in flight are void, its entry is
dropped, and its program is kept as that of a closed document. -/
def closed (s : Stores) (uri : String) : Stores :=
  let s := s.forget uri
  { s with
    documents := (s.documents.delete uri).1
    programs := s.programs.markClosed uri }

end Stores

/-! ## Targets -/

/-- The sections that are asked for. -/
def analyzeSections : List String :=
  ["parse", "introspect", "diagnostics", "tokenize"]

namespace Validation

/-- What a validation is of. -/
structure Target where
  uri : String
  version : Int
  text : String
  /-- How often the document had been closed when the validation began. -/
  closings : Nat

/-- Begins a validation. -/
def start (s : Stores) (uri : String) (version : Int) (text : String) : Target :=
  { uri, version, text, closings := s.closingsOf uri }

/-! ## Analysis -/

/-- Why there is no analysis. -/
inductive Miss where
  | failed (why : BridgeFailure)
  | timedOut
  deriving DecidableEq

/-- Whether a failure means that no worker could be reached. -/
def isUnreachable : BridgeFailure → Bool
  | .spawn _ | .exited .. | .fatalOutput _ | .stopped _ => true
  | _ => false

/-- A validation without an analysis.  That the worker cannot be reached is told once. -/
def missed (s : Stores) : Miss → Stores × List LogEntry
  | .timedOut => (s, [⟨.warning, "validation_timeout"⟩])
  | .failed why =>
    if isUnreachable why then
      if s.unavailable then (s, [])
      else ({ s with unavailable := true }, [⟨.warning, "validation_unavailable"⟩])
    else (s, [⟨.warning, "validation_failed"⟩])

/-! ## Drafts -/

/-- What a validation is going to store. -/
structure Draft where
  target : Target
  diagnostics : List Diagnostic
  table : SymbolTable
  /-- The tokens that came with the analysis. -/
  tokens : Option (List Wire.Token)
  /-- The introspected program, if there is one. -/
  program : Option Wire.Introspection

/-- The symbols of an analysis.  While a document does not analyze at all its symbols stay. -/
def tableOf (a : Wire.Analysis) (previous : Option DocumentEntry) : SymbolTable :=
  match a.parse, a.introspect, previous with
  | none, none, some entry => entry.table
  | parse, introspect, _ =>
    let parsed := parse.elim [] fun p => p.symbols.filterMap Symbol.ofWire?
    let introspected := introspect.elim [] fun i => (StdlibModule.symbolMap i.symbols).map (·.2)
    SymbolTable.ofRoots (Symbol.merge parsed introspected)

/-- The tokens of an analysis, from its own section or from the parser. -/
def tokensOf (a : Wire.Analysis) : Option (List Wire.Token) :=
  match a.tokenize with
  | some ts => some ts
  | none => a.parse.bind (·.tokens)

/-- The introspection of an analysis, if it succeeded and found anything. -/
def programOf (a : Wire.Analysis) : Option Wire.Introspection :=
  a.introspect.filter fun i => i.success && !i.symbols.isEmpty

/-- Drafts what is known after an analysis. -/
def draft (s : Stores) (limit : Int) (t : Target) (a : Wire.Analysis) : Stores × Draft :=
  ({ s with unavailable := false },
    { target := t
      diagnostics := Diagnostic.collect a t.text.toList t.uri limit
      table := tableOf a (s.documents.get? t.uri)
      tokens := tokensOf a
      program := programOf a })

/-! ## Commitment -/

/-- The document entry of a draft. -/
def Draft.entry (d : Draft) (positions : PositionIndex) : DocumentEntry :=
  { uri := d.target.uri
    version := d.target.version
    table := d.table
    diagnostics := d.diagnostics
    positions
    text := d.target.text }

/-- The distinct texts of a list. -/
def distinct (xs : List String) : List String :=
  xs.foldl (fun seen x => if seen.contains x then seen else seen ++ [x]) []

/-- The compiled program of a draft.  Of symbols with the same name the maps hold the first. -/
def Draft.programInfo (d : Draft) (i : Wire.Introspection) (now : Instant) : ProgramInfo :=
  ProgramInfo.withEstimatedSize
    { uri := d.target.uri
      version := d.target.version
      symbols := StdlibModule.symbolMap i.symbols
      functions := StdlibModule.symbolMap i.functions
      globals := StdlibModule.symbolMap i.globals
      classes := StdlibModule.symbolMap i.classes
      inherits := i.inherits
      imports := distinct (d.table.imports.map (·.directiveTarget))
      compiledAt := now
      sizeBytes := 0 }

/-- Stores the program of a draft, if it has one. -/
def storeProgram (s : Stores) (d : Draft) (now : Instant) : Stores × List LogEntry :=
  match d.program with
  | none => (s, [])
  | some i =>
    let (programs, outcome) := s.programs.set (d.programInfo i now)
    ({ s with programs },
      if outcome = .tooLarge then [⟨.warning, "type_db_entry_too_large"⟩] else [])

/-- What becomes of a draft. -/
inductive Commitment where
  /-- The document was closed, or a later version is there; nothing has changed. -/
  | discarded
  /-- The draft is stored. -/
  | stored (s : Stores) (log : List LogEntry)

/-- Commits a draft. -/
def commit (s : Stores) (d : Draft) (positions : PositionIndex) (now : Instant) : Commitment :=
  if s.closingsOf d.target.uri ≠ d.target.closings then .discarded
  else
    match s.documents.set (d.entry positions) with
    | (_, false) => .discarded
    | (documents, true) =>
      let (s, log) := storeProgram { s with documents } d now
      .stored s log

/-- Counts a completed validation. -/
def complete (s : Stores) : Stores :=
  { s with completed := s.completed + 1 }

end Validation

end PikeAnalysis
