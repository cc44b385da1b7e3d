import PikeAnalysis.Clock
import PikeAnalysis.Symbol.Table

/-!
# Type database

The introspected views of the compiled documents by address, each with an estimate of the memory it
takes, within a budget of bytes.  When the budget is exceeded whole programs go: those of closed
documents before those of open ones, the oldest first, and never the one just stored.  A program
that exceeds the budget by itself is not stored.

Several things are kept beside the programs, among them the total of their sizes, the names that
each declares, and an index of the holders of each name.  Each operation maintains them itself
instead of computing them anew, and that they stay in step with the programs over every history is
what the theorems about the database say.  Versions are guarded as in the document cache, except
that the program of a document that was closed gives way to any version.
-/

namespace PikeAnalysis

/-! ## Sizes -/

/-- How many bytes a megabyte has. -/
def megabyte : Nat := 1024 * 1024

/-- Estimated bytes of a symbol of a program. -/
def programSymbolBytes : Nat := 1024

/-- Estimated bytes of an inherited program. -/
def programInheritBytes : Nat := 512

/-- Estimated bytes of an import. -/
def programImportBytes : Nat := 64

/-- The estimated size of a program. -/
def programSize (symbols inherits imports : Int) : Int :=
  symbols * programSymbolBytes + inherits * programInheritBytes + imports * programImportBytes

/-! ## Programs -/

/-- One compiled document.  Its size is an estimate which is made once and by which the budget is
kept. -/
structure ProgramInfo where
  uri : String
  version : Int
  symbols : List (String × Symbol)
  functions : List (String × Symbol) := []
  globals : List (String × Symbol) := []
  classes : List (String × Symbol) := []
  inherits : List String := []
  /-- The distinct imports. -/
  imports : List String := []
  compiledAt : Instant
  sizeBytes : Int

namespace ProgramInfo

/-- The program with its size estimated from its symbols, inherits and imports. -/
def withEstimatedSize (p : ProgramInfo) : ProgramInfo :=
  { p with sizeBytes := programSize p.symbols.length p.inherits.length p.imports.length }

/-- The names that a program declares. -/
def names (p : ProgramInfo) : List String :=
  Assoc.keys p.symbols

end ProgramInfo

/-! ## The database -/

/-- The programs and what is kept about them.  Maps that could be computed from the programs are
kept beside them; that they agree is the invariant `Aligned`. -/
structure TypeDatabase where
  budget : Int := 50 * megabyte
  /-- The stored programs in the order in which they were stored. -/
  programs : List (String × ProgramInfo) := []
  /-- When each program was stored, as a count of all stores. -/
  inserted : List (String × Nat) := []
  counter : Nat := 0
  opened : List String := []
  /-- Closed documents whose program is kept; its version guards no writes. -/
  closed : List String := []
  /-- The holders of each declared name. -/
  byName : List (String × List (String × Symbol)) := []
  /-- The names that each stored program declares. -/
  namesByUri : List (String × List String) := []
  totalBytes : Int := 0
  evictions : Nat := 0

namespace TypeDatabase

/-- A database without programs. -/
def empty (budget : Int) : TypeDatabase :=
  { budget }

/-! ## Reading -/

def get? (db : TypeDatabase) (uri : String) : Option ProgramInfo :=
  Assoc.get? uri db.programs

def contains (db : TypeDatabase) (uri : String) : Bool :=
  Assoc.has uri db.programs

def size (db : TypeDatabase) : Nat :=
  db.programs.length

/-- All programs in the order in which they were stored. -/
def all (db : TypeDatabase) : List ProgramInfo :=
  db.programs.map (·.2)

def isOpen (db : TypeDatabase) (uri : String) : Bool :=
  db.opened.contains uri

/-- Every program that declares a name, with its symbol of that name. -/
def find (db : TypeDatabase) (name : String) : List (String × Symbol) :=
  (Assoc.get? name db.byName).getD []

/-! ## The name index -/

/-- The index with one more holder of a name. -/
def addHolder (uri : String) (index : List (String × List (String × Symbol)))
    (entry : String × Symbol) : List (String × List (String × Symbol)) :=
  Assoc.set entry.1 (Assoc.set uri entry.2 ((Assoc.get? entry.1 index).getD [])) index

/-- The index without a holder of a name; a name without holders is dropped. -/
def dropHolder (uri : String) (index : List (String × List (String × Symbol)))
    (name : String) : List (String × List (String × Symbol)) :=
  match Assoc.get? name index with
  | none => index
  | some holders =>
    let left := Assoc.erase uri holders
    if left.isEmpty then Assoc.erase name index else Assoc.set name left index

/-! ## Removing -/

/-- The database without the program of a document.  All maps forget it at once.  Of a document
without a program nothing is changed. -/
def dropProgram (db : TypeDatabase) (uri : String) : TypeDatabase :=
  match db.get? uri with
  | none => db
  | some info =>
    { db with
      programs := Assoc.erase uri db.programs
      inserted := Assoc.erase uri db.inserted
      closed := db.closed.filter (· != uri)
      totalBytes := db.totalBytes - info.sizeBytes
      byName := ((Assoc.get? uri db.namesByUri).getD []).foldl (dropHolder uri) db.byName
      namesByUri := Assoc.erase uri db.namesByUri }

/-- Drops the program of a document; the flag tells whether there was one. -/
def remove (db : TypeDatabase) (uri : String) : TypeDatabase × Bool :=
  (db.dropProgram uri, db.contains uri)

/-! ## The budget -/

/-- Whether the first of two stored programs is evicted before the second. -/
def evictedBefore (db : TypeDatabase) (a b : String × ProgramInfo) : Bool :=
  let age (e : String × ProgramInfo) : Nat := (Assoc.get? e.1 db.inserted).getD 0
  let openA := db.isOpen a.1
  let openB := db.isOpen b.1
  if openA != openB then openB
  else if a.2.compiledAt ≠ b.2.compiledAt then a.2.compiledAt < b.2.compiledAt
  else age a ≤ age b

/-- The programs other than the protected one, in the order in which they are evicted. -/
def victims (db : TypeDatabase) (keep : String) : List String :=
  ((db.programs.filter (·.1 != keep)).mergeSort (evictedBefore db)).map (·.1)

/-- Evicts programs in turn until the budget is met. -/
def evict (db : TypeDatabase) : List String → TypeDatabase
  | [] => db
  | uri :: rest =>
    if db.totalBytes ≤ db.budget then db
    else evict { db.dropProgram uri with evictions := db.evictions + 1 } rest

/-- The database within its budget, with one program protected. -/
def enforceBudget (db : TypeDatabase) (keep : String) : TypeDatabase :=
  if db.totalBytes ≤ db.budget then db else db.evict (db.victims keep)

/-! ## Storing -/

/-- What becomes of a program that is to be stored. -/
inductive Stored where
  | stored | stale | tooLarge
  deriving DecidableEq, Repr

/-- Whether a write would replace a later version.  After a document was closed none does. -/
def isStale (db : TypeDatabase) (info : ProgramInfo) : Bool :=
  match db.get? info.uri with
  | some current => !db.closed.contains info.uri && decide (info.version < current.version)
  | none => false

/-- The database with a program added that is not there.  It is the newest one.  A document that was
closed is not among those any more, since its program is now a current one. -/
def insert (db : TypeDatabase) (info : ProgramInfo) : TypeDatabase :=
  { db with
    programs := Assoc.set info.uri info db.programs
    inserted := Assoc.set info.uri (db.counter + 1) db.inserted
    counter := db.counter + 1
    totalBytes := db.totalBytes + info.sizeBytes
    namesByUri := Assoc.set info.uri info.names db.namesByUri
    byName := info.symbols.foldl (addHolder info.uri) db.byName
    closed := db.closed.filter (· != info.uri) }

/-- Stores a program in place of the one of the same document, then enforces the budget. -/
def set (db : TypeDatabase) (info : ProgramInfo) : TypeDatabase × Stored :=
  if db.isStale info then (db, .stale)
  else if info.sizeBytes > db.budget then (db, .tooLarge)
  else (((db.dropProgram info.uri).insert info).enforceBudget info.uri, .stored)

/-! ## Opening and closing -/

def markOpen (db : TypeDatabase) (uri : String) : TypeDatabase :=
  { db with opened := if db.isOpen uri then db.opened else db.opened ++ [uri] }

/-- Marks a document open and drops the program kept from before it was closed; the flag tells
whether there was one. -/
def reopen (db : TypeDatabase) (uri : String) : TypeDatabase × Bool :=
  let db := db.markOpen uri
  if db.closed.contains uri then
    { db with closed := db.closed.filter (· != uri) }.remove uri
  else (db, false)

/-- Marks a document closed and keeps its program. -/
def markClosed (db : TypeDatabase) (uri : String) : TypeDatabase :=
  { db with
    opened := db.opened.filter (· != uri)
    closed :=
      if db.contains uri && !db.closed.contains uri then db.closed ++ [uri] else db.closed }

/-- The database without anything but its budget and its count of stores. -/
def clear (db : TypeDatabase) : TypeDatabase :=
  { budget := db.budget, counter := db.counter }

/-! ## Statistics -/

/-- The counts that a database reports. -/
structure Stats where
  programCount : Nat
  openCount : Nat
  symbolCount : Nat
  totalBytes : Int
  budgetBytes : Int
  evictions : Nat
  deriving DecidableEq, Repr

def stats (db : TypeDatabase) : Stats :=
  { programCount := db.programs.length
    openCount := db.opened.countP db.contains
    symbolCount := db.namesByUri.foldl (fun n e => n + e.2.length) 0
    totalBytes := db.totalBytes
    budgetBytes := db.budget
    evictions := db.evictions }

/-- How much of the budget is used, in percent. -/
def Stats.utilization (s : Stats) : Float :=
  if s.budgetBytes = 0 then 0 else 100.0 * Float.ofInt s.totalBytes / Float.ofInt s.budgetBytes

end TypeDatabase

end PikeAnalysis
