import PikeAnalysis.Diagnostic.Basic
import PikeAnalysis.Positions.Index
import PikeAnalysis.Symbol.Table

/-!
# Document cache

The latest analyzed snapshot of each document.  Entries are replaced as a whole, and never by an
older version.

The guard against older versions is the cache's own.  A writer that lost a race cannot undo what a
later version stored, whatever order the writes come in, and a write of the same version goes
through.  Forgetting a document is not guarded: after that the next write is accepted whatever its
version.  So what the cache holds depends on the last deletion and on the greatest version since.
-/

namespace PikeAnalysis

/-- What is known about one version of a document. -/
structure DocumentEntry where
  uri : String
  version : Int
  table : SymbolTable
  diagnostics : List Diagnostic := []
  positions : PositionIndex := []
  text : String := ""

/-- The entries by address, in the order in which their documents came. -/
structure DocumentCache where
  entries : List (String × DocumentEntry) := []

namespace DocumentCache

def empty : DocumentCache := {}

def get? (c : DocumentCache) (uri : String) : Option DocumentEntry :=
  Assoc.get? uri c.entries

def has (c : DocumentCache) (uri : String) : Bool :=
  Assoc.has uri c.entries

/-- Whether a write of this version would replace a later one. -/
def isStale (c : DocumentCache) (entry : DocumentEntry) : Bool :=
  match c.get? entry.uri with
  | some current => decide (entry.version < current.version)
  | none => false

/-- Stores an entry unless it is stale; the flag tells whether it was stored. -/
def set (c : DocumentCache) (entry : DocumentEntry) : DocumentCache × Bool :=
  if c.isStale entry then (c, false)
  else ({ entries := Assoc.set entry.uri entry c.entries }, true)

/-- Drops the entry of a document; the flag tells whether there was one. -/
def delete (c : DocumentCache) (uri : String) : DocumentCache × Bool :=
  ({ entries := Assoc.erase uri c.entries }, c.has uri)

def uris (c : DocumentCache) : List String :=
  Assoc.keys c.entries

/-- All entries in order. -/
def all (c : DocumentCache) : List DocumentEntry :=
  c.entries.map (·.2)

def size (c : DocumentCache) : Nat :=
  c.entries.length

end DocumentCache

end PikeAnalysis
