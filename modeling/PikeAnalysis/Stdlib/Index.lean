import PikeAnalysis.Stdlib.Module

/-!
# Index of the standard library

The modules that have been loaded, the least recently used first, within a number of modules and a
budget of bytes.  A module that could not be loaded is not asked for again until some time has
passed or the worker has been replaced.  Requests for a module that is being loaded share one load.

The index decides what a request leads to and keeps the books; it loads nothing itself.  A load is a
task of the engine, and the index only knows its number as long as it runs, so that further requests
can wait for the same one.  A module that is too large for the budget is given to those who asked
and is not stored.  Counts of hits, misses and evictions survive everything, including clearing.
-/

namespace PikeAnalysis

/-- A module that could not be loaded: until when, and under which worker, it is not tried again. -/
structure MissingModule where
  /-- Never if there is no such time. -/
  expiresAt : Option Instant
  generation : Nat
  deriving DecidableEq, Repr

/-- The modules of the standard library and what is known about those that are missing. -/
structure StdlibIndex where
  maxModules : Nat := 50
  budget : Int := 20 * 1024 * 1024
  negativeTtl : Duration := some 300000000
  /-- The loaded modules, the least recently used first. -/
  modules : List (String × StdlibModule) := []
  failures : List (String × MissingModule) := []
  /-- The task that loads each module that is being loaded. -/
  loading : List (String × Nat) := []
  memory : Int := 0
  hits : Nat := 0
  misses : Nat := 0
  negativeHits : Nat := 0
  evictions : Nat := 0

namespace StdlibIndex

/-! ## Asking -/

/-- What a request for a module leads to. -/
inductive Decision where
  | found (m : StdlibModule)
  | absent
  /-- The module is being loaded by a task. -/
  | join (task : Nat)
  /-- The module has to be loaded. -/
  | load

/-- Whether a failure still counts. -/
def MissingModule.counts (f : MissingModule) (now : Instant) (generation : Nat) : Bool :=
  (f.expiresAt.all fun t => t > now) && f.generation == generation

/-- Asks for the module at a clean path.  A module that is there becomes the last to be evicted.  A
failure that counts is told again, and one that does not is dropped before the module is asked for
anew. -/
def ask (x : StdlibIndex) (now : Instant) (generation : Nat) (path : String) :
    StdlibIndex × Decision :=
  match Assoc.get? path x.modules with
  | some m =>
    ({ x with modules := Assoc.erase path x.modules ++ [(path, m)], hits := x.hits + 1 }, .found m)
  | none =>
    let known := Assoc.get? path x.failures
    if known.any fun f => MissingModule.counts f now generation then
      ({ x with negativeHits := x.negativeHits + 1 }, .absent)
    else
      let x := { x with failures := Assoc.erase path x.failures }
      match Assoc.get? path x.loading with
      | some task => (x, .join task)
      | none => ({ x with misses := x.misses + 1 }, .load)

/-- Records the task that loads a module. -/
def noteLoading (x : StdlibIndex) (path : String) (task : Nat) : StdlibIndex :=
  { x with loading := Assoc.set path task x.loading }

/-- Forgets the task that loaded a module. -/
def endLoading (x : StdlibIndex) (path : String) : StdlibIndex :=
  { x with loading := Assoc.erase path x.loading }

/-! ## Storing -/

/-- Evicts the least recently used modules until the limits are kept, but not the module `keep`. -/
def evict (keep : String) : List (String × StdlibModule) → StdlibIndex → StdlibIndex
  | [], x => x
  | (path, m) :: rest, x =>
    if (x.modules.length ≤ x.maxModules ∧ x.memory ≤ x.budget) ∨ path = keep then x
    else evict keep rest { x with
      modules := Assoc.erase path x.modules
      memory := x.memory - m.sizeBytes
      evictions := x.evictions + 1 }

/-- Whether a module is over the budget by itself. -/
def isTooLarge (x : StdlibIndex) (m : StdlibModule) : Bool :=
  (m.sizeBytes : Int) > x.budget

/-- Stores a module as the most recently used one; one that is too large is not stored. -/
def store (x : StdlibIndex) (m : StdlibModule) : StdlibIndex :=
  if x.isTooLarge m then x
  else
    let freed : Int := (Assoc.get? m.path x.modules).elim 0 fun old => (old.sizeBytes : Int)
    let x := { x with
      modules := Assoc.erase m.path x.modules ++ [(m.path, m)]
      memory := x.memory - freed + m.sizeBytes }
    evict m.path x.modules x

/-- Remembers that a module could not be loaded. -/
def rememberFailure (x : StdlibIndex) (now : Instant) (generation : Nat) (path : String) :
    StdlibIndex :=
  { x with
    failures := Assoc.set path { expiresAt := now.after x.negativeTtl, generation } x.failures }

/-! ## The rest -/

def isCached (x : StdlibIndex) (path : String) : Bool :=
  Assoc.has path x.modules

/-- The index without modules and failures; what is counted stays. -/
def clear (x : StdlibIndex) : StdlibIndex :=
  { x with modules := [], failures := [], memory := 0 }

/-- How many symbols the loaded modules have. -/
def symbolCount (x : StdlibIndex) : Nat :=
  x.modules.foldl (fun n m => n + m.2.symbols.length) 0

end StdlibIndex

end PikeAnalysis
