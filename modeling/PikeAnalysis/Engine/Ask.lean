import PikeAnalysis.Engine.Worker

/-!
# Asking the worker

Requests by method and parameters, and queries whose answers have a shape.  Equal requests that are
under way at the same time are one: who asks second waits for the answer to the first.

A request is done by a task of its own and not by the caller, so that the caller can be cancelled
without the request ending, and so that others can wait for it as well.  The task is kept under a
key for as long as it runs; a hook at its end takes the key off again.  Loads of modules are shared
in the same way, by path, in the index.

What goes wrong on the way is of two kinds.  A failure of the bridge says that the worker could not
be asked or did not answer as it should, and whoever asks a question about names takes it for having
found nothing (`orFailure`).  A fault says that data cannot be taken apart, and is passed on to the
caller (`orTrouble`).
-/

namespace PikeAnalysis.Engine

open PikeAnalysis.Concurrency

/-! ## Requests -/

/-- The task of a request that others can join: one that is under way, or a new one.  The hook that
takes the key off is added before anybody can wait for the task. -/
def joinRequest (method : String) (params : List (String × Json)) (s : State) : State × Nat :=
  let key := Bridge.requestKey method params
  match Assoc.get? key s.bridge.inflight with
  | some task => (s, task)
  | none =>
    let (loop, task) := s.loop.create (.request key method params)
    let loop := loop.follow (.ended task) (.hook (.forgetRequest key task))
    (tellBridge (.join key task) { s with loop }, task)

/-- Sends a request and waits for its result.  The task itself is not cancelled if the caller is. -/
def request (method : String) (params : List (String × Json)) : Act Json := do
  let task ← Routine.act (joinRequest method params)
  match ← (Routine.awaitTask task : Act Value) with
  | .json v => return v
  | _ => return .null

/-- What the task of a request does.  It is a thread of the bridge in a task of its own, so it goes
on for the others when one of its callers gives up. -/
def requestBody (method : String) (params : List (String × Json)) : Act Value := do
  return .json (← bridgeThread (.request method params))

/-! ## Queries -/

/-- Asks a question; an answer of the wrong shape is a failure.  Requests are shared before their
answers are read, so callers who expect different shapes may share one. -/
def ask (q : Bridge.Query) : Act Json := do
  let answer ← request q.method q.params
  match q.model.read answer with
  | .ok v => return v
  | .error issue => .fail (.bridge (.malformed q.method issue.message))

/-- Whether a routine fails because of the bridge, and else its result.  Troubles of other kinds, a
time limit above all, go through it untouched. -/
def orFailure {α : Type} (r : Act α) : Act (Except BridgeFailure α) :=
  r.onEnd fun
    | .value a => .done (.ok a)
    | .error (.bridge why) => .done (.error why)
    | .error e => .fail e
    | .cancelled => .cancelled

/-- Goes on with a result that may be at fault. -/
def orTrouble {α : Type} (r : Except Fault α) : Act α :=
  match r with
  | .ok a => .done a
  | .error f => .fail (.fault f)

/-! ## Modules of the standard library -/

/-- What the task that loads a module does.  That the worker could not be reached says nothing about
the module; anything else that goes wrong is remembered. -/
def loadBody (path : String) : Act Value := do
  match ← orFailure (ask (.resolveStdlib path)) with
  | .error why =>
    unless Validation.isUnreachable why do remember
    return .module none
  | .ok v =>
    let answer := Wire.StdlibAnswer.ofJson v
    if answer.found then
      let now ← (Routine.now : Act Instant)
      let mod := StdlibModule.ofAnswer path answer now
      Routine.modify fun (s : State) =>
        let s := if s.stdlib.isTooLarge mod
          then s.note [⟨.warning, "stdlib_module_too_large"⟩] else s
        { s with stdlib := s.stdlib.store mod }
      return .module (some mod)
    else
      remember
      return .module none
where
  /-- Remembers that the module could not be loaded. -/
  remember : Act Unit :=
    Routine.modify fun (s : State) =>
      { s with stdlib := s.stdlib.rememberFailure s.now s.bridge.generation path }

/-- Asks the index for a module, and starts to load it if that is needed: the module or the task to
wait for.  A new load is noted in the same step, so no second one can be begun for the path. -/
def findModule (path : String) (s : State) : State × Except Nat (Option StdlibModule) :=
  let (stdlib, decision) := s.stdlib.ask s.now s.bridge.generation path
  let s := { s with stdlib }
  match decision with
  | .found mod => (s, .ok (some mod))
  | .absent => (s, .ok none)
  | .join task => (s, .error task)
  | .load =>
    let (loop, task) := s.loop.create (.load path)
    let loop := loop.follow (.ended task) (.hook (.endLoading path))
    ({ s with loop, stdlib := s.stdlib.noteLoading path task }, .error task)

/-- The module at a path, loaded if need be.  A path that is empty once it has been cleaned names no
module, and nobody is asked.  The load is a task that others may wait for as well, and a caller that
gives up leaves it running. -/
def getModule (path : String) : Act (Option StdlibModule) := do
  let path := StdlibModule.cleanPath path
  if path.isEmpty then return none
  match ← Routine.act (findModule path) with
  | .ok found => return found
  | .error task =>
    match ← (Routine.awaitTask task : Act Value) with
    | .module found => return found
    | _ => return none

/-- Loads the modules that are worth having, and counts those that are there.  They are loaded one
after the other, and one that cannot be loaded is passed over. -/
def preload : Act Nat :=
  commonModules.foldlM (fun n path => do
    return if (← getModule path).isSome then n + 1 else n) 0

/-! ## Included files -/

/-- The symbols of a file, by its parse; none if it cannot be read or parsed.  Its text is read here
and sent along, with its path, so the worker parses what the engine has seen. -/
def parseFile (path : String) : Act (Option SymbolTable) := do
  if path.toList.contains '\x00' then .fail .badPath
  match ← Routine.read fun (s : State) => s.host.readText? path with
  | none => return none
  | some text =>
    match ← orFailure (ask (.analyze text ["parse"] (some path) none)) with
    | .error _ => return none
    | .ok v =>
      return some <| (Wire.Analysis.ofJson v).parse.elim .empty fun p =>
        SymbolTable.ofRoots (p.symbols.filterMap Symbol.ofWire?)

/-- The file that an include directive of a document names, with its symbols.  The path that the
worker names is looked up in the cache, and the file is parsed only if it is not there or out of
date. -/
def resolveInclude (directive : Symbol) (uri : String) : Act (Option IncludedFile) := do
  let target := IncludeCache.targetPath directive.directiveTarget
  if target.isEmpty then return none
  let file ← orTrouble (Uri.toPath uri)
  match ← orFailure (ask (.resolveInclude target file)) with
  | .error _ => return none
  | .ok v =>
    let answer := Wire.IncludeAnswer.ofJson v
    if !answer.found || answer.path.isEmpty then return none
    let now ← (Routine.now : Act Instant)
    match ← Routine.read fun (s : State) => s.includes.fresh? now answer.path with
    | some cached => return some cached
    | none =>
      match ← parseFile answer.path with
      | none => return none
      | some table =>
        let found : IncludedFile := {
          originalPath := if answer.originalPath.isEmpty then target else answer.originalPath
          resolvedPath := answer.path
          table
          loadedAt := now }
        Routine.modify fun (s : State) => { s with includes := s.includes.store found }
        return some found

/-! ## Positions -/

/-- Whether an index came of the tokens, from which nothing is concluded if it is empty. -/
def fromTokens? (text : String) (names : List String) (tokens : Option (List Wire.Token)) :
    Except Unit (Option PositionIndex) :=
  match tokens with
  | none => .ok none
  | some ts =>
    match PositionIndex.ofTokens? text.toList names ts with
    | none => .error ()
    | some index => .ok (if index.isEmpty then none else some index)

/-- The index of names in a text: by the tokens if they yield anything, else by the worker if it
finds every name, else by a scan. -/
def buildPositions (text : String) (names : List String) (tokens : Option (List Wire.Token))
    (withBridge : Bool) : Act PositionIndex := do
  if names.isEmpty then return []
  match fromTokens? text names tokens with
  | .error _ => .fail .beyondLine
  | .ok (some index) => return index
  | .ok none =>
    let scan := PositionIndex.ofText text.toList names
    if withBridge && (← Routine.read fun (s : State) => s.bridge.isRunning) then
      match ← orFailure (ask (.findOccurrences text)) with
      | .error _ => return scan
      | .ok v =>
        let index := PositionIndex.ofOccurrences names
          ((v.itemsAt "occurrences").map Wire.Occurrence.ofJson)
        return if index.length = names.length then index else scan
    else return scan

end PikeAnalysis.Engine
