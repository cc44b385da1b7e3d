import PikeAnalysis.Completion.FromTokens
import PikeAnalysis.Engine.Ask

/-!
# Queries to the engine

What names mean, and what is to be completed.

The resolver is written for any kind of computation that can look up modules, files and symbols;
here it is given the engine's own routines, and the depth to which inheritance is followed.  A
lookup of a name that takes longer than requests may take ends with what an unknown name would
yield, and an operator is told.
-/

namespace PikeAnalysis.Engine

open PikeAnalysis.Concurrency

/-! ## Names -/

/-- Where the resolver takes what it needs from.  Documents are read from the cache whenever the
resolver asks for them, so a query that waits meanwhile may see more of them later. -/
def resolverSources (maxDepth : Nat) : Resolve.Sources Act :=
  { documents := Routine.read fun (s : State) => s.stores.documents.all
    module := getModule
    included := resolveInclude
    fault := fun f => .fail (.fault f)
    maxDepth }

/-- One document as the stores know it now.  Unlike the other documents it is read once, at the
beginning of a query. -/
def contextOf (uri : String) (s : State) : Resolve.Context :=
  { uri, entry := s.stores.documents.get? uri, program := s.stores.programs.get? uri }

/-- Asks the resolver about a document. -/
def resolving {α : Type} (uri : String) (f : Resolve.Sources Act → Resolve.Context → Act α) :
    Act α := do
  let (c, depth) ← Routine.read fun (s : State) => (contextOf uri s, s.settings.maxInheritDepth)
  f (resolverSources depth) c

/-- What a name means in a document, within the time limit of requests.  If it takes too long the
name means nothing, which is not an error. -/
def resolve (name uri : String) : Act Lookup := do
  let limit ← Routine.read fun (s : State) => s.settings.requestLimit
  let found : Act Lookup := resolving uri fun src c => Resolve.lookup src c name
  (found.within limit .timedOut).catching fun
    | .timedOut => some do
      tell ⟨.warning, "resolve_timeout"⟩
      return { symbol := none }
    | _ => none

/-- Everything that can be named in a document.  There is no limit on this one. -/
def visible (uri : String) : Act Resolution :=
  resolving uri Resolve.visible

/-- What one source knows of a name, and then everything that it offers.  What was found out for the
first question is used again for the second. -/
def askSource (source : Resolve.Source) (name uri : String) : Act Value :=
  resolving uri fun src c => do
    let (found, findings) ← (source.find src c name).run {}
    let (offered, findings) ← (source.visible src c).run findings
    return .source found { symbols := offered, warnings := findings.warnings }

/-! ## Completion -/

/-- What is to be completed, by the worker's tokens if they can be had.  Without them the text alone
decides. -/
def classify (text : String) (line character : Int) : Act CompletionContext := do
  let scan := CompletionContext.ofText text.toList line character
  if !(← Routine.read fun (s : State) => s.bridge.isAvailable) then return scan
  match ← orFailure (ask (.tokenize text)) with
  | .error _ => return scan
  | .ok v =>
    let tokens := (v.itemsAt "tokens").map Wire.Token.ofJson
    return if tokens.all fun t => 0 ≤ t.character then
      CompletionContext.ofTokens tokens line character
    else scan

/-- What is to be completed, within the time limit of requests.  The text alone decides if the
worker takes too long. -/
def completionContext (text : String) (line character : Int) : Act CompletionContext := do
  let limit ← Routine.read fun (s : State) => s.settings.requestLimit
  ((classify text line character).within limit .timedOut).catching fun
    | .timedOut => some do
      tell ⟨.warning, "completion_context_timeout"⟩
      return CompletionContext.ofText text.toList line character
    | _ => none

/-- The module at a path, within the time limit of requests.  A load that takes longer goes on
without its caller, and the module is there the next time. -/
def moduleInTime (path : String) : Act (Option StdlibModule) := do
  let limit ← Routine.read fun (s : State) => s.settings.requestLimit
  ((getModule path).within limit .timedOut).catching fun
    | .timedOut => some do
      tell ⟨.warning, "stdlib_module_timeout"⟩
      return none
    | _ => none

end PikeAnalysis.Engine
