import PikeAnalysis.Bridge.LineReader
import PikeAnalysis.Engine.Run
import PikeAnalysis.Json.Basic
import PikeAnalysis.Json.Writer

/-!
# A scripted worker

A worker that answers by rules.  It does one thing at a time: it handles a request, prints a line,
or exits.  What it is still to do waits in one queue, and so do the signals that are sent to it.

A rule says which requests it is about and what happens then: lines on the error stream, lines on
the output stream, an answer, an exit, in this order.  The first rule that applies is used, and a
rule may be used up.  A request that is held is answered when it is released.  Termination and
killing are actions like the others, so a worker can still print what was due before a signal
reaches it.
-/

namespace PikeAnalysis.Simulation

/-! ## Rules -/

/-- How a rule answers a request. -/
inductive Reply where
  /-- With the parameters of the request. -/
  | echo
  | result (v : Json)
  | error (v : Json)

/-- How a process exits.  A quiet exit leaves its streams open. -/
structure Exit where
  code : Int
  quiet : Bool := false

/-- What the worker does about a request.  The first rule that fits a request decides about it. -/
structure Rule where
  /-- The method that the rule is about; a star stands for every method. -/
  method : String
  /-- Parameters that the request must have. -/
  given : List (String × Json) := []
  /-- How often the rule can still be used, if that is limited. -/
  uses : Option Nat := none
  /-- Whether the request is put aside until it is released. -/
  hold : Bool := false
  errors : List String := []
  output : List String := []
  reply : Option Reply := none
  exit : Option Exit := none

/-- Whether a rule is about a request. -/
def Rule.applies (r : Rule) (q : Bridge.Request) : Bool :=
  (r.method == "*" || r.method == q.method) && r.uses != some 0
    && r.given.all fun e => Json.same ((Json.lookup e.1 q.params).getD .null) e.2

/-! ## Actions -/

/-- Something that a worker does or that is done to it. -/
inductive Action where
  | handle (worker : Nat) (request : Bridge.Request)
  | printError (worker : Nat) (line : String)
  | printOutput (worker : Nat) (line : String)
  | exit (worker : Nat) (how : Exit)
  | terminate (worker : Nat)
  | kill (worker : Nat)

/-- The worker that an action is about. -/
def Action.worker : Action → Nat
  | .handle w _ | .printError w _ | .printOutput w _ | .exit w _ | .terminate w | .kill w => w

/-- The line of an answer. -/
def answerLine (id : Int) (field : String) (v : Json) : String :=
  (Json.obj [("id", .int id), (field, v)]).compact

/-- A line with the number of the request filled in. -/
def fillId (id : Int) (line : String) : String :=
  line.replace "$ID" (toString id)

/-- What a rule does about a request. -/
def Rule.actions (r : Rule) (w : Nat) (q : Bridge.Request) : List Action :=
  r.errors.map (.printError w)
    ++ r.output.map (fun line => .printOutput w (fillId q.id line))
    ++ (r.reply.map fun
      | .echo => Action.printOutput w (answerLine q.id "result" (.obj q.params))
      | .result v => .printOutput w (answerLine q.id "result" v)
      | .error v => .printOutput w (answerLine q.id "error" v)).toList
    ++ (r.exit.map (Action.exit w)).toList

/-- The answer to a request that no rule is about. -/
def unknownMethod (w : Nat) (q : Bridge.Request) : Action :=
  .printOutput w <| answerLine q.id "error" <|
    .obj [("message", .str ("Unknown method: " ++ q.method)), ("code", .int (-32601))]

/-! ## The worker -/

/-- A request that has been put aside. -/
structure Held where
  worker : Nat
  request : Bridge.Request
  rule : Rule

/-- The script and what is left to do. -/
structure Script where
  rules : List Rule := []
  /-- Whether workers ignore the signal to end. -/
  stubborn : Bool := false
  held : List Held := []
  queue : List Action := []
  /-- The workers that have exited, and whether quietly. -/
  exits : List (Nat × Bool) := []

namespace Script

/-- Uses the first rule that is about a request. -/
def useRule (q : Bridge.Request) : List Rule → Option (Rule × List Rule)
  | [] => none
  | r :: rest =>
    if r.applies q then some (r, { r with uses := r.uses.map (· - 1) } :: rest)
    else (useRule q rest).map fun (found, left) => (found, r :: left)

/-- Handles a request: puts it aside or lines up what is to be done about it. -/
def handle (s : Script) (w : Nat) (q : Bridge.Request) : Script :=
  match useRule q s.rules with
  | none => { s with queue := s.queue ++ [unknownMethod w q] }
  | some (r, rules) =>
    if r.hold then { s with rules, held := s.held ++ [⟨w, q, r⟩] }
    else { s with rules, queue := s.queue ++ r.actions w q }

/-- Releases the request at an index, or all; the number tells how many there were. -/
def release (s : Script) (index : Option Nat) : Script × Nat :=
  let released :=
    match index with
    | none => s.held
    | some i => (s.held[i]?).toList
  let left :=
    match index with
    | none => []
    | some i => s.held.eraseIdx i
  ({ s with
    held := left
    queue := s.queue ++ released.flatMap fun h => h.rule.actions h.worker h.request },
    released.length)

/-- Whether a worker has exited. -/
def hasExited (s : Script) (w : Nat) : Bool :=
  Assoc.has w s.exits

/-- Whether what is printed for a worker still arrives. -/
def isOpen (s : Script) (w : Nat) : Bool :=
  (Assoc.get? w s.exits).getD true

/-- Takes in what the engine orders. -/
def order (s : Script) : Engine.Order → Script
  | .launch _ => s
  | .deliver w q => { s with queue := s.queue ++ [.handle w q] }
  | .terminate w => { s with queue := s.queue ++ [.terminate w] }
  | .kill w => { s with queue := s.queue ++ [.kill w] }

/-- A worker exits. -/
def exit (s : Script) (e : Engine.State) (w : Nat) (how : Exit) : Script × Engine.State :=
  if s.hasExited w then (s, e)
  else ({ s with exits := Assoc.set w how.quiet s.exits }, e.workerExited w how.code how.quiet)

/-- The lines that a reader gets when something is printed. -/
def linesOf (text : String) : List String :=
  (Bridge.readLines Bridge.streamLimit (Text.utf8Encode text.toList ++ [10])).filterMap fun
    | .line l => some l
    | .tooLong => none

/-- Performs an action. -/
def perform (s : Script) (e : Engine.State) : Action → Script × Engine.State
  | .handle w q => if s.hasExited w then (s, e) else (s.handle w q, e)
  | .printError w line => (s, if s.isOpen w then e.feedErrors w (linesOf line) false else e)
  | .printOutput w line => (s, if s.isOpen w then e.feedOutput w (linesOf line) false else e)
  | .exit w how => s.exit e w how
  | .terminate w => if s.stubborn then (s, e) else s.exit e w { code := -15 }
  | .kill w => s.exit e w { code := -9 }

end Script

end PikeAnalysis.Simulation
