import PikeAnalysis.Document.Uri
import PikeAnalysis.Simulation.Worker

/-!
# Scenes

The outside of a simulated session as a JSON value describes it: the files, how starts of the worker
turn out, and the rules by which it answers.  What is not described is as it usually is: there is
one executable, and every start succeeds.

The description is read field by field, and a field of the wrong kind is taken as missing.  Contents
of files and streams are texts, or bytes in hexadecimal where they are no text.  Starts of the
worker are taken from a list, one for each start; when the list is used up, every further start
succeeds.
-/

namespace PikeAnalysis.Simulation

/-! ## Files -/

/-- The bytes of pairs of hexadecimal digits. -/
def hexBytes : List Char → List UInt8
  | a :: b :: rest => (Uri.hexByte? a b).getD 0 :: hexBytes rest
  | _ => []

/-- The bytes that a text stands for, or an object with hexadecimal digits. -/
def bytesOf : Json → List UInt8
  | .str s => Text.utf8Encode s.toList
  | v => hexBytes (v.textAt "hex").toList

/-- The texts in a list. -/
def textsOf (items : List Json) : List String :=
  items.filterMap fun
    | .str s => some s
    | _ => none

/-- The executables and the other files below a directory. -/
def surroundingsOf (directory : Path) (v : Json) : Bridge.Surroundings :=
  let executables := (v.itemsAt? "executables").elim ["pike"] textsOf
  let tree := executables.foldl (fun (t : FileTree) n => t.put ("bin/" ++ n) ⟨[], true⟩)
    { cwd := directory }
  { tree := ((v.fieldsAt? "files").getD []).foldl (fun t f => t.put f.1 ⟨bytesOf f.2, false⟩) tree
    home := directory.text }

/-! ## The host -/

/-- How the start of a process turns out. -/
def LaunchPlan.ofText : String → LaunchPlan
  | "ok" => .succeed
  | "not_found" => .notFound
  | reason => .refuse reason

/-- What asking for the version yields. -/
def VersionAnswer.ofJson (v : Json) : VersionAnswer :=
  match v.textAt? "oserror" with
  | some reason => .refused reason
  | none =>
    let bytes (key : String) := ((v.field? key).map bytesOf).getD []
    .printed (bytes "stdout") (bytes "stderr") (v.intAt "code")

/-- The host of a session in a directory. -/
def hostOf (directory : Path) (v : Json) : Host :=
  { surroundings := surroundingsOf directory v
    launches := (textsOf (v.itemsAt "spawn")).map LaunchPlan.ofText
    version := VersionAnswer.ofJson ((v.field? "version").getD .null) }

/-! ## The worker -/

/-- A flag that is set unless it is missing or says nothing. -/
def isSet (v : Json) (key : String) : Bool :=
  (v.field? key).any fun flag => !flag.isEmpty

/-- How a process is to exit, if it is. -/
def Exit.ofJson? (v : Json) : Option Exit :=
  match v.intAt? "exit", v.intAt? "exit_quiet" with
  | some code, _ => some ⟨code, false⟩
  | none, some code => some ⟨code, true⟩
  | none, none => none

/-- How a rule answers, if it does. -/
def Reply.ofJson? (v : Json) : Option Reply :=
  if isSet v "echo" then some .echo
  else (v.field? "result").elim ((v.field? "error").map .error) fun r => some (.result r)

/-- A rule.  What is left out has no effect, so a rule that gives a method only matches every
request of it. -/
def Rule.ofJson (v : Json) : Rule :=
  { method := v.textAt "method"
    given := (v.fieldsAt? "when").getD []
    uses := (v.intAt? "times").map (·.toNat)
    hold := isSet v "hold"
    errors := textsOf (v.itemsAt "stderr")
    output := textsOf (v.itemsAt "stdout")
    reply := Reply.ofJson? v
    exit := Exit.ofJson? v }

/-- A script. -/
def Script.ofJson (v : Json) : Script :=
  { rules := (v.itemsAt "rules").map Rule.ofJson
    stubborn := isSet v "ignore_term" }

end PikeAnalysis.Simulation
