import PikeAnalysis.Terminal.Table

/-!
# Progress

What people are told while a command runs, on the error stream.

Messages are written with markup, as tables are, and so can fail where a text that is put into them
is no proper markup.  That failure is handed on: a command turns it into a crash of its own.
-/

namespace PikeAnalysis

/-- A number of things, such as `1 file` or `3 files`. -/
def pluralize (count : Int) (singular : String) (plural : Option String) : String :=
  toString count ++ " " ++ if count = 1 then singular else plural.getD (singular ++ "s")

namespace Progress

/-- The kinds of messages. -/
inductive Style where
  | success | error | warning | info | none
  deriving DecidableEq, Repr

/-- What a message of a kind begins with. -/
def Style.opening : Style → String
  | .success => "[green]✓[/green] "
  | .error => "[red]✗[/red] "
  | .warning => "[yellow]![/yellow] "
  | .info => "  "
  | .none => ""

/-- The kind of a name; an unknown one is none. -/
def Style.ofName (name : String) : Style :=
  match name with
  | "success" => .success
  | "error" => .error
  | "warning" => .warning
  | "info" => .info
  | _ => .none

/-- A message, indented. -/
def status (message : String) (style : Style) (indent : Nat) :
    Except Terminal.MarkupFault String :=
  Terminal.messageText (String.ofList (List.replicate indent ' ') ++ style.opening ++ message)

/-- What is told at the start of something that takes time. -/
def announcement (message : String) (indent : Nat) : Except Terminal.MarkupFault String :=
  Terminal.messageText (String.ofList (List.replicate indent ' ') ++ message ++ "...")

end Progress

end PikeAnalysis
