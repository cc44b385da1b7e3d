/-!
# Log entries

What is worth telling an operator, by level.

A level has a number, which decides what a sink lets through, and a word, which is what is printed
and what the settings name it by.  An entry carries the name of its event only: the fields that go
with an event are added where a record is written, so a part that has something to tell does not
depend on how it is shown.
-/

namespace PikeAnalysis

/-- How important a log entry is. -/
inductive LogLevel where
  | debug | info | warning | error | critical
  deriving DecidableEq, Repr, Inhabited

namespace LogLevel

/-- The number of a level. -/
def number : LogLevel → Nat
  | .debug => 10
  | .info => 20
  | .warning => 30
  | .error => 40
  | .critical => 50

/-- The word for a level. -/
def text : LogLevel → String
  | .debug => "debug"
  | .info => "info"
  | .warning => "warning"
  | .error => "error"
  | .critical => "critical"

/-- All levels, the least important first. -/
def all : List LogLevel :=
  [.debug, .info, .warning, .error, .critical]

end LogLevel

/-- An event by its name. -/
structure LogEntry where
  level : LogLevel
  event : String
  deriving DecidableEq, Repr

end PikeAnalysis
