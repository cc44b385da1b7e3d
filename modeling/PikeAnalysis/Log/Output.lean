import PikeAnalysis.Config.Model
import PikeAnalysis.Json.Literal

/-!
# Log output

Log records, how they are written, and where they go.  Each output takes the records from its level
on, as JSON or for people.  Outputs to the streams are silent while something is shown there.

A record is written as one JSON object, or as one line on which the time, the level, the event and
the logger come first and the other fields follow in the order of their names.  Each output has a
level of its own or takes that of the logger.  Fields that a validation adds to every record in its
course give way to fields of the record itself.
-/

namespace PikeAnalysis.Log

/-! ## Records -/

/-- What a log record says: an event with its level, the name of the logger, and further fields. -/
structure Record where
  level : LogLevel
  event : String
  logger : Option String := none
  fields : List (String × Json) := []

/-- The validation that a record belongs to. -/
structure RunContext where
  runId : String
  uri : String
  version : Int

/-- The fields of a record as they are written.  Those of the validation give way to those of the
record. -/
def Record.entries (r : Record) (run : Option RunContext) (time : String) :
    List (String × Json) :=
  let context : List (String × Json) := run.elim [] fun c =>
    [("run_id", .str c.runId), ("uri", .str c.uri), ("version", .int c.version)]
  let named : List (String × Json) :=
    match r.logger with
    | some n => if n.isEmpty then [] else [("logger", .str n)]
    | none => []
  let own := named ++ r.fields ++
    [("event", .str r.event), ("level", .str r.level.text), ("timestamp", .str time)]
  Json.fieldsOfPairs (context ++ own)

/-! ## Writing -/

/-- A record as one JSON object. -/
def asJson (entries : List (String × Json)) : String :=
  (Json.obj entries).spaced

/-- The characters that put a text between quotes. -/
def quotedBy : List Char := [' ', '\t', '=', '\r', '\n', '"', '\'']

/-- A value for people. -/
def valueText : Json → List Char
  | .str s =>
    if s.toList.any quotedBy.contains then Json.literalText s else s.toList
  | v => Json.literal v

/-- The parts that come first, in order, and how they are written. -/
def leading : List (String × (List Char → List Char)) :=
  [("timestamp", id), ("level", bracketed), ("event", id), ("logger", bracketed),
    ("logger_name", bracketed)]
where
  bracketed (s : List Char) : List Char := '[' :: s ++ [']']

/-- A record on one line for people: when, how important, what, and then the other fields in the
order of their names. -/
def asText (entries : List (String × Json)) : String :=
  let first := leading.filterMap fun (key, write) =>
    match Json.lookup key entries with
    | some v => if v.display.isEmpty then none else some (write v.display.toList)
    | none => none
  let others := (entries.filter fun e => !leading.any (·.1 == e.1)).mergeSort fun a b => a.1 ≤ b.1
  let rest := others.map fun e => e.1.toList ++ '=' :: valueText e.2
  String.ofList (Text.trimRight (· == ' ') (Text.joinWith [' '] (first ++ rest)))

/-! ## Outputs -/

/-- How records are written. -/
inductive Format where
  | json | console
  deriving DecidableEq, Repr

/-- A place to which records go. -/
structure Output where
  format : Format := .console
  destination : String := "stderr"
  level : LogLevel := .info
  deriving DecidableEq, Repr

/-- The level of a name. -/
def levelOfName (name : String) : LogLevel :=
  (LogLevel.all.find? fun l => l.text.toUpper == name).getD .info

/-- Where records go, and from which level on. -/
structure Setup where
  level : LogLevel
  outputs : List Output

/-- The setup in a checked section of the settings. -/
def Setup.ofJson (v : Json) : Setup :=
  let level := v.textAt "level"
  { level := levelOfName level
    outputs := (v.itemsAt "outputs").map fun o =>
      { format := if o.textAt "format" = "json" then .json else .console
        destination := o.textAt "destination"
        level := levelOfName ((o.textAt? "level").getD level) } }

/-- Whether an output is one of the two streams. -/
def Output.isStream (o : Output) : Bool :=
  o.destination == "stderr" || o.destination == "stdout"

/-- Whether a record reaches an output. -/
def Output.takes (o : Output) (threshold level : LogLevel) (silent : Bool) : Bool :=
  threshold.number ≤ level.number && o.level.number ≤ level.number && !(silent && o.isStream)

/-- A written line. -/
structure Line where
  format : Format
  text : String
  deriving DecidableEq, Repr

/-- What is written to each destination, in order; a destination that is given twice gets every line
twice. -/
def Setup.write (s : Setup) (run : Option RunContext) (silent : Bool) (time : String)
    (records : List Record) : List (String × List Line) :=
  let start := s.outputs.foldl (fun acc o => Assoc.add o.destination [] acc) []
  records.foldl (fun acc r =>
    s.outputs.foldl (fun acc o =>
      if o.takes s.level r.level silent then
        let entries := r.entries run time
        let line : Line := ⟨o.format, match o.format with
          | .json => asJson entries
          | .console => asText entries⟩
        Assoc.set o.destination ((Assoc.get? o.destination acc).getD [] ++ [line]) acc
      else acc) acc) start

/-- The least level of records of the task loop itself, which are only noise below. -/
def loopLevel : LogLevel := .warning

end PikeAnalysis.Log
