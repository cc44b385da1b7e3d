import PikeAnalysis.Assoc
import PikeAnalysis.Json.Literal

/-!
# Command lines

Takes command lines apart: options, their values, and the other arguments in order.

What options there are is a parameter (`Opt`).  Short options can be written in a cluster behind one
dash, none of them with a value; a long one takes its value behind an equals sign or from the next
argument.  Everything behind a lone `--` is an argument.  A fault ends the parse at once, and its
wording is kept apart from its kind, so that a command can add its own usage line.
-/

namespace PikeAnalysis.Cli

/-- An option: how it can be written, and whether a value goes with it. -/
structure Opt where
  key : String
  long : String
  short : Option Char := none
  takesValue : Bool := false

/-- What is wrong with a command line.  The first three are found while a line is taken apart, the
others afterwards. -/
inductive UsageFault where
  | unknownOption (name : String)
  | unexpectedValue (name : String)
  | missingValue (name : String)
  | missingArgument (name : String)
  | badValue (name reason : String)
  | extraArguments (given : List String)
  | unknownCommand (name : String)
  | missingCommand
  deriving DecidableEq, Repr

/-- A text between quotes. -/
def quote (s : String) : String :=
  String.ofList (Json.literalText s)

/-- The wording of a fault.  A single argument too many is told apart from several, as the plural is
another. -/
def UsageFault.message : UsageFault → String
  | .unknownOption name => "No such option " ++ quote name ++ "."
  | .unexpectedValue name => "Option " ++ quote name ++ " does not take a value."
  | .missingValue name => "Option " ++ quote name ++ " requires an argument."
  | .missingArgument name => "Missing argument " ++ quote name ++ "."
  | .badValue name reason => "Invalid value for " ++ quote name ++ ": " ++ reason
  | .extraArguments [one] => "Got unexpected extra argument (" ++ one ++ ")"
  | .extraArguments given => "Got unexpected extra arguments (" ++ " ".intercalate given ++ ")"
  | .unknownCommand name => "No such command " ++ quote name ++ "."
  | .missingCommand => "Missing command."

/-- The options of a command line in order, with their values, and the other arguments. -/
structure Parsed where
  options : List (String × String) := []
  rest : List String := []

namespace Parsed

def has (p : Parsed) (key : String) : Bool :=
  p.options.any (·.1 == key)

/-- The value of an option; the last one counts. -/
def value? (p : Parsed) (key : String) : Option String :=
  (p.options.reverse.find? (·.1 == key)).map (·.2)

end Parsed

/-! ## Options -/

/-- A long option with the value behind its equals sign, if there is one. -/
def splitEquals (s : List Char) : List Char × Option (List Char) :=
  let name := s.takeWhile (· != '=')
  match s.drop name.length with
  | '=' :: value => (name, some value)
  | _ => (name, none)

/-- The short options of a cluster; none of them takes a value. -/
def readCluster (opts : List Opt) : List Char → Except UsageFault (List (String × String))
  | [] => .ok []
  | c :: rest =>
    match opts.find? fun o => o.short == some c with
    | some o => (readCluster opts rest).map ((o.key, "") :: ·)
    | none => .error (.unknownOption (String.ofList ['-', c]))

/-- The parsed part with one more option. -/
def Parsed.withOption (p : Parsed) (o : Opt) (value : String) : Parsed :=
  { p with options := p.options ++ [(o.key, value)] }

/-- Takes a command line apart.  With `mixed` options may also stand behind other arguments;
`waiting` is an option, as it was written, whose value comes next.
-/
def parse (opts : List Opt) (mixed : Bool) (waiting : Option (Opt × String)) :
    List String → Parsed → Except UsageFault Parsed
  | [], p =>
    match waiting with
    | some (_, name) => .error (.missingValue name)
    | none => .ok p
  | arg :: rest, p =>
    match waiting with
    | some (o, _) => parse opts mixed none rest (p.withOption o arg)
    | none =>
      let text := arg.toList
      if arg = "--" then .ok { p with rest := p.rest ++ rest }
      else if text.head? = some '-' ∧ text.length > 1 then
        let (name, value) := splitEquals text
        let name := String.ofList name
        match opts.find? fun o => o.long == name with
        | some o =>
          match o.takesValue, value with
          | true, some v => parse opts mixed none rest (p.withOption o (String.ofList v))
          | true, none => parse opts mixed (some (o, name)) rest p
          | false, some _ => .error (.unexpectedValue name)
          | false, none => parse opts mixed none rest (p.withOption o "")
        | none =>
          if text.take 2 == ['-', '-'] then .error (.unknownOption name)
          else
            -- Anything else that starts with a dash is a cluster of short options.
            match readCluster opts text.tail with
            | .ok found =>
              parse opts mixed none rest { p with options := p.options ++ found }
            | .error e => .error e
      else if mixed then parse opts mixed none rest { p with rest := p.rest ++ [arg] }
      else .ok { p with rest := p.rest ++ (arg :: rest) }

end PikeAnalysis.Cli
