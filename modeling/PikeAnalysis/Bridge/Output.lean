import PikeAnalysis.Text.Character
import PikeAnalysis.Text.Lines

/-!
# What the worker prints

Lines of the worker's error stream that announce its end or speak of an error, and the version in
its banner.

Both tests are made on the text of a line and nothing else, and without regard to case.  One lowers
the line before it looks for a word, the other compares without case, which are not the same for
letters that change their length when they are lowered.  A worker that prints a phrase which
announces its end is taken for gone although its process may still be there.
-/

namespace PikeAnalysis.Bridge

/-- The phrases that announce the end of a worker. -/
def fatalPhrases : List String :=
  ["segmentation fault", "fatal error", "out of memory", "pike died"]

/-- Whether a line announces the end of the worker. -/
def isFatalLine (line : String) : Bool :=
  fatalPhrases.any (Text.containsFolded · line.toList)

/-- Whether a line of the error stream is worth keeping. -/
def isErrorLine (line : String) : Bool :=
  Text.containsLowered "error" line.toList || isFatalLine line

/-! ## The banner -/

/-- The version at the start of a text: digits, a dot, digits. -/
def versionAt? (s : List Char) : Option String :=
  let major := s.takeWhile Text.isDecimalDigit
  match s.drop major.length with
  | '.' :: rest =>
    let minor := rest.takeWhile Text.isDecimalDigit
    if major.isEmpty || minor.isEmpty then none
    else some (String.ofList (major ++ '.' :: minor))
  | _ => none

/-- What stands before a version. -/
def versionMark : List Char := "Pike v".toList

/-- The first version in a text. -/
def findVersion : List Char → Option String
  | [] => none
  | c :: rest =>
    if versionMark.isPrefixOf (c :: rest) then
      match versionAt? ((c :: rest).drop versionMark.length) with
      | some v => some v
      | none => findVersion rest
    else findVersion rest

/-- The version that a banner names, if any. -/
def version? (banner : String) : Option String :=
  findVersion banner.toList

end PikeAnalysis.Bridge
