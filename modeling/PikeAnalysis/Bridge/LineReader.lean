import PikeAnalysis.Text.Utf8

/-!
# Reading lines

Takes the lines off a stream of bytes that has ended.  Lines over a limit are dropped, and so is
what is left of a stream behind its last newline if it is over the limit.

The stream has ended, so there is nothing to wait for.  A line that is too long is reported as one
item, which tells it from a line that is not there; empty lines are not reported at all, be they
empty to begin with or only after the end of the line has been taken off.
-/

namespace PikeAnalysis.Bridge

/-- How many bytes a line of the worker may have. -/
def streamLimit : Nat := 64 * 1024 * 1024

/-- What a stream yields: a line, or a line that is too long. -/
inductive StreamItem where
  | line (text : String)
  | tooLong
  deriving DecidableEq, Repr

/-- The bytes of each line, and what is left behind the last newline. -/
def splitBytes : List UInt8 → List UInt8 → List (List UInt8) × List UInt8
  | line, [] => ([], line)
  | line, 10 :: rest =>
    let (lines, left) := splitBytes [] rest
    (line.reverse :: lines, left)
  | line, b :: rest => splitBytes (b :: line) rest

/-- The text of a line: the line end is not part of it. -/
def lineText (bytes : List UInt8) : List Char :=
  ((Text.utf8Decode bytes).reverse.dropWhile fun c => c == '\r' || c == '\n').reverse

/-- What one line of bytes yields; empty lines yield nothing. -/
def itemOfBytes (limit : Nat) (bytes : List UInt8) : Option StreamItem :=
  if bytes.length > limit then some .tooLong
  else
    let text := lineText bytes
    if text.isEmpty then none else some (.line (String.ofList text))

/-- What a stream that has ended yields. -/
def readLines (limit : Nat) (bytes : List UInt8) : List StreamItem :=
  let (lines, left) := splitBytes [] bytes
  (lines ++ [left.reverse]).filterMap (itemOfBytes limit)

end PikeAnalysis.Bridge
