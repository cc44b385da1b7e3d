import PikeAnalysis.Wire.Payload

/-!
# Positions

Places in a document, with lines and characters counted from zero.

The worker counts lines and columns from one and may leave the column out.  `Position.ofWire` is the
conversion for places that the worker names; it clamps both numbers at zero, so that a place is
never before the start of its line.  Positions are integers and not natural numbers because other
conversions do not clamp: what those make of odd numbers is a matter of their own theorems.
-/

namespace PikeAnalysis

/-- A line and a character in it, both from zero. -/
structure Position where
  line : Int
  character : Int
  deriving DecidableEq, Repr, Inhabited

/-- A stretch of a document. -/
structure Range where
  start : Position
  stop : Position
  deriving DecidableEq, Repr, Inhabited

namespace Position

/-- A position of the worker, counted from zero and never before the start of the document.  An
unknown column and column zero both mean the start of the line. -/
def ofWire (p : Wire.Position) : Position :=
  { line := max 0 (p.line - 1)
    character :=
      match p.column with
      | none => 0
      | some c => if c = 0 then 0 else max 0 (c - 1) }

/-- Reading order: by line, then by character. -/
def before (p q : Position) : Bool :=
  p.line < q.line || (p.line == q.line && p.character < q.character)

end Position

end PikeAnalysis
