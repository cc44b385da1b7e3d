import PikeAnalysis.Clock

/-!
# Timers

The timers that are running, in a binary heap by the time at which they are due.  Timers that are
due at the same time leave the heap in the order in which the heap yields them.

Which of two timers with the same time comes first is decided by how a binary heap moves its
elements, and that shows in the order in which things are run.  So the heap is kept as it is, with
its array of slots, and not as a sorted list: `rise` and `sink` move timers from slot to slot as the
usual heap does, which sinks a hole to a leaf before it lets the last timer rise from there.

Stopping a timer does not take it out of the heap.  Whether a timer is still wanted is noted in the
loop.
-/

namespace PikeAnalysis.Concurrency

/-- A timer: when it is due, never if there is no such time, and its number.  A delay may be too
long for there to be such a time. -/
structure Timer where
  due : Option Instant
  id : Nat
  deriving DecidableEq, Repr, Inhabited

/-- Whether a timer is due earlier than another. -/
def Timer.before (a b : Timer) : Bool :=
  match a.due, b.due with
  | some x, some y => decide (x < y)
  | some _, none => true
  | none, _ => false

/-- Whether a timer is due at a time. -/
def Timer.isDue (now : Instant) (t : Timer) : Bool :=
  match t.due with
  | some d => decide (d ≤ now)
  | none => false

/-- A binary heap of timers, the earliest first.  The children of slot `i` are in the slots `2 * i +
1` and `2 * i + 2`. -/
structure TimerHeap where
  slots : Array Timer := #[]

namespace TimerHeap

/-- The timer in a slot. -/
def slot (h : Array Timer) (i : Nat) : Timer :=
  h.getD i default

/-- Moves a timer from the slot `pos` towards the root until its parent is not later; `start` is as
far as it goes. -/
def rise (start : Nat) (item : Timer) : Nat → Array Timer → Nat → Array Timer
  | 0, h, pos => h.setIfInBounds pos item
  | fuel + 1, h, pos =>
    let up := (pos - 1) / 2
    if start < pos && item.before (TimerHeap.slot h up) then
      rise start item fuel (h.setIfInBounds pos (TimerHeap.slot h up)) up
    else h.setIfInBounds pos item

/-- Moves the earlier child of each slot up from `pos` down to a leaf, and yields the slot of the
leaf. -/
def sink : Nat → Array Timer → Nat → Array Timer × Nat
  | 0, h, pos => (h, pos)
  | fuel + 1, h, pos =>
    let left := 2 * pos + 1
    if left < h.size then
      let right := left + 1
      let child :=
        if right < h.size && !(TimerHeap.slot h left).before (TimerHeap.slot h right) then right
        else left
      sink fuel (h.setIfInBounds pos (TimerHeap.slot h child)) child
    else (h, pos)

/-- The heap with one more timer.  It gets into the last slot and rises from there. -/
def push (t : TimerHeap) (timer : Timer) : TimerHeap :=
  let h := t.slots.push timer
  { slots := rise 0 timer h.size h (h.size - 1) }

/-- The earliest timer. -/
def top? (t : TimerHeap) : Option Timer :=
  t.slots[0]?

/-- The heap without its earliest timer.  The last timer takes the place of the first one, after a
hole has sunk from there to a leaf. -/
def pop (t : TimerHeap) : TimerHeap :=
  match t.slots.back? with
  | none => t
  | some last =>
    let h := t.slots.pop
    if h.isEmpty then { slots := h }
    else
      let (h, leaf) := sink h.size (h.setIfInBounds 0 last) 0
      { slots := rise 0 last h.size h leaf }

def size (t : TimerHeap) : Nat :=
  t.slots.size

end TimerHeap

end PikeAnalysis.Concurrency
