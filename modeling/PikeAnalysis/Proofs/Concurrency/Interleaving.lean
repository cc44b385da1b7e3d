import PikeAnalysis.Concurrency.Machine

/-!
# Interleavings

A machine is driven by rounds, and between two things that a round does, or in between rounds,
something may happen from outside.  `Leads` is the course of such a machine with nothing fixed but
that: whatever is ready may be done next, in any order, and what happens from outside may happen at
any moment.  The rounds of the machine are such courses (`Leads.round`, `Leads.settle`), so what
holds along every course holds however the machine is driven.

The order is left open on purpose.  The loop runs what is ready first in, first out, and the proofs
could use that; but a statement that holds only because of it says little to somebody who changes
one operation from doing something at once to doing it in a task of its own.  What needs the order,
such as that edits which come together are seen together, is stated about the rounds of a machine
and not about courses.

What happens from outside is of a type `ω` that the program chooses: notifications of the editor,
lines of the worker, ends of its process, calls of its functions.  A course lists what has happened,
in order, so that a statement can ask which of these were there.
-/

namespace PikeAnalysis.Concurrency

variable {σ ε ν κ η ω : Type} [HasLoop σ κ η ε ν]

/-- A machine at some point of a round, and what is left of the round.  What is left of the round is
kept apart from what has become ready since, which is done in a later round. -/
structure Moment (σ ε ν κ η : Type) where
  machine : Machine σ ε ν κ
  queue : List (Ready η) := []

namespace Moment

/-- The state at a moment. -/
def state (c : Moment σ ε ν κ η) : σ :=
  c.machine.state

/-- Everything that is ready, whether or not it is part of the round. -/
def items (c : Moment σ ε ν κ η) : List (Ready η) :=
  c.queue ++ c.machine.loop.ready

/-- Something happens from outside.  It happens between two things that are ready, never in the
middle of one. -/
def happen (outside : ω → σ → σ) (c : Moment σ ε ν κ η) (o : ω) : Moment σ ε ν κ η :=
  { c with machine := { c.machine with state := outside o c.machine.state } }

/-- The timers that are due become ready.  This is the first half of a round; the other half does
what is ready. -/
def due (l : Loop κ η ε ν) : Loop κ η ε ν :=
  let l := l.dropCancelled l.timers.size
  l.takeDue l.timers.size

/-- Everything that is ready becomes part of the round, timers that are due included. -/
def gather (c : Moment σ ε ν κ η) : Moment σ ε ν κ η :=
  let m := c.machine.updateLoop due
  { machine := m.updateLoop fun l => { l with ready := [] }
    queue := c.queue ++ m.loop.ready }

end Moment

/-- What can become of a machine while things happen from outside.  The list says what has happened
from outside, in order; what was done of its own accord is not listed. -/
inductive Leads (rules : Rules σ ε ν κ η) (outside : ω → σ → σ) (c : Moment σ ε ν κ η) :
    List ω → Moment σ ε ν κ η → Prop
  | refl : Leads rules outside c [] c
  | happens {os : List ω} {d : Moment σ ε ν κ η} (h : Leads rules outside c os d) (o : ω) :
    Leads rules outside c (os ++ [o]) (d.happen outside o)
  | gathers {os : List ω} {d : Moment σ ε ν κ η} (h : Leads rules outside c os d) :
    Leads rules outside c os d.gather
  | runs {os : List ω} {m : Machine σ ε ν κ} {item : Ready η} {before after : List (Ready η)}
    (h : Leads rules outside c os ⟨m, before ++ item :: after⟩) :
    Leads rules outside c os ⟨m.runReady rules item, before ++ after⟩

variable {rules : Rules σ ε ν κ η} {outside : ω → σ → σ} {c d : Moment σ ε ν κ η} {os more : List ω}

theorem Leads.trans {e : Moment σ ε ν κ η} (h : Leads rules outside c os d)
    (k : Leads rules outside d more e) : Leads rules outside c (os ++ more) e := by
  induction k with
  | refl => simpa using h
  | happens _ o ih => simpa using ih.happens o
  | gathers _ ih => exact ih.gathers
  | runs _ ih => exact ih.runs

/-- Doing everything that is left of a round, in order. -/
theorem Leads.drain {m : Machine σ ε ν κ} {items : List (Ready η)}
    (h : Leads rules outside c os ⟨m, items⟩) :
    Leads rules outside c os ⟨items.foldl (Machine.runReady rules) m, []⟩ := by
  -- What becomes ready meanwhile does not get into the round.
  induction items generalizing m with
  | nil => exact h
  | cons item rest ih =>
    have hnext : Leads rules outside c os ⟨m, [] ++ item :: rest⟩ := h
    exact ih hnext.runs

theorem Leads.round {m : Machine σ ε ν κ} (h : Leads rules outside c os ⟨m, []⟩) :
    Leads rules outside c os ⟨m.round rules, []⟩ :=
  h.gathers.drain

theorem Leads.settle {m : Machine σ ε ν κ} (h : Leads rules outside c os ⟨m, []⟩) (fuel : Nat) :
    Leads rules outside c os ⟨m.settle rules fuel, []⟩ := by
  induction fuel generalizing m with
  | zero => exact h
  | succ fuel ih =>
    rw [Machine.settle]
    split
    · exact ih h.round
    · exact h

end PikeAnalysis.Concurrency
