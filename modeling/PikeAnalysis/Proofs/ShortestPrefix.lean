/-!
# The shortest prefix that must go

Where things go one by one, from the front of a queue, until what is left is fine, what went is the
shortest prefix without which the rest is fine.

Both stores with a budget evict in this way, the database of programs and the index of the standard
library, each in an order of its own.  What is fine is a parameter: within the budget, or within a
number as well.  A split with these two properties is unique once the queue is given, so that it
says exactly what went.
-/

namespace PikeAnalysis

/-- A queue is split so that what is left is fine, and no shorter prefix would do.  That no
shorter prefix would do is what makes it exact. -/
structure ShortestPrefix {α : Type} (fine : List α → Prop) (queue gone left : List α) : Prop where
  split : queue = gone ++ left
  enough : fine left
  least : ∀ front back, queue = front ++ back → fine back → gone.length ≤ front.length

namespace ShortestPrefix

variable {α : Type} {fine : List α → Prop} {queue gone left : List α} {e : α}

theorem nil (h : fine queue) : ShortestPrefix fine queue [] queue where
  split := rfl
  enough := h
  least _ _ _ _ := Nat.zero_le _

theorem cons (h : ShortestPrefix fine queue gone left) (hnot : ¬fine (e :: queue)) :
    ShortestPrefix fine (e :: queue) (e :: gone) left where
  split := by rw [h.split, List.cons_append]
  enough := h.enough
  least front back hqueue hback := by
    cases front with
    | nil =>
      rw [List.nil_append] at hqueue
      exact absurd (hqueue ▸ hback) hnot
    | cons f front =>
      obtain ⟨-, hqueue⟩ := List.cons.inj hqueue
      exact Nat.succ_le_succ (h.least front back hqueue hback)

/-- Nothing goes from a queue that is fine. -/
theorem eq_nil (h : ShortestPrefix fine queue gone left) (hfine : fine queue) : gone = [] :=
  List.length_eq_zero_iff.1 (Nat.le_zero.1 (h.least [] queue rfl hfine))

end ShortestPrefix

end PikeAnalysis
