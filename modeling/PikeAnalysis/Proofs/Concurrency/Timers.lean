import Mathlib.Data.Multiset.AddSub
import PikeAnalysis.Concurrency.Loop

/-!
# The heap of timers

A heap of timers is ordered if no timer is due earlier than its parent.  Pushing and popping keep
that, and neither loses a timer nor adds another (`TimerHeap.Ordered.push`,
`TimerHeap.Ordered.pop`).  So the timers that a loop takes at a time are those that are due by then
(`Loop.takes_takeDue`).

Both work with a hole, in which one timer is missing.  While the hole rises, its children are not
earlier than the missing timer (`RiseOrder`); while it sinks, they need only not be earlier than its
parent (`SinkOrder`).

The two orders are stated of arrays with a hole in them, as the code does not swap two timers but
moves one into the hole and leaves another hole behind.  A pop is a sink of the hole to a leaf, and
then a rise of the last timer from there; the order of a hole that has sunk is just what the rise
needs to begin with.

That nothing gets lost is a statement about multisets: moving a timer into the hole is a permutation
of what is there, once the item that is to fill the hole is counted (`perm_move`).
-/

namespace PikeAnalysis.Concurrency

namespace Timer

/-- A timer is due no later than another. -/
def NotAfter (a b : Timer) : Prop :=
  b.before a = false

theorem NotAfter.refl (a : Timer) : a.NotAfter a := by
  cases h : a.due <;> simp [NotAfter, before, h]

theorem NotAfter.trans {a b c : Timer} (h : a.NotAfter b) (k : b.NotAfter c) : a.NotAfter c := by
  unfold NotAfter before at *
  cases ha : a.due <;> cases hb : b.due <;> cases hc : c.due <;> simp_all
  exact Int.le_trans h k

theorem notAfter_of_before {a b : Timer} (h : a.before b = true) : a.NotAfter b := by
  unfold NotAfter before at *
  cases ha : a.due <;> cases hb : b.due <;> simp_all
  exact Int.le_of_lt h

/-- Whatever is not earlier than a timer that is not due is not due either. -/
theorem NotAfter.isDue {a b : Timer} {now : Instant} (h : a.NotAfter b) (due : b.isDue now = true) :
    a.isDue now = true := by
  unfold NotAfter before at h
  unfold Timer.isDue at *
  cases ha : a.due <;> cases hb : b.due <;> simp_all
  exact Int.le_trans h due

end Timer

namespace TimerHeap

variable {h : Array Timer} {hole pos i j fuel : Nat} {item x : Timer}

/-! ## Slots -/

/-- The slot above a slot. -/
def up (i : Nat) : Nat :=
  (i - 1) / 2

theorem up_lt (hpos : 0 < i) : up i < i := by
  unfold up
  omega

theorem slot_setIfInBounds (h : Array Timer) (p i : Nat) (x : Timer) (hi : i < h.size) :
    slot (h.setIfInBounds p x) i = if i = p then x else slot h i := by
  unfold slot
  rw [Array.getD_eq_getD_getElem?, Array.getD_eq_getD_getElem?, Array.getElem?_setIfInBounds]
  by_cases hip : i = p
  · subst hip
    simp [hi]
  · simp [hip, Ne.symm hip]

/-- No timer is due earlier than the one above it.  The first timer is then the earliest of all. -/
def InOrder (h : Array Timer) : Prop :=
  ∀ i, 0 < i → i < h.size → (slot h (up i)).NotAfter (slot h i)

/-- All is in order but for the hole.  It holds while an entry is on its way down: the entry at the
hole has been taken out, everything else is in order, and `across` relates the children of the hole
to its parent, so that the order is whole once the hole has been filled from below. -/
structure SinkOrder (h : Array Timer) (hole : Nat) : Prop where
  within : hole < h.size
  others : ∀ i, 0 < i → i < h.size → i ≠ hole → up i ≠ hole → (slot h (up i)).NotAfter (slot h i)
  across : 0 < hole → ∀ i, 0 < i → i < h.size → up i = hole → (slot h (up hole)).NotAfter (slot h i)

/-- All is in order but for the hole, and what is below it is not earlier than what is to get in. -/
structure RiseOrder (h : Array Timer) (hole : Nat) (item : Timer) :
    Prop extends SinkOrder h hole where
  below : ∀ i, 0 < i → i < h.size → up i = hole → item.NotAfter (slot h i)

/-! ## Rising -/

/-- The item gets into the hole if what is above it is not later. -/
theorem RiseOrder.fill (o : RiseOrder h hole item)
    (stop : 0 < hole → (slot h (up hole)).NotAfter item) : InOrder (h.setIfInBounds hole item) := by
  intro i hpos hi
  rw [Array.size_setIfInBounds] at hi
  have hup := up_lt hpos
  rw [slot_setIfInBounds h hole i item hi, slot_setIfInBounds h hole (up i) item (hup.trans hi)]
  by_cases hih : i = hole
  · subst hih
    rw [if_pos rfl, if_neg hup.ne]
    exact stop hpos
  · rw [if_neg hih]
    by_cases huh : up i = hole
    · rw [if_pos huh]
      exact o.below i hpos hi huh
    · rw [if_neg huh]
      exact o.others i hpos hi hih huh

/-- The hole moves up if the item is earlier than what is above it. -/
theorem RiseOrder.move (o : RiseOrder h hole item) (hpos : 0 < hole)
    (early : item.before (slot h (up hole)) = true) :
    RiseOrder (h.setIfInBounds hole (slot h (up hole))) (up hole) item := by
  have hup := up_lt hpos
  have size : (h.setIfInBounds hole (slot h (up hole))).size = h.size := Array.size_setIfInBounds
  have moved (i : Nat) (hi : i < h.size) :
      slot (h.setIfInBounds hole (slot h (up hole))) i = if i = hole
        then slot h (up hole) else slot h i :=
    slot_setIfInBounds h hole i _ hi
  -- What is below the new hole is not earlier than what was in it.
  have under (i : Nat) (h0 : 0 < i) (hi : i < h.size) (hih : i ≠ hole) (huh : up i = up hole) :
      (slot h (up hole)).NotAfter (slot h i) :=
    huh ▸ o.others i h0 hi hih (fun he => absurd (huh.symm.trans he) hup.ne)
  refine ⟨⟨size ▸ hup.trans o.within, fun i h0 hi hne hune => ?_, fun hpos' i h0 hi huh => ?_⟩,
    fun i h0 hi huh => ?_⟩
  · rw [size] at hi
    have hlt := up_lt h0
    rw [moved i hi, moved (up i) (hlt.trans hi)]
    by_cases hih : i = hole
    · exact absurd (congrArg up hih) hune
    · rw [if_neg hih]
      by_cases huh : up i = hole
      · rw [if_pos huh]
        exact o.across hpos i h0 hi huh
      · rw [if_neg huh]
        exact o.others i h0 hi hih huh
  · rw [size] at hi
    have hlt := up_lt hpos'
    have above : (slot h (up (up hole))).NotAfter (slot h (up hole)) :=
      o.others (up hole) hpos' (hup.trans o.within) hup.ne (by omega)
    have hlt' := o.within
    rw [moved i hi, moved (up (up hole)) (by omega), if_neg (by omega)]
    by_cases hih : i = hole
    · rw [if_pos hih]
      exact above
    · rw [if_neg hih]
      exact above.trans (under i h0 hi hih huh)
  · rw [size] at hi
    rw [moved i hi]
    have first := Timer.notAfter_of_before early
    by_cases hih : i = hole
    · rw [if_pos hih]
      exact first
    · rw [if_neg hih]
      exact first.trans (under i h0 hi hih huh)

theorem inOrder_rise (o : RiseOrder h pos item) (enough : pos ≤ fuel) :
    InOrder (rise 0 item fuel h pos) := by
  induction fuel generalizing h pos with
  | zero => exact o.fill fun hpos => absurd hpos (by omega)
  | succ fuel ih =>
    rw [rise]
    split
    · next early =>
      obtain ⟨hpos, hearly⟩ := Bool.and_eq_true_iff.mp early
      have hpos := of_decide_eq_true hpos
      have hup := up_lt hpos
      exact ih (o.move hpos hearly) (by unfold up at *; omega)
    · next late =>
      refine o.fill fun hpos => ?_
      have hearly : item.before (slot h ((pos - 1) / 2)) ≠ true :=
        fun hb => late (by simp [hpos, hb])
      exact Bool.eq_false_iff.mpr hearly

/-! ## Sinking -/

/-- The child of a slot that moves up when a hole sinks through it.  Of two that are due at the same
time the right one moves. -/
def earlier (h : Array Timer) (pos : Nat) : Nat :=
  if 2 * pos + 1 + 1 < h.size && !(slot h (2 * pos + 1)).before (slot h (2 * pos + 1 + 1))
    then 2 * pos + 1 + 1
  else 2 * pos + 1

theorem earlier_spec (hleft : 2 * pos + 1 < h.size) :
    earlier h pos < h.size ∧ pos < earlier h pos ∧ up (earlier h pos) = pos ∧
      ∀ i, 0 < i → i < h.size → up i = pos → (slot h (earlier h pos)).NotAfter (slot h i) := by
  have children (i : Nat) (hpos : 0 < i) (hup : up i = pos) : i = 2 * pos + 1 ∨
    i = 2 * pos + 1 + 1 := by
    unfold up at hup
    omega
  unfold earlier
  split
  · next late =>
    obtain ⟨hright, hlate⟩ := Bool.and_eq_true_iff.mp late
    have hlt : 2 * pos + 1 + 1 < h.size := of_decide_eq_true hright
    refine ⟨hlt, by omega, by unfold up; omega, fun i hpos hi hup => ?_⟩
    rcases children i hpos hup with rfl | rfl
    · exact (Bool.not_eq_true' _).mp hlate
    · exact .refl _
  · next early =>
    refine ⟨hleft, by omega, by unfold up; omega, fun i hpos hi hup => ?_⟩
    rcases children i hpos hup with rfl | rfl
    · exact .refl _
    · refine Timer.notAfter_of_before (Bool.not_eq_false _ ▸ fun hb => early ?_)
      simp [hi, hb]

/-- The hole moves down to the earlier child.  Before and after, the order is broken at the hole
only. -/
theorem SinkOrder.move (o : SinkOrder h hole) (hleft : 2 * hole + 1 < h.size) :
    SinkOrder (h.setIfInBounds hole (slot h (earlier h hole))) (earlier h hole) := by
  obtain ⟨hlt, hbelow, hup, first⟩ := earlier_spec hleft
  have size : (h.setIfInBounds hole (slot h (earlier h hole))).size = h.size :=
    Array.size_setIfInBounds
  have moved (i : Nat) (hi : i < h.size) : slot (h.setIfInBounds hole (slot h (earlier h hole))) i =
      if i = hole then slot h (earlier h hole) else slot h i := slot_setIfInBounds h hole i _ hi
  refine ⟨size ▸ hlt, fun i h0 hi hne hune => ?_, fun hpos' i h0 hi huh => ?_⟩
  · rw [size] at hi
    have hult := up_lt h0
    rw [moved i hi, moved (up i) (hult.trans hi)]
    by_cases hih : i = hole
    · subst hih
      rw [if_pos rfl, if_neg hult.ne]
      exact o.across h0 _ (by omega) hlt hup
    · rw [if_neg hih]
      by_cases huh : up i = hole
      · rw [if_pos huh]
        exact first i h0 hi huh
      · rw [if_neg huh]
        exact o.others i h0 hi hih huh
  · rw [size] at hi
    rw [hup, moved i hi, moved hole o.within, if_pos rfl, if_neg (by have := up_lt h0; omega)]
    exact huh ▸ o.others i h0 hi (by have := up_lt h0; omega) (by omega)

/-- A hole that has sunk to a leaf.  As many steps as there are places behind it are enough. -/
theorem sink_spec (o : SinkOrder h pos) (enough : h.size ≤ fuel + pos) :
    SinkOrder (sink fuel h pos).1 (sink fuel h pos).2 ∧ (sink fuel h pos).1.size = h.size ∧
      h.size ≤ 2 * (sink fuel h pos).2 + 1 := by
  induction fuel generalizing h pos with
  | zero =>
    have := o.within
    omega
  | succ fuel ih =>
    rw [sink]
    dsimp only
    split
    · next hleft =>
      obtain ⟨hlt, hbelow, hup, first⟩ := earlier_spec hleft
      obtain ⟨last, size, leaf⟩ := ih (o.move hleft) (by rw [Array.size_setIfInBounds]; omega)
      rw [Array.size_setIfInBounds] at size leaf
      exact ⟨last, size, leaf⟩
    · next hleaf => exact ⟨o, rfl, Nat.le_of_not_lt hleaf⟩

/-! ## What is in the heap -/

/-- Moving a timer into the hole moves the hole.  Which timers there are does not depend on where
the hole is. -/
theorem perm_move {p q : Nat} (hp : p < h.size) (hq : q < h.size) (hne : p ≠ q) (x : Timer) :
    ((h.setIfInBounds p (slot h q)).setIfInBounds q x).Perm (h.setIfInBounds p x) := by
  have swapped : (h.setIfInBounds p (slot h q)).setIfInBounds q x =
      (h.setIfInBounds p x).swap p q (by simpa using hp) (by simpa using hq) := by
    refine Array.ext (by simp) fun i hi hi' => ?_
    have hi : i < h.size := by simpa using hi
    have size : i < (h.setIfInBounds p (slot h q)).size := by simpa using hi
    rw [Array.getElem_setIfInBounds size, Array.getElem_setIfInBounds hi, Array.getElem_swap]
    by_cases hiq : i = q
    · subst hiq
      simp [hne.symm]
    · by_cases hip : i = p
      · subst hip
        simp [hne, hne.symm, hq, slot, Array.getD_eq_getD_getElem?]
      · rw [if_neg (Ne.symm hiq), if_neg (Ne.symm hip), if_neg hip, if_neg hiq,
          Array.getElem_setIfInBounds hi, if_neg (Ne.symm hip)]
  rw [swapped]
  exact Array.swap_perm _ _

theorem perm_rise (within : pos < h.size) :
    (rise 0 item fuel h pos).Perm (h.setIfInBounds pos item) := by
  induction fuel generalizing h pos with
  | zero => exact .refl _
  | succ fuel ih =>
    rw [rise]
    split
    · next early =>
      have hpos := of_decide_eq_true (Bool.and_eq_true_iff.mp early).1
      have hup : up pos < pos := up_lt hpos
      have rest := @ih (h.setIfInBounds pos (slot h (up pos))) (up pos)
        (by rw [Array.size_setIfInBounds]; omega)
      exact rest.trans (perm_move within (hup.trans within) hup.ne' item)
    · exact .refl _

theorem perm_sink (within : pos < h.size) (x : Timer) :
    ((sink fuel h pos).1.setIfInBounds (sink fuel h pos).2 x).Perm (h.setIfInBounds pos x) := by
  induction fuel generalizing h pos with
  | zero => exact .refl _
  | succ fuel ih =>
    rw [sink]
    dsimp only
    split
    · next hleft =>
      obtain ⟨hlt, hbelow, -, -⟩ := earlier_spec hleft
      have rest := @ih (h.setIfInBounds pos (slot h (earlier h pos))) (earlier h pos)
        (by rwa [Array.size_setIfInBounds])
      exact rest.trans (perm_move within hlt hbelow.ne x)
    · exact .refl _

/-! ## Heaps -/

/-- The timers in a heap.  Which of them is in which slot does not matter for what is in the
heap. -/
def elements (t : TimerHeap) : Multiset Timer :=
  (t.slots.toList : Multiset Timer)

/-- A heap in which no timer is due earlier than the one above it.  The first slot then holds one of
the timers that are due first. -/
def Ordered (t : TimerHeap) : Prop :=
  InOrder t.slots

theorem elements_of_perm {a b : Array Timer} (h : a.Perm b) :
    (TimerHeap.mk a).elements = (TimerHeap.mk b).elements :=
  Multiset.coe_eq_coe.mpr h.toList

variable {t : TimerHeap} {timer : Timer}

theorem ordered_empty : Ordered {} :=
  fun i _ hi => absurd hi (Nat.not_lt_zero i)

theorem Ordered.push (o : t.Ordered) (timer : Timer) :
    (t.push timer).Ordered ∧ (t.push timer).elements = timer ::ₘ t.elements := by
  have size : (t.slots.push timer).size = t.slots.size + 1 := Array.size_push _
  have old (i : Nat) (hi : i < t.slots.size) : slot (t.slots.push timer) i = slot t.slots i := by
    rw [slot, slot, Array.getD_eq_getD_getElem?, Array.getD_eq_getD_getElem?,
      Array.getElem?_push_lt hi, Array.getElem?_eq_getElem hi]
  -- The new timer stands at the end, so it is the only one that may be out of order.
  have rising : RiseOrder (t.slots.push timer) t.slots.size timer := by
    refine ⟨⟨by omega, fun i hpos hi hne hune => ?_, fun _ i hpos hi hup => ?_⟩,
      fun i hpos hi hup => ?_⟩
    · have hlt := up_lt hpos
      rw [old i (by omega), old (up i) (by omega)]
      exact o i hpos (by omega)
    · have hlt := up_lt hpos
      omega
    · have hlt := up_lt hpos
      omega
  have pushed : t.push timer =
    ⟨rise 0 timer (t.slots.push timer).size (t.slots.push timer) t.slots.size⟩ := by
    rw [TimerHeap.push, Array.size_push, Nat.add_sub_cancel]
  rw [pushed]
  refine ⟨inOrder_rise rising (by omega), ?_⟩
  have kept : (t.slots.push timer).setIfInBounds t.slots.size timer = t.slots.push timer := by
    refine Array.ext (by simp) fun i hi hi' => ?_
    rw [Array.getElem_setIfInBounds hi']
    split
    · next he => simp [← he]
    · rfl
  rw [elements_of_perm (perm_rise rising.within), kept, elements, elements, Array.toList_push,
    Multiset.cons_coe, Multiset.coe_eq_coe]
  exact List.perm_append_singleton _ _

/-- Nothing in a heap is earlier than its first timer.  So the top tells when the loop has to go on
next. -/
theorem Ordered.first (o : t.Ordered) {x : Timer} (top : t.top? = some x) :
    ∀ y ∈ t.elements, x.NotAfter y := by
  have least (i : Nat) (hi : i < t.slots.size) : (slot t.slots 0).NotAfter (slot t.slots i) := by
    -- The path from a slot to the root is followed upwards: what is above a slot is not later.
    induction i using Nat.strong_induction_on with
    | _ i ih =>
      rcases Nat.eq_zero_or_pos i with rfl | hpos
      · exact .refl _
      · have hup := up_lt hpos
        exact (ih (up i) hup (hup.trans hi)).trans (o i hpos hi)
  intro y hy
  obtain ⟨i, hi, rfl⟩ := List.mem_iff_getElem.mp (Multiset.mem_coe.mp hy)
  have hi : i < t.slots.size := by simpa using hi
  have htop : slot t.slots 0 = x := by
    rw [slot, Array.getD_eq_getD_getElem?, show t.slots[0]? = some x from top, Option.getD_some]
  have hslot : slot t.slots i = t.slots[i] := by
    rw [slot, Array.getD_eq_getD_getElem?, Array.getElem?_eq_getElem hi, Option.getD_some]
  have hle := least i hi
  rw [htop, hslot] at hle
  exact hle

theorem elements_of_empty (top : t.top? = none) : t.elements = 0 := by
  have empty : t.slots.size = 0 := by
    rw [top?, Array.getElem?_eq_none_iff] at top
    omega
  rw [elements, Array.size_eq_zero_iff.mp empty]
  rfl

theorem Ordered.pop (o : t.Ordered) {x : Timer} (top : t.top? = some x) :
    t.pop.Ordered ∧ x ::ₘ t.pop.elements = t.elements := by
  obtain ⟨slots⟩ := t
  obtain ⟨list⟩ := slots
  cases list with
  | nil => cases top
  | cons y rest =>
    obtain rfl : y = x := Option.some.inj top
    rcases List.eq_nil_or_concat' rest with rfl | ⟨middle, last, rfl⟩
    · exact ⟨ordered_empty, rfl⟩
    · -- The last timer is taken out of its slot, and sinks from the first.
      let start : Array Timer := ⟨last :: middle⟩
      have popped : TimerHeap.pop ⟨⟨y :: (middle ++ [last])⟩⟩ =
          ⟨rise 0 last (sink start.size start 0).1.size (sink start.size start 0).1
            (sink start.size start 0).2⟩ := by
        have back : (Array.mk ((y :: middle) ++ [last])).back? = some last := by
          rw [List.back?_toArray, List.getLast?_concat]
        have rest : (Array.mk ((y :: middle) ++ [last])).pop = ⟨y :: middle⟩ := by
          rw [List.pop_toArray, List.dropLast_concat]
        have put : (Array.mk (y :: middle)).setIfInBounds 0 last = start := by simp [start]
        have size : (Array.mk (y :: middle)).size = start.size := rfl
        rw [← List.cons_append, TimerHeap.pop, back]
        dsimp only
        rw [rest, if_neg (by simp), put, size]
      have sinking : SinkOrder start 0 := by
        refine ⟨Nat.succ_pos _, fun i hpos hi hne hune => ?_,
          fun hpos => absurd hpos (Nat.lt_irrefl 0)⟩
        have size : start.size = middle.length + 1 := rfl
        have old (j : Nat) (hj : 0 < j) (hlt : j < start.size) :
            slot start j = slot ⟨y :: (middle ++ [last])⟩ j := by
          obtain ⟨j, rfl⟩ := Nat.exists_eq_succ_of_ne_zero (Nat.pos_iff_ne_zero.mp hj)
          have hj : j < middle.length := by omega
          simp [slot, start, Array.getD_eq_getD_getElem?, List.getElem?_append_left hj]
        rw [old i hpos hi, old (up i) (by omega) ((up_lt hpos).trans hi)]
        exact o i hpos (by simp; omega)
      obtain ⟨sunk, size, leaf⟩ := sink_spec sinking (Nat.le_refl (start.size + 0))
      have rising : RiseOrder (sink start.size start 0).1 (sink start.size start 0).2 last := by
        refine ⟨sunk, fun i hpos hi hup => ?_⟩
        unfold up at hup
        omega
      rw [popped]
      refine ⟨inOrder_rise rising (Nat.le_of_lt sunk.within), ?_⟩
      have same : (TimerHeap.mk (start.setIfInBounds 0 last)).elements =
        last ::ₘ (middle : Multiset Timer) := by
        simp [start, elements]
      rw [elements_of_perm ((perm_rise sunk.within).trans (perm_sink sinking.within last)), same,
        elements]
      simp only [Multiset.cons_coe, Multiset.coe_eq_coe]
      exact .cons _ (List.perm_append_singleton last middle).symm

end TimerHeap

namespace Loop

variable {κ η ε ν : Type} {l : Loop κ η ε ν} {fuel : Nat}

/-- Only timers that were cancelled are dropped.  What was dropped and what is left make up the
timers as they were. -/
theorem dropCancelled_spec (o : l.timers.Ordered) (fuel : Nat) :
    ∃ t dropped, dropCancelled fuel l = { l with timers := t } ∧ t.Ordered ∧
      dropped + t.elements = l.timers.elements ∧ ∀ x ∈ dropped, Assoc.has x.id l.live = false := by
  induction fuel generalizing l with
  | zero =>
    exact ⟨l.timers, 0, rfl, o, Multiset.zero_add _, fun x hx => absurd hx (Multiset.notMem_zero x)⟩
  | succ fuel ih =>
    have stays : ∃ t dropped, l = { l with timers := t } ∧ t.Ordered ∧
        dropped + t.elements = l.timers.elements ∧ ∀ x ∈ dropped, Assoc.has x.id l.live = false :=
      ⟨l.timers, 0, rfl, o, Multiset.zero_add _, fun x hx => absurd hx (Multiset.notMem_zero x)⟩
    rw [dropCancelled]
    split
    · next first top =>
      split
      · exact stays
      · next gone =>
        obtain ⟨popped, elements⟩ := o.pop top
        obtain ⟨t, dropped, eq, ordered, rest, dead⟩ :=
          ih (l := { l with timers := l.timers.pop }) popped
        refine ⟨t, first ::ₘ dropped, eq, ordered, ?_, fun x hx => ?_⟩
        · rw [Multiset.cons_add, rest]
          exact elements
        · rcases Multiset.mem_cons.mp hx with rfl | hx
          · exact Bool.eq_false_iff.mpr gone
          · exact dead x hx
    · exact stays

/-- Of the timers of a loop those that are due have become ready, and the others are left.  No timer
is taken before its time, and none that is due stays behind one that is not. -/
structure Takes (l m : Loop κ η ε ν) (taken : List Timer) : Prop where
  eq : m = { l with timers := m.timers, ready := l.ready ++ taken.map fun x => .timer x.id }
  ordered : m.timers.Ordered
  elements : (taken : Multiset Timer) + m.timers.elements = l.timers.elements
  due : ∀ x ∈ taken, x.isDue l.now = true
  late : ∀ x ∈ m.timers.elements, x.isDue l.now = false

theorem Takes.nothing (o : l.timers.Ordered)
    (late : ∀ x ∈ l.timers.elements, x.isDue l.now = false) :
    Takes l l [] where
  eq := by rw [List.map_nil, List.append_nil]
  ordered := o
  elements := Multiset.zero_add _
  due := List.forall_mem_nil _
  late := late

theorem takes_takeDue (o : l.timers.Ordered) (enough : l.timers.elements.card ≤ fuel) :
    ∃ taken, Takes l (takeDue fuel l) taken := by
  -- Each timer that is taken costs one unit of fuel, so the number of timers is enough.
  induction fuel generalizing l with
  | zero =>
    refine ⟨[], .nothing o fun x hx => ?_⟩
    rw [Multiset.card_eq_zero.mp (Nat.le_zero.mp enough)] at hx
    exact absurd hx (Multiset.notMem_zero x)
  | succ fuel ih =>
    rw [takeDue]
    split
    · next first top =>
      split
      · next due =>
        obtain ⟨popped, elements⟩ := o.pop top
        obtain ⟨taken, rest⟩ :=
          ih (l := ({ l with timers := l.timers.pop }).enqueue [.timer first.id])
          popped (by
            rw [← elements, Multiset.card_cons] at enough
            exact Nat.le_of_succ_le_succ enough)
        refine ⟨first :: taken, ⟨?_, rest.ordered, ?_, fun x hx => ?_, rest.late⟩⟩
        · rw [rest.eq]
          simp [enqueue]
        · rw [← Multiset.cons_coe, Multiset.cons_add, rest.elements]
          exact elements
        · rcases List.mem_cons.mp hx with rfl | hx
          · exact due
          · exact rest.due x hx
      · next notDue =>
        refine ⟨[], .nothing o fun x hx => Bool.eq_false_iff.mpr fun due => notDue ?_⟩
        exact (o.first top x hx).isDue due
    · next empty =>
      refine ⟨[], .nothing o fun x hx => ?_⟩
      rw [TimerHeap.elements_of_empty empty] at hx
      exact absurd hx (Multiset.notMem_zero x)

/-- The next timer is due no later than any timer that was not cancelled. -/
theorem nextDue?_le (o : l.timers.Ordered) {x : Timer} (hx : x ∈ l.timers.elements)
    (live : Assoc.has x.id l.live = true) {d : Instant} (due : x.due = some d) :
    ∃ next, l.nextDue? = some next ∧ next ≤ d := by
  obtain ⟨t, dropped, eq, ordered, elements, dead⟩ := dropCancelled_spec o l.timers.size
  have left : x ∈ t.elements := by
    rw [← elements] at hx
    refine (Multiset.mem_add.mp hx).resolve_left fun gone => ?_
    rw [dead x gone] at live
    cases live
  rw [nextDue?, eq]
  dsimp only
  cases top : t.top? with
  | none =>
    rw [TimerHeap.elements_of_empty top] at left
    exact absurd left (Multiset.notMem_zero x)
  | some first =>
    have isDue : x.isDue d = true := by simp [Timer.isDue, due]
    have hdue := (ordered.first top x left).isDue isDue
    unfold Timer.isDue at hdue
    rw [Option.bind_some]
    cases hfirst : first.due with
    | none =>
      rw [hfirst] at hdue
      cases hdue
    | some next =>
      rw [hfirst] at hdue
      exact ⟨next, rfl, of_decide_eq_true hdue⟩

theorem dropCancelled_clock (now : Instant) (fuel : Nat) :
    dropCancelled fuel { l with now } = { dropCancelled fuel l with now } := by
  induction fuel generalizing l with
  | zero => rfl
  | succ fuel ih =>
    rw [dropCancelled, dropCancelled]
    dsimp only
    cases l.timers.top? with
    | none => rfl
    | some t =>
      dsimp only
      split
      · rfl
      · exact ih (l := { l with timers := l.timers.pop })

/-- When the next timer is due does not depend on the clock. -/
theorem nextDue?_clock (l : Loop κ η ε ν) (now : Instant) :
    { l with now }.nextDue? = l.nextDue? := by
  rw [nextDue?, nextDue?, dropCancelled_clock]

end Loop

end PikeAnalysis.Concurrency
