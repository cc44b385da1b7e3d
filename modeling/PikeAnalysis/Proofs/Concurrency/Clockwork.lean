import PikeAnalysis.Concurrency.Machine
import PikeAnalysis.Proofs.Concurrency.Tasks

/-!
# What leaves the clock alone

Tasks come and go, signals are raised and timers fire while the clock stands still: only the outside
moves it.  None of the operations of the loop changes the time (`Loop.now_raise`, `Loop.now_follow`,
`Loop.clock_cancel`, `Loop.now_takeDue`).

The simulation moves the clock only when everything that is due has been done, and it counts on the
timers of a moment being those that were started before it.  Both are read off the lemmas here: an
operation of the loop either leaves the heap of timers as it is, or adds one timer, or drops some
from the top.  `raise_eq` says at once what raising a signal may touch, which is the queue and the
signals, and most of the others follow from it.
-/

namespace PikeAnalysis.Concurrency.Loop

variable {κ η ε ν : Type}

/-! ## What raising leaves alone -/

theorem raise_eq (l : Loop κ η ε ν) (s : Signal) (e : Ending ε ν) :
    l.raise s e = { l with ready := (l.raise s e).ready, signals := (l.raise s e).signals } := by
  cases hending : (l.signalState s).ending with
  | some e' => rw [raise_of_ended hending]
  | none =>
    rw [raise_of_open hending]
    rfl

@[simp] theorem timers_raise (l : Loop κ η ε ν) (s : Signal) (e : Ending ε ν) :
    (l.raise s e).timers = l.timers := by rw [raise_eq]

@[simp] theorem now_raise (l : Loop κ η ε ν) (s : Signal) (e : Ending ε ν) :
    (l.raise s e).now = l.now := by rw [raise_eq]

@[simp] theorem nextTimer_raise (l : Loop κ η ε ν) (s : Signal) (e : Ending ε ν) :
    (l.raise s e).nextTimer = l.nextTimer := by rw [raise_eq]

@[simp] theorem nextTask_raise (l : Loop κ η ε ν) (s : Signal) (e : Ending ε ν) :
    (l.raise s e).nextTask = l.nextTask := by rw [raise_eq]

@[simp] theorem task?_raise (l : Loop κ η ε ν) (s : Signal) (e : Ending ε ν) (t : Nat) :
    (l.raise s e).task? t = l.task? t :=
  (SameTasks.raise (.refl l) s e).task? t

@[simp] theorem timers_follow (l : Loop κ η ε ν) (s : Signal) (f : Follower η) :
    (l.follow s f).timers = l.timers := by
  rw [follow]
  split <;> rfl

@[simp] theorem now_follow (l : Loop κ η ε ν) (s : Signal) (f : Follower η) :
    (l.follow s f).now = l.now := by
  rw [follow]
  split <;> rfl

/-- Cancelling a task stops no timer.  Those that a cancelled task has set fire in vain. -/
theorem clock_cancelTask (fuel : Nat) (l : Loop κ η ε ν) (t : Nat) :
    (cancelTask fuel l t).1.timers = l.timers ∧ (cancelTask fuel l t).1.now = l.now := by
  induction fuel generalizing l t with
  | zero => exact ⟨rfl, rfl⟩
  | succ fuel ih =>
    unfold cancelTask
    split
    · exact ⟨rfl, rfl⟩
    · next st _ =>
      dsimp only
      split
      · exact ⟨rfl, rfl⟩
      · next other _ =>
        split
        · exact ih (l.setTask t { st with cancels := st.cancels + 1 }) other
        · exact ⟨rfl, rfl⟩
      · split
        · exact ⟨rfl, rfl⟩
        · exact ⟨timers_raise .., now_raise ..⟩

theorem clock_cancel (l : Loop κ η ε ν) (t : Nat) :
    (l.cancel t).1.timers = l.timers ∧ (l.cancel t).1.now = l.now :=
  clock_cancelTask _ l t

theorem clock_suspend (l : Loop κ η ε ν) (t : Nat) (s : Signal) :
    (Machine.suspend l t s).timers = l.timers ∧ (Machine.suspend l t s).now = l.now := by
  unfold Machine.suspend
  split
  · exact ⟨rfl, rfl⟩
  · next st _ =>
    dsimp only
    split
    · split
      · next other =>
        obtain ⟨timers, now⟩ := clock_cancel ((l.setTask t
          { st with waiting := some (.ended other), mustCancel := false }).follow
            (.ended other) (.resume t)) other
        exact ⟨timers.trans (timers_follow ..), now.trans (now_follow ..)⟩
      · exact ⟨(timers_raise ..).trans (timers_follow ..), (now_raise ..).trans (now_follow ..)⟩
    · exact ⟨timers_follow .., now_follow ..⟩

theorem clock_fireTimer (l : Loop κ η ε ν) (v : ν) (id : Nat) :
    (Machine.fireTimer l v id).timers = l.timers ∧ (Machine.fireTimer l v id).now = l.now := by
  unfold Machine.fireTimer
  split
  · exact ⟨rfl, rfl⟩
  · next action _ =>
    cases action with
    | raise s => exact ⟨timers_raise .., now_raise ..⟩
    | expire t => exact clock_cancel { l.stopTimer id with expired := id :: l.expired } t

/-! ## The rest -/

theorem now_finish (l : Loop κ η ε ν) (t : Nat) (e : Ending ε ν) : (l.finish t e).now = l.now :=
  now_raise ..

theorem now_conclude (l : Loop κ η ε ν) (t : Nat) (e : Ending ε ν) :
    (Machine.conclude l t e).now = l.now := by
  cases e <;> exact now_finish ..

theorem now_countPart (l : Loop κ η ε ν) (v : ν) (n : Nat) : (l.countPart v n).now = l.now := by
  unfold countPart
  split
  · rfl
  · split
    · exact now_raise ..
    · rfl

theorem now_joinAll (l : Loop κ η ε ν) (signals : List Signal) :
    (l.joinAll signals).1.now = l.now := by
  have joined (n : Nat) (m : Loop κ η ε ν) :
      (signals.foldl (fun l s => l.follow s (.part n)) m).now = m.now := by
    induction signals generalizing m with
    | nil => rfl
    | cons s rest ih => exact (ih _).trans (now_follow ..)
  unfold joinAll
  split
  · rfl
  · exact joined _ _

theorem now_startLimit (l : Loop κ η ε ν) (d : Duration) : (l.startLimit d).1.now = l.now := by
  unfold startLimit
  split
  · split <;> rfl
  · rfl

theorem now_stopLimit (l : Loop κ η ε ν) (id : Nat) : (l.stopLimit id).1.now = l.now := by
  unfold stopLimit
  split
  · dsimp only
    split <;> rfl
  · rfl

theorem now_dropCancelled (fuel : Nat) (l : Loop κ η ε ν) : (l.dropCancelled fuel).now = l.now := by
  induction fuel generalizing l with
  | zero => rfl
  | succ fuel ih =>
    unfold dropCancelled
    split
    · split
      · rfl
      · exact ih _
    · rfl

theorem now_takeDue (fuel : Nat) (l : Loop κ η ε ν) : (l.takeDue fuel).now = l.now := by
  induction fuel generalizing l with
  | zero => rfl
  | succ fuel ih =>
    unfold takeDue
    split
    · split
      · exact ih _
      · rfl
    · rfl

end PikeAnalysis.Concurrency.Loop
