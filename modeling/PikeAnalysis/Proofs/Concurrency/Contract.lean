import Mathlib.Logic.Relation
import PikeAnalysis.Concurrency.Machine

/-!
# What a task owes the others

A task runs undisturbed from one wait to the next, and anything may happen while it waits.  A
contract says which changes the task may make, and what holds whenever it waits; in return the task
may rely on the same when it goes on.  `Routine.Keeps` says that a routine abides by a contract and
ends only where its postcondition holds.

The rules follow the ways in which routines are put together.  `Machine.proceed_keeps` says what a
turn of a task that keeps its contract does to the machine.

The definition follows the routine: reading the state gives a condition at the state that is read,
replacing it asks for the change to be allowed, and a wait asks that the task may wait there and
then takes the state for any other one in which it may.  The last is where interleaving enters, and
the only place.  Contracts do not mention the loop, so they can be given for a part of the state
only; `proceed_keeps` ties them to what the machine does in a turn.
-/

namespace PikeAnalysis.Concurrency

/-- What a task may do and what it may rely on.  What the task may rely on is `pause`, which holds
again after every wait: whoever else runs meanwhile has to see to that. -/
structure Contract (σ κ : Type) where
  /-- The changes that the task may make. -/
  step : σ → σ → Prop
  /-- What the task may wait for. -/
  waits : Signal → Prop
  /-- What holds when the task starts to wait, and again when it goes on. -/
  pause : σ → Prop
  /-- The jobs as which the task may start over after a wait. -/
  renews : κ → Prop

namespace Routine

variable {σ ε ν κ α β : Type} {c : Contract σ κ}

/-- A routine abides by a contract from a state on, and ends only where the postcondition holds.  It
is defined by recursion on the routine, so proving it is going through the routine once. -/
def Keeps (c : Contract σ κ) (post : Ending ε α → σ → Prop) : Routine σ ε ν κ α → σ → Prop
  | .done a, s => post (.value a) s
  | .fail e, s => post (.error e) s
  | .cancelled, s => post .cancelled s
  | .get k, s => Keeps c post (k s) s
  | .set t next, s => c.step s t ∧ Keeps c post next t
  | .wait signal k, s =>
    c.waits signal ∧ c.pause s ∧ ∀ ending t, c.pause t → Keeps c post (k ending) t
  | .renew signal job, s => c.waits signal ∧ c.pause s ∧ c.renews job

variable {post : Ending ε α → σ → Prop} {post' : Ending ε β → σ → Prop}

@[simp] theorem bind_eq_andThen (r : Routine σ ε ν κ α) (f : α → Routine σ ε ν κ β) :
    r >>= f = r.andThen f := rfl

@[simp] theorem pure_eq_done (a : α) : (pure a : Routine σ ε ν κ α) = .done a := rfl

theorem Keeps.onEnd {r : Routine σ ε ν κ α} {f : Ending ε α → Routine σ ε ν κ β} {s : σ}
    (h : Keeps c post r s) (next : ∀ ending t, post ending t → Keeps c post' (f ending) t) :
    Keeps c post' (r.onEnd f) s := by
  induction r generalizing s with
  | done | fail | cancelled => exact next _ _ h
  | renew => exact h
  | get k ih => exact ih s h
  | set t rest ih => exact ⟨h.1, ih h.2⟩
  | wait signal k ih => exact ⟨h.1, h.2.1, fun ending t ht => ih ending (h.2.2 ending t ht)⟩

theorem Keeps.andThen {r : Routine σ ε ν κ α} {f : α → Routine σ ε ν κ β} {s : σ}
    (h : Keeps c post r s) (value : ∀ a t, post (.value a) t → Keeps c post' (f a) t)
    (error : ∀ e t, post (.error e) t → post' (.error e) t)
    (cancelled : ∀ t, post .cancelled t → post' .cancelled t) : Keeps c post' (r.andThen f) s := by
  induction r generalizing s with
  | done => exact value _ _ h
  | fail => exact error _ _ h
  | cancelled => exact cancelled _ h
  | renew => exact h
  | get k ih => exact ih s h
  | set t rest ih => exact ⟨h.1, ih h.2⟩
  | wait signal k ih => exact ⟨h.1, h.2.1, fun ending t ht => ih ending (h.2.2 ending t ht)⟩

theorem keeps_ofEnding {ending : Ending ε α} {s : σ} (h : post ending s) :
    Keeps c post (ofEnding ending : Routine σ ε ν κ α) s := by
  cases ending with
  | value | error | cancelled => exact h

/-- What is done after a routine, however it ends, is one more change. -/
theorem Keeps.always {post' : Ending ε α → σ → Prop} {r : Routine σ ε ν κ α} {f : σ → σ} {s : σ}
    (h : Keeps c post r s) (step : ∀ ending t, post ending t → c.step t (f t))
    (after : ∀ ending t, post ending t → post' ending (f t)) : Keeps c post' (r.always f) s :=
  h.onEnd fun ending t ht => ⟨step ending t ht, keeps_ofEnding (after ending t ht)⟩

theorem keeps_act_andThen {f : σ → σ × α} {k : α → Routine σ ε ν κ β} {s : σ}
    (step : c.step s (f s).1) (next : Keeps c post' (k (f s).2) (f s).1) :
    Keeps c post' ((act f).andThen k) s :=
  ⟨step, next⟩

theorem keeps_read_andThen {f : σ → α} {k : α → Routine σ ε ν κ β} {s : σ}
    (next : Keeps c post' (k (f s)) s) : Keeps c post' ((read f).andThen k) s :=
  next

theorem keeps_modify {post : Ending ε Unit → σ → Prop} {f : σ → σ} {s : σ} (step : c.step s (f s))
    (after : post (.value ()) (f s)) : Keeps c post (modify f : Routine σ ε ν κ Unit) s :=
  ⟨step, after⟩

end Routine

namespace Machine

variable {σ ε ν κ η : Type} [HasLoop σ κ η ε ν] {c : Contract σ κ} {post : Ending ε ν → σ → Prop}

/-- Where a routine that keeps its contract may stop.  At its end the postcondition holds; at a wait
the state is one that may be left, and whatever has become of it by then, the rest keeps the
contract. -/
def KeptAt (c : Contract σ κ) (post : Ending ε ν → σ → Prop) (s : σ) : Stop σ ε ν κ → Prop
  | .ended e => post e s
  | .waits signal rest =>
    c.waits signal ∧ c.pause s ∧ ∀ ending t, c.pause t → (rest ending).Keeps c post t
  | .renews signal job => c.waits signal ∧ c.pause s ∧ c.renews job

/-- A routine that keeps its contract makes only changes that this allows.  The changes up to the
next wait are put together, since nobody sees the state in between. -/
theorem runRoutine_keeps {r : Routine σ ε ν κ ν} {s : σ} (h : r.Keeps c post s) :
    Relation.ReflTransGen c.step s (runRoutine r s).1 ∧
      KeptAt c post (runRoutine r s).1 (runRoutine r s).2 := by
  induction r generalizing s with
  | done | fail | cancelled | renew => exact ⟨.refl, h⟩
  | get k ih => exact ih s h
  | set t next ih => exact ⟨.head h.1 (ih h.2).1, (ih h.2).2⟩
  | wait signal k ih =>
    rw [runRoutine]
    cases he : (HasLoop.loop s).ending? signal with
    | none => exact ⟨.refl, h⟩
    | some e => exact ih e (h.2.2 e s h.2.1)

/-- The state in which it is a task's turn.  Only the number of the current task differs. -/
def turnOf (t : Nat) (s : σ) : σ :=
  HasLoop.update s fun l => { l with current := t }

/-- What a turn comes to, by where its routine stops.  It ends, it waits with the rest of its
routine, or it waits with another job to begin afterwards. -/
theorem proceed_eq (rules : Rules σ ε ν κ η) (m : Machine σ ε ν κ) (t : Nat) (r : Routine σ ε ν κ ν)
    {s : σ} {stop : Stop σ ε ν κ} (run : runRoutine r (turnOf t m.state) = (s, stop)) :
    m.proceed rules t r =
      match stop with
      | .ended e => ⟨HasLoop.update s fun l => conclude l t e, m.suspended⟩
      | .waits signal rest =>
        ⟨HasLoop.update s fun l => suspend l t signal, (t, rest) :: m.suspended⟩
      | .renews signal job =>
        ⟨HasLoop.update s fun l => suspend l t signal, (t, rules.renewed job) :: m.suspended⟩ := by
  have hrun : runRoutine r (m.updateLoop fun l => { l with current := t }).state =
      (s, stop) := run
  rw [proceed, hrun]
  cases stop <;> rfl

/-- What a turn of a task leaves behind that began in a state: the task has ended, or it waits and
goes on as its contract says. -/
inductive Left (c : Contract σ κ) (post : Ending ε ν → σ → Prop) (t : Nat) (start : σ)
    (suspended : List (Nat × Rest σ ε ν κ)) : Machine σ ε ν κ → Prop
  | ended {s : σ} (e : Ending ε ν) (steps : Relation.ReflTransGen c.step start s)
    (holds : post e s) :
    Left c post t start suspended
      { state := HasLoop.update s fun l => conclude l t e, suspended }
  | waits {s : σ} (signal : Signal) (rest : Rest σ ε ν κ)
      (steps : Relation.ReflTransGen c.step start s) (allowed : c.waits signal)
      (holds : c.pause s) (keeps : ∀ ending u, c.pause u → (rest ending).Keeps c post u) :
    Left c post t start suspended
      { state := HasLoop.update s fun l => suspend l t signal, suspended := (t, rest) :: suspended }

/-- A turn of a task that keeps its contract, and so does each job as which it may start over.
Starting over is part of the same turn, so the induction is on the routine and covers it. -/
theorem proceed_keeps (rules : Rules σ ε ν κ η) (t : Nat)
    (renewed : ∀ job ending s, c.renews job → c.pause s → (rules.renewed job ending).Keeps c post s)
    (m : Machine σ ε ν κ) (routine : Routine σ ε ν κ ν)
    (h : routine.Keeps c post (turnOf t m.state)) :
    Left c post t (turnOf t m.state) m.suspended (m.proceed rules t routine) := by
  obtain ⟨steps, kept⟩ := runRoutine_keeps h
  cases hrun : runRoutine routine (turnOf t m.state) with
  | mk s stop =>
    rw [hrun] at steps kept
    rw [proceed_eq rules m t routine hrun]
    cases stop with
    | ended e => exact .ended e steps kept
    | waits signal rest => exact .waits signal rest steps kept.1 kept.2.1 kept.2.2
    | renews signal job =>
      exact .waits signal _ steps kept.1 kept.2.1 fun ending u hu =>
        renewed job ending u kept.2.2 hu

end Machine

end PikeAnalysis.Concurrency
