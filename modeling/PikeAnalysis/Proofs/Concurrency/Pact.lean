import PikeAnalysis.Proofs.Concurrency.Discipline
import PikeAnalysis.Proofs.Concurrency.Trust

/-!
# Tasks that rely on how others end

A pact says how tasks end, what always holds, and what a task relies on except in its own turn.  A
routine honours it (`Pact.Honours`) if it leaves everything in order, waits only for signals whose
endings it can cope with, and ends as its job may end.  If every job honours the pact, it holds
along every course (`Pact.Lawful.leads`), and what somebody may count on is never let down.

Unlike a `Discipline`, a pact knows what is left of the round and how things end; in return it has
no timers, and tasks end as the job as which they began.

A pact is made for programs in which tasks wait for tasks, such as the engine.  There a claim about
an answer is a claim about a chain of endings: the index ends a load in one of some ways, so whoever
shares the load gets one of them, and so does the handler that asked.  `Terms` say how each kind of
job may end, `Counts` says what a task that waits may expect of its signal, and the rule for waiting
(`Pact.honours_awaitTask`) turns the one into the other.

A job is shown to honour the pact with `Pact.Gives`, which speaks of results rather than of states:
a value satisfies this, an error satisfies that, and it ends cancelled only if it may.  It is closed
under every way of putting routines together, so for most of the engine's jobs the proof is the text
of the job again.
-/

namespace PikeAnalysis.Concurrency

variable {σ ε ν κ η ω α β : Type} [HasLoop σ κ η ε ν]

/-- What tasks owe one another.  The invariant may speak of what is ready, as whether something will
still be done is part of what a task relies on. -/
structure Pact (σ : Type) {κ η ε ν : outParam Type} [HasLoop σ κ η ε ν] where
  terms : Terms κ ε ν
  /-- What always holds, given what is left of the round. -/
  inv : Multiset (Ready η) → σ → Prop
  /-- What a task with a job relies on, except in its own turn. -/
  relies : Nat → κ → σ → Prop
  inv_drop : ∀ {i Q s}, inv (i ::ₘ Q) s → inv Q s
  /-- No more is asked of the loop than that nobody is let down and no hooks are added. -/
  inv_loop : ∀ {X own Q Q' s m}, inv Q s → Loop.Faithful terms X own Q Q' (HasLoop.loop s) m →
    (∀ k s', Loop.pending Q' m (.follow (.hook k) s') ≤
      Loop.pending Q (HasLoop.loop s) (.follow (.hook k) s')) →
    inv Q' (HasLoop.withLoop s m)
  relies_loop : ∀ {t job s} (m : Loop κ η ε ν), relies t job s → relies t job (HasLoop.withLoop s m)

/-- A task takes its turn: its job, what it does then, and the machine in which it does it.  There
are two ways: a task that was created begins with the routine of its job, and one that waited goes
on with what it left behind, given the ending of what it waited for. -/
inductive Machine.Begins (rules : Rules σ ε ν κ η) (m : Machine σ ε ν κ) :
    Ready η → Nat → κ → Routine σ ε ν κ ν → Machine σ ε ν κ → Prop
  | starts {t st} (task : m.loop.task? t = some st) (unmarked : st.mustCancel = false) :
    Begins rules m (.start t) t st.job (rules.body st.job) m
  | resumes {t st rest signal} (task : m.loop.task? t = some st)
    (waiting : Assoc.get? t m.suspended = some rest) :
    Begins rules m (.follow (.resume t) signal) t st.job
      (rest (if st.mustCancel then .cancelled else (m.loop.ending? signal).getD .cancelled))
      ({ m with suspended := Assoc.erase t m.suspended }.updateLoop fun l =>
        l.setTask t { st with waiting := none, mustCancel := false })

theorem Machine.Begins.runReady {rules : Rules σ ε ν κ η} {m m' : Machine σ ε ν κ}
    {i : Ready η} {t : Nat} {job : κ} {r : Routine σ ε ν κ ν} (h : m.Begins rules i t job r m') :
    m.runReady rules i = m'.proceed rules t r := by
  cases h with
  | starts task unmarked =>
    rw [Machine.runReady, startTask, task]
    simp only [unmarked, Bool.false_eq_true, if_false]
  | resumes task waiting => rw [Machine.runReady, resumeTask, task, waiting]

theorem Machine.Begins.jobOf {rules : Rules σ ε ν κ η} {m m' : Machine σ ε ν κ}
    {i : Ready η} {t : Nat} {job : κ} {r : Routine σ ε ν κ ν} (h : m.Begins rules i t job r m') :
    (HasLoop.loop m.state).jobOf t = some job := by
  cases h with
  | starts task _ | resumes task _ => exact Loop.jobOf_of_task? task

namespace Pact

variable (P : Pact σ)

/-- What holds between two turns, or in the turn of a task.  The task whose turn it is, if there is
one, is left out where the others are spoken of: what the pact relies on for it is said by the
routine that it is about to do. -/
structure Sound (own : Option Nat) (Q : Multiset (Ready η)) (s : σ) : Prop where
  orderly : (HasLoop.loop s).Orderly own Q
  fair : (HasLoop.loop s).Fair P.terms
  inv : P.inv Q s
  relies : ∀ t job, own ≠ some t → (HasLoop.loop s).jobOf t = some job → P.relies t job s

/-- What holds in the turn of a task with a job.  Its job is part of the statement because what a
task may do depends on it, and because the loop could otherwise know nothing of the task. -/
structure Amid (t : Nat) (job : κ) (Q : Multiset (Ready η)) (s : σ) : Prop extends
    P.Sound (some t) Q s where
  job : (HasLoop.loop s).jobOf t = some job

/-- A change in the turn of a task.  Nothing is made ready by it that was not ready before; where
something is, the change is a different one, with a queue before and a queue after. -/
structure Steps (t : Nat) (job : κ) (Q : Multiset (Ready η)) (s u : σ) : Prop where
  amid : P.Amid t job Q u
  faithful : Loop.Faithful P.terms Loop.Nothing (some t) Q Q (HasLoop.loop s) (HasLoop.loop u)

/-- What a task with a job counts on of a signal that it waits for: that it ends as said, and as
cancelled only if that has been passed on or the task itself is cancelled. -/
def Counts (t : Nat) (job : κ) (Q : Multiset (Ready η)) (signal : Signal)
    (W : Ending ε ν → Prop) (s : σ) :
    Prop :=
  (P.terms.cancels t job → W .cancelled) ∧ (HasLoop.loop s).Trusts P.terms Q signal W

/-- A routine of a task with a job honours a pact from a state on, and ends only where its
postcondition holds.  After a wait the state may be any in which the pact holds and what the task
relies on is still true; how the signal has ended is only known to be among what could be counted
on. -/
def Honours (P : Pact σ) (t : Nat) (job : κ)
    (post : Multiset (Ready η) → Ending ε α → σ → Prop) :
    Routine σ ε ν κ α → Multiset (Ready η) → σ → Prop
  | .done a, Q, s => P.Amid t job Q s ∧ post Q (.value a) s
  | .fail e, Q, s => P.Amid t job Q s ∧ post Q (.error e) s
  | .cancelled, Q, s => P.Amid t job Q s ∧ post Q .cancelled s
  | .get k, Q, s => Honours P t job post (k s) Q s
  | .set u next, Q, s => P.Steps t job Q s u ∧ Honours P t job post next Q u
  | .wait signal k, Q, s => P.Amid t job Q s ∧ P.relies t job s ∧
      ((HasLoop.loop s).ending? signal ≠ none ∨ (HasLoop.loop s).Reserved t signal) ∧
      ∃ W, P.Counts t job Q signal W s ∧ ∀ ending Q' u, W ending → P.Amid t job Q' u →
        P.relies t job u → Honours P t job post (k ending) Q' u
  | .renew .., _, _ => False

variable {P} {t : Nat} {job : κ} {Q Q' : Multiset (Ready η)} {s u : σ}
  {post : Multiset (Ready η) → Ending ε α → σ → Prop}
  {post' : Multiset (Ready η) → Ending ε β → σ → Prop}

/-! ## Rules -/

theorem Steps.refl (h : P.Amid t job Q s) : P.Steps t job Q s s :=
  ⟨h, .refl _⟩

theorem Amid.lt_next (h : P.Amid t job Q s) : t < (HasLoop.loop s).nextTask :=
  h.orderly.fresh.lt_of_jobOf h.job

theorem Amid.own_ne_next (h : P.Amid t job Q s) : some t ≠ some (HasLoop.loop s).nextTask :=
  fun he => Nat.ne_of_lt h.lt_next (Option.some.inj he)

theorem Honours.onEnd {r : Routine σ ε ν κ α} {f : Ending ε α → Routine σ ε ν κ β}
    (h : P.Honours t job post r Q s)
    (next : ∀ ending Q u, P.Amid t job Q u → post Q ending u →
      P.Honours t job post' (f ending) Q u) :
    P.Honours t job post' (r.onEnd f) Q s := by
  induction r generalizing Q s with
  | done | fail | cancelled => exact next _ _ _ h.1 h.2
  | renew => exact h.elim
  | get k ih => exact ih s h
  | set v rest ih => exact ⟨h.1, ih h.2⟩
  | wait signal k ih =>
    obtain ⟨hamid, hrelies, ready, W, counts, rest⟩ := h
    exact ⟨hamid, hrelies, ready, W, counts, fun ending Q' u he ha hr =>
      ih ending (rest ending Q' u he ha hr)⟩

theorem Honours.andThen {r : Routine σ ε ν κ α} {f : α → Routine σ ε ν κ β}
    (h : P.Honours t job post r Q s)
    (value : ∀ a Q u, P.Amid t job Q u → post Q (.value a) u → P.Honours t job post' (f a) Q u)
    (error : ∀ e Q u, post Q (.error e) u → post' Q (.error e) u)
    (cancelled : ∀ Q u, post Q .cancelled u → post' Q .cancelled u) :
    P.Honours t job post' (r.andThen f) Q s := by
  induction r generalizing Q s with
  | done => exact value _ _ _ h.1 h.2
  | fail => exact ⟨h.1, error _ _ _ h.2⟩
  | cancelled => exact ⟨h.1, cancelled _ _ h.2⟩
  | renew => exact h.elim
  | get k ih => exact ih s h
  | set v rest ih => exact ⟨h.1, ih h.2⟩
  | wait signal k ih =>
    obtain ⟨hamid, hrelies, ready, W, counts, rest⟩ := h
    exact ⟨hamid, hrelies, ready, W, counts, fun ending Q' u he ha hr =>
      ih ending (rest ending Q' u he ha hr)⟩

theorem Honours.mono {post' : Multiset (Ready η) → Ending ε α → σ → Prop} {r : Routine σ ε ν κ α}
    (h : P.Honours t job post r Q s) (le : ∀ Q ending u, post Q ending u → post' Q ending u) :
    P.Honours t job post' r Q s := by
  induction r generalizing Q s with
  | done | fail | cancelled => exact ⟨h.1, le _ _ _ h.2⟩
  | renew => exact h.elim
  | get k ih => exact ih s h
  | set v rest ih => exact ⟨h.1, ih h.2⟩
  | wait signal k ih =>
    obtain ⟨hamid, hrelies, ready, W, counts, rest⟩ := h
    exact ⟨hamid, hrelies, ready, W, counts, fun ending Q' u he ha hr =>
      ih ending (rest ending Q' u he ha hr)⟩

theorem honours_ofEnding {ending : Ending ε α} (h : P.Amid t job Q s) (hpost : post Q ending s) :
    P.Honours t job post (Routine.ofEnding ending) Q s := by
  cases ending with
  | value | error | cancelled => exact ⟨h, hpost⟩

theorem honours_act_andThen {f : σ → σ × α} {k : α → Routine σ ε ν κ β}
    (step : P.Steps t job Q s (f s).1) (next : P.Honours t job post' (k (f s).2) Q (f s).1) :
    P.Honours t job post' ((Routine.act f).andThen k) Q s :=
  ⟨step, next⟩

theorem honours_modify_andThen {f : σ → σ} {k : Unit → Routine σ ε ν κ β}
    (step : P.Steps t job Q s (f s)) (next : P.Honours t job post' (k ()) Q (f s)) :
    P.Honours t job post' ((Routine.modify f).andThen k) Q s :=
  ⟨step, next⟩

theorem honours_read_andThen {f : σ → α} {k : α → Routine σ ε ν κ β}
    (next : P.Honours t job post' (k (f s)) Q s) :
    P.Honours t job post' ((Routine.read f).andThen k) Q s :=
  next

/-! ## Results -/

/-- A value or an error is as said, and so is whether it may end cancelled. -/
def Meets (V : α → Prop) (E : ε → Prop) (C : Prop) : Ending ε α → Prop
  | .value a => V a
  | .error e => E e
  | .cancelled => C

/-- In the turns of a task with a job a routine honours a pact, the task relies on the same
afterwards, and what comes of the routine is as said.  It ends cancelled only if the task may.  It
is the form in which the results of the parts of a program are stated. -/
def Gives (P : Pact σ) (t : Nat) (job : κ) (r : Routine σ ε ν κ α) (V : α → Prop)
    (E : ε → Prop) : Prop :=
  ∀ Q s, P.Amid t job Q s → P.relies t job s →
    P.Honours t job
      (fun _ ending u => P.relies t job u ∧ Meets V E (P.terms.comes t job .cancelled) ending)
      r Q s

variable {V : α → Prop} {V' : β → Prop} {E E' : ε → Prop} {C : Prop}

theorem gives_done {a : α} (h : V a) : P.Gives t job (.done a) V E :=
  fun _ _ amid relies => ⟨amid, relies, h⟩

theorem gives_fail {e : ε} (h : E e) : P.Gives t job (.fail e : Routine σ ε ν κ α) V E :=
  fun _ _ amid relies => ⟨amid, relies, h⟩

theorem gives_cancelled (h : P.terms.comes t job .cancelled) :
    P.Gives t job (.cancelled : Routine σ ε ν κ α) V E :=
  fun _ _ amid relies => ⟨amid, relies, h⟩

theorem Meets.mono {V V' : α → Prop} {C' : Prop} {ending : Ending ε α} (h : Meets V E C ending)
    (value : ∀ a, V a → V' a) (error : ∀ e, E e → E' e) (cancelled : C → C') :
    Meets V' E' C' ending := by
  cases ending with
  | value a => exact value a h
  | error e => exact error e h
  | cancelled => exact cancelled h

theorem Gives.mono {V' : α → Prop} {r : Routine σ ε ν κ α} (h : P.Gives t job r V E)
    (value : ∀ a, V a → V' a) (error : ∀ e, E e → E' e) : P.Gives t job r V' E' :=
  fun Q s amid relies => (h Q s amid relies).mono
    fun _ _ _ ⟨hrelies, he⟩ => ⟨hrelies, he.mono value error id⟩

theorem Gives.andThen {r : Routine σ ε ν κ α} {f : α → Routine σ ε ν κ β} (h : P.Gives t job r V E)
    (next : ∀ a, V a → P.Gives t job (f a) V' E) : P.Gives t job (r.andThen f) V' E :=
  fun Q s amid relies => (h Q s amid relies).andThen
    (fun a Q u amid ⟨relies, ha⟩ => next a ha Q u amid relies) (fun _ _ _ h => h) fun _ _ h => h

theorem Gives.onEnd {r : Routine σ ε ν κ α} {f : Ending ε α → Routine σ ε ν κ β}
    (h : P.Gives t job r V E)
    (next : ∀ ending, Meets V E (P.terms.comes t job .cancelled) ending →
      P.Gives t job (f ending) V' E') :
    P.Gives t job (r.onEnd f) V' E' :=
  fun Q s amid relies => (h Q s amid relies).onEnd
    fun ending Q u amid ⟨relies, he⟩ => next ending he Q u amid relies

/-- What always holds is found in the state that is read. -/
theorem gives_read {f : σ → α} (h : ∀ Q s, P.inv Q s → V (f s)) : P.Gives t job (.read f) V E :=
  fun Q s amid relies => ⟨amid, relies, h Q s amid.inv⟩

theorem gives_modify {f : σ → σ} (step : ∀ Q s, P.Amid t job Q s → P.relies t job s →
    P.Steps t job Q s (f s) ∧ P.relies t job (f s)) :
    P.Gives t job (.modify f) (fun _ => True) E :=
  fun Q s amid relies =>
    have ⟨steps, relies⟩ := step Q s amid relies
    ⟨steps, steps.amid, relies, trivial⟩

/-! ## Changes of the loop -/

variable [LawfulLoop σ] {own own' : Option Nat} {m : Loop κ η ε ν} {i : Ready η}

/-- The loop may be changed in a way that lets nobody down and adds no hooks. -/
theorem Sound.loop {turn : Option Nat} {X : Signal → Prop} (h : P.Sound own Q s)
    (order : m.Orderly own' Q')
    (faithful : Loop.Faithful P.terms X turn Q Q' (HasLoop.loop s) m)
    (hooks : ∀ k s', Loop.pending Q' m (.follow (.hook k) s') ≤
      Loop.pending Q (HasLoop.loop s) (.follow (.hook k) s'))
    (relies : ∀ t job, own' ≠ some t → m.jobOf t = some job →
      (own ≠ some t ∧ (HasLoop.loop s).jobOf t = some job) ∨ P.relies t job s) :
    P.Sound own' Q' (HasLoop.withLoop s m) where
  orderly := by rwa [LawfulLoop.loop_withLoop]
  fair := by
    rw [LawfulLoop.loop_withLoop]
    exact faithful.fair h.fair
  inv := P.inv_loop h.inv faithful hooks
  relies t job hown hjob := by
    rw [LawfulLoop.loop_withLoop] at hjob
    rcases relies t job hown hjob with ⟨hne, hold⟩ | hnew
    · exact P.relies_loop m (h.relies t job hne hold)
    · exact P.relies_loop m hnew

omit [LawfulLoop σ] in
theorem Sound.drop (h : P.Sound own (i ::ₘ Q) s) : P.Sound own Q s :=
  ⟨h.orderly.drop, h.fair, P.inv_drop h.inv, h.relies⟩

theorem Sound.mild {new : Signal → Ending ε ν → Prop} {X : Signal → Prop} (h : P.Sound own Q s)
    (mild : Loop.Mild new (HasLoop.loop s) m) (order : m.Orderly own Q)
    (faithful : Loop.Faithful P.terms X own Q Q (HasLoop.loop s) m) :
    P.Sound own Q (HasLoop.withLoop s m) :=
  h.loop order faithful (fun k s' => Nat.le_of_eq (mild.pending _)) fun t job hne hjob =>
    .inl ⟨hne, by rwa [← mild.jobs t]⟩

theorem Amid.loop (h : P.Amid t job Q s) (order : m.Orderly (some t) Q)
    (faithful : Loop.Faithful P.terms Loop.Nothing (some t) Q Q (HasLoop.loop s) m)
    (hooks : ∀ k s', Loop.pending Q m (.follow (.hook k) s') ≤
      Loop.pending Q (HasLoop.loop s) (.follow (.hook k) s'))
    (jobs : ∀ t, m.jobOf t = (HasLoop.loop s).jobOf t) :
    P.Steps t job Q s (HasLoop.withLoop s m) where
  amid :=
    { h.toSound.loop order faithful hooks fun u j hne hj => .inl ⟨hne, by rwa [← jobs u]⟩ with
      job := by rw [LawfulLoop.loop_withLoop, jobs, h.job] }
  faithful := by rwa [LawfulLoop.loop_withLoop]

/-! ## Waiting for tasks -/

/-- Who waits for a task goes on with one of the endings that were expected of it. -/
theorem honours_awaitTask {post : Multiset (Ready η) → Ending ε ν → σ → Prop} {other : Nat}
    {W : Ending ε ν → Prop} (h : P.Amid t job Q s) (relies : P.relies t job s)
    (hW : P.terms.cancels t job → W .cancelled)
    (expects : (HasLoop.loop s).Expects P.terms other W)
    (ends : ∀ ending Q' u, W ending → P.Amid t job Q' u → P.relies t job u → post Q' ending u) :
    P.Honours t job post (Routine.awaitTask other) Q s := by
  -- Either way it waits for one signal: the end of the other task, or a new ticket to which that is
  -- passed on.
  have goes (signal : Signal) (m : Loop κ η ε ν) (steps : P.Steps t job Q s (HasLoop.withLoop s m))
      (ready : m.ending? signal ≠ none ∨ m.Reserved t signal)
      (trusts : m.Trusts P.terms Q signal W) :
      P.Honours t job post (Routine.await signal) Q (HasLoop.withLoop s m) := by
    refine ⟨steps.amid, P.relies_loop m relies, ?_, W, ⟨hW, ?_⟩, fun ending Q' u he ha hr => ?_⟩
    · rwa [LawfulLoop.loop_withLoop]
    · rwa [LawfulLoop.loop_withLoop]
    · exact honours_ofEnding ha (ends ending Q' u he ha hr)
  have order := h.orderly
  unfold Routine.awaitTask
  by_cases hended : (HasLoop.loop s).isEnded other
  · have steps : P.Steps t job Q s (HasLoop.withLoop s (HasLoop.loop s)) :=
      h.loop order (.refl _) (fun _ _ => Nat.le_refl _) fun _ => rfl
    refine honours_act_andThen ?_ ?_ <;> simp only [HasLoop.act, hended, if_true]
    · exact steps
    · exact goes (.ended other) _ steps (.inl (Option.isSome_iff_ne_none.1 hended)) expects
  · have same := Loop.sameTasks_passingOn (HasLoop.loop s) other
    have steps : P.Steps t job Q s (HasLoop.withLoop s ((HasLoop.loop s).passingOn other)) := by
      refine h.loop (order.passingOn other) (.passingOn order other) (fun k s' => ?_)
        same.sameJobs.jobs
      rw [Loop.pending_passingOn, if_neg nofun]
      exact Nat.le_refl _
    refine honours_act_andThen ?_ ?_ <;> simp only [HasLoop.act, hended]
    · exact steps
    · exact goes _ _ steps (.inr (order.reserved_passingOn other t))
        (Loop.trusts_passingOn order expects)

/-! ## Turns -/

/-- Where a task ends, it ends as tasks with its job may. -/
def Ends (P : Pact σ) (t : Nat) (job : κ) : Multiset (Ready η) → Ending ε ν → σ → Prop :=
  fun _ ending _ => P.terms.comes t job ending

/-- What a task that waits for a signal still has to do honours the pact. -/
def Awaits (P : Pact σ) (t : Nat) (job : κ) (signal : Signal) (rest : Rest σ ε ν κ)
    (Q : Multiset (Ready η)) (s : σ) : Prop :=
  ∃ W, P.Counts t job Q signal W s ∧ ∀ ending Q' u, W ending → P.Amid t job Q' u →
    P.relies t job u → P.Honours t job (P.Ends t job) (rest ending) Q' u

/-- Where a routine that honours the pact may stop.  In contrast to a charter the queue is part of
it, since whom a signal that is pending will wake is part of what a task relies on. -/
def StopsAt (P : Pact σ) (t : Nat) (job : κ) (Q : Multiset (Ready η)) (s : σ) :
    Stop σ ε ν κ → Prop
  | .ended ending => P.Amid t job Q s ∧ P.terms.comes t job ending
  | .waits signal rest => P.Amid t job Q s ∧ P.relies t job s ∧ (HasLoop.loop s).Reserved t signal ∧
      P.Awaits t job signal rest Q s
  | .renews .. => False

omit [LawfulLoop σ] in
theorem runRoutine_honours {r : Routine σ ε ν κ ν} (h : P.Honours t job (P.Ends t job) r Q s) :
    Loop.Faithful P.terms Loop.Nothing (some t) Q Q (HasLoop.loop s)
        (HasLoop.loop (Machine.runRoutine r s).1) ∧
      P.StopsAt t job Q (Machine.runRoutine r s).1 (Machine.runRoutine r s).2 := by
  induction r generalizing s with
  | done | fail | cancelled => exact ⟨.refl _, h⟩
  | renew => exact h.elim
  | get k ih => exact ih s h
  | set u next ih => exact ⟨h.1.faithful.trans (ih h.2).1, (ih h.2).2⟩
  | wait signal k ih =>
    obtain ⟨hamid, hrelies, ready, W, counts, rest⟩ := h
    rw [Machine.runRoutine]
    cases he : (HasLoop.loop s).ending? signal with
    | none =>
      exact ⟨.refl _, hamid, hrelies, ready.resolve_left fun raised => raised he, W, counts, rest⟩
    | some e => exact ih e (rest e Q s (counts.2.ending hamid.orderly he) hamid hrelies)

/-! ## Moments -/

/-- What holds of the tasks that wait, one of them aside.  For each of them the rest honours the
pact in every state in which it can have its next turn. -/
def Waiting (P : Pact σ) (own : Option Nat) (Q : Multiset (Ready η)) (s : σ)
    (suspended : List (Nat × Rest σ ε ν κ)) : Prop :=
  ∀ t rest, own ≠ some t → Assoc.get? t suspended = some rest →
    t < (HasLoop.loop s).nextTask ∧ ∀ job, (HasLoop.loop s).jobOf t = some job →
      ∃ signal, (HasLoop.loop s).waitingOn t = some signal ∧ P.Awaits t job signal rest Q s

/-- What holds of a machine between two turns.  `Q` is the multiset of what is ready.  It stands
beside the machine and not only in it, since in the middle of a round what has been taken from the
loop is still to be done. -/
structure Holds (P : Pact σ) (Q : Multiset (Ready η)) (m : Machine σ ε ν κ) : Prop where
  sound : P.Sound none Q m.state
  waiting : P.Waiting none Q m.state m.suspended

/-- What comes of a state is in order, and whoever counted on something still can.  Because of the
last two fields this is transitive: what is expected of a task at the start, whether it has ended by
then or not, is expected of it at the end. -/
structure Follows (P : Pact σ) (Q : Multiset (Ready η)) (s : σ) (Q' : Multiset (Ready η))
    (m : Machine σ ε ν κ) : Prop where
  holds : P.Holds Q' m
  evolves : (HasLoop.loop s).Evolves (HasLoop.loop m.state)
  expects : ∀ t W, (HasLoop.loop s).Expects P.terms t W → (HasLoop.loop m.state).Expects P.terms t W

variable {suspended : List (Nat × Rest σ ε ν κ)} {m : Machine σ ε ν κ}

omit [LawfulLoop σ] in
theorem Waiting.carry {X : Signal → Prop} (h : P.Waiting own Q s suspended)
    (faithful : Loop.Faithful P.terms X own Q Q' (HasLoop.loop s) (HasLoop.loop u))
    (borne : ∀ t signal job, own ≠ some t → (HasLoop.loop u).waitingOn t = some signal →
      (HasLoop.loop u).jobOf t = some job → X signal → P.terms.cancels t job) :
    P.Waiting own Q' u suspended := by
  intro t rest hown hrest
  obtain ⟨hlt, hjob⟩ := h t rest hown hrest
  refine ⟨Nat.lt_of_lt_of_le hlt faithful.evolves.next, fun job hj => ?_⟩
  obtain ⟨signal, hsignal, W, ⟨hW, trusts⟩, hrest⟩ := hjob job (faithful.evolves.jobs t job hlt hj)
  have waits : (HasLoop.loop u).waitingOn t = some signal := by
    rw [faithful.waiting t hown hlt (by simp [hj]), hsignal]
  exact ⟨signal, waits, W, ⟨hW, faithful.trusts signal W
    (fun hX => hW (borne t signal job hown waits hj hX)) trusts⟩, hrest⟩

/-- A change between turns that leaves everything in order, lets nobody down and cancels only tasks
that may be cancelled. -/
def Passes (P : Pact σ) (Q Q' : Multiset (Ready η)) (s u : σ) : Prop :=
  P.Sound none Q' u ∧ ∃ X, Loop.Faithful P.terms X none Q Q' (HasLoop.loop s) (HasLoop.loop u) ∧
    ∀ t signal job, (HasLoop.loop u).waitingOn t = some signal →
      (HasLoop.loop u).jobOf t = some job →
      X signal → P.terms.cancels t job

omit [LawfulLoop σ] in
/-- Nobody is cancelled. -/
theorem passes_of_faithful (sound : P.Sound none Q' u)
    (faithful : Loop.Faithful P.terms Loop.Nothing none Q Q' (HasLoop.loop s) (HasLoop.loop u)) :
    P.Passes Q Q' s u :=
  ⟨sound, Loop.Nothing, faithful, fun _ _ _ _ _ no => no.elim⟩

omit [LawfulLoop σ] in
/-- Between turns, whatever leaves everything in order and lets nobody down is in order. -/
theorem Holds.pass (h : P.Holds Q m) (passes : P.Passes Q Q' m.state u) :
    P.Follows Q m.state Q' { m with state := u } :=
  have ⟨sound, _, faithful, borne⟩ := passes
  ⟨⟨sound, h.waiting.carry faithful fun t signal job _ => borne t signal job⟩, faithful.evolves,
    faithful.expects⟩

theorem pending_hook_suspend {l : Loop κ η ε ν} {st : TaskState κ} (hst : l.task? t = some st)
    (signal : Signal) (k : η) (s' : Signal) :
    Loop.pending Q (Machine.suspend l t signal) (.follow (.hook k) s') =
      Loop.pending Q l (.follow (.hook k) s') := by
  rw [(Loop.mild_suspend hst signal).pending, Loop.pending_asleep, if_neg nofun, Nat.add_zero]

theorem pending_finish (l : Loop κ η ε ν) (t : Nat) (e : Ending ε ν) (i : Ready η) :
    Loop.pending Q (l.finish t e) i = Loop.pending Q l i :=
  Loop.pending_congr (fun i => Loop.expected_raise _ _ _ i) i

/-- The end of a turn in which a task ends.  How it ends has to be one of the ways that the terms
allow. -/
theorem Amid.finish (h : P.Amid t job Q s) {e : Ending ε ν} (hcomes : P.terms.comes t job e) :
    P.Sound none Q (HasLoop.update s fun l => l.finish t e) ∧
      Loop.Faithful P.terms Loop.Nothing (some t) Q Q (HasLoop.loop s)
        (HasLoop.loop (HasLoop.update s fun l => l.finish t e)) := by
  have order := h.orderly
  have faithful : Loop.Faithful P.terms Loop.Nothing (some t) Q Q (HasLoop.loop s)
      ((HasLoop.loop s).finish t e) := .finish order h.job hcomes
  refine ⟨h.toSound.loop ?_ faithful (fun k s' => Nat.le_of_eq (pending_finish _ t e _)) ?_, ?_⟩
  · exact order.finish (order.fresh.lt_of_jobOf h.job) (order.turn t rfl) e
  · intro u j _ hj
    have hne : u ≠ t := by
      rintro rfl
      rw [Loop.jobOf_finish_self] at hj
      cases hj
    refine .inl ⟨fun he => hne (Option.some.inj he).symm, ?_⟩
    rw [Loop.jobOf, Loop.task?_finish, if_neg hne] at hj
    exact hj
  · rwa [HasLoop.loop_update]

omit [LawfulLoop σ] in
/-- A task that is to be cancelled may be, so it ends as it may. -/
theorem Amid.conclude (h : P.Amid t job Q s) {e : Ending ε ν} (hcomes : P.terms.comes t job e) :
    ∃ e', Machine.conclude (HasLoop.loop s) t e = (HasLoop.loop s).finish t e' ∧
      P.terms.comes t job e' := by
  cases e with
  | error e => exact ⟨_, rfl, hcomes⟩
  | cancelled => exact ⟨_, rfl, hcomes⟩
  | value v =>
    rw [Machine.conclude]
    refine ⟨_, rfl, ?_⟩
    split
    · next marked =>
      obtain ⟨st, hst, hmust⟩ := Option.any_eq_true _ _ |>.1 marked
      obtain rfl := Option.some.inj ((Loop.jobOf_of_task? hst).symm.trans h.job)
      exact P.terms.comes_cancelled (h.fair.marked t st hst hmust)
    · exact hcomes

/-- The end of a turn in which a task starts to wait.  In its wait it is cancelled only if the terms
let that be. -/
theorem Amid.suspend (h : P.Amid t job Q s) (relies : P.relies t job s) {signal : Signal}
    {rest : Rest σ ε ν κ} (reserved : (HasLoop.loop s).Reserved t signal)
    (awaits : P.Awaits t job signal rest Q s) :
    let s' := HasLoop.update s fun l => Machine.suspend l t signal
    P.Sound none Q s' ∧
      Loop.Faithful P.terms (fun s'' => s'' = signal ∧ P.terms.cancels t job)
        (some t) Q Q (HasLoop.loop s)
        (HasLoop.loop s') ∧
      (HasLoop.loop s').waitingOn t = some signal ∧ P.Awaits t job signal rest Q s' := by
  have order := h.orderly
  obtain ⟨W, ⟨hW, trusts⟩, hrest⟩ := awaits
  obtain ⟨st, hst, rfl⟩ := Loop.task?_of_jobOf h.job
  have faithful :
      Loop.Faithful P.terms (fun s'' => s'' = signal ∧ P.terms.cancels t st.job) (some t) Q Q
      (HasLoop.loop s) (Machine.suspend (HasLoop.loop s) t signal) :=
        .suspend order hst reserved h.fair
  have same := Loop.sameJobs_suspend (HasLoop.loop s) t signal
  dsimp only
  rw [HasLoop.loop_update]
  refine ⟨h.toSound.loop (order.suspend hst reserved) faithful
    (fun k s' => Nat.le_of_eq (pending_hook_suspend hst signal k s')) ?_, faithful,
      ?_, W, ⟨hW, ?_⟩, hrest⟩
  · intro u j _ hj
    rw [same.jobs] at hj
    by_cases hut : u = t
    · subst hut
      rw [h.job] at hj
      exact .inr (Option.some.inj hj ▸ relies)
    · exact .inl ⟨fun he => hut (Option.some.inj he).symm, hj⟩
  · rw [(Loop.mild_suspend hst signal).waiting, Loop.waitingOn_asleep, if_pos rfl]
  · rw [HasLoop.loop_update]
    exact faithful.trusts signal W (fun hX => hW hX.2) trusts

/-- What holds when it becomes the turn of a task with a job, which has a routine to do.  This is
the link between a machine, in which there are suspended routines, and a single routine that is run
to its next wait: what the pact asks of the routine is asked of it in this state, with this
queue. -/
structure Begun (P : Pact σ) (t : Nat) (job : κ) (r : Routine σ ε ν κ ν)
    (Q : Multiset (Ready η)) (s : σ)
    (Q' : Multiset (Ready η)) (m : Machine σ ε ν κ) : Prop where
  known : t < (HasLoop.loop s).nextTask
  amid : P.Amid t job Q' (Machine.turnOf t m.state)
  honours : P.Honours t job (P.Ends t job) r Q' (Machine.turnOf t m.state)
  faithful : Loop.Faithful P.terms Loop.Nothing (some t) Q Q' (HasLoop.loop s)
    (HasLoop.loop (Machine.turnOf t m.state))
  waiting : P.Waiting (some t) Q s m.suspended

/-- A turn of a task.  It comes to an end of the job, or to a wait whose rest has been promised to
go on rightly. -/
theorem Begun.proceed (rules : Rules σ ε ν κ η) {r : Routine σ ε ν κ ν}
    (h : P.Begun t job r Q s Q' m) :
    P.Follows Q s Q' (m.proceed rules t r) := by
  obtain ⟨steps, stops⟩ := runRoutine_honours h.honours
  have hsteps := h.faithful.trans steps
  cases hrun : Machine.runRoutine r (Machine.turnOf t m.state) with
  | mk u stop =>
  rw [hrun] at hsteps stops
  rw [Machine.proceed_eq rules m t r hrun]
  cases stop with
  | ended e =>
    obtain ⟨hamid, hcomes⟩ := stops
    obtain ⟨e', he', hcomes'⟩ := hamid.conclude hcomes
    have hstate : HasLoop.update u (fun l => Machine.conclude l t e) =
        HasLoop.update u fun l => l.finish t e' :=
      congrArg (HasLoop.withLoop u) he'
    obtain ⟨sound, faithful⟩ := hamid.finish hcomes'
    have hall := hsteps.trans faithful
    dsimp only
    rw [hstate]
    refine ⟨⟨sound, fun v rest _ hrest => ?_⟩, hall.evolves, hall.expects⟩
    by_cases hv : v = t
    · subst hv
      refine ⟨Nat.lt_of_lt_of_le h.known hall.evolves.next, fun j hj => ?_⟩
      rw [HasLoop.loop_update, Loop.jobOf_finish_self] at hj
      cases hj
    · exact h.waiting.carry hall (fun _ _ _ _ _ _ no => no.elim) v rest
        (fun he => hv (Option.some.inj he).symm) hrest
  | waits signal rest =>
    obtain ⟨hamid, hrelies, reserved, hawaits⟩ := stops
    obtain ⟨sound, faithful, hwaiting, hawaits⟩ := hamid.suspend hrelies reserved hawaits
    have hall := (hsteps.mono fun _ no => no.elim).trans faithful
    refine ⟨⟨sound, fun v rest' _ hrest => ?_⟩, hall.evolves, hall.expects⟩
    by_cases hv : v = t
    · subst hv
      obtain rfl : rest' = rest := by simpa [Assoc.get?] using hrest.symm
      refine ⟨Nat.lt_of_lt_of_le h.known hall.evolves.next, fun j hj => ?_⟩
      have hu := faithful.evolves.jobs v j (hamid.orderly.fresh.lt_of_jobOf hamid.job) hj
      rw [hamid.job] at hu
      obtain rfl := Option.some.inj hu
      exact ⟨signal, hwaiting, hawaits⟩
    · have hrest : Assoc.get? v m.suspended = some rest' := by
        simpa [Assoc.get?, Ne.symm hv] using hrest
      refine h.waiting.carry hall (fun w signal' j hown hw _ hX => ?_) v rest'
        (fun he => hv (Option.some.inj he).symm) hrest
      -- Nobody else waits for what the task has started to wait for.
      exact absurd (congrArg some (sound.orderly.alone hwaiting (hX.1 ▸ hw))) hown
  | renews => exact stops.elim

/-! ## Courses -/

/-- What has to be shown for a pact to be kept.  `allowed` says what may happen from outside in
which state.  The outside may do different things in different states: it answers only what has been
asked. -/
structure Lawful (P : Pact σ) (rules : Rules σ ε ν κ η) (outside : ω → σ → σ)
    (allowed : ω → σ → Prop) : Prop where
  bodies {t : Nat} {job : κ} {Q : Multiset (Ready η)} {s : σ} : P.Amid t job Q s →
    P.relies t job s → (HasLoop.loop s).current = t →
    P.Honours t job (P.Ends t job) (rules.body job) Q s
  hooks {Q : Multiset (Ready η)} {s : σ} {k : η} {signal : Signal} :
    P.Sound none (.follow (.hook k) signal ::ₘ Q) s →
    P.Passes (.follow (.hook k) signal ::ₘ Q) Q s (rules.hook k s)
  happens {Q : Multiset (Ready η)} {s : σ} {o : ω} : P.Sound none Q s → allowed o s →
    P.Passes Q Q s (outside o s)

omit [LawfulLoop σ] in
theorem Follows.trans {Q'' : Multiset (Ready η)} {m' : Machine σ ε ν κ}
    (h : P.Follows Q s Q' m) (k : P.Follows Q' m.state Q'' m') : P.Follows Q s Q'' m' :=
  ⟨k.holds, h.evolves.trans k.evolves, fun t W expects => k.expects t W (h.expects t W expects)⟩

omit [LawfulLoop σ] in
theorem Holds.drop (h : P.Holds (i ::ₘ Q) m) : P.Follows (i ::ₘ Q) m.state Q m :=
  h.pass (passes_of_faithful h.sound.drop (.drop h.sound.orderly))

omit [LawfulLoop σ] in
theorem Waiting.aside (h : P.Waiting none Q s suspended) (own : Option Nat) :
    P.Waiting own Q s suspended :=
  fun t rest _ => h t rest nofun

omit [LawfulLoop σ] in
theorem Waiting.erase (h : P.Waiting none Q s suspended) (t : Nat) :
    P.Waiting (some t) Q s (Assoc.erase t suspended) := by
  intro u rest hown hrest
  have hne : u ≠ t := fun he => hown (he ▸ rfl)
  rw [Assoc.get?_erase_of_ne hne] at hrest
  exact h u rest nofun hrest

theorem mild_turn (l : Loop κ η ε ν) (t : Nat) :
    Loop.Mild (fun _ _ => False) l { l with current := t } :=
  { Loop.Mild.refl l with }

theorem Amid.turn (h : P.Amid t job Q s) : P.Steps t job Q s (Machine.turnOf t s) :=
  have mild := mild_turn (HasLoop.loop s) t
  h.loop (h.orderly.mild mild nofun) (.of_same h.orderly mild fun _ => rfl)
    (fun _ _ => Nat.le_of_eq (mild.pending _)) fun _ => rfl

omit [LawfulLoop σ] in
theorem relies_update (h : P.relies t job s) (f : Loop κ η ε ν → Loop κ η ε ν) :
    P.relies t job (HasLoop.update s f) :=
  P.relies_loop _ h

variable {rules : Rules σ ε ν κ η} {outside : ω → σ → σ} {allowed : ω → σ → Prop}

omit [LawfulLoop σ] in
/-- When a task is to start, it can have its turn. -/
theorem Holds.first (h : P.Holds (.start t ::ₘ Q) m) {st : TaskState κ}
    (hst : m.loop.task? t = some st) :
    P.Amid t st.job Q m.state ∧ Loop.Faithful P.terms Loop.Nothing (some t) (.start t ::ₘ Q) Q
      (HasLoop.loop m.state) (HasLoop.loop m.state) := by
  have order := h.sound.orderly
  refine ⟨?_, (Loop.Faithful.drop order).weaken (some t)⟩
  exact
    { orderly := order.begin
      fair := h.sound.fair
      inv := P.inv_drop h.sound.inv
      relies := fun u j _ => h.sound.relies u j nofun
      job := Loop.jobOf_of_task? hst }

/-- A task that is to start does what its job says.  What is asked of its routine is what the law
says of the body of the job. -/
theorem Holds.begin (law : P.Lawful rules outside allowed) (h : P.Holds (.start t ::ₘ Q) m)
    {st : TaskState κ} (hst : m.loop.task? t = some st) :
    P.Begun t st.job (rules.body st.job) (.start t ::ₘ Q) m.state Q m := by
  obtain ⟨first, dropped⟩ := h.first hst
  have steps := first.turn
  have relies : P.relies t st.job (Machine.turnOf t m.state) :=
    relies_update (h.sound.relies t st.job nofun first.job) _
  have current : (HasLoop.loop (Machine.turnOf t m.state)).current = t := by
    rw [Machine.turnOf, HasLoop.loop_update]
  exact
    { known := first.lt_next
      amid := steps.amid
      honours := law.bodies steps.amid relies current
      faithful := dropped.trans steps.faithful
      waiting := h.waiting.aside _ }

/-- A task that is to be cancelled before it starts.  It ends at once, and its body is never
entered. -/
theorem Holds.abandon (h : P.Holds (.start t ::ₘ Q) m) {st : TaskState κ}
    (hst : m.loop.task? t = some st) (marked : st.mustCancel = true) :
    P.Follows (.start t ::ₘ Q) m.state Q (m.updateLoop fun l => l.finish t .cancelled) := by
  obtain ⟨first, dropped⟩ := h.first hst
  obtain ⟨sound, faithful⟩ :=
    first.finish (P.terms.comes_cancelled (h.sound.fair.marked t st hst marked))
  have hall := dropped.trans faithful
  refine ⟨⟨sound, fun v rest _ hrest => ?_⟩, hall.evolves, hall.expects⟩
  by_cases hv : v = t
  · subst hv
    refine ⟨Nat.lt_of_lt_of_le first.lt_next hall.evolves.next, fun j hj => ?_⟩
    rw [Machine.updateLoop, HasLoop.loop_update, Loop.jobOf_finish_self] at hj
    cases hj
  · exact (h.waiting.aside (some t)).carry hall (fun _ _ _ _ _ _ no => no.elim) v rest
      (fun he => hv (Option.some.inj he).symm) hrest

theorem Lawful.start (law : P.Lawful rules outside allowed) (h : P.Holds (.start t ::ₘ Q) m) :
    P.Follows (.start t ::ₘ Q) m.state Q (m.startTask rules t) := by
  unfold Machine.startTask
  split
  · exact h.drop
  · next st hst =>
    split
    · next marked => exact h.abandon hst marked
    · exact (h.begin law hst).proceed rules

/-- A task that waits goes on with what it has left to do, as the signal has ended. -/
theorem Holds.wake {signal : Signal} (h : P.Holds (.follow (.resume t) signal ::ₘ Q) m)
    {st : TaskState κ}
    {rest : Rest σ ε ν κ} (hst : m.loop.task? t = some st)
    (hrest : Assoc.get? t m.suspended = some rest) :
    P.Begun t st.job
      (rest (if st.mustCancel then .cancelled else (m.loop.ending? signal).getD .cancelled))
      (.follow (.resume t) signal ::ₘ Q) m.state Q
      ({ m with suspended := Assoc.erase t m.suspended }.updateLoop fun l =>
        l.setTask t { st with waiting := none, mustCancel := false }) := by
  have order := h.sound.orderly
  have hjob : (HasLoop.loop m.state).jobOf t = some st.job := Loop.jobOf_of_task? hst
  obtain ⟨hlt, hwaiting⟩ := h.waiting t rest nofun hrest
  obtain ⟨signal', hsignal', W, ⟨hW, trusts⟩, hrest⟩ := hwaiting _ hjob
  obtain ⟨hsignal, hwake⟩ := order.wake hst
  rw [hsignal'] at hsignal
  obtain rfl := Option.some.inj hsignal
  have faithful : Loop.Faithful P.terms Loop.Nothing (some t) (.follow (.resume t) signal' ::ₘ Q) Q
      (HasLoop.loop m.state) ((HasLoop.loop m.state).setTask t
        { st with waiting := none, mustCancel := false }) := .wake order hst
  have same : Loop.SameJobs (HasLoop.loop m.state) ((HasLoop.loop m.state).setTask t
      { st with waiting := none, mustCancel := false }) := .setTask (.refl _) hjob
  have woken : P.Amid t st.job Q (HasLoop.update m.state fun l =>
      l.setTask t { st with waiting := none, mustCancel := false }) :=
    { h.sound.loop hwake faithful
        (fun k s' => by
          rw [Loop.pending_setTask, Loop.pending_cons]
          omega)
        fun u j _ hj => .inl ⟨nofun, by rwa [← same.jobs u]⟩ with
      job := by rw [HasLoop.loop_update, same.jobs, hjob] }
  have steps := woken.turn
  have hending : W (if st.mustCancel then .cancelled
      else ((HasLoop.loop m.state).ending? signal').getD .cancelled) := by
    split
    · next marked => exact hW (h.sound.fair.marked t st hst marked)
    · -- What the task goes on with has been raised.
      obtain ⟨e, he⟩ := Option.ne_none_iff_exists'.1
        (order.raised _ _ (.inl (Multiset.mem_cons_self _ _)))
      rw [he]
      exact trusts.ending order he
  have relies : P.relies t st.job (Machine.turnOf t (HasLoop.update m.state fun l =>
      l.setTask t { st with waiting := none, mustCancel := false })) :=
    relies_update (relies_update (h.sound.relies t st.job nofun hjob) _) _
  refine ⟨hlt, steps.amid, hrest _ Q _ hending steps.amid relies, ?_, h.waiting.erase t⟩
  have hloop := steps.faithful
  rw [HasLoop.loop_update] at hloop
  exact faithful.trans hloop

theorem Holds.resume {signal : Signal} (h : P.Holds (.follow (.resume t) signal ::ₘ Q) m) :
    P.Follows (.follow (.resume t) signal ::ₘ Q) m.state Q (m.resumeTask rules t signal) := by
  unfold Machine.resumeTask
  split
  · next st rest hst hrest => exact (h.wake hst hrest).proceed rules
  · exact h.drop

/-- Whoever has its turn honours the pact in it. -/
theorem Lawful.begun (law : P.Lawful rules outside allowed) (h : P.Holds (i ::ₘ Q) m)
    {r : Routine σ ε ν κ ν} {m' : Machine σ ε ν κ} (begins : m.Begins rules i t job r m') :
    P.Begun t job r (i ::ₘ Q) m.state Q m' := by
  cases begins with
  | starts task _ => exact h.begin law task
  | resumes task waiting => exact h.wake task waiting

/-- The end of a task is passed on. -/
theorem Holds.relay {next signal : Signal} (h : P.Holds (.follow (.relay next) signal ::ₘ Q) m) :
    P.Follows (.follow (.relay next) signal ::ₘ Q) m.state Q
      (m.updateLoop fun l => l.raise next ((l.ending? signal).getD .cancelled)) := by
  have order := h.sound.orderly
  have hpending : 0 < Loop.pending (.follow (.relay next) signal ::ₘ Q) m.loop
      (.follow (.relay next) signal) := by
    rw [Loop.pending_cons, if_pos rfl]
    omega
  obtain ⟨n, t, rfl, hn, -⟩ := order.relays _ _ hpending
  have mild := Loop.mild_raise (HasLoop.loop m.state) (.ticket n)
    (((HasLoop.loop m.state).ending? signal).getD .cancelled)
  have faithful :
      Loop.Faithful P.terms Loop.Nothing none (.follow (.relay (.ticket n)) signal ::ₘ Q) Q
      (HasLoop.loop m.state) ((HasLoop.loop m.state).raise (.ticket n)
        (((HasLoop.loop m.state).ending? signal).getD .cancelled)) := .relay order
  have sound : P.Sound none Q (HasLoop.update m.state fun l =>
      l.raise (.ticket n) ((l.ending? signal).getD .cancelled)) := by
    refine h.sound.loop ?_ faithful (fun k s' => ?_) fun t j _ hj => .inl ⟨nofun, ?_⟩
    · refine order.drop.mild mild ?_
      rintro s e ⟨rfl, -⟩
      exact ⟨nofun, fun n' hn' => Signal.ticket.inj hn' ▸ hn⟩
    · rw [mild.pending, Loop.pending_cons]
      omega
    · rwa [← mild.jobs t]
  refine h.pass (passes_of_faithful sound ?_)
  rwa [HasLoop.loop_update]

/-- What is ready, and timers that are due, become part of the round. -/
theorem Holds.gather {c : Moment σ ε ν κ η} (h : P.Holds (c.queue : Multiset (Ready η)) c.machine) :
    P.Follows (c.queue : Multiset (Ready η)) c.machine.state
      (c.gather.queue : Multiset (Ready η)) c.gather.machine := by
  have order := h.sound.orderly
  -- There are no timers.
  have due : Moment.due (HasLoop.loop c.machine.state) = HasLoop.loop c.machine.state := by
    have hsize : (HasLoop.loop c.machine.state).timers.size = 0 := by
      rw [TimerHeap.size, order.timeless.2.1]
      rfl
    rw [Moment.due, hsize, Loop.dropCancelled]
    simp only [hsize, Loop.takeDue]
  have unowned (t : Nat) : none ≠ some t := (Option.some_ne_none t).symm
  have first : P.Follows (c.queue : Multiset (Ready η)) c.machine.state
      (c.queue : Multiset (Ready η)) (c.machine.updateLoop Moment.due) := by
    refine h.pass (u := HasLoop.update c.machine.state Moment.due) (passes_of_faithful ?_ ?_)
    · rw [HasLoop.update, due]
      have still : Loop.Faithful P.terms Loop.Nothing none (c.queue : Multiset (Ready η)) c.queue
          (HasLoop.loop c.machine.state) (HasLoop.loop c.machine.state) := .refl _
      exact h.sound.loop order still (fun _ _ => Nat.le_refl _) fun t _ _ hj => .inl ⟨unowned t, hj⟩
    · rw [HasLoop.loop_update, due]
      exact .refl _
  have order' := first.holds.sound.orderly
  have faithful : Loop.Faithful P.terms Loop.Nothing none _ _ _ _ := .gather order'
  have hqueue : (c.gather.queue : Multiset (Ready η)) = (c.queue : Multiset (Ready η)) +
      ((HasLoop.loop (c.machine.updateLoop Moment.due).state).ready : Multiset (Ready η)) := rfl
  have second := first.holds.pass
    (u := HasLoop.update (c.machine.updateLoop Moment.due).state fun l => { l with ready := [] })
    (passes_of_faithful (first.holds.sound.loop order'.gather faithful
      (fun k s' => Nat.le_of_eq (Loop.pending_gather _ _ _)) fun t _ _ hj => .inl ⟨unowned t, hj⟩)
    (by
      rw [HasLoop.loop_update]
      exact faithful))
  rw [hqueue]
  exact first.trans second

/-- Whatever is ready can be done.  There is a case for each kind of item, so a round of the loop is
nothing but this again and again. -/
theorem Lawful.run (law : P.Lawful rules outside allowed) (h : P.Holds (i ::ₘ Q) m) :
    P.Follows (i ::ₘ Q) m.state Q (m.runReady rules i) := by
  have order := h.sound.orderly
  have idle (f : Loop κ η ε ν → Loop κ η ε ν)
    (hf : f (HasLoop.loop m.state) = HasLoop.loop m.state) :
      P.Follows (i ::ₘ Q) m.state Q (m.updateLoop f) := by
    refine h.pass (u := HasLoop.update m.state f) (passes_of_faithful ?_ ?_)
    · rw [HasLoop.update, hf]
      refine h.sound.loop order.drop (.drop order) (fun k s' => ?_) fun _ _ _ hj => .inl ⟨nofun, hj⟩
      rw [Loop.pending_cons]
      omega
    · rw [HasLoop.loop_update, hf]
      exact .drop order
  cases i with
  | start t => exact law.start h
  | timer id =>
    refine idle _ ?_
    rw [Machine.fireTimer, order.timeless.1]
    rfl
  | follow f signal =>
    cases f with
    | resume t => exact h.resume
    | relay next => exact h.relay
    | part n =>
      refine idle _ ?_
      rw [Loop.countPart, order.timeless.2.2]
      rfl
    | hook k => exact h.pass (law.hooks h.sound)

/-- What happens from outside in a course is allowed where it happens. -/
def AllowedOn (rules : Rules σ ε ν κ η) (outside : ω → σ → σ) (allowed : ω → σ → Prop)
    (c : Moment σ ε ν κ η) (os : List ω) : Prop :=
  ∀ before o after d, os = before ++ o :: after → Leads rules outside c before d → allowed o d.state

omit [LawfulLoop σ] in
theorem AllowedOn.earlier {c : Moment σ ε ν κ η} {os more : List ω}
    (h : AllowedOn rules outside allowed c (os ++ more)) :
    AllowedOn rules outside allowed c os := by
  rintro before o after d rfl led
  exact h before o (after ++ more) d (by simp) led

omit [LawfulLoop σ] in
theorem AllowedOn.later {c d : Moment σ ε ν κ η} {os more : List ω}
    (h : AllowedOn rules outside allowed c (os ++ more)) (led : Leads rules outside c os d) :
    AllowedOn rules outside allowed d more := by
  rintro before o after e rfl led'
  exact h (os ++ before) o after e (by simp) (led.trans led')

/-- A pact that every job honours holds along every course, and lets nobody down.  The end of a
course knows what was counted on at its beginning, so a promise can be followed from where it was
made. -/
theorem Lawful.leads (law : P.Lawful rules outside allowed) {c d : Moment σ ε ν κ η} {os : List ω}
    (h : P.Holds (c.queue : Multiset (Ready η)) c.machine) (leads : Leads rules outside c os d)
    (hos : AllowedOn rules outside allowed c os) :
    P.Follows (c.queue : Multiset (Ready η)) c.machine.state
      (d.queue : Multiset (Ready η)) d.machine := by
  induction leads with
  | refl => exact ⟨h, .refl _, fun _ _ expects => expects⟩
  | @happens os d led o ih =>
    have hd := ih hos.earlier
    exact hd.trans (hd.holds.pass (law.happens hd.holds.sound (hos os o [] d rfl led)))
  | gathers _ ih =>
    have hd := ih hos
    exact hd.trans hd.holds.gather
  | @runs os m item before after _ ih =>
    have hd := ih hos
    rw [multiset_middle] at hd
    exact hd.trans (law.run hd.holds)

end Pact

end PikeAnalysis.Concurrency
