import PikeAnalysis.Proofs.Concurrency.Discipline

/-!
# What lasts along every course

A property of states lasts if neither the tasks nor the outside can end it, whatever they do and in
whatever order.  It then holds in every state that a course comes by (`Lasts.visits`): at every
moment, and in the middle of the turns of tasks, between one change of the state and the next.

This is a discipline with nothing but an invariant: tasks may do whatever does not end the property
and rely on nothing else.  It is kept apart because it gives more than a discipline does.  A
discipline says what holds between two turns, and a property that lasts holds between any two
changes, so it can be used for statements about every state that the program is ever in, as those
about the coherence of its stores are.
-/

namespace PikeAnalysis.Concurrency

variable {σ ε ν κ η ω : Type} [HasLoop σ κ η ε ν]

/-! ## The states of a course -/

/-- The states that a routine passes through from a state on, up to its next wait.  The states after
a wait are not among them: those belong to a later turn. -/
inductive Routine.Passes : Routine σ ε ν κ ν → σ → σ → Prop
  | here {r s} : Passes r s s
  | get {k s u} (h : Passes (k s) s u) : Passes (.get k) s u
  | set {t next s u} (h : Passes next t u) : Passes (.set t next) s u
  | raised {signal k s ending u} (ended : (HasLoop.loop s).ending? signal = some ending)
    (h : Passes (k ending) s u) : Passes (.wait signal k) s u

/-- The states that a machine passes through in the turn of a task that is ready.  A turn is one
step of the machine, and in between the state changes as often as the routine acts.  Statements
about every state that is visited, and not only about those between two turns, are about these. -/
inductive Machine.Passes (rules : Rules σ ε ν κ η) (m : Machine σ ε ν κ) : Ready η → σ → Prop
  | starts {t st u} (task : m.loop.task? t = some st)
    (h : (rules.body st.job).Passes (turnOf t m.state) u) : Passes rules m (.start t) u
  | resumes {t st rest signal u} (task : m.loop.task? t = some st)
    (waiting : Assoc.get? t m.suspended = some rest)
    (h : (rest
      (if st.mustCancel then .cancelled else (m.loop.ending? signal).getD .cancelled)).Passes
      (turnOf t
        (m.updateLoop fun l => l.setTask t { st with waiting := none, mustCancel := false }).state)
      u) :
    Passes rules m (.follow (.resume t) signal) u

/-- The states that a course comes by.  Every moment of a course is visited, and so is everything
that a turn passes through. -/
inductive Visits (rules : Rules σ ε ν κ η) (outside : ω → σ → σ) (c : Moment σ ε ν κ η) :
    List ω → σ → Prop
  | moment {os d} (h : Leads rules outside c os d) : Visits rules outside c os d.state
  | turn {os m item before after u} (h : Leads rules outside c os ⟨m, before ++ item :: after⟩)
    (passes : m.Passes rules item u) : Visits rules outside c os u

/-! ## Lasting properties -/

/-- The contract of a task that may do whatever does not end a property. -/
def keeping (P : σ → Prop) : Contract σ κ where
  step _ := P
  waits _ := True
  pause := P
  renews _ := True

/-- A property that nothing ends.  No property of the loop is needed, so nothing is said of who is
ready. -/
structure Lasts (P : σ → Prop) (rules : Rules σ ε ν κ η) (outside : ω → σ → σ) : Prop where
  loops {s : σ} (l : Loop κ η ε ν) : P s → P (HasLoop.withLoop s l)
  bodies (job : κ) : (rules.body job).Abides (keeping P)
  hooks {s : σ} (h : η) : P s → P (rules.hook h s)
  happens {s : σ} (o : ω) : P s → P (outside o s)

/-- The property holds, and no task that waits is going to end it.  Of what is ready nothing needs
to be said beyond this: a task that is to begin runs the routine of its job, about which the rules
are asked separately. -/
structure Upheld (P : σ → Prop) (m : Machine σ ε ν κ) : Prop where
  state : P m.state
  waiting : ∀ e ∈ m.suspended, ∀ ending, (e.2 ending).Abides (keeping P)

variable {P : σ → Prop} {rules : Rules σ ε ν κ η} {outside : ω → σ → σ} {s u : σ} {t : Nat}
  {r : Routine σ ε ν κ ν} {m : Machine σ ε ν κ} {c d : Moment σ ε ν κ η} {os : List ω}

theorem Routine.Passes.holds {post : Ending ε ν → σ → Prop} (passes : r.Passes s u)
    (keeps : r.Keeps (keeping P) post s) (hs : P s) : P u := by
  induction passes with
  | here => exact hs
  | get _ ih => exact ih keeps hs
  | set _ ih => exact ih keeps.2 keeps.1
  | raised _ _ ih => exact ih (keeps.2.2 _ _ hs) hs

namespace Lasts

variable (lasts : Lasts P rules outside)
include lasts

theorem turnOf (hs : P s) : P (Machine.turnOf t s) :=
  lasts.loops _ hs

theorem turn (passes : r.Passes (Machine.turnOf t s) u) (keeps : r.Abides (keeping P))
    (hs : P s) : P u :=
  passes.holds (keeps _ (lasts.turnOf hs)) (lasts.turnOf hs)

/-- A task that starts over as a job does not end the property either. -/
theorem renewed (job : κ) (ending : Ending ε ν) :
    (rules.renewed job ending).Abides (keeping P) := by
  cases ending with
  | value v => exact lasts.bodies job
  | error e => exact Routine.abides_fail e
  | cancelled => exact Routine.abides_cancelled

/-- A turn of a task that does not end the property leaves it upheld. -/
theorem proceed (h : Upheld P m) (keeps : r.Abides (keeping P)) :
    Upheld P (m.proceed rules t r) := by
  have left : Machine.Left (keeping P) (fun _ => P) t (Machine.turnOf t m.state) m.suspended
      (m.proceed rules t r) :=
    Machine.proceed_keeps (c := keeping P) rules t
      (fun job ending s _ hs => lasts.renewed job ending s hs)
      m r (keeps _ (lasts.turnOf h.state))
  generalize m.proceed rules t r = after at left
  cases left with
  | ended e _ holds => exact ⟨lasts.loops _ holds, h.waiting⟩
  | waits signal rest _ _ holds keeps =>
    exact ⟨lasts.loops _ holds, List.forall_mem_cons.mpr ⟨keeps, h.waiting⟩⟩

theorem run (h : Upheld P m) (item : Ready η) : Upheld P (m.runReady rules item) := by
  have loops (f : Loop κ η ε ν → Loop κ η ε ν) : Upheld P (m.updateLoop f) :=
    ⟨lasts.loops _ h.state, h.waiting⟩
  cases item with
  | start t =>
    rw [Machine.runReady, Machine.startTask]
    split
    · exact h
    · next st _ =>
      split
      · exact loops _
      · exact lasts.proceed h (lasts.bodies st.job)
  | timer id => exact loops _
  | follow f signal =>
    cases f with
    | resume t =>
      rw [Machine.runReady, Machine.resumeTask]
      split
      · next st rest _ hrest =>
        have herased :
            Upheld P (Machine.updateLoop { m with suspended := Assoc.erase t m.suspended }
            fun l => l.setTask t { st with waiting := none, mustCancel := false }) := by
          exact ⟨lasts.loops _ h.state, fun e he => h.waiting e (Assoc.mem_erase.mp he).1⟩
        exact lasts.proceed herased (h.waiting _ (Assoc.mem_of_get? hrest) _)
      · exact h
    | relay next => exact loops _
    | part n => exact loops _
    | hook k => exact ⟨lasts.hooks k h.state, h.waiting⟩

/-- What lasts is upheld along every course. -/
theorem leads (h : Upheld P c.machine) (leads : Leads rules outside c os d) :
    Upheld P d.machine := by
  induction leads with
  | refl => exact h
  | happens _ o ih => exact ⟨lasts.happens o ih.state, ih.waiting⟩
  | gathers _ ih => exact ⟨lasts.loops _ (lasts.loops _ ih.state), ih.waiting⟩
  | runs _ ih => exact lasts.run ih _

/-- What lasts holds in every state that a course comes by. -/
theorem visits (h : Upheld P c.machine) (visits : Visits rules outside c os s) : P s := by
  cases visits with
  | moment leads => exact (lasts.leads h leads).state
  | turn leads passes =>
    have hm := lasts.leads h leads
    cases passes with
    | starts _ turn => exact lasts.turn turn (lasts.bodies _) hm.state
    | resumes _ waiting turn =>
      exact lasts.turn turn (hm.waiting _ (Assoc.mem_of_get? waiting) _) (lasts.loops _ hm.state)

end Lasts

end PikeAnalysis.Concurrency
