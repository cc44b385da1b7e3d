import PikeAnalysis.Proofs.Concurrency.Lasting
import PikeAnalysis.Proofs.Concurrency.Pact

/-!
# What waiting tasks have left to do

A task that waits goes on later with a rest that nobody looks into meanwhile.  What is known of the
rests with which the tasks of each job come to wait is known of all that wait, along every course
(`Pact.Lawful.leftovers`), as tasks keep their jobs.

In the middle of a turn everything is in order, too: in every state that the routine of the turn
passes through (`Pact.Begun.passes`).

The rests are functions, so nothing can be read off them in a state, and an invariant about the
state cannot speak of them.  What can be known is which rests a job ever comes to wait with, and
that is a matter of the text of the job alone (`LeavesOver`).  The module carries this from the jobs
to the machine: a task's rest is one of those its job leaves, since it was put there in a turn of
the same task, and a task never has another job.

It is used where a claim is about what a task will do although it has not done it yet, such as a
load of a module that will be stored once the worker has answered.
-/

namespace PikeAnalysis.Concurrency

variable {σ ε ν κ η ω : Type} [HasLoop σ κ η ε ν]

/-! ## In the middle of a turn -/

/-- A routine that keeps a contract passes only through states that the contract allows. -/
theorem Routine.Passes.steps {c : Contract σ κ} {post : Ending ε ν → σ → Prop}
    {r : Routine σ ε ν κ ν}
    {s u : σ} (passes : r.Passes s u) (keeps : r.Keeps c post s) :
    Relation.ReflTransGen c.step s u := by
  induction passes with
  | here => exact .refl
  | get _ ih => exact ih keeps
  | set _ ih => exact .head keeps.1 (ih keeps.2)
  | raised _ _ ih => exact ih (keeps.2.2 _ _ keeps.2.1)

namespace Pact

variable {P : Pact σ} {t : Nat} {job : κ} {r : Routine σ ε ν κ ν} {Q Q' : Multiset (Ready η)}
  {s u : σ} {m m' : Machine σ ε ν κ} {i : Ready η}

theorem Honours.amid {post : Multiset (Ready η) → Ending ε ν → σ → Prop}
    (honours : P.Honours t job post r Q s) (amid : P.Amid t job Q s) (passes : r.Passes s u) :
    P.Amid t job Q u := by
  induction passes with
  | here => exact amid
  | get _ ih => exact ih honours amid
  | set _ ih => exact ih honours.2 honours.1.amid
  | raised ended _ ih =>
    obtain ⟨amid, relies, -, W, ⟨-, trusts⟩, rest⟩ := honours
    exact ih (rest _ Q _ (trusts.ending amid.orderly ended) amid relies) amid

/-- In the turn of a task everything stays in order. -/
theorem Begun.passes (h : P.Begun t job r Q s Q' m)
    (passes : r.Passes (Machine.turnOf t m.state) u) :
    P.Amid t job Q' u :=
  h.honours.amid h.amid passes

end Pact

/-! ## Rests -/

/-- A routine that abides by a contract anywhere does so still when it has waited. -/
theorem Routine.Abides.rest {c : Contract σ κ} {r : Routine σ ε ν κ ν} {s u : σ}
    {signal : Signal} {rest : Rest σ ε ν κ} (h : r.Abides c) (anywhere : ∀ s, c.pause s)
    (run : Machine.runRoutine r s = (u, .waits signal rest)) (e : Ending ε ν) :
    (rest e).Abides c := by
  have kept := (Machine.runRoutine_keeps (h s (anywhere s))).2
  rw [run] at kept
  exact kept.2.2 e

/-- What the tasks of each job are to do when they have waited.  It is shown of the first wait of
each job, and then from one wait to the next. -/
structure LeavesOver (D : κ → Rest σ ε ν κ → Prop) (rules : Rules σ ε ν κ η) : Prop where
  first {job : κ} {s u : σ} {signal : Signal} {rest : Rest σ ε ν κ} :
    Machine.runRoutine (rules.body job) s = (u, .waits signal rest) → D job rest
  next {job : κ} {s u : σ} {e : Ending ε ν} {signal : Signal} {rest rest' : Rest σ ε ν κ} :
    D job rest → Machine.runRoutine (rest e) s = (u, .waits signal rest') → D job rest'

/-- All that wait are to do what the tasks of their jobs are.  `D` says what may be left of a job,
and is about routines only, so it holds whatever the state is. -/
def Machine.LeftOver (D : κ → Rest σ ε ν κ → Prop) (m : Machine σ ε ν κ) : Prop :=
  ∀ t rest job, Assoc.get? t m.suspended = some rest → (HasLoop.loop m.state).jobOf t = some job →
    D job rest

variable {D : κ → Rest σ ε ν κ → Prop} {rules : Rules σ ε ν κ η} {outside : ω → σ → σ}
  {allowed : ω → σ → Prop} {P : Pact σ} {Q Q' : Multiset (Ready η)}
  {m m' : Machine σ ε ν κ} {i : Ready η} {t : Nat} {job : κ} {r : Routine σ ε ν κ ν}

/-- Either it is the turn of a task, or a hook is run, or something is done with the loop that takes
no time, if anything. -/
theorem Machine.begins_or_idle (rules : Rules σ ε ν κ η) (m : Machine σ ε ν κ) (i : Ready η) :
    (∃ t job r m', m.Begins rules i t job r m') ∨ (∃ k signal, i = .follow (.hook k) signal) ∨
      m.runReady rules i = m ∨
        ∃ f : Loop κ η ε ν → Loop κ η ε ν, (∀ l, (f l).now = l.now) ∧
          m.runReady rules i = m.updateLoop f := by
  -- The cases are the kinds of things that are ready.
  cases i with
  | start t =>
    rw [Machine.runReady, startTask]
    cases task : m.loop.task? t with
    | none => exact .inr (.inr (.inl rfl))
    | some st =>
      cases marked : st.mustCancel with
      | true =>
        simp only [marked, if_true]
        exact .inr (.inr (.inr ⟨_, fun l => l.now_finish t .cancelled, rfl⟩))
      | false => exact .inl ⟨t, _, _, m, .starts task marked⟩
  | timer id => exact .inr (.inr (.inr ⟨_, fun l => (l.clock_fireTimer _ id).2, rfl⟩))
  | follow f signal =>
    cases f with
    | resume t =>
      rw [Machine.runReady, resumeTask]
      cases task : m.loop.task? t with
      | none => exact .inr (.inr (.inl rfl))
      | some st =>
        cases waiting : Assoc.get? t m.suspended with
        | none => exact .inr (.inr (.inl rfl))
        | some rest => exact .inl ⟨t, _, _, _, .resumes task waiting⟩
    | relay next => exact .inr (.inr (.inr ⟨_, fun l => l.now_raise next _, rfl⟩))
    | part n => exact .inr (.inr (.inr ⟨_, fun l => l.now_countPart _ n, rfl⟩))
    | hook k => exact .inr (.inl ⟨k, signal, rfl⟩)

namespace Machine

/-- Those that wait are no others than before, and no tasks have other jobs. -/
theorem LeftOver.carry (h : m.LeftOver D) (holds : P.Holds Q m)
    (evolves : (HasLoop.loop m.state).Evolves (HasLoop.loop m'.state))
    (waiting : ∀ t rest, Assoc.get? t m'.suspended = some rest →
      Assoc.get? t m.suspended = some rest) :
    m'.LeftOver D := by
  intro t rest job hrest hjob
  have hold := waiting t rest hrest
  exact h t rest job hold (evolves.jobs t job (holds.waiting t rest nofun hold).1 hjob)

/-- Whoever has its turn has come to wait before. -/
theorem Begins.waiting (begins : m.Begins rules i t job r m') {u : Nat} {rest : Rest σ ε ν κ}
    (hrest : Assoc.get? u m'.suspended = some rest) : Assoc.get? u m.suspended = some rest := by
  cases begins with
  | starts => exact hrest
  | resumes => exact (Assoc.of_get?_erase hrest).2

/-- What a task comes to wait with in its turn is what the tasks of its job do. -/
theorem Begins.leavesOver (begins : m.Begins rules i t job r m') (h : m.LeftOver D)
    (leaves : LeavesOver D rules) {s u : σ} {signal : Signal} {rest : Rest σ ε ν κ}
    (run : runRoutine r s = (u, .waits signal rest)) : D job rest := by
  cases begins with
  | starts task _ => exact leaves.first run
  | resumes task waiting => exact leaves.next (h t _ _ waiting (Loop.jobOf_of_task? task)) run

end Machine

namespace Pact

variable [LawfulLoop σ]

theorem Lawful.leftOver (law : P.Lawful rules outside allowed) (leaves : LeavesOver D rules)
    (holds : P.Holds (i ::ₘ Q) m) (h : m.LeftOver D) : (m.runReady rules i).LeftOver D := by
  have follows := law.run holds
  rcases m.begins_or_idle rules i with
    ⟨t, job, r, m', begins⟩ | ⟨k, signal, rfl⟩ | same | ⟨f, -, same⟩
  · have begun := law.begun holds begins
    obtain ⟨-, stops⟩ := runRoutine_honours begun.honours
    have earlier (u : Nat) (rest : Rest σ ε ν κ) (hu : Assoc.get? u m'.suspended = some rest) :=
      begins.waiting hu
    have evolves := follows.evolves
    rw [begins.runReady] at evolves ⊢
    cases hrun : Machine.runRoutine r (Machine.turnOf t m'.state) with
    | mk u stop =>
    rw [hrun] at stops
    rw [Machine.proceed_eq rules m' t r hrun] at evolves ⊢
    cases stop with
    | ended e => exact h.carry holds evolves earlier
    | renews => exact stops.elim
    | waits signal rest =>
      intro v rest' job' hrest hjob
      -- Only the task whose turn it was has a new rest; those of the others are old, and their jobs
      -- the same.
      by_cases hv : v = t
      · subst hv
        obtain rfl : rest = rest' := by simpa [Assoc.get?] using hrest
        have hsame := evolves.jobs v job' begun.known hjob
        obtain rfl := Option.some.inj (begins.jobOf.symm.trans hsame)
        exact begins.leavesOver h leaves hrun
      · have hold : Assoc.get? v m'.suspended = some rest' := by
          simpa [Assoc.get?, Ne.symm hv] using hrest
        have hlt := (holds.waiting v rest' (Option.some_ne_none v).symm (earlier v rest' hold)).1
        exact h v rest' job' (earlier v rest' hold) (evolves.jobs v job' hlt hjob)
  · exact h.carry holds follows.evolves fun _ _ hu => hu
  · rwa [same]
  · exact h.carry holds follows.evolves fun u rest hu => by rwa [same] at hu

/-- Whatever is done meanwhile, those that wait are to do what the tasks of their jobs are. -/
theorem Lawful.leftovers (law : P.Lawful rules outside allowed) (leaves : LeavesOver D rules)
    {c d : Moment σ ε ν κ η} {os : List ω}
    (holds : P.Holds (c.queue : Multiset (Ready η)) c.machine)
    (h : c.machine.LeftOver D) (leads : Leads rules outside c os d)
    (hos : AllowedOn rules outside allowed c os) : d.machine.LeftOver D := by
  induction leads with
  | refl => exact h
  | @happens os d led o ih =>
    have hd := (law.leads holds led hos.earlier).holds
    obtain ⟨-, X, faithful, -⟩ := law.happens hd.sound (hos os o [] d rfl led)
    exact (ih hos.earlier).carry hd faithful.evolves fun _ _ hu => hu
  | gathers led ih =>
    have hd := (law.leads holds led hos).holds
    exact (ih hos).carry hd hd.gather.evolves fun _ _ hu => hu
  | @runs os m item before after led ih =>
    have hd := (law.leads holds led hos).holds
    rw [multiset_middle] at hd
    exact law.leftOver leaves hd (ih hos)

end Pact

end PikeAnalysis.Concurrency
