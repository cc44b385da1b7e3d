import PikeAnalysis.Proofs.Concurrency.Clockwork
import PikeAnalysis.Proofs.Concurrency.Contract
import PikeAnalysis.Proofs.Concurrency.Interleaving
import PikeAnalysis.Proofs.Concurrency.Tasks

/-!
# Invariants of interleaved tasks

A discipline says what holds between two turns, what a task may do in its turn, and what it may rely
on while it waits.  `Discipline.Lawful` lists what has to be shown of single turns, hooks, timers
and happenings from outside; `Discipline.Lawful.leads` concludes that the invariant holds along
every course of the machine, in whatever order things are done.

The invariant is not asked to hold inside a turn.  A turn begins where it holds, and ends with the
task over, or with the task waiting; in between the task may do what its contract lets it, one
change after the other (`Discipline.Steps`).  What other tasks rely on is carried along by every
change (`Discipline.Carries`), so that nothing has to be shown twice for a task that waits while
others run.

Whether the invariant holds also says that what is left of the round, and what has become ready
since, can be done in any order (`Holds.others`): no proof may depend on the loop being first in,
first out.  The last part has rules for routines that abide by a contract wherever they begin, one
for each way of putting routines together.  They are the syntax-directed part of every such proof.
-/

namespace PikeAnalysis.Concurrency

/-- A loop that is put into a state is found there. -/
class LawfulLoop (σ : Type) {κ η ε ν : outParam Type} [HasLoop σ κ η ε ν] : Prop where
  loop_withLoop : ∀ (s : σ) (l : Loop κ η ε ν), HasLoop.loop (HasLoop.withLoop s l) = l

variable {σ ε ν κ η ω : Type} [HasLoop σ κ η ε ν]

@[simp] theorem HasLoop.loop_update [LawfulLoop σ] (s : σ) (f : Loop κ η ε ν → Loop κ η ε ν) :
    HasLoop.loop (HasLoop.update s f) = f (HasLoop.loop s) :=
  LawfulLoop.loop_withLoop s _

theorem Moment.sameTasks_due (l : Loop κ η ε ν) : Loop.SameTasks l (Moment.due l) :=
  ((Loop.SameTasks.refl l).dropCancelled _).takeDue _

/-- What tasks owe one another.  A program gives one for each invariant that is shown of it; what
follows for its courses is the same for all of them. -/
structure Discipline (σ ε ν κ η : Type) where
  /-- What holds between two turns. -/
  inv : σ → Prop
  /-- What holds in the turn of a task with a job. -/
  during : Nat → κ → σ → Prop
  /-- What holds of everything that is ready. -/
  item : Ready η → σ → Prop
  /-- What a task with a job may rely on while it waits. -/
  held : Nat → κ → σ → Prop
  /-- What a job may wait for. -/
  waits : κ → Signal → Prop
  /-- What holds at the end of a task. -/
  atEnd : Nat → κ → Ending ε ν → σ → Prop
  /-- The jobs as which a task may start over after a wait. -/
  renews : κ → κ → Prop
  /-- What tasks leave as it is, so that only the outside can change it. -/
  kept : σ → σ → Prop
  kept_refl : ∀ s, kept s s
  kept_trans : ∀ {s s' s''}, kept s s' → kept s' s'' → kept s s''

namespace Discipline

variable (D : Discipline σ ε ν κ η)

/-- What a change has to respect, unless it is made by the task `own`: what is ready stays in order,
and what other tasks rely on.  What is new in the queue has to be in order as well. -/
structure Carries (own : Option Nat) (s s' : σ) : Prop where
  evolves : Loop.Evolves (HasLoop.loop s) (HasLoop.loop s')
  items : ∀ i, D.item i s → D.item i s'
  held : ∀ t job, own ≠ some t → t < (HasLoop.loop s).nextTask →
    (HasLoop.loop s').jobOf t = some job → D.held t job s → D.held t job s'

/-- A change after which it may be anybody's turn.  It is what the end of a turn comes to: the
invariant is restored, the tasks other than `own` find what they were waiting for in order, and what
the discipline keeps from change to change has been kept. -/
structure Passes (own : Option Nat) (s s' : σ) : Prop where
  inv : D.inv s'
  carries : D.Carries own s s'
  kept : D.kept s s'

/-- A change in the turn of a task.  The invariant need not hold in the middle of a turn; `during`
says what holds instead, and may speak of the task and of its job. -/
structure Steps (t : Nat) (job : κ) (s s' : σ) : Prop where
  during : D.during t job s'
  carries : D.Carries (some t) s s'
  kept : D.kept s s'

/-- The contract of a task.  A discipline is about all tasks at once; seen from one of them it is a
contract of that task with the rest. -/
def contract (t : Nat) (job : κ) : Contract σ κ where
  step := D.Steps t job
  waits := D.waits job
  pause s := D.during t job s ∧ D.held t job s
  renews := D.renews job

/-- What holds where a task ends. -/
def post (t : Nat) (job : κ) (e : Ending ε ν) (s : σ) : Prop :=
  D.during t job s ∧ D.atEnd t job e s

/-- What has to be shown for a discipline to be kept.  `allowed` says what may happen from outside
in which state.  These are the proof obligations for one program: one for each kind of thing that
can be ready, and one for what happens from outside. -/
structure Lawful (rules : Rules σ ε ν κ η) (outside : ω → σ → σ) (allowed : ω → σ → Prop) :
    Prop where
  begins {s : σ} {t : Nat} {st : TaskState κ} : D.inv s → D.item (.start t) s →
    (HasLoop.loop s).task? t = some st → st.mustCancel = false →
    D.Steps t st.job s (Machine.turnOf t s) ∧
      (rules.body st.job).Keeps (D.contract t st.job) (D.post t st.job) (Machine.turnOf t s)
  skips {s : σ} {t : Nat} {st : TaskState κ} : D.inv s → D.item (.start t) s →
    (HasLoop.loop s).task? t = some st → st.mustCancel = true →
    D.Passes none s (HasLoop.update s fun l => l.finish t .cancelled)
  resumes {s : σ} {t : Nat} {st : TaskState κ} : D.inv s → (HasLoop.loop s).task? t = some st →
    D.held t st.job s →
    let s' := Machine.turnOf t
      (HasLoop.update s fun l => l.setTask t { st with waiting := none, mustCancel := false })
    D.Steps t st.job s s' ∧ D.held t st.job s'
  renews {s : σ} {t : Nat} {job next : κ} (e : Ending ε ν) : D.during t job s → D.held t job s →
    D.renews job next → (rules.renewed next e).Keeps (D.contract t job) (D.post t job) s
  ends {s : σ} {t : Nat} {job : κ} {e : Ending ε ν} : D.during t job s → D.atEnd t job e s →
    D.Passes (some t) s (HasLoop.update s fun l => Machine.conclude l t e)
  suspends {s : σ} {t : Nat} {job : κ} {signal : Signal} : D.during t job s → D.held t job s →
    D.waits job signal →
    D.Passes (some t) s (HasLoop.update s fun l => Machine.suspend l t signal) ∧
      D.held t job (HasLoop.update s fun l => Machine.suspend l t signal)
  fires {s : σ} {id : Nat} : D.inv s → D.item (.timer id) s →
    D.Passes none s (HasLoop.update s fun l => Machine.fireTimer l (HasLoop.unit σ) id)
  relays {s : σ} {next signal : Signal} : D.inv s → D.item (.follow (.relay next) signal) s →
    D.Passes none s (HasLoop.update s fun l => l.raise next ((l.ending? signal).getD .cancelled))
  counts {s : σ} {n : Nat} {signal : Signal} : D.inv s → D.item (.follow (.part n) signal) s →
    D.Passes none s (HasLoop.update s fun l => l.countPart (HasLoop.unit σ) n)
  hooks {s : σ} {h : η} {signal : Signal} : D.inv s → D.item (.follow (.hook h) signal) s →
    D.Passes none s (rules.hook h s)
  dues {s : σ} : D.inv s → D.Passes none s (HasLoop.update s Moment.due)
  ready {s : σ} {i : Ready η} : D.inv s → i ∈ (HasLoop.loop s).ready → D.item i s
  empties {s : σ} : D.inv s → D.Passes none s (HasLoop.update s fun l => { l with ready := [] })
  happens {s : σ} {o : ω} : D.inv s → allowed o s →
    D.inv (outside o s) ∧ D.Carries none s (outside o s)

variable {D} {s s' s'' : σ} {own : Option Nat} {t : Nat} {job : κ}

theorem Carries.trans (h : D.Carries own s s') (k : D.Carries own s' s'') :
    D.Carries own s s'' := by
  refine ⟨h.evolves.trans k.evolves, fun i hi => k.items i (h.items i hi), ?_⟩
  intro t job hown ht hj hheld
  have ht' := Nat.lt_of_lt_of_le ht h.evolves.next
  exact k.held t job hown ht' hj (h.held t job hown ht (k.evolves.jobs t job ht' hj) hheld)

theorem Carries.refl (own : Option Nat) (s : σ) : D.Carries own s s :=
  ⟨.refl _, fun _ hi => hi, fun _ _ _ _ _ hh => hh⟩

theorem Steps.refl (h : D.during t job s) : D.Steps t job s s :=
  ⟨h, .refl _ s, D.kept_refl s⟩

theorem Steps.trans (h : D.Steps t job s s') (k : D.Steps t job s' s'') : D.Steps t job s s'' :=
  ⟨k.during, h.carries.trans k.carries, D.kept_trans h.kept k.kept⟩

theorem Steps.pass (h : D.Steps t job s s') (k : D.Passes (some t) s' s'') :
    D.Passes (some t) s s'' :=
  ⟨k.inv, h.carries.trans k.carries, D.kept_trans h.kept k.kept⟩

theorem steps_of_many (h : D.during t job s)
    (steps : Relation.ReflTransGen (D.contract t job).step s s') : D.Steps t job s s' := by
  induction steps with
  | refl => exact .refl h
  | tail _ step ih => exact ih.trans step

/-! ## Moments -/

/-- What a waiting task still has to do keeps the task's contract.  It has to do so from every state
that can have come about while the task was asleep, and however its wait has ended. -/
def KeepsOn (D : Discipline σ ε ν κ η) (t : Nat) (job : κ) (rest : Rest σ ε ν κ) : Prop :=
  ∀ ending u, (D.contract t job).pause u → (rest ending).Keeps (D.contract t job) (D.post t job) u

/-- What holds of the tasks that wait, one of them aside.  Each of them is known to the loop, and
what it still has to do keeps its contract. -/
def Waiting (D : Discipline σ ε ν κ η) (own : Option Nat) (s : σ)
    (suspended : List (Nat × Rest σ ε ν κ)) : Prop :=
  ∀ t rest, own ≠ some t → Assoc.get? t suspended = some rest →
    t < (HasLoop.loop s).nextTask ∧
    ∀ job, (HasLoop.loop s).jobOf t = some job → D.held t job s ∧ D.KeepsOn t job rest

/-- What holds at every moment.  The round that is being worked off is part of it, since a moment
may be in the middle of a round. -/
structure Holds (D : Discipline σ ε ν κ η) (c : Moment σ ε ν κ η) : Prop where
  inv : D.inv c.state
  fresh : (HasLoop.loop c.state).Fresh
  queue : ∀ i ∈ c.queue, D.item i c.state
  waiting : D.Waiting none c.state c.machine.suspended

variable {suspended : List (Nat × Rest σ ε ν κ)} {queue : List (Ready η)}

theorem Waiting.evolve (h : D.Waiting own s suspended)
    (evolves : Loop.Evolves (HasLoop.loop s) (HasLoop.loop s'))
    (held : ∀ t job, own ≠ some t → t < (HasLoop.loop s).nextTask →
      (HasLoop.loop s').jobOf t = some job → D.held t job s → D.held t job s') :
    D.Waiting own s' suspended := by
  intro t rest hown hrest
  obtain ⟨ht, hjob⟩ := h t rest hown hrest
  refine ⟨Nat.lt_of_lt_of_le ht evolves.next, fun job hj => ?_⟩
  obtain ⟨hheld, hkeeps⟩ := hjob job (evolves.jobs t job ht hj)
  exact ⟨held t job hown ht hj hheld, hkeeps⟩

theorem Waiting.carry (h : D.Waiting own s suspended) (k : D.Carries own s s') :
    D.Waiting own s' suspended :=
  h.evolve k.evolves k.held

theorem Waiting.weaken (h : D.Waiting none s suspended) (own : Option Nat) :
    D.Waiting own s suspended :=
  fun t rest _ => h t rest nofun

theorem Waiting.erase (h : D.Waiting none s suspended) (t : Nat) :
    D.Waiting (some t) s (Assoc.erase t suspended) := by
  intro u rest hown hrest
  have hne : u ≠ t := fun he => hown (he ▸ rfl)
  rw [Assoc.get?_erase_of_ne hne] at hrest
  exact h u rest nofun hrest

/-- A moment that comes of another without anything from outside.  What a discipline keeps from
change to change is transitive, so it is kept along a whole run of moments. -/
structure Follows (D : Discipline σ ε ν κ η) (s : σ) (c : Moment σ ε ν κ η) : Prop where
  holds : D.Holds c
  kept : D.kept s c.state

theorem Holds.change {m : Machine σ ε ν κ} (h : D.Holds ⟨m, queue⟩) (hinv : D.inv s')
    (k : D.Carries none m.state s') : D.Holds ⟨{ m with state := s' }, queue⟩ where
  inv := hinv
  fresh := k.evolves.fresh h.fresh
  queue i hi := k.items i (h.queue i hi)
  waiting := h.waiting.carry k

theorem Holds.pass {m : Machine σ ε ν κ} (h : D.Holds ⟨m, queue⟩) (k : D.Passes none m.state s') :
    D.Follows m.state ⟨{ m with state := s' }, queue⟩ :=
  ⟨h.change k.inv k.carries, k.kept⟩

theorem Holds.follows {c : Moment σ ε ν κ η} (h : D.Holds c) : D.Follows c.state c :=
  ⟨h, D.kept_refl _⟩

/-- What is left of a round is in order if all of it was. -/
theorem Holds.others {m : Machine σ ε ν κ} {i : Ready η} {before after : List (Ready η)}
    (h : D.Holds ⟨m, before ++ i :: after⟩) :
    D.Holds ⟨m, before ++ after⟩ ∧ D.item i m.state := by
  refine ⟨{ h with queue := fun j hj => h.queue j ?_ }, h.queue i (by simp)⟩
  rcases List.mem_append.mp hj with hj | hj <;> simp [hj]

variable {rules : Rules σ ε ν κ η} {outside : ω → σ → σ} {allowed : ω → σ → Prop}

theorem Lawful.gather (law : D.Lawful rules outside allowed) {c : Moment σ ε ν κ η}
    (h : D.Holds c) : D.Follows c.state c.gather := by
  have hdue := h.pass (m := c.machine) (law.dues h.inv)
  have hempty := hdue.holds.pass (law.empties hdue.holds.inv)
  refine ⟨{ hempty.holds with queue := fun i hi => ?_ }, D.kept_trans hdue.kept hempty.kept⟩
  rcases List.mem_append.mp hi with hi | hi
  · exact hempty.holds.queue i hi
  · exact (law.empties hdue.holds.inv).carries.items i (law.ready hdue.holds.inv hi)

variable [LawfulLoop σ]

/-- What a turn leaves behind is in order again. -/
theorem Lawful.left (law : D.Lawful rules outside allowed) {start : σ} {m : Machine σ ε ν κ}
    (begun : D.Steps t job s start) (hfresh : (HasLoop.loop s).Fresh)
    (hqueue : ∀ i ∈ queue, D.item i s) (hwaiting : D.Waiting (some t) s suspended)
    (hlt : t < (HasLoop.loop s).nextTask) (hjob : (HasLoop.loop start).jobOf t = some job)
    (left : Machine.Left (D.contract t job) (D.post t job) t start suspended m) :
    D.Follows s ⟨m, queue⟩ := by
  -- The turn ends with the end of the task or with a wait.  For all other tasks the two are alike.
  cases left with
  | @ended u e steps holds =>
    obtain ⟨hinv, carries, hkept⟩ :=
      (begun.trans (steps_of_many begun.during steps)).pass (law.ends holds.1 holds.2)
    refine ⟨⟨hinv, carries.evolves.fresh hfresh, fun i hi => carries.items i (hqueue i hi), ?_⟩,
      hkept⟩
    intro v rest _ hrest
    by_cases hv : v = t
    · subst hv
      refine ⟨Nat.lt_of_lt_of_le hlt carries.evolves.next, fun job hj => ?_⟩
      obtain ⟨e', he'⟩ := Loop.conclude_eq_finish (HasLoop.loop u) v e
      rw [Moment.state, HasLoop.loop_update, he', Loop.jobOf_finish_self] at hj
      cases hj
    · exact (hwaiting.carry carries) v rest (fun h => hv (Option.some.inj h).symm) hrest
  | @waits u signal rest steps allowed holds keeps =>
    have more := steps_of_many begun.during steps
    obtain ⟨hpass, hheld⟩ := law.suspends more.during holds.2 allowed
    obtain ⟨-, later, -⟩ := more.pass hpass
    obtain ⟨hinv, carries, hkept⟩ := (begun.trans more).pass hpass
    refine ⟨⟨hinv, carries.evolves.fresh hfresh, fun i hi => carries.items i (hqueue i hi), ?_⟩,
      hkept⟩
    intro v rest' _ hrest
    by_cases hv : v = t
    · subst hv
      have hsame : rest' = rest := by
        simpa [Assoc.get?] using hrest.symm
      subst hsame
      refine ⟨Nat.lt_of_lt_of_le hlt carries.evolves.next, fun job' hj => ?_⟩
      have hlt' := Nat.lt_of_lt_of_le hlt begun.carries.evolves.next
      have hsame := hjob.symm.trans (later.evolves.jobs v job' hlt' hj)
      rw [← Option.some.inj hsame]
      exact ⟨hheld, keeps⟩
    · have hrest : Assoc.get? v suspended = some rest' := by
        simpa [Assoc.get?, Ne.symm hv] using hrest
      exact (hwaiting.carry carries) v rest' (fun h => hv (Option.some.inj h).symm) hrest

/-- The rest of a turn after it has begun.  The routine may stop at a wait, at its end, or where it
starts over as another job, and in each case the moment is in order. -/
theorem Lawful.proceed (law : D.Lawful rules outside allowed) {m : Machine σ ε ν κ}
    (begun : D.Steps t job s (Machine.turnOf t m.state)) (hfresh : (HasLoop.loop s).Fresh)
    (hqueue : ∀ i ∈ queue, D.item i s) (hwaiting : D.Waiting (some t) s m.suspended)
    (hlt : t < (HasLoop.loop s).nextTask)
    (hjob : (HasLoop.loop (Machine.turnOf t m.state)).jobOf t = some job)
    (routine : Routine σ ε ν κ ν)
    (hkeeps : routine.Keeps (D.contract t job) (D.post t job) (Machine.turnOf t m.state)) :
    D.Follows s ⟨m.proceed rules t routine, queue⟩ := by
  refine law.left begun hfresh hqueue hwaiting hlt hjob ?_
  exact Machine.proceed_keeps (c := D.contract t job) rules t
    (fun next e s hnext hs => law.renews e hs.1 hs.2 hnext) m routine hkeeps

theorem Lawful.start (law : D.Lawful rules outside allowed) {m : Machine σ ε ν κ}
    (h : D.Holds ⟨m, queue⟩) (hitem : D.item (.start t) m.state) :
    D.Follows m.state ⟨m.startTask rules t, queue⟩ := by
  unfold Machine.startTask
  split
  · exact h.follows
  · next st hst =>
    split
    · next hcancel => exact h.pass (law.skips h.inv hitem hst hcancel)
    · next hcancel =>
      obtain ⟨hstep, hkeeps⟩ := law.begins h.inv hitem hst (Bool.eq_false_iff.mpr hcancel)
      have hjob : (HasLoop.loop m.state).jobOf t = some st.job := Loop.jobOf_of_task? hst
      refine law.proceed hstep h.fresh h.queue (h.waiting.weaken _)
        (h.fresh.lt_of_jobOf hjob) ?_ _ hkeeps
      rw [Machine.turnOf, HasLoop.loop_update]
      exact hjob

theorem Lawful.resume (law : D.Lawful rules outside allowed) {m : Machine σ ε ν κ}
    (h : D.Holds ⟨m, queue⟩) (signal : Signal) :
    D.Follows m.state ⟨m.resumeTask rules t signal, queue⟩ := by
  unfold Machine.resumeTask
  split
  · next st rest hst hrest =>
    have hjob : (HasLoop.loop m.state).jobOf t = some st.job := Loop.jobOf_of_task? hst
    obtain ⟨hlt, hwaiting⟩ := h.waiting t rest nofun hrest
    obtain ⟨hheld, hkeeps⟩ := hwaiting _ hjob
    obtain ⟨hstep, hheld'⟩ := law.resumes h.inv hst hheld
    refine law.proceed hstep h.fresh h.queue (h.waiting.erase t) hlt ?_ _
      (hkeeps _ _ ⟨hstep.during, hheld'⟩)
    have hset : ((HasLoop.loop m.state).setTask t
        { st with waiting := none, mustCancel := false }).jobOf t = some st.job := by
      rw [Loop.jobOf, Loop.task?_setTask, if_pos rfl, Option.map_some]
    rw [Machine.turnOf, HasLoop.loop_update, Machine.updateLoop, HasLoop.loop_update]
    exact hset
  · exact h.follows

/-- Whatever is ready can be done. -/
theorem Lawful.run (law : D.Lawful rules outside allowed) {m : Machine σ ε ν κ} {i : Ready η}
    (h : D.Holds ⟨m, queue⟩) (hitem : D.item i m.state) :
    D.Follows m.state ⟨m.runReady rules i, queue⟩ := by
  cases i with
  | start t => exact law.start h hitem
  | timer id => exact h.pass (law.fires h.inv hitem)
  | follow f signal =>
    cases f with
    | resume t => exact law.resume h signal
    | relay next => exact h.pass (law.relays h.inv hitem)
    | part n => exact h.pass (law.counts h.inv hitem)
    | hook k => exact h.pass (law.hooks h.inv hitem)

/-- What a discipline says holds along every course, and so does whatever is said of the happenings
from outside that tasks leave alone.  The induction is on the course; every step of it is one thing
that was ready, the beginning of a round, or a happening. -/
theorem Lawful.leads (law : D.Lawful rules outside allowed) {p : List ω → σ → Prop} {q : ω → Prop}
    (kept : ∀ os s s', p os s → D.kept s s' → p os s')
    (happens : ∀ os s o, D.inv s → q o → p os s → allowed o s ∧ p (os ++ [o]) (outside o s))
    {c d : Moment σ ε ν κ η} {os : List ω} (h : D.Holds c) (hsaid : p [] c.state)
    (leads : Leads rules outside c os d) (hos : ∀ o ∈ os, q o) :
    D.Holds d ∧ p os d.state := by
  induction leads with
  | refl => exact ⟨h, hsaid⟩
  | @happens os d _ o ih =>
    obtain ⟨hd, hsaid⟩ := ih fun o' ho' => hos o' (List.mem_append_left _ ho')
    obtain ⟨ho, hnext⟩ := happens _ _ o hd.inv (hos o (by simp)) hsaid
    obtain ⟨hinv, carries⟩ := law.happens hd.inv ho
    exact ⟨hd.change (m := d.machine) hinv carries, hnext⟩
  | gathers _ ih =>
    obtain ⟨hd, hsaid⟩ := ih hos
    obtain ⟨hd', hkept⟩ := law.gather hd
    exact ⟨hd', kept _ _ _ hsaid hkept⟩
  | @runs os m item before after _ ih =>
    obtain ⟨hd, hsaid⟩ := ih hos
    obtain ⟨hrest, hitem⟩ := hd.others
    obtain ⟨hd', hkept⟩ := law.run hrest hitem
    exact ⟨hd', kept _ _ _ hsaid hkept⟩

end Discipline

end PikeAnalysis.Concurrency

/-!
## Routines that abide by a contract anywhere

Most routines do not depend on where they begin: wherever their contract lets a task wait, it lets
them run, and where they end the task could wait again.  `Routine.Abides` says so.  It is kept by
all ways of putting routines together, so only the changes that a routine makes to the state have to
be looked at.
-/

namespace PikeAnalysis.Concurrency

variable {σ ε ν κ η α β : Type} {c : Contract σ κ}

namespace Routine

/-- A routine abides by a contract wherever the task may wait, and ends where it may wait. -/
def Abides (c : Contract σ κ) (r : Routine σ ε ν κ α) : Prop :=
  ∀ s, c.pause s → r.Keeps c (fun _ => c.pause) s

theorem abides_done (a : α) : Abides c (.done a : Routine σ ε ν κ α) :=
  fun _ hs => hs

theorem abides_fail (e : ε) : Abides c (.fail e : Routine σ ε ν κ α) :=
  fun _ hs => hs

theorem abides_cancelled : Abides c (.cancelled : Routine σ ε ν κ α) :=
  fun _ hs => hs

theorem abides_ofEnding (ending : Ending ε α) : Abides c (ofEnding ending : Routine σ ε ν κ α) :=
  fun _ hs => keeps_ofEnding hs

theorem abides_renew {signal : Signal} {job : κ} (waits : c.waits signal) (renews : c.renews job) :
    Abides c (.renew signal job : Routine σ ε ν κ α) :=
  fun _ hs => ⟨waits, hs, renews⟩

theorem abides_wait {signal : Signal} {k : Ending ε ν → Routine σ ε ν κ α}
    (waits : c.waits signal) (next : ∀ ending, Abides c (k ending)) : Abides c (.wait signal k) :=
  fun _ hs => ⟨waits, hs, fun ending t ht => next ending t ht⟩

theorem abides_act {f : σ → σ × α}
    (step : ∀ s, c.pause s → c.step s (f s).1 ∧ c.pause (f s).1) :
    Abides c (act f : Routine σ ε ν κ α) :=
  fun s hs => step s hs

theorem abides_modify {f : σ → σ} (step : ∀ s, c.pause s → c.step s (f s) ∧ c.pause (f s)) :
    Abides c (modify f : Routine σ ε ν κ Unit) :=
  fun s hs => step s hs

theorem abides_read (f : σ → α) : Abides c (read f : Routine σ ε ν κ α) :=
  fun _ hs => hs

theorem Abides.andThen {r : Routine σ ε ν κ α} {f : α → Routine σ ε ν κ β} (h : Abides c r)
    (next : ∀ a, Abides c (f a)) : Abides c (r.andThen f) :=
  fun s hs => (h s hs).andThen (fun a t ht => next a t ht) (fun _ _ ht => ht) fun _ ht => ht

theorem Abides.bind {r : Routine σ ε ν κ α} {f : α → Routine σ ε ν κ β} (h : Abides c r)
    (next : ∀ a, Abides c (f a)) : Abides c (r >>= f) :=
  h.andThen next

theorem Abides.onEnd {r : Routine σ ε ν κ α} {f : Ending ε α → Routine σ ε ν κ β} (h : Abides c r)
    (next : ∀ ending, Abides c (f ending)) : Abides c (r.onEnd f) :=
  fun s hs => (h s hs).onEnd fun ending t ht => next ending t ht

end Routine

/-! ### Waiting in the loop -/

variable [HasLoop σ κ η ε ν]

/-- A contract that lets a task wait for anything, and lets it do with the loop what leaves the
clock and the jobs of all tasks alone.  For such a contract the operations that wait in the loop
abide by it without further conditions. -/
structure Contract.Easy (c : Contract σ κ) : Prop where
  waits : ∀ signal, c.waits signal
  loops : ∀ (s : σ) (l : Loop κ η ε ν), c.pause s → Loop.SameJobs (HasLoop.loop s) l →
    l.now = (HasLoop.loop s).now → c.step s (HasLoop.withLoop s l) ∧ c.pause (HasLoop.withLoop s l)

namespace Routine

theorem abides_onLoop (easy : c.Easy) {f : Loop κ η ε ν → Loop κ η ε ν × α}
    (same : ∀ l, Loop.SameJobs l (f l).1) (still : ∀ l, (f l).1.now = l.now) :
    Abides c (onLoop f : Routine σ ε ν κ α) :=
  abides_act fun s hs => easy.loops s _ hs (same _) (still _)

theorem abides_await (easy : c.Easy) (signal : Signal) :
    Abides c (await signal : Routine σ ε ν κ ν) :=
  abides_wait (easy.waits signal) abides_ofEnding

theorem sameJobs_newTicket (l : Loop κ η ε ν) : Loop.SameJobs l l.newTicket.1 :=
  ⟨fun _ => rfl, rfl, fun _ h => h⟩

theorem sameJobs_stopTimer (l : Loop κ η ε ν) (id : Nat) : Loop.SameJobs l (l.stopTimer id) :=
  ⟨fun _ => rfl, rfl, fun _ h => h⟩

theorem abides_sleep (easy : c.Easy) (d : Duration) :
    Abides c (sleep d : Routine σ ε ν κ Unit) := by
  unfold sleep
  refine (abides_onLoop easy (fun l => ?_) fun _ => rfl).bind fun (_, timer) => ?_
  · exact (sameJobs_newTicket l).trans (Loop.sameTasks_startTimer _ _ _).sameJobs
  · refine abides_wait (easy.waits _) fun ending => ?_
    refine (abides_onLoop easy (fun l => sameJobs_stopTimer l timer) fun _ => rfl).andThen
      fun _ => ?_
    exact (abides_ofEnding ending).andThen fun _ => abides_done ()

theorem abides_within (easy : c.Easy) (d : Duration) (late : ε) {r : Routine σ ε ν κ α}
    (h : Abides c r) : Abides c (within d late r) := by
  unfold within
  refine (abides_onLoop easy (fun l => ?_) fun l => ?_).bind fun (before, limit) => ?_
  · exact (Loop.sameTasks_startLimit l d).sameJobs
  · exact Loop.now_startLimit l d
  · refine h.onEnd fun ending => ?_
    refine (abides_onLoop easy (fun l => ?_) fun l => ?_).bind fun (left, expired) => ?_
    · exact Loop.sameJobs_stopLimit l limit
    · exact Loop.now_stopLimit l limit
    · cases ending with
      | value a => exact abides_done a
      | error e => exact abides_fail e
      | cancelled =>
        dsimp only
        split
        · exact abides_fail late
        · exact abides_cancelled

theorem abides_awaitTask (easy : c.Easy) (task : Nat) :
    Abides c (awaitTask task : Routine σ ε ν κ ν) := by
  unfold awaitTask
  refine (abides_onLoop easy (fun l => ?_) fun l => ?_).bind fun ticket => ?_
  · dsimp only
    split
    · exact .refl l
    · exact (sameJobs_newTicket l).follow _ _
  · dsimp only
    split
    · rfl
    · exact Loop.now_follow ..
  · cases ticket with
    | none => exact abides_await easy _
    | some n => exact abides_await easy _

theorem abides_awaitAll (easy : c.Easy) (signals : List Signal) :
    Abides c (awaitAll signals : Routine σ ε ν κ Unit) := by
  unfold awaitAll
  refine (abides_onLoop easy (fun l => (Loop.sameTasks_joinAll l signals).sameJobs)
    fun l => Loop.now_joinAll l signals).bind fun ticket => ?_
  cases ticket with
  | none => exact abides_done ()
  | some n => exact (abides_await easy _).andThen fun _ => abides_done ()

end Routine

end PikeAnalysis.Concurrency
