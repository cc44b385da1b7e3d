import PikeAnalysis.Proofs.Concurrency.Charter

/-!
# Tasks that wait

Whatever else is done meanwhile, a task that waits for a signal does so until it goes on after it,
and then with what was left of it when it began to wait (`Charter.Lawful.goesOn`).

A charter says of each moment that everything is in order, and of what has become of one moment that
some things have stayed.  Here the two are put together for one task: from the moment when it begins
to wait, either it is still parked, with the same signal and the same rest, or there was a moment in
which it went on after the signal, in the state that was there then.  So what a caller does with an
answer can be followed through its own rest, over whatever the others have done.
-/

namespace PikeAnalysis.Concurrency

variable {σ ε ν κ η ω : Type} [HasLoop σ κ η ε ν]

/-! ## Waiting for a task -/

/-- Waiting for a signal, and then something else however it ends. -/
theorem Routine.await_onEnd (signal : Signal) (f : Ending ε ν → Routine σ ε ν κ ν) :
    (Routine.await signal).onEnd f = .wait signal f := by
  rw [Routine.await, Routine.onEnd]
  exact congrArg _ (funext fun e => Routine.ofEnding_onEnd e f)

/-- What waiting for a task does first: a ticket is taken unless the task has ended. -/
theorem Routine.runs_awaitTask_onEnd (s : σ) (t : Nat) (f : Ending ε ν → Routine σ ε ν κ ν) :
    Machine.runRoutine ((Routine.awaitTask t).onEnd f) s =
      if (HasLoop.loop s).isEnded t then
        Machine.runRoutine (.wait (.ended t) f) (HasLoop.withLoop s (HasLoop.loop s))
      else
        Machine.runRoutine (.wait (.ticket (HasLoop.loop s).nextTicket) f)
          (HasLoop.withLoop s ((HasLoop.loop s).newTicket.1.follow (.ended t)
            (.relay (.ticket (HasLoop.loop s).nextTicket)))) := by
  have asked {g : Loop κ η ε ν → Loop κ η ε ν × Option Nat}
    {next : Option Nat → Routine σ ε ν κ ν} :
      Machine.runRoutine (((Routine.onLoop g).andThen next).onEnd f) s =
        Machine.runRoutine ((next (HasLoop.act s g).2).onEnd f) (HasLoop.act s g).1 := rfl
  rw [Routine.awaitTask]
  refine asked.trans ?_
  by_cases gone : (HasLoop.loop s).isEnded t = true
  · simp only [HasLoop.act, if_pos gone, Routine.await_onEnd]
  · simp only [HasLoop.act, if_neg gone, Routine.await_onEnd]
    rfl

theorem Routine.runs_awaitTask (s : σ) (t : Nat) (k : ν → Routine σ ε ν κ ν) :
    Machine.runRoutine ((Routine.awaitTask t).andThen k) s =
      if (HasLoop.loop s).isEnded t then
        Machine.runRoutine ((Routine.await (.ended t)).andThen k)
          (HasLoop.withLoop s (HasLoop.loop s))
      else
        Machine.runRoutine ((Routine.await (.ticket (HasLoop.loop s).nextTicket)).andThen k)
          (HasLoop.withLoop s ((HasLoop.loop s).newTicket.1.follow (.ended t)
            (.relay (.ticket (HasLoop.loop s).nextTicket)))) := by
  simp only [Routine.andThen_eq_onEnd, Routine.runs_awaitTask_onEnd, Routine.await_onEnd]

theorem Routine.runs_await_of_raised {s : σ} {signal : Signal} {e : Ending ε ν}
    (raised : (HasLoop.loop s).ending? signal = some e) (k : ν → Routine σ ε ν κ ν) :
    Machine.runRoutine ((Routine.await signal).andThen k) s =
      Machine.runRoutine ((Routine.ofEnding e).andThen k) s := by
  rw [Routine.await, Routine.andThen, Machine.runRoutine, raised]

theorem Routine.runs_await_of_open {s : σ} {signal : Signal}
    (unraised : (HasLoop.loop s).ending? signal = none) (k : ν → Routine σ ε ν κ ν) :
    Machine.runRoutine ((Routine.await signal).andThen k) s =
      (s, .waits signal fun e => (Routine.ofEnding e).andThen k) := by
  rw [Routine.await, Routine.andThen, Machine.runRoutine, unraised]

/-! ## Waits -/

/-- A task waits for a signal, and then has a rest to do.  The task is in the books as waiting for
the signal, and the rest is in the machine. -/
structure Machine.Parks (m : Machine σ ε ν κ) (t : Nat) (signal : Signal) (rest : Rest σ ε ν κ) :
    Prop where
  waiting : (HasLoop.loop m.state).waitingOn t = some signal
  suspended : Assoc.get? t m.suspended = some rest

/-- The machine after a task has gone on with a routine until it waits again or ends. -/
def Machine.goOn (rules : Rules σ ε ν κ η) (m : Machine σ ε ν κ) (t : Nat) (r : Routine σ ε ν κ ν) :
    Machine σ ε ν κ :=
  match m.loop.task? t with
  | none => m
  | some st =>
    ({ m with suspended := Assoc.erase t m.suspended }.updateLoop fun l =>
      l.setTask t { st with waiting := none, mustCancel := false }).proceed rules t r

/-- A task that waits goes on as the signal has ended, or as cancelled if it was to be cancelled. -/
theorem Machine.Parks.goOn {m : Machine σ ε ν κ} {t : Nat} {signal : Signal} {rest : Rest σ ε ν κ}
    (parks : m.Parks t signal rest) (rules : Rules σ ε ν κ η)
    (raised : (HasLoop.loop m.state).ending? signal ≠ none) :
    ∃ e, ((HasLoop.loop m.state).ending? signal = some e ∨
        e = .cancelled ∧ ∃ st, (HasLoop.loop m.state).task? t = some st ∧ st.mustCancel = true) ∧
      m.runReady rules (.follow (.resume t) signal) = m.goOn rules t (rest e) := by
  obtain ⟨e, he⟩ := Option.ne_none_iff_exists'.mp raised
  obtain ⟨st, hst, -⟩ := Option.bind_eq_some_iff.mp parks.waiting
  have htask : m.loop.task? t = some st := hst
  have went : m.runReady rules (.follow (.resume t) signal) =
      m.goOn rules t (rest (if st.mustCancel then .cancelled else e)) := by
    rw [runReady, resumeTask, Machine.goOn, htask, parks.suspended,
      show m.loop.ending? signal = some e from he]
    rfl
  rw [went]
  cases marked : st.mustCancel with
  | true => exact ⟨.cancelled, .inr ⟨rfl, st, hst, marked⟩, rfl⟩
  | false => exact ⟨e, .inl he, rfl⟩

/-- How a task goes on that waits for a ticket to which a signal is passed on: as the signal has
ended, or as cancelled, of which it was going to hear already or which has been counted since.  A
cancellation is counted where it is asked for, so that it can be told from one that comes with the
signal. -/
def Loop.Learns (l l' : Loop κ η ε ν) (t n : Nat) (signal : Signal) (e : Ending ε ν) : Prop :=
  l'.ending? signal = some e ∨
    e = .cancelled ∧ (l.Warned t (.ticket n) ∨ l.cancelCount t < l'.cancelCount t)

namespace Charter

variable [LawfulLoop σ] {C : Charter σ} {rules : Rules σ ε ν κ η} {outside : ω → σ → σ}
  {allowed : ω → Prop} {t : Nat}
  {signal : Signal} {rest : Rest σ ε ν κ} {m m' : Machine σ ε ν κ} {own own' : Option Nat}
  {Q Q' : Multiset (Ready η)} {W : Nat → Prop} {i : Ready η}

omit [LawfulLoop σ] in
theorem Follows.parks (h : C.Follows W Q m own Q' m') (aside : ¬ W t)
    (parks : m.Parks t signal rest) :
    m'.Parks t signal rest :=
  ⟨(h.waiting t aside).trans parks.waiting, (h.suspended t aside).trans parks.suspended⟩

omit [LawfulLoop σ] in
/-- The turn of a task that waits comes only after what it waits for. -/
theorem Holds.resumes (h : C.Holds none (i ::ₘ Q) m) (parks : m.Parks t signal rest)
    (turn : TurnOf t i) :
    i = .follow (.resume t) signal := by
  have here : 0 < Loop.pending (i ::ₘ Q) (HasLoop.loop m.state) i := by
    rw [Loop.pending_cons, if_pos rfl]
    exact Nat.succ_pos _
  cases i with
  | start u =>
    obtain rfl : t = u := turn
    have begun := (h.sane.starts t here).2.2
    rw [parks.waiting] at begun
    cases begun
  | timer id => cases turn
  | follow f signal' =>
    cases f with
    | resume u =>
      obtain rfl : t = u := turn
      have waiting := (h.sane.resumes t signal' here).2
      rw [parks.waiting] at waiting
      rw [Option.some.inj waiting]
    | relay | part | hook => cases turn

/-- As long as a task that waits has not gone on, only the others have; and it goes on with what it
had left to do.  The course is cut where the task has gone on: before, it had no turn, and after,
the machine is what came of its rest. -/
theorem Lawful.goesOn (law : C.Lawful rules outside allowed) {c d : Moment σ ε ν κ η} {os : List ω}
    (h : C.Holds none (c.queue : Multiset (Ready η)) c.machine) (leads : Leads rules outside c os d)
    (hos : ∀ o ∈ os, allowed o) (parks : c.machine.Parks t signal rest) :
    C.Follows (· ≠ t) (c.queue : Multiset (Ready η)) c.machine none
      (d.queue : Multiset (Ready η)) d.machine ∨
      ∃ m before after os₁ os₂, os₁ ++ os₂ = os ∧
        Leads rules outside c os₁ ⟨m, before ++ .follow (.resume t) signal :: after⟩ ∧
          C.Follows (· ≠ t) (c.queue : Multiset (Ready η)) c.machine none
            (.follow (.resume t) signal ::ₘ
              ((before ++ after : List (Ready η)) : Multiset (Ready η))) m ∧
              Leads rules outside
                ⟨m.runReady rules (.follow (.resume t) signal), before ++ after⟩ os₂ d := by
  -- Once the task has gone on the course is only made longer; before, the last thing done may be
  -- its turn.
  induction leads with
  | refl => exact .inl (.refl h)
  | happens led o ih =>
    obtain ⟨earlier, last⟩ := List.forall_mem_append.mp hos
    rcases ih earlier with still | ⟨m, before, after, os₁, os₂, rfl, reached, parked, onward⟩
    · have happens := law.happens (o := o) still.holds.inv still.holds.guarded
        (last o (List.mem_singleton_self o))
      exact .inl (still.trans (still.holds.pass happens))
    · refine .inr ⟨m, before, after, os₁, os₂ ++ [o], ?_, reached, parked, onward.happens o⟩
      rw [List.append_assoc]
  | gathers led ih =>
    rcases ih hos with still | ⟨m, before, after, os₁, os₂, rfl, reached, parked, onward⟩
    · exact .inl (still.trans still.holds.gather)
    · exact .inr ⟨m, before, after, os₁, os₂, rfl, reached, parked, onward.gathers⟩
  | @runs os m item before after led ih =>
    rcases ih hos with still | ⟨m', before', after', os₁, os₂, rfl, reached, parked, onward⟩
    · rw [multiset_middle] at still
      by_cases turn : TurnOf t item
      · obtain rfl := still.holds.resumes (still.parks (fun other => other rfl) parks) turn
        exact .inr ⟨m, before, after, os, [], List.append_nil os, led, still, .refl⟩
      · refine .inl (still.trans ((law.run still.holds).mono fun u hu he => turn ?_))
        exact he ▸ hu
    · exact .inr ⟨m', before', after', os₁, os₂, rfl, reached, parked, onward.runs⟩

/-- A task that waits for a ticket goes on as the signal has ended to which the ticket is bound.  It
goes on as cancelled only if it has been cancelled, and not at all if it is firm. -/
theorem Lawful.hears (law : C.Lawful rules outside allowed) {c d : Moment σ ε ν κ η}
    {os : List ω} {n : Nat}
    (h : C.Holds none (c.queue : Multiset (Ready η)) c.machine) (leads : Leads rules outside c os d)
    (hos : ∀ o ∈ os, allowed o) (parks : c.machine.Parks t (.ticket n) rest)
    (bound : Loop.Bound C.custom (C.claims c.state) c.queue (HasLoop.loop c.state) n signal) :
    d.machine.Parks t (.ticket n) rest ∨ ∃ m before after os₁ os₂ e, os₁ ++ os₂ = os ∧
      Leads rules outside c os₁ ⟨m, before ++ .follow (.resume t) (.ticket n) :: after⟩ ∧
        m.Parks t (.ticket n) rest ∧
          Loop.Learns (HasLoop.loop c.state) (HasLoop.loop m.state) t n signal e ∧
          ((∃ job, (HasLoop.loop m.state).jobOf t = some job ∧ C.custom.firm t job) →
            (HasLoop.loop m.state).ending? signal = some e) ∧
            m.runReady rules (.follow (.resume t) (.ticket n)) = m.goOn rules t (rest e) ∧
              Leads rules outside ⟨m.goOn rules t (rest e), before ++ after⟩ os₂ d := by
  have aside : ¬ t ≠ t := fun other => other rfl
  rcases law.goesOn h leads hos
    parks with still | ⟨m, before, after, os₁, os₂, rfl, reached, follows, onward⟩
  · exact .inl (still.parks aside parks)
  have parked := follows.parks aside parks
  have held := follows.holds
  have raised := held.sane.raised _ _ (.inl (Multiset.mem_cons_self _ _))
  have bound' := follows.bound n signal bound
  obtain ⟨-, warned⟩ := follows.hears t n signal aside parks.waiting bound
  obtain ⟨e, ending, went⟩ := parked.goOn rules raised
  refine .inr
    ⟨m, before, after, os₁, os₂, e, rfl, reached, parked, ?_, fun ⟨job, hjob, firm⟩ => ?_, went,
    went ▸ onward⟩
  · -- What is heard of a cancellation has been heard before, has been counted, or is that of the
    -- signal.
    have learns (cancelled : e = .cancelled)
        (w : Loop.Warned (HasLoop.loop m.state) t (.ticket n)) :
        Loop.Learns (HasLoop.loop c.state) (HasLoop.loop m.state) t n signal e := by
      rcases warned w with w | more | source
      · exact .inr ⟨cancelled, .inl w⟩
      · exact .inr ⟨cancelled, .inr more⟩
      · exact .inl (cancelled ▸ source)
    rcases ending with ending | ⟨cancelled, marked⟩
    · rcases bound'.raised e ending with ⟨cancelled, -⟩ | source
      · exact learns cancelled (.inr (cancelled ▸ ending))
      · exact .inl source
    · exact learns cancelled (.inl marked)
  · rcases ending with ending | ⟨-, st, hst, marked⟩
    · exact (bound'.raised e ending).resolve_left fun ⟨_, loose⟩ =>
        loose ⟨t, job, parked.waiting, hjob, firm⟩
    · obtain rfl := Option.some.inj ((Loop.jobOf_of_task? hst).symm.trans hjob)
      rw [held.guarded.marks t st hst firm] at marked
      cases marked

end Charter

end PikeAnalysis.Concurrency
