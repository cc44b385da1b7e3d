import PikeAnalysis.Proofs.Concurrency.Charter

/-!
# Routines that suit a charter anywhere

Most routines are done by tasks that are not firm, and do not depend on where they begin.
`Routine.Suits` says that a task that is not firm heeds the charter with a routine wherever it is.
This is kept by all ways of putting routines together.

A task may wait for whatever has a number that nobody else can know yet (`Charter.may_fresh`), which
is how most waits come about.  What a firm task does after such a wait may count on the wait not
having been cancelled, so the routines that a firm task may run too are treated for both
(`Routine.heeds_fresh`, `Routine.heeds_awaitTask`, `Routine.heeds_awaitAll`).

To suit a charter is to heed it from every state in which it is the task's turn, with nothing known
about the result.  That is too weak for a job with a postcondition, but it is all that is needed of
the many small routines between two such jobs, and it has no state in it, so it composes without
side conditions.
-/

namespace PikeAnalysis.Concurrency

variable {σ ε ν κ η α β : Type} [HasLoop σ κ η ε ν] {C : Charter σ} {t : Nat} {job : κ} {s u : σ}
  {signal : Signal}

/-- A task may wait for what has been given out in its turn.  It did not exist when the turn began,
so no other task has a claim on it. -/
theorem Charter.may_fresh (amid : C.Amid t job s) (steps : C.Steps t job s u)
    (fresh : ¬ signal.Given (HasLoop.loop s).nextTicket)
    (given : signal.Given (HasLoop.loop u).nextTicket) :
    C.MayAwait t job signal u := by
  have unclaimed (v : Nat) : (HasLoop.loop u).waitingOn v ≠ some signal := by
    by_cases hv : v = t
    · rw [hv, steps.amid.awake]
      exact fun h => by cases h
    · rw [steps.respects.waiting v fun h => hv (Option.some.inj h).symm]
      exact amid.guarded.unclaimed fresh v
  cases signal with
  | ended | turn | answer => exact absurd trivial fresh
  | ticket | joint | outside => exact ⟨⟨given, unclaimed⟩, nofun⟩

namespace Routine

/-- Tasks that are not firm heed a charter with a routine, wherever they are.  Whatever the routine
ends with, everything is in order there. -/
def Suits (C : Charter σ) (r : Routine σ ε ν κ α) : Prop :=
  ∀ t job s, ¬ C.custom.firm t job → C.Amid t job s → C.Heeds t job (fun _ _ => True) r s

theorem suits_done (a : α) : Suits C (.done a) :=
  fun _ _ _ _ amid => ⟨amid, trivial⟩

theorem suits_fail (e : ε) : Suits C (.fail e : Routine σ ε ν κ α) :=
  fun _ _ _ _ amid => ⟨amid, trivial⟩

theorem suits_cancelled : Suits C (.cancelled : Routine σ ε ν κ α) :=
  fun _ _ _ _ amid => ⟨amid, trivial⟩

theorem suits_ofEnding (ending : Ending ε α) : Suits C (ofEnding ending : Routine σ ε ν κ α) :=
  fun _ _ _ _ amid => Charter.heeds_ofEnding amid trivial

theorem Suits.onEnd {r : Routine σ ε ν κ α} {f : Ending ε α → Routine σ ε ν κ β} (h : Suits C r)
    (next : ∀ ending, Suits C (f ending)) : Suits C (r.onEnd f) :=
  fun t job s loose amid =>
    (h t job s loose amid).onEnd fun ending u amid' _ => next ending t job u loose amid'

theorem Suits.andThen {r : Routine σ ε ν κ α} {f : α → Routine σ ε ν κ β} (h : Suits C r)
    (next : ∀ a, Suits C (f a)) : Suits C (r.andThen f) :=
  fun t job s loose amid => (h t job s loose amid).andThen
    (fun a u amid' _ => next a t job u loose amid') (fun _ _ _ => trivial) fun _ _ => trivial

theorem suits_read (f : σ → α) : Suits C (read f : Routine σ ε ν κ α) :=
  fun _ _ _ _ amid => ⟨amid, trivial⟩

theorem suits_act {f : σ → σ × α}
    (step : ∀ t job s, ¬ C.custom.firm t job → C.Amid t job s → C.Steps t job s (f s).1) :
    Suits C (act f : Routine σ ε ν κ α) :=
  fun t job s loose amid =>
    have steps := step t job s loose amid
    ⟨steps, steps.amid, trivial⟩

/-! ## Waits -/

/-- A task that is not firm may wait for what it may wait for. -/
theorem heeds_wait {k : Ending ε ν → Routine σ ε ν κ α} (loose : ¬ C.custom.firm t job)
    (amid : C.Amid t job s)
    (may : (HasLoop.loop s).ending? signal = none → C.MayAwait t job signal s)
    (next : ∀ e, Suits C (k e)) : C.Heeds t job (fun _ _ => True) (.wait signal k) s :=
  ⟨amid, fun e _ => next e t job s loose amid,
    fun unraised => ⟨may unraised, fun e u _ amid' _ _ => next e t job u loose amid'⟩⟩

/-- A task waits for what has been given out in its turn and has not been raised. -/
theorem heeds_fresh {post : Ending ε α → σ → Prop} {k : Ending ε ν → Routine σ ε ν κ α}
    (amid : C.Amid t job s) (steps : C.Steps t job s u)
    (fresh : ¬ signal.Given (HasLoop.loop s).nextTicket)
    (given : signal.Given (HasLoop.loop u).nextTicket)
    (same : (HasLoop.loop u).ending? signal = (HasLoop.loop s).ending? signal)
    (rest : ∀ e v, C.Amid t job v → C.view t v = C.view t u →
      (C.custom.firm t job → (HasLoop.loop v).Delivers signal e) → C.Heeds t job post (k e) v) :
    C.Heeds t job post (.wait signal k) u := by
  have unraised : (HasLoop.loop u).ending? signal = none := by
    rw [same]
    by_contra raised
    exact fresh (amid.guarded.raised signal raised)
  refine ⟨steps.amid, fun e he => ?_, fun _ => ⟨Charter.may_fresh amid steps fresh given,
    fun e v _ => rest e v⟩⟩
  rw [unraised] at he
  cases he

/-- A task that is not firm may wait for what it has got.  The signal is computed from what was got
in the same turn, so nobody else can wait for it or raise it. -/
theorem suits_fresh {f : σ → σ × α} (signal : α → Signal) {k : α → Ending ε ν → Routine σ ε ν κ β}
    (step : ∀ t job s, ¬ C.custom.firm t job → C.Amid t job s → C.Steps t job s (f s).1)
    (fresh : ∀ s, ¬ (signal (f s).2).Given (HasLoop.loop s).nextTicket)
    (given : ∀ s, (signal (f s).2).Given (HasLoop.loop (f s).1).nextTicket)
    (next : ∀ a e, Suits C (k a e)) : Suits C ((act f).andThen fun a => .wait (signal a) (k a)) :=
  fun t job s loose amid =>
    have steps := step t job s loose amid
    Charter.heeds_act_andThen steps (heeds_wait loose steps.amid
      (fun _ => Charter.may_fresh amid steps (fresh s) (given s)) (next (f s).2))

/-- A task that is not firm may start over, after what it has got, as a job that is not firm
either. -/
theorem heeds_renew {next : κ} {post : Ending ε α → σ → Prop} (loose : ¬ C.custom.firm t job)
    (loose' : ¬ C.custom.firm t next) (amid : C.Amid t job s) (steps : C.Steps t job s u)
    (fresh : ¬ signal.Given (HasLoop.loop s).nextTicket)
    (given : signal.Given (HasLoop.loop u).nextTicket) :
    C.Heeds t job post (.renew signal next) u :=
  ⟨steps.amid, Charter.may_fresh amid steps fresh given, loose, loose'⟩

/-! ## Over a loop -/

variable [LawfulLoop σ]

theorem loop_act (s : σ) (f : Loop κ η ε ν → Loop κ η ε ν × α) :
    HasLoop.loop (HasLoop.act s f).1 = (f (HasLoop.loop s)).1 :=
  LawfulLoop.loop_withLoop s _

theorem suits_onLoop {f : Loop κ η ε ν → Loop κ η ε ν × α}
    (calm : ∀ A l, l.Exposed C.custom l.current → l.waitingOn l.current = none →
      Loop.Calm C.custom (fun _ => False) A A l (f l).1) :
    Suits C (onLoop f : Routine σ ε ν κ α) :=
  suits_act fun _ _ s loose amid => amid.calm (calm (C.claims s) _ (amid.exposed loose) (by
    rw [amid.current]
    exact amid.awake))

theorem suits_within (d : Duration) (late : ε) {r : Routine σ ε ν κ α} (h : Suits C r) :
    Suits C (within d late r) := by
  unfold within
  refine (suits_onLoop fun A l exposed _ => ?_).andThen fun (before, limit) => ?_
  · exact (Loop.gentle_startLimit exposed d).calm
  · refine h.onEnd fun ending => (suits_onLoop fun A l exposed awake => ?_).andThen
      fun (left, expired) => ?_
    · exact (Loop.gentle_stopLimit exposed awake limit).calm
    · cases ending with
      | value a => exact suits_done a
      | error e => exact suits_fail e
      | cancelled =>
        dsimp only
        split
        · exact suits_fail late
        · exact suits_cancelled

theorem suits_sleep (d : Duration) : Suits C (sleep d : Routine σ ε ν κ Unit) := by
  unfold sleep
  refine suits_fresh (fun x : Nat × Nat => .ticket x.1)
    (fun t job s _ amid => amid.calm (Loop.gentle_sleep _ d).calm)
    (fun s => Nat.lt_irrefl _) (fun s => ?_) fun (n, timer) ending => ?_
  · rw [loop_act]
    exact Nat.lt_succ_self _
  · refine (suits_onLoop fun A l _ _ => (Loop.gentle_stopTimer l timer).calm).andThen fun _ => ?_
    exact (suits_ofEnding ending).andThen fun _ => suits_done ()

/-- Whoever waits for the end of a task with a ticket of his own goes on as he would from any
ticket. -/
theorem heeds_awaitTask (task : Nat) (amid : C.Amid t job s) :
    C.Heeds t job (fun _ u => C.view t u = C.view t s) (awaitTask task : Routine σ ε ν κ ν) s := by
  unfold awaitTask
  by_cases ended : (HasLoop.loop s).isEnded task = true
  · have steps : C.Steps t job s (HasLoop.withLoop s (HasLoop.loop s)) := amid.calm (.refl _)
    refine Charter.heeds_act_andThen ?_ ?_ <;> simp only [HasLoop.act, ended, if_true]
    · exact steps
    · refine ⟨steps.amid, fun e _ => Charter.heeds_ofEnding steps.amid (C.view_loop t s _),
        fun unraised => ?_⟩
      rw [LawfulLoop.loop_withLoop] at unraised
      rw [Loop.isEnded, unraised] at ended
      cases ended
  · have steps : C.Steps t job s (HasLoop.withLoop s _) :=
      amid.calm (Loop.calm_shield (HasLoop.loop s) task)
    refine Charter.heeds_act_andThen ?_ ?_ <;>
      simp only [HasLoop.act, ended, Bool.false_eq_true, if_false]
    · exact steps
    · refine heeds_fresh amid steps (Nat.lt_irrefl _) ?_ ?_ fun e v amid' same _ =>
        Charter.heeds_ofEnding amid' (same.trans (C.view_loop t s _))
      · rw [LawfulLoop.loop_withLoop, Loop.nextTicket_follow]
        exact Nat.lt_succ_self _
      · rw [LawfulLoop.loop_withLoop, Loop.ending?_follow]
        rfl

theorem suits_awaitTask (task : Nat) : Suits C (awaitTask task : Routine σ ε ν κ ν) :=
  fun _ _ _ _ amid => (heeds_awaitTask task amid).mono fun _ _ _ => trivial

/-- Whoever waits for several signals goes on as he would from any of them, and if he is firm then
not as cancelled. -/
theorem heeds_awaitAll (signals : List Signal) (amid : C.Amid t job s) :
    C.Heeds t job
      (fun ending u => (C.custom.firm t job → ending ≠ .cancelled) ∧ C.view t u = C.view t s)
      (awaitAll signals) s := by
  have steps : C.Steps t job s (HasLoop.act s fun l => l.joinAll signals).1 :=
    amid.calm (Loop.calm_joinAll signals _)
  have same : C.view t (HasLoop.act s fun l => l.joinAll signals).1 = C.view t s :=
    C.view_loop t s _
  unfold awaitAll
  refine Charter.heeds_act_andThen steps ?_
  cases hjoin : (HasLoop.act s fun l => l.joinAll signals).2 with
  | none => exact ⟨steps.amid, fun _ => nofun, same⟩
  | some n =>
    obtain ⟨fresh, given, unraised⟩ := Loop.joint_joinAll (l := HasLoop.loop s) hjoin
    refine heeds_fresh amid steps (Nat.not_lt.mpr (Nat.le_of_eq fresh.symm)) ?_ ?_
      fun e v amid' same' delivers => ?_
    · rw [loop_act]
      exact given
    · rw [loop_act]
      exact unraised _
    · have kept := same'.trans same
      cases e with
      | value | error => exact ⟨amid', fun _ => nofun, kept⟩
      | cancelled =>
        exact ⟨amid', fun firm => absurd rfl ((delivers firm).uncancelled trivial), kept⟩

theorem suits_awaitAll (signals : List Signal) :
    Suits C (awaitAll signals : Routine σ ε ν κ Unit) :=
  fun _ _ _ _ amid => (heeds_awaitAll signals amid).mono fun _ _ _ => trivial

end Routine

end PikeAnalysis.Concurrency
