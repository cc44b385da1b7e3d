import PikeAnalysis.Proofs.Concurrency.Course
import PikeAnalysis.Proofs.Concurrency.Discipline
import PikeAnalysis.Proofs.Concurrency.Lasting
import PikeAnalysis.Proofs.Concurrency.Operations

/-!
# Tasks that can count on the firm ones

A charter says which tasks are firm, what always holds, and what holds of a firm task while it
waits.  A routine heeds it (`Charter.Heeds`) if whatever it does keeps the loop guarded and sane,
and what it does after a wait may count on the wait having ended, and not by a cancellation, if it
is a firm task's.  If every job heeds the charter, it holds along every course
(`Charter.Lawful.leads`), and in the middle of every turn (`Charter.Lawful.visits`).

The proof goes through the parts of a turn.  A task is taken up, and its routine runs to its next
wait or to its end, step after step in the middle of the turn (`Charter.runRoutine_heeds`); then it
is put to sleep or finished, and it is nobody's turn (`Charter.Holds.suspend`,
`Charter.Holds.finish`).  Whatever else is ready changes the loop only in ways that are known to
leave it in order.

A task is firm if nobody cancels it.  That cannot be seen from the task itself, so it is part of the
invariant: in a guarded loop no firm task is marked, none is the target of a time limit or of
another task's wait for its end, and what a firm task waits for has not been raised as cancelled.
What such a task does after a wait then need not deal with cancellations.  The tasks of shared
requests are firm, and so are callers whom a statement spares, so that it can say what they get.

The other part of the premise is that what waits is left alone.  `view` is what a task has noted
before its wait and may still count on after it, whoever had a turn meanwhile; every change that is
made in somebody's turn has to respect it (`Charter.Respects`).  `Heeds` carries these obligations
along the syntax of a routine, so that a job is dealt with by the rules in the first part of the
module and never by unfolding the machine.

What the module gives back is `Charter.Follows`: whatever is done, tickets stay bound, signals stay
raised, and only the tasks whose turn it was may have begun or ended a wait.  The statements about
requests are read off that.
-/

namespace PikeAnalysis.Concurrency

variable {σ ε ν κ η ω α β : Type} [HasLoop σ κ η ε ν]

/-- What tasks owe one another, some of which nobody cancels.  What is firm depends on the job, and
on the task for jobs of which some tasks are firm and others are not. -/
structure Charter (σ : Type) {κ η ε ν : outParam Type} [HasLoop σ κ η ε ν] where
  custom : Custom κ η
  /-- The tickets that are to be raised by others than the loop. -/
  claims : σ → Nat → Prop
  /-- What always holds. -/
  inv : σ → Prop
  /-- The turns that have been given out. -/
  turns : σ → Nat → Prop
  /-- What of a state is a task's own: it is changed by nobody else. -/
  View : Type
  view : Nat → σ → View
  /-- What holds of it before a firm task begins, and where it ends. -/
  idle : View → Prop
  /-- How a firm task with a job may end. -/
  comes : κ → Ending ε ν → Prop
  /-- Nobody starts to wait for turns other than those that have been given out. -/
  inv_loop : ∀ {s l}, inv s →
    Loop.SameFirm custom (fun signal => ∃ n, signal = .turn n ∧ turns s n) (HasLoop.loop s) l →
      inv (HasLoop.withLoop s l)
  inv_finish : ∀ {s t job e}, inv s → (HasLoop.loop s).jobOf t = some job →
    (HasLoop.loop s).ending? (.ended t) = none → custom.firm t job → idle (view t s) → comes job e →
      inv (HasLoop.withLoop s ((HasLoop.loop s).finish t e))
  claims_loop : ∀ s l, claims (HasLoop.withLoop s l) = claims s
  view_loop : ∀ t s (l : Loop κ η ε ν), view t (HasLoop.withLoop s l) = view t s
  idle_fresh : ∀ {t s}, inv s → Loop.Guarded custom (HasLoop.loop s) →
    (HasLoop.loop s).nextTask ≤ t → idle (view t s)

/-- How what a task waits for has ended, if nobody cancels the task: not by a cancellation, unless
that may have been passed on to it. -/
structure Loop.Delivers (l : Loop κ η ε ν) (signal : Signal) (e : Ending ε ν) : Prop where
  raised : l.ending? signal = some e
  uncancelled : signal.Lone → e ≠ .cancelled

namespace Charter

open Loop (Guarded Sane Bound Calm MayWait Delivers)

variable (C : Charter σ)

/-- What a task with a job may wait for in a state.  It may wait for the end of another task only if
its job allows it, and for a turn only at a gate that the charter knows in this state. -/
structure MayAwait (t : Nat) (job : κ) (signal : Signal) (s : σ) : Prop where
  may : (HasLoop.loop s).MayWait C.custom t job signal
  turns : ∀ n, signal = .turn n → C.turns s n

/-- What holds in the turn of a task with a job.  The task is there, it is noted as the one whose
turn it is, and it waits for nothing. -/
structure Amid (t : Nat) (job : κ) (s : σ) : Prop where
  inv : C.inv s
  guarded : Guarded C.custom (HasLoop.loop s)
  job : (HasLoop.loop s).jobOf t = some job
  current : (HasLoop.loop s).current = t
  awake : (HasLoop.loop s).waitingOn t = none

/-- A change that leaves everything in order, the task `own` aside.  Besides the invariant this says
what others rely on: their jobs, what they wait for, what has been raised, and whether they are
still to be started. -/
structure Respects (own : Option Nat) (s u : σ) : Prop where
  evolves : Loop.Evolves (HasLoop.loop s) (HasLoop.loop u)
  jobs : ∀ t job, (HasLoop.loop s).jobOf t = some job → (HasLoop.loop u).jobOf t = some job
  stays : ∀ signal e, (HasLoop.loop s).ending? signal = some e →
    (HasLoop.loop u).ending? signal = some e
  waiting : ∀ t, own ≠ some t → (HasLoop.loop u).waitingOn t = (HasLoop.loop s).waitingOn t
  counts : ∀ t signal, own ≠ some t → signal.Private → (HasLoop.loop s).waitingOn t = some signal →
    Loop.Counts (HasLoop.loop s) (HasLoop.loop u) t signal
  starts : ∀ t, t < (HasLoop.loop s).nextTask →
    (HasLoop.loop u).expected (.start t) = (HasLoop.loop s).expected (.start t)
  view : ∀ t, own ≠ some t → C.view t u = C.view t s
  sane : ∀ own Q, (∀ t, own = some t → t < (HasLoop.loop s).nextTask) →
    Sane C.custom (C.claims s) own Q (HasLoop.loop s) →
      Sane C.custom (C.claims u) own Q (HasLoop.loop u) ∧ ∀ n signal,
        Bound C.custom (C.claims s) Q (HasLoop.loop s) n signal →
          Bound C.custom (C.claims u) Q (HasLoop.loop u) n signal

/-- A change in the turn of a task.  The task still has what it may count on in its turn, and to the
others nothing has happened that the charter does not allow. -/
structure Steps (t : Nat) (job : κ) (s u : σ) : Prop where
  amid : C.Amid t job u
  respects : C.Respects (some t) s u

/-- A routine of a task with a job heeds a charter from a state on, and ends only where its
postcondition holds.  At a wait there are two cases: the signal has been raised, and the routine
goes on at once, or the task is put to sleep and goes on in some later state of which only the
invariant and its own view are known. -/
def Heeds (C : Charter σ) (t : Nat) (job : κ) (post : Ending ε α → σ → Prop) :
    Routine σ ε ν κ α → σ → Prop
  | .done a, s => C.Amid t job s ∧ post (.value a) s
  | .fail e, s => C.Amid t job s ∧ post (.error e) s
  | .cancelled, s => C.Amid t job s ∧ post .cancelled s
  | .get k, s => Heeds C t job post (k s) s
  | .set u next, s => C.Steps t job s u ∧ Heeds C t job post next u
  | .wait signal k, s => C.Amid t job s ∧
    (∀ e, (HasLoop.loop s).ending? signal = some e → Heeds C t job post (k e) s) ∧
    ((HasLoop.loop s).ending? signal = none → C.MayAwait t job signal s ∧
      ∀ e u, Loop.Evolves (HasLoop.loop s) (HasLoop.loop u) → C.Amid t job u →
        C.view t u = C.view t s →
        (C.custom.firm t job → (HasLoop.loop u).Delivers signal e) → Heeds C t job post (k e) u)
  | .renew signal next, s => C.Amid t job s ∧ C.MayAwait t job signal s ∧
    ¬ C.custom.firm t job ∧ ¬ C.custom.firm t next

variable {C} {t : Nat} {job : κ} {s u v : σ} {own : Option Nat} {post : Ending ε α → σ → Prop}
  {post' : Ending ε β → σ → Prop}

namespace Respects

theorem refl (own : Option Nat) (s : σ) : C.Respects own s s :=
  ⟨.refl _, fun _ _ h => h, fun _ _ h => h, fun _ _ => rfl, fun t signal _ _ _ => .refl _ t signal,
    fun _ _ => rfl, fun _ _ => rfl, fun _ _ _ k => ⟨k, fun _ _ b => b⟩⟩

theorem trans (h : C.Respects own s u) (k : C.Respects own u v) : C.Respects own s v where
  evolves := h.evolves.trans k.evolves
  jobs t job hj := k.jobs t job (h.jobs t job hj)
  stays signal e he := k.stays signal e (h.stays signal e he)
  waiting t ht := (k.waiting t ht).trans (h.waiting t ht)
  counts t signal hown hs ht := (h.counts t signal hown hs ht).trans
    (k.counts t signal hown hs ((h.waiting t hown).trans ht))
  starts t ht := (k.starts t (Nat.lt_of_lt_of_le ht h.evolves.next)).trans (h.starts t ht)
  view t ht := (k.view t ht).trans (h.view t ht)
  sane own Q hown hs := by
    obtain ⟨hu, bound⟩ := h.sane own Q hown hs
    obtain ⟨hv, bound'⟩ :=
      k.sane own Q (fun t ht => Nat.lt_of_lt_of_le (hown t ht) h.evolves.next) hu
    exact ⟨hv, fun n signal b => bound' n signal (bound n signal b)⟩

end Respects

theorem Steps.refl (h : C.Amid t job s) : C.Steps t job s s :=
  ⟨h, .refl _ s⟩

theorem Steps.trans (h : C.Steps t job s u) (k : C.Steps t job u v) : C.Steps t job s v :=
  ⟨k.amid, h.respects.trans k.respects⟩

theorem Amid.lt_next (h : C.Amid t job s) : t < (HasLoop.loop s).nextTask :=
  h.guarded.fresh.lt_of_jobOf h.job

theorem Amid.exposed (h : C.Amid t job s) (loose : ¬ C.custom.firm t job) :
    (HasLoop.loop s).Exposed C.custom (HasLoop.loop s).current := by
  rw [h.current]
  exact h.guarded.exposed h.job loose

/-! ## Rules -/

theorem Heeds.onEnd {r : Routine σ ε ν κ α} {f : Ending ε α → Routine σ ε ν κ β}
    (h : C.Heeds t job post r s)
    (next : ∀ ending u, C.Amid t job u → post ending u → C.Heeds t job post' (f ending) u) :
    C.Heeds t job post' (r.onEnd f) s := by
  -- The routine is a tree; at its leaves the continuation takes over with what held where it ended.
  induction r generalizing s with
  | done | fail | cancelled => exact next _ _ h.1 h.2
  | renew => exact h
  | get k ih => exact ih s h
  | set v rest ih => exact ⟨h.1, ih h.2⟩
  | wait signal k ih =>
    obtain ⟨amid, raised, waits⟩ := h
    refine ⟨amid, fun e he => ih e (raised e he), fun hnone => ?_⟩
    obtain ⟨may, rest⟩ := waits hnone
    exact ⟨may, fun e u hu ha hs he => ih e (rest e u hu ha hs he)⟩

theorem Heeds.andThen {r : Routine σ ε ν κ α} {f : α → Routine σ ε ν κ β}
    (h : C.Heeds t job post r s)
    (value : ∀ a u, C.Amid t job u → post (.value a) u → C.Heeds t job post' (f a) u)
    (error : ∀ e u, post (.error e) u → post' (.error e) u)
    (cancelled : ∀ u, post .cancelled u → post' .cancelled u) :
    C.Heeds t job post' (r.andThen f) s := by
  rw [Routine.andThen_eq_onEnd]
  refine h.onEnd fun ending u amid hpost => ?_
  cases ending with
  | value a => exact value a u amid hpost
  | error e => exact ⟨amid, error e u hpost⟩
  | cancelled => exact ⟨amid, cancelled u hpost⟩

theorem heeds_ofEnding {ending : Ending ε α} (h : C.Amid t job s) (hpost : post ending s) :
    C.Heeds t job post (Routine.ofEnding ending) s := by
  cases ending with
  | value | error | cancelled => exact ⟨h, hpost⟩

theorem heeds_act_andThen {f : σ → σ × α} {k : α → Routine σ ε ν κ β}
    (step : C.Steps t job s (f s).1) (next : C.Heeds t job post' (k (f s).2) (f s).1) :
    C.Heeds t job post' ((Routine.act f).andThen k) s :=
  ⟨step, next⟩

theorem heeds_read_andThen {f : σ → α} {k : α → Routine σ ε ν κ β}
    (next : C.Heeds t job post' (k (f s)) s) : C.Heeds t job post' ((Routine.read f).andThen k) s :=
  next

/-- What holds wherever a routine ends may be left out.  So a routine is looked at once, for the
strongest that can be said of its end. -/
theorem Heeds.mono {post' : Ending ε α → σ → Prop} {r : Routine σ ε ν κ α}
    (h : C.Heeds t job post r s) (le : ∀ ending u, post ending u → post' ending u) :
    C.Heeds t job post' r s := by
  induction r generalizing s with
  | done | fail | cancelled => exact ⟨h.1, le _ _ h.2⟩
  | renew => exact h
  | get k ih => exact ih s h
  | set v rest ih => exact ⟨h.1, ih h.2⟩
  | wait signal k ih =>
    obtain ⟨amid, raised, waits⟩ := h
    refine ⟨amid, fun e he => ih e (raised e he), fun hnone => ?_⟩
    obtain ⟨may, rest⟩ := waits hnone
    exact ⟨may, fun e u hu ha hs he => ih e (rest e u hu ha hs he)⟩

/-! ## Changes of the loop -/

/-- A change after which it may be anybody's turn.  The invariant holds again, nothing can cancel a
firm task, and whatever is pending is as the charter has it; only between such changes may another
task go on. -/
structure Passes (C : Charter σ) (s u : σ) : Prop where
  inv : C.inv u
  guarded : Guarded C.custom (HasLoop.loop u)
  respects : C.Respects none s u

variable [LawfulLoop σ] {l : Loop κ η ε ν} {Q Q' : Multiset (Ready η)} {i : Ready η}

theorem respects_of_calm (guarded : Guarded C.custom (HasLoop.loop s))
    (calm : Calm C.custom (fun _ => False) (C.claims s) (C.claims s) (HasLoop.loop s) l)
    (own : Option Nat) :
    C.Respects own s (HasLoop.withLoop s l) := by
  obtain ⟨-, same, turn, sane⟩ := calm guarded
  exact
    { evolves := by
        rw [LawfulLoop.loop_withLoop]
        exact same.evolves
      jobs := fun t job hj => by
        rw [LawfulLoop.loop_withLoop]
        exact turn.stays t job hj
      stays := fun signal e he => by
        rw [LawfulLoop.loop_withLoop]
        exact same.stays signal e he
      waiting := fun t _ => by
        rw [LawfulLoop.loop_withLoop]
        exact turn.waiting t
      counts := fun t signal _ hs ht => by
        rw [LawfulLoop.loop_withLoop]
        exact turn.counts t signal hs ht
      starts := fun t ht => by
        rw [LawfulLoop.loop_withLoop]
        exact turn.starts t ht
      view := fun t _ => C.view_loop t s l
      sane := fun own Q hown k => by
        rw [LawfulLoop.loop_withLoop, C.claims_loop]
        exact sane own Q hown k }

theorem passes_of_calm (inv : C.inv s) (guarded : Guarded C.custom (HasLoop.loop s))
    (calm : Calm C.custom (fun _ => False) (C.claims s) (C.claims s) (HasLoop.loop s) l) :
    C.Passes s (HasLoop.withLoop s l) where
  inv := C.inv_loop inv ((calm guarded).2.1.mono fun _ no => no.elim)
  guarded := by
    rw [LawfulLoop.loop_withLoop]
    exact (calm guarded).1
  respects := respects_of_calm guarded calm none

theorem Amid.calm (h : C.Amid t job s)
    (calm : Calm C.custom (fun _ => False) (C.claims s) (C.claims s) (HasLoop.loop s) l) :
    C.Steps t job s (HasLoop.withLoop s l) := by
  obtain ⟨guarded, same, turn, -⟩ := calm h.guarded
  refine ⟨⟨C.inv_loop h.inv (same.mono fun _ no => no.elim), ?_, ?_, ?_, ?_⟩,
    respects_of_calm h.guarded calm _⟩
  · rwa [LawfulLoop.loop_withLoop]
  · rw [LawfulLoop.loop_withLoop]
    exact turn.stays t job h.job
  · rw [LawfulLoop.loop_withLoop, turn.current, h.current]
  · rw [LawfulLoop.loop_withLoop, turn.waiting, h.awake]

theorem sameFirm_turn {c : Custom κ η} {A : Signal → Prop} (l : Loop κ η ε ν) (t : Nat) :
    Loop.SameFirm c A l { l with current := t } :=
  .of_endings ⟨Nat.le_refl _, fun _ _ _ h => h, fun h => h⟩ (Nat.le_refl _) (fun _ _ _ => Iff.rfl)
    (fun _ => rfl) fun _ _ h => h

/-- It becomes the turn of a task. -/
theorem amid_turnOf (inv : C.inv s) (guarded : Guarded C.custom (HasLoop.loop s))
    (hjob : (HasLoop.loop s).jobOf t = some job) (awake : (HasLoop.loop s).waitingOn t = none) :
    C.Amid t job (Machine.turnOf t s) := by
  refine ⟨C.inv_loop inv (sameFirm_turn _ t), ?_, ?_, ?_, ?_⟩
  · rw [Machine.turnOf, HasLoop.loop_update]
    exact guarded.turnTo t
  · rw [Machine.turnOf, HasLoop.loop_update]
    exact hjob
  · rw [Machine.turnOf, HasLoop.loop_update]
  · rw [Machine.turnOf, HasLoop.loop_update]
    exact awake

omit [LawfulLoop σ] in
theorem view_turnOf (t u : Nat) (s : σ) : C.view t (Machine.turnOf u s) = C.view t s :=
  C.view_loop t s _

theorem respects_turnOf (own : Option Nat) (t : Nat) (s : σ) :
    C.Respects own s (Machine.turnOf t s) := by
  refine ⟨?_, fun u j hj => ?_, fun signal e he => ?_, fun u _ => ?_,
    fun u signal _ _ _ => .of_same ?_ ?_,
    fun u _ => ?_, fun u _ => C.view_loop u s _, fun own Q _ k => ?_⟩
  · rw [Machine.turnOf, HasLoop.loop_update]
    exact Loop.SameFirm.evolves (c := C.custom) (A := fun _ => False) (sameFirm_turn _ t)
  · rw [Machine.turnOf, HasLoop.loop_update]
    exact hj
  · rw [Machine.turnOf, HasLoop.loop_update]
    exact he
  · rw [Machine.turnOf, HasLoop.loop_update]
    rfl
  · rw [Machine.turnOf, HasLoop.loop_update]
    rfl
  · rw [Machine.turnOf, HasLoop.loop_update]
    rfl
  · rw [Machine.turnOf, HasLoop.loop_update]
    rfl
  · rw [Machine.turnOf, HasLoop.loop_update, HasLoop.update, C.claims_loop]
    exact ⟨k.turnTo t, fun n signal b => b.turnTo t⟩

/-- A task begins, whatever its job is.  The job is looked at when the task begins. -/
theorem respects_create (guarded : Guarded C.custom (HasLoop.loop s)) (job : κ) (own : Option Nat) :
    C.Respects own s (HasLoop.withLoop s ((HasLoop.loop s).create job).1) := by
  have turn := Loop.sameTurn_create guarded.fresh job
  refine ⟨?_, fun u j hj => ?_, fun signal e he => ?_, fun u _ => ?_, fun u signal _ hs hu => ?_,
    fun u hu => ?_, fun u _ => C.view_loop u s _, fun own Q hown k => ?_⟩
  · rw [LawfulLoop.loop_withLoop]
    exact Loop.evolves_create _ job
  · rw [LawfulLoop.loop_withLoop]
    exact turn.stays u j hj
  · rw [LawfulLoop.loop_withLoop]
    exact he
  · rw [LawfulLoop.loop_withLoop, turn.waiting]
  · rw [LawfulLoop.loop_withLoop]
    exact turn.counts u signal hs hu
  · rw [LawfulLoop.loop_withLoop, turn.starts u hu]
  · rw [LawfulLoop.loop_withLoop, C.claims_loop]
    exact ⟨k.create guarded.fresh job fun he => Nat.lt_irrefl _ (hown _ he),
      fun n signal b => b.create guarded.fresh job⟩

/-! ## Turns -/

/-- What holds where a task ends.  Nothing is asked of a task that is not firm. -/
def Ends (C : Charter σ) (t : Nat) (job : κ) : Ending ε ν → σ → Prop :=
  fun e s => C.custom.firm t job → C.idle (C.view t s) ∧ C.comes job e

/-- What a task that waits for a signal still has to do heeds the charter. -/
def Awaits (C : Charter σ) (t : Nat) (job : κ) (signal : Signal)
    (rest : Rest σ ε ν κ) (s : σ) : Prop :=
  ∀ e u, Loop.Evolves (HasLoop.loop s) (HasLoop.loop u) → C.Amid t job u → C.view t u = C.view t s →
    (C.custom.firm t job → (HasLoop.loop u).Delivers signal e) →
      C.Heeds t job (C.Ends t job) (rest e) u

omit [LawfulLoop σ] in
theorem Awaits.evolve {signal : Signal} {rest : Rest σ ε ν κ} (h : C.Awaits t job signal rest s)
    (evolves : Loop.Evolves (HasLoop.loop s) (HasLoop.loop u)) (view : C.view t u = C.view t s) :
    C.Awaits t job signal rest u :=
  fun e v hv amid hview => h e v (evolves.trans hv) amid (hview.trans view)

theorem Awaits.loop {signal : Signal} {rest : Rest σ ε ν κ} (h : C.Awaits t job signal rest s)
    (evolves : Loop.Evolves (HasLoop.loop s) l) :
    C.Awaits t job signal rest (HasLoop.withLoop s l) :=
  h.evolve (by rwa [LawfulLoop.loop_withLoop]) (C.view_loop t s l)

/-- Where a routine that heeds the charter may stop.  Its end is one that the charter allows; at a
wait it waits for something it may wait for, and goes on in a way that heeds the charter again. -/
def StopsAt (C : Charter σ) (t : Nat) (job : κ) (s : σ) : Stop σ ε ν κ → Prop
  | .ended e => C.Ends t job e s
  | .waits signal rest => C.MayAwait t job signal s ∧ (HasLoop.loop s).ending? signal = none ∧
    C.Awaits t job signal rest s
  | .renews signal next =>
    C.MayAwait t job signal s ∧ ¬ C.custom.firm t job ∧ ¬ C.custom.firm t next

omit [LawfulLoop σ] in
theorem runRoutine_heeds {r : Routine σ ε ν κ ν} (amid : C.Amid t job s)
    (h : C.Heeds t job (C.Ends t job) r s) :
    C.Steps t job s (Machine.runRoutine r s).1 ∧
      C.StopsAt t job (Machine.runRoutine r s).1 (Machine.runRoutine r s).2 := by
  -- A wait for a signal that has been raised is passed over; at the first one that has not been,
  -- the routine stops.
  induction r generalizing s with
  | done | fail | cancelled | renew => exact ⟨.refl amid, h.2⟩
  | get k ih => exact ih s amid h
  | set u next ih =>
    obtain ⟨steps, stops⟩ := ih h.1.amid h.2
    exact ⟨h.1.trans steps, stops⟩
  | wait signal k ih =>
    obtain ⟨-, raised, waits⟩ := h
    rw [Machine.runRoutine]
    cases he : (HasLoop.loop s).ending? signal with
    | none =>
      obtain ⟨may, awaits⟩ := waits he
      exact ⟨.refl amid, may, he, awaits⟩
    | some e => exact ih e amid (raised e he)

omit [LawfulLoop σ] in
/-- Wherever a routine comes by it is in order. -/
theorem Heeds.amid_of_passes {r : Routine σ ε ν κ ν} (passes : r.Passes s u) (amid : C.Amid t job s)
    (h : C.Heeds t job (C.Ends t job) r s) : C.Amid t job u := by
  induction passes with
  | here => exact amid
  | get _ ih => exact ih amid h
  | set _ ih => exact ih h.1.amid h.2
  | raised ended _ ih => exact ih amid (h.2.1 _ ended)

/-! ## Moments -/

/-- What holds of the tasks that wait, one of them aside.  The one aside is the task whose turn it
is, of which the routine it does says what is needed. -/
def Waiting (C : Charter σ) (own : Option Nat) (s : σ)
    (suspended : List (Nat × Rest σ ε ν κ)) : Prop :=
  ∀ t rest, own ≠ some t → Assoc.get? t suspended = some rest →
    t < (HasLoop.loop s).nextTask ∧ ∀ job, (HasLoop.loop s).jobOf t = some job →
      ∃ signal, (HasLoop.loop s).waitingOn t = some signal ∧ C.Awaits t job signal rest s

/-- What holds of the tasks that are to be started.  They have had no turn yet, so nothing can be
under way for them. -/
def Unbegun (C : Charter σ) (Q : Multiset (Ready η)) (s : σ) : Prop :=
  ∀ t, 0 < Loop.pending Q (HasLoop.loop s) (.start t) → C.idle (C.view t s)

/-- What holds in the turn of a task, or between two turns.  Everything that is ready is accounted
for by `Q`, so that the order in which it is done need not be known. -/
structure Holds (C : Charter σ) (own : Option Nat) (Q : Multiset (Ready η)) (m : Machine σ ε ν κ) :
    Prop where
  inv : C.inv m.state
  guarded : Guarded C.custom (HasLoop.loop m.state)
  sane : Sane C.custom (C.claims m.state) own Q (HasLoop.loop m.state)
  waiting : C.Waiting own m.state m.suspended
  unbegun : C.Unbegun Q m.state

/-- A task that waits for a ticket which is bound to a signal hears of no cancellation that is not
counted, unless it is that of the signal. -/
structure Hears (l l' : Loop κ η ε ν) (t n : Nat) (signal : Signal) : Prop where
  more : l.cancelCount t ≤ l'.cancelCount t
  warned : l'.Warned t (.ticket n) → l.Warned t (.ticket n) ∨ l.cancelCount t < l'.cancelCount t ∨
    l'.ending? signal = some .cancelled

theorem Hears.of_counts {l l' : Loop κ η ε ν} {n : Nat} {signal : Signal}
    (h : Loop.Counts l l' t (.ticket n)) : Hears l l' t n signal :=
  ⟨h.more, fun warned => (h.warned warned).imp_right .inl⟩

theorem Hears.trans {l l' l'' : Loop κ η ε ν} {n : Nat} {signal : Signal}
    (h : Hears l l' t n signal) (k : Hears l' l'' t n signal)
    (stays : ∀ e, l'.ending? signal = some e → l''.ending? signal = some e) :
    Hears l l'' t n signal where
  more := Nat.le_trans h.more k.more
  warned warned := by
    rcases k.warned warned with warned | lt | source
    · rcases h.warned warned with warned | lt | source
      · exact .inl warned
      · exact .inr (.inl (Nat.lt_of_lt_of_le lt k.more))
      · exact .inr (.inr (stays _ source))
    · exact .inr (.inl (Nat.lt_of_le_of_lt h.more lt))
    · exact .inr (.inr source)

/-- What comes of a machine is in order.  Tickets stay bound and signals raised, firm tasks go on
or end as they may, and only the tasks in `W` may have begun or ended a wait.  This is transitive,
and it is what is shown of every single thing that can be done. -/
structure Follows (C : Charter σ) (W : Nat → Prop) (Q : Multiset (Ready η)) (m : Machine σ ε ν κ)
    (own : Option Nat) (Q' : Multiset (Ready η)) (m' : Machine σ ε ν κ) : Prop where
  holds : C.Holds own Q' m'
  evolves : Loop.Evolves (HasLoop.loop m.state) (HasLoop.loop m'.state)
  ends : ∀ t job, C.custom.firm t job → (HasLoop.loop m.state).jobOf t = some job →
    (HasLoop.loop m'.state).jobOf t = some job ∨
      ∃ e, (HasLoop.loop m'.state).ending? (.ended t) = some e ∧ C.comes job e
  bound : ∀ n signal, Bound C.custom (C.claims m.state) Q (HasLoop.loop m.state) n signal →
    Bound C.custom (C.claims m'.state) Q' (HasLoop.loop m'.state) n signal
  stays : ∀ signal e, (HasLoop.loop m.state).ending? signal = some e →
    (HasLoop.loop m'.state).ending? signal = some e
  waiting : ∀ t, ¬ W t → (HasLoop.loop m'.state).waitingOn t = (HasLoop.loop m.state).waitingOn t
  suspended : ∀ t, ¬ W t → Assoc.get? t m'.suspended = Assoc.get? t m.suspended
  hears : ∀ t n signal, ¬ W t → (HasLoop.loop m.state).waitingOn t = some (.ticket n) →
    Bound C.custom (C.claims m.state) Q (HasLoop.loop m.state) n signal →
      Hears (HasLoop.loop m.state) (HasLoop.loop m'.state) t n signal

variable {suspended : List (Nat × Rest σ ε ν κ)} {m : Machine σ ε ν κ} {rules : Rules σ ε ν κ η}
  {own' : Option Nat} {W W' : Nat → Prop}

namespace Follows

variable {Q'' : Multiset (Ready η)} {m' m'' : Machine σ ε ν κ}

omit [LawfulLoop σ] in
theorem refl (h : C.Holds own Q m) : C.Follows W Q m own Q m :=
  ⟨h, .refl _, fun _ _ _ hj => .inl hj, fun _ _ b => b, fun _ _ he => he,
    fun _ _ => rfl, fun _ _ => rfl, fun t n _ _ _ _ => .of_counts (.refl _ t (.ticket n))⟩

omit [LawfulLoop σ] in
theorem trans (h : C.Follows W Q m own Q' m') (k : C.Follows W Q' m' own' Q'' m'') :
    C.Follows W Q m own' Q'' m'' where
  holds := k.holds
  evolves := h.evolves.trans k.evolves
  ends t job firm hj := by
    rcases h.ends t job firm hj with hj | ⟨e, he, comes⟩
    · exact k.ends t job firm hj
    · exact .inr ⟨e, k.stays _ e he, comes⟩
  bound n signal b := k.bound n signal (h.bound n signal b)
  stays signal e he := k.stays signal e (h.stays signal e he)
  waiting t ht := (k.waiting t ht).trans (h.waiting t ht)
  suspended t ht := (k.suspended t ht).trans (h.suspended t ht)
  hears t n signal hw ht b := (h.hears t n signal hw ht b).trans
    (k.hears t n signal hw ((h.waiting t hw).trans ht) (h.bound n signal b)) (k.stays signal)

omit [LawfulLoop σ] in
theorem mono (h : C.Follows W Q m own Q' m') (le : ∀ t, W t → W' t) : C.Follows W' Q m own Q' m' :=
  { h with
    waiting := fun t ht => h.waiting t fun hw => ht (le t hw)
    suspended := fun t ht => h.suspended t fun hw => ht (le t hw)
    hears := fun t n signal ht => h.hears t n signal fun hw => ht (le t hw) }

end Follows

omit [LawfulLoop σ] in
theorem Waiting.weaken (h : C.Waiting none s suspended) (own : Option Nat) :
    C.Waiting own s suspended :=
  fun t rest _ => h t rest nofun

omit [LawfulLoop σ] in
/-- A change that respects the tasks that wait. -/
theorem Waiting.evolve (h : C.Waiting own s suspended)
    (evolves : Loop.Evolves (HasLoop.loop s) (HasLoop.loop u))
    (waiting : ∀ t, own ≠ some t → (HasLoop.loop u).jobOf t ≠ none →
      (HasLoop.loop u).waitingOn t = (HasLoop.loop s).waitingOn t)
    (view : ∀ t, own ≠ some t → C.view t u = C.view t s) :
    C.Waiting own u suspended := by
  intro t rest hown hrest
  obtain ⟨hlt, hjob⟩ := h t rest hown hrest
  refine ⟨Nat.lt_of_lt_of_le hlt evolves.next, fun job hj => ?_⟩
  obtain ⟨signal, hsignal, awaits⟩ := hjob job (evolves.jobs t job hlt hj)
  refine ⟨signal, ?_, awaits.evolve evolves (view t hown)⟩
  rw [waiting t hown (by simp [hj]), hsignal]

omit [LawfulLoop σ] in
/-- Whatever leaves everything in order is in order. -/
theorem Holds.carry (h : C.Holds own Q m)
    (hown : ∀ t, own = some t → t < (HasLoop.loop m.state).nextTask)
    (inv : C.inv u) (guarded : Guarded C.custom (HasLoop.loop u)) (k : C.Respects own m.state u) :
    C.Follows (own = some ·) Q m own Q { m with state := u } := by
  obtain ⟨sane, bound⟩ := k.sane own Q hown h.sane
  refine ⟨⟨inv, guarded, sane, h.waiting.evolve k.evolves (fun t ht _ => k.waiting t ht) k.view,
    fun t ht => ?_⟩, k.evolves, fun t job _ hj => .inl (k.jobs t job hj), bound, k.stays, k.waiting,
    fun _ _ => rfl, fun t n signal hown ht _ => .of_counts (k.counts t (.ticket n) hown trivial ht)⟩
  by_cases hlt : t < (HasLoop.loop m.state).nextTask
  · rw [Loop.pending, k.starts t hlt] at ht
    rw [k.view t (h.sane.starts t ht).2.1]
    exact h.unbegun t ht
  · have hne : own ≠ some t := fun he => hlt (hown t he)
    rw [k.view t hne]
    exact C.idle_fresh h.inv h.guarded (Nat.le_of_not_lt hlt)

omit [LawfulLoop σ] in
theorem Holds.pass (h : C.Holds none Q m) (k : C.Passes m.state u) :
    C.Follows W Q m none Q { m with state := u } :=
  (h.carry nofun k.inv k.guarded k.respects).mono fun _ ht => by cases ht

omit [LawfulLoop σ] in
theorem Unbegun.drop (h : C.Unbegun (i ::ₘ Q) s) : C.Unbegun Q s := by
  refine fun t ht => h t ?_
  rw [Loop.pending_cons]
  omega

omit [LawfulLoop σ] in
theorem Holds.drop (h : C.Holds own (i ::ₘ Q) m) : C.Follows W (i ::ₘ Q) m own Q m :=
  ⟨⟨h.inv, h.guarded, h.sane.drop, h.waiting, h.unbegun.drop⟩, .refl _, fun _ _ _ hj => .inl hj,
    fun _ _ b => b.drop, fun _ _ he => he, fun _ _ => rfl, fun _ _ => rfl,
    fun t n _ _ _ _ => .of_counts (.refl _ t (.ticket n))⟩

/-- A change of the loop that adds nothing that is to be started. -/
theorem Unbegun.loop (h : C.Unbegun Q s) {l : Loop κ η ε ν}
    (same : ∀ t, Loop.pending Q' l (.start t) = Loop.pending Q (HasLoop.loop s) (.start t)) :
    C.Unbegun Q' (HasLoop.withLoop s l) := by
  intro t ht
  rw [LawfulLoop.loop_withLoop, same] at ht
  rw [C.view_loop]
  exact h t ht

/-- A change of the loop between two turns, or at their ends. -/
theorem Holds.loop (h : C.Holds own Q m) {l : Loop κ η ε ν}
    (inv : C.inv (HasLoop.withLoop m.state l))
    (guarded : Guarded C.custom l) (sane : Sane C.custom (C.claims m.state) own' Q' l)
    (waiting : C.Waiting own' (HasLoop.withLoop m.state l) suspended)
    (starts : ∀ t, Loop.pending Q' l (.start t) =
      Loop.pending Q (HasLoop.loop m.state) (.start t)) :
    C.Holds own' Q' ⟨HasLoop.withLoop m.state l, suspended⟩ where
  inv := inv
  guarded := by rwa [LawfulLoop.loop_withLoop]
  sane := by rwa [LawfulLoop.loop_withLoop, C.claims_loop]
  waiting := waiting
  unbegun := h.unbegun.loop starts

/-! ## The ends of turns -/

omit [LawfulLoop σ] in
/-- A task that is there has not ended. -/
theorem Holds.unended (h : C.Holds own Q m) (hjob : (HasLoop.loop m.state).jobOf t = some job) :
    (HasLoop.loop m.state).ending? (.ended t) = none := by
  by_contra raised
  have gone := (h.sane.ended t raised).2
  rw [Loop.jobOf, gone] at hjob
  cases hjob

/-- The end of a turn in which a task ends.  Those who follow it become ready by that. -/
theorem Holds.finish (h : C.Holds (some t) Q m) (hjob : (HasLoop.loop m.state).jobOf t = some job)
    {e : Ending ε ν} (ends : C.Ends t job e m.state) :
    C.Follows (· = t) Q m none Q
      ⟨HasLoop.update m.state fun l => l.finish t e, m.suspended⟩ := by
  have hlt := h.guarded.fresh.lt_of_jobOf hjob
  have unended := h.unended hjob
  refine ⟨h.loop ?_ (h.guarded.finish t e) (h.sane.finish hlt (h.sane.turn t rfl) e)
    (fun u rest _ hrest => ?_) fun u => Loop.pending_finish _ t e _, ?_, fun u j firm hj => ?_,
    fun n signal b => ?_, fun signal e' he => ?_, fun u hu => ?_, fun _ _ => rfl,
    fun u n signal hu _ _ => .of_counts (.of_same ?_ ?_)⟩
  · -- The end of a firm task is of concern to the invariant, that of another is not.
    by_cases firm : C.custom.firm t job
    · exact C.inv_finish h.inv hjob unended firm (ends firm).1 (ends firm).2
    · refine C.inv_loop h.inv (Loop.sameFirm_finish (fun j hj => ?_) e)
      rw [hjob] at hj
      rwa [← Option.some.inj hj]
  · rw [LawfulLoop.loop_withLoop]
    have hnext := (Loop.evolves_finish (HasLoop.loop m.state) t e).next
    by_cases hu : u = t
    · subst hu
      refine ⟨Nat.lt_of_lt_of_le hlt hnext, fun j hj => ?_⟩
      rw [Loop.jobOf_finish_self] at hj
      cases hj
    · obtain ⟨hult, hjobs⟩ := h.waiting u rest (fun he => hu (Option.some.inj he).symm) hrest
      refine ⟨Nat.lt_of_lt_of_le hult hnext, fun j hj => ?_⟩
      rw [Loop.jobOf, Loop.task?_finish, if_neg hu] at hj
      obtain ⟨signal, hsignal, awaits⟩ := hjobs j hj
      refine ⟨signal, ?_, awaits.loop (Loop.evolves_finish _ t e)⟩
      rw [Loop.waitingOn_finish, if_neg hu, hsignal]
  · rw [HasLoop.loop_update]
    exact Loop.evolves_finish _ t e
  · rw [HasLoop.loop_update]
    by_cases hu : u = t
    · subst hu
      obtain rfl := Option.some.inj (hjob.symm.trans hj)
      exact .inr ⟨e, by rw [Loop.finish, Loop.ending?_raise, if_pos ⟨rfl, unended⟩], (ends firm).2⟩
    · rw [Loop.jobOf_finish, if_neg hu]
      exact .inl hj
  · rw [HasLoop.loop_update, HasLoop.update, C.claims_loop]
    exact b.finish t e
  · rw [HasLoop.loop_update]
    exact Loop.stays_finish _ t e signal e' he
  · rw [HasLoop.loop_update, Loop.waitingOn_finish, if_neg hu]
  · rw [HasLoop.loop_update, Loop.task?_finish, if_neg hu]
  · rw [HasLoop.loop_update, Loop.ending?_finish _ _ _ fun h => by cases h]

/-- Nobody has cancelled a firm task, which ends as it wants to. -/
theorem Holds.conclude (h : C.Holds (some t) Q m) (hjob : (HasLoop.loop m.state).jobOf t = some job)
    {e : Ending ε ν} (ends : C.Ends t job e m.state) :
    C.Follows (· = t) Q m none Q
      ⟨HasLoop.update m.state fun l => Machine.conclude l t e, m.suspended⟩ := by
  cases e with
  | error | cancelled => exact h.finish hjob ends
  | value v =>
    refine h.finish hjob fun firm => ?_
    obtain ⟨st, hst, rfl⟩ := Loop.task?_of_jobOf hjob
    rw [hst, Option.any_some, h.guarded.marks t st hst firm]
    exact ends firm

/-- The end of a turn in which a task starts to wait.  The rest of its routine is kept for the end
of the wait. -/
theorem Holds.suspend (h : C.Holds (some t) Q m) (hjob : (HasLoop.loop m.state).jobOf t = some job)
    {signal : Signal} {rest : Rest σ ε ν κ} (may : C.MayAwait t job signal m.state)
    (unraised : C.custom.firm t job → (HasLoop.loop m.state).ending? signal = none)
    (awaits : C.Awaits t job signal rest m.state) :
    C.Follows (· = t) Q m none Q
      ⟨HasLoop.update m.state fun l => Machine.suspend l t signal, (t, rest) :: m.suspended⟩ := by
  have hlt := h.guarded.fresh.lt_of_jobOf hjob
  obtain ⟨st, hst, rfl⟩ := Loop.task?_of_jobOf hjob
  obtain ⟨guarded, same⟩ :=
    Guarded.suspend (A := fun signal => ∃ n, signal = .turn n ∧ C.turns m.state n)
    hst h.guarded may.may unraised fun n hn => ⟨n, hn, may.turns n hn⟩
  obtain ⟨sane, bound, counts⟩ := Sane.suspend hst h.guarded h.sane may.may unraised
  have mild := Loop.mild_suspend hst signal
  have hwaiting (u : Nat) : (Machine.suspend (HasLoop.loop m.state) t signal).waitingOn u =
      if u = t then some signal else (HasLoop.loop m.state).waitingOn u := by
    rw [mild.waiting, Loop.waitingOn_asleep]
  refine ⟨h.loop (C.inv_loop h.inv same) guarded sane (fun u rest' _ hrest => ?_) (fun u => ?_), ?_,
    fun u j firm hj => .inl ?_, fun n s' b => ?_, fun s' e he => ?_, fun u hu => ?_, fun u hu => ?_,
    fun u n s' hu hwaits _ => .of_counts ?_⟩
  · rw [LawfulLoop.loop_withLoop]
    -- The task itself waits as it says; of the others nothing has changed.
    by_cases hu : u = t
    · subst hu
      obtain rfl : rest' = rest := by simpa [Assoc.get?] using hrest.symm
      refine ⟨Nat.lt_of_lt_of_le hlt same.evolves.next, fun j hj => ⟨signal, ?_, ?_⟩⟩
      · rw [hwaiting, if_pos rfl]
      · have hold := same.evolves.jobs u j hlt hj
        rw [hjob] at hold
        obtain rfl := Option.some.inj hold
        exact awaits.loop same.evolves
    · have hrest : Assoc.get? u m.suspended = some rest' := by
        simpa [Assoc.get?, Ne.symm hu] using hrest
      obtain ⟨hult, hjobs⟩ := h.waiting u rest' (fun he => hu (Option.some.inj he).symm) hrest
      refine ⟨Nat.lt_of_lt_of_le hult same.evolves.next, fun j hj => ?_⟩
      obtain ⟨signal', hsignal, hawaits⟩ := hjobs j (same.evolves.jobs u j hult hj)
      refine ⟨signal', ?_, hawaits.loop same.evolves⟩
      rw [hwaiting, if_neg hu, hsignal]
  · rw [mild.pending, Loop.pending_asleep, if_neg (fun h => by cases h), Nat.add_zero]
  · rw [HasLoop.loop_update]
    exact same.evolves
  · rw [HasLoop.loop_update]
    exact (same.jobs u j firm).mpr hj
  · rw [HasLoop.loop_update, HasLoop.update, C.claims_loop]
    exact bound n s' b
  · rw [HasLoop.loop_update]
    exact same.stays s' e he
  · rw [HasLoop.loop_update, hwaiting, if_neg hu]
  · simp only [Assoc.get?, if_neg (Ne.symm hu)]
  · rw [HasLoop.loop_update]
    exact counts u (.ticket n) hu trivial hwaits

/-! ## Courses -/

/-- What has to be shown for a charter to be kept, whatever happens that is allowed.  The three
obligations are about the routine of each job, about hooks, and about what happens from outside. -/
structure Lawful (C : Charter σ) (rules : Rules σ ε ν κ η) (outside : ω → σ → σ)
    (allowed : ω → Prop) :
    Prop where
  /-- A task begins as its job, and one that is not firm may go on as another such job. -/
  bodies {t : Nat} {job next : κ} {s : σ} : C.Amid t job s →
    next = job ∧ C.idle (C.view t s) ∨ ¬ C.custom.firm t job ∧ ¬ C.custom.firm t next →
      C.Heeds t job (C.Ends t job) (rules.body next) s
  hooks {s : σ} {k : η} {signal : Signal} {Q : Multiset (Ready η)} : C.inv s →
    Guarded C.custom (HasLoop.loop s) →
      Sane C.custom (C.claims s) none (.follow (.hook k) signal ::ₘ Q) (HasLoop.loop s) →
        C.Passes s (rules.hook k s)
  happens {s : σ} {o : ω} : C.inv s → Guarded C.custom (HasLoop.loop s) → allowed o →
    C.Passes s (outside o s)

variable {outside : ω → σ → σ} {allowed : ω → Prop} {r : Routine σ ε ν κ ν}

omit [LawfulLoop σ] in
/-- What a task that is not firm does when it starts over as another such job heeds the charter. -/
theorem Lawful.renewed (law : C.Lawful rules outside allowed) {next : κ} {signal : Signal}
    (loose : ¬ C.custom.firm t job) (loose' : ¬ C.custom.firm t next) :
    C.Awaits t job signal (rules.renewed next) s := by
  intro e u _ amid _ _
  cases e with
  | value v => exact law.bodies amid (.inr ⟨loose, loose'⟩)
  | error | cancelled => exact ⟨amid, fun firm => absurd firm loose⟩

/-- A turn of a task.  The three cases are the three ways in which a routine stops. -/
theorem Lawful.proceed (law : C.Lawful rules outside allowed) (m : Machine σ ε ν κ)
    (h : C.Holds (some t) Q m) (hjob : (HasLoop.loop m.state).jobOf t = some job)
    (heeds : C.Heeds t job (C.Ends t job) r (Machine.turnOf t m.state)) :
    C.Follows (· = t) Q m none Q (m.proceed rules t r) := by
  have hlt := h.guarded.fresh.lt_of_jobOf hjob
  obtain ⟨steps, stops⟩ :=
    runRoutine_heeds (amid_turnOf h.inv h.guarded hjob (h.sane.turn t rfl)) heeds
  have respects := (respects_turnOf (some t) t m.state).trans steps.respects
  cases hrun : Machine.runRoutine r (Machine.turnOf t m.state) with
  | mk u stop =>
    rw [hrun] at steps stops respects
    have amid := steps.amid
    have ran : C.Follows (· = t) Q m (some t) Q { m with state := u } :=
      (h.carry (fun v hv => Option.some.inj hv ▸ hlt) amid.inv amid.guarded respects).mono
        fun v hv => (Option.some.inj hv).symm
    rw [Machine.proceed_eq rules m t r hrun]
    refine ran.trans ?_
    cases stop with
    | ended e => exact ran.holds.conclude amid.job stops
    | waits signal rest =>
      obtain ⟨may, unraised, awaits⟩ := stops
      exact ran.holds.suspend amid.job may (fun _ => unraised) awaits
    | renews signal next =>
      obtain ⟨may, loose, loose'⟩ := stops
      exact ran.holds.suspend amid.job may (fun firm => absurd firm loose)
        (law.renewed loose loose')

/-- A task that is started.  It runs up to its first wait, or to its end. -/
theorem Lawful.start (law : C.Lawful rules outside allowed) (h : C.Holds none (.start t ::ₘ Q) m) :
    C.Follows (· = t) (.start t ::ₘ Q) m none Q (m.startTask rules t) := by
  have begun : C.Follows (· = t) (.start t ::ₘ Q) m (some t) Q m :=
    ⟨⟨h.inv, h.guarded, h.sane.begin, h.waiting.weaken (some t), h.unbegun.drop⟩, .refl _,
      fun _ _ _ hj => .inl hj, fun _ _ b => b.drop, fun _ _ he => he, fun _ _ =>
        rfl, fun _ _ => rfl,
      fun u n _ _ _ _ => .of_counts (.refl _ u (.ticket n))⟩
  unfold Machine.startTask
  split
  · exact h.drop
  · next st hst =>
    have hjob := Loop.jobOf_of_task? hst
    refine begun.trans ?_
    split
    · next marked =>
      refine begun.holds.finish hjob fun firm => ?_
      rw [h.guarded.marks t st hst firm] at marked
      cases marked
    · have idle : C.idle (C.view t m.state) :=
        h.unbegun t (by rw [Loop.pending_cons, if_pos rfl]; omega)
      have awake := begun.holds.sane.turn t rfl
      exact law.proceed m begun.holds hjob
        (law.bodies (amid_turnOf h.inv h.guarded hjob awake) (.inl ⟨rfl, by rwa [view_turnOf]⟩))

/-- A task that is gone on with, after what it waited for.  It goes on as cancelled if that was
asked for in the meantime, and else with what the signal brought. -/
theorem Holds.wake {signal : Signal} (h : C.Holds none (.follow (.resume t) signal ::ₘ Q) m)
    {st : TaskState κ} {rest : Rest σ ε ν κ} (hst : (HasLoop.loop m.state).task? t = some st)
    (hrest : Assoc.get? t m.suspended = some rest) :
    let u := HasLoop.update m.state fun l =>
      l.setTask t { st with waiting := none, mustCancel := false }
    C.Follows (· = t) (.follow (.resume t) signal ::ₘ Q) m (some t) Q
      ⟨u, Assoc.erase t m.suspended⟩ ∧
      (HasLoop.loop u).jobOf t = some st.job ∧
      C.Heeds t st.job (C.Ends t st.job)
        (rest (if st.mustCancel then .cancelled
          else ((HasLoop.loop m.state).ending? signal).getD .cancelled))
        (Machine.turnOf t u) := by
  have hjob := Loop.jobOf_of_task? hst
  obtain ⟨hsignal, sane⟩ := h.sane.wake hst
  obtain ⟨-, hwaiting⟩ := h.waiting t rest nofun hrest
  obtain ⟨signal', hsignal', awaits⟩ := hwaiting _ hjob
  obtain rfl : signal' = signal := Option.some.inj (hsignal'.symm.trans hsignal)
  have raised : (HasLoop.loop m.state).ending? signal' ≠ none :=
    h.sane.raised _ _ (.inl (Multiset.mem_cons_self _ _))
  have same : Loop.SameFirm C.custom (fun _ => False) (HasLoop.loop m.state)
      ((HasLoop.loop m.state).setTask t { st with waiting := none, mustCancel := false }) :=
    Loop.sameFirm_setTask hst rfl nofun
  have woken : C.Holds (some t) Q ⟨HasLoop.withLoop m.state ((HasLoop.loop m.state).setTask t
      { st with waiting := none, mustCancel := false }), Assoc.erase t m.suspended⟩ := by
    refine h.loop (C.inv_loop h.inv (same.mono fun _ no => no.elim)) (h.guarded.wake hst) sane
      (fun u rest' hown hrest' => ?_)
      fun u => ?_
    · have hut : u ≠ t := fun he => hown (he ▸ rfl)
      rw [Assoc.get?_erase_of_ne hut] at hrest'
      obtain ⟨hlt, hjobs⟩ := h.waiting u rest' nofun hrest'
      rw [LawfulLoop.loop_withLoop]
      refine ⟨Nat.lt_of_lt_of_le hlt same.evolves.next, fun j hj => ?_⟩
      obtain ⟨s, hs, hawaits⟩ := hjobs j (same.evolves.jobs u j hlt hj)
      refine ⟨s, ?_, hawaits.loop same.evolves⟩
      rw [Loop.waitingOn_setTask, if_neg hut, hs]
    · rw [Loop.pending_setTask, Loop.pending_cons, if_neg (fun h => by cases h), Nat.add_zero]
  have hjob' : (HasLoop.loop (HasLoop.update m.state fun l =>
      l.setTask t { st with waiting := none, mustCancel := false })).jobOf t = some st.job := by
    rw [HasLoop.loop_update, Loop.jobOf, Loop.task?_setTask, if_pos rfl]
    rfl
  refine ⟨⟨woken, ?_, fun v j firm hj => .inl ?_, fun n s b => ?_, fun s e he => ?_, fun v hv => ?_,
    fun v hv => ?_, fun v n s hv _ _ => .of_counts (.of_same ?_ ?_)⟩, hjob', ?_⟩
  · rw [HasLoop.loop_update]
    exact same.evolves
  · rw [HasLoop.loop_update]
    exact (same.jobs v j firm).mpr hj
  · rw [HasLoop.loop_update, HasLoop.update, C.claims_loop]
    exact b.drop.setTask fun he => by cases he
  · rw [HasLoop.loop_update]
    exact same.stays s e he
  · rw [HasLoop.loop_update, Loop.waitingOn_setTask, if_neg hv]
  · exact Assoc.get?_erase_of_ne hv _
  · rw [HasLoop.loop_update, Loop.task?_setTask, if_neg hv]
  · rw [HasLoop.loop_update]
    rfl
  · refine awaits _ _ ?_ (amid_turnOf woken.inv woken.guarded hjob' (woken.sane.turn t rfl)) ?_
      fun firm => ?_
    · rw [Machine.turnOf, HasLoop.loop_update, HasLoop.loop_update]
      exact (same.trans (sameFirm_turn _ t)).evolves
    · rw [view_turnOf, HasLoop.update, C.view_loop]
    · -- Nobody has cancelled a firm task, so it goes on as the signal has been raised.
      obtain ⟨e, he⟩ := Option.ne_none_iff_exists'.mp raised
      rw [h.guarded.marks t st hst firm, he, Machine.turnOf, HasLoop.loop_update,
        HasLoop.loop_update]
      refine ⟨he, fun lone cancelled => ?_⟩
      exact h.guarded.steady signal' lone ⟨t, _, hsignal, hjob, firm⟩ (cancelled ▸ he)

theorem Lawful.resume (law : C.Lawful rules outside allowed) {signal : Signal}
    (h : C.Holds none (.follow (.resume t) signal ::ₘ Q) m) :
    C.Follows (· = t) (.follow (.resume t) signal ::ₘ Q) m none Q
      (m.resumeTask rules t signal) := by
  unfold Machine.resumeTask
  split
  · next st rest hst hrest =>
    obtain ⟨woken, hjob, heeds⟩ := h.wake hst hrest
    exact woken.trans (law.proceed _ woken.holds hjob heeds)
  · exact h.drop

/-- Who waits for a ticket to which the end of a task is passed on hears of a cancellation if the
task has ended so. -/
theorem hears_relay {c : Custom κ η} {C : Nat → Prop} {Q : Multiset (Ready η)} {l : Loop κ η ε ν}
    {next signal source : Signal} {n : Nat}
    (k : Sane c C none (.follow (.relay next) signal ::ₘ Q) l)
    (b : Bound c C (.follow (.relay next) signal ::ₘ Q) l n source) (u : Nat) :
    Hears l (l.raise next ((l.ending? signal).getD .cancelled)) u n source := by
  have tasks : Loop.SameTasks l (l.raise next ((l.ending? signal).getD .cancelled)) :=
    .raise (.refl l) _ _
  by_cases here : next = .ticket n
  · subst here
    have passed : 0 < Loop.pending (.follow (.relay (.ticket n)) signal ::ₘ Q) l
        (.follow (.relay (.ticket n)) signal) := by
      rw [Loop.pending_cons, if_pos rfl]
      exact Nat.succ_pos _
    obtain rfl := b.only signal passed
    obtain ⟨e, he⟩ := Option.ne_none_iff_exists'.mp
      (k.raised _ _ (.inl (Multiset.mem_cons_self _ _)))
    rw [he, Option.getD_some] at tasks ⊢
    refine ⟨by rw [Loop.cancelCount, Loop.cancelCount, tasks.task?], fun warned => ?_⟩
    rw [Loop.Warned, tasks.task?, Loop.ending?_raise] at warned
    rcases warned with marked | raised
    · exact .inl (.inl marked)
    · split at raised
      · refine .inr (.inr ?_)
        rw [← raised]
        exact (Loop.mild_raise l _ e).stays signal e he
      · exact .inl (.inr raised)
  · exact .of_counts (Loop.counts_raise l (.inl (Ne.symm here)) u)

/-- The end of a task is passed on.  How the one signal ended is how the next one ends. -/
theorem Holds.relay {next signal : Signal}
    (h : C.Holds none (.follow (.relay next) signal ::ₘ Q) m) :
    C.Follows W (.follow (.relay next) signal ::ₘ Q) m none Q
      (m.updateLoop fun l => l.raise next ((l.ending? signal).getD .cancelled)) := by
  obtain ⟨guarded, same, sane, bound⟩ := h.sane.relay h.guarded
  have mild := Loop.mild_raise (HasLoop.loop m.state) next
    (((HasLoop.loop m.state).ending? signal).getD .cancelled)
  refine ⟨h.loop (C.inv_loop h.inv same) guarded sane
    (h.waiting.evolve (u := HasLoop.withLoop m.state _) ?_ (fun t _ _ => ?_) fun t _ =>
      C.view_loop t _ _) fun u => ?_, ?_, fun u j firm hj => .inl ?_, fun n s b =>
        ?_, fun s e he => ?_,
    fun u _ => ?_, fun _ _ => rfl, fun u n source _ _ b => ?_⟩
  · rw [LawfulLoop.loop_withLoop]
    exact same.evolves
  · rw [LawfulLoop.loop_withLoop, mild.waiting]
  · rw [mild.pending, Loop.pending_cons, if_neg (fun h => by cases h), Nat.add_zero]
  · rw [Machine.updateLoop, HasLoop.loop_update]
    exact same.evolves
  · rw [Machine.updateLoop, HasLoop.loop_update]
    exact (same.jobs u j firm).mpr hj
  · rw [Machine.updateLoop, HasLoop.loop_update, HasLoop.update, C.claims_loop]
    exact bound n s b
  · rw [Machine.updateLoop, HasLoop.loop_update]
    exact same.stays s e he
  · rw [Machine.updateLoop, HasLoop.loop_update, mild.waiting]
  · rw [Machine.updateLoop, HasLoop.loop_update]
    exact hears_relay h.sane b u

/-- What is ready, and timers that are due, become part of the round. -/
theorem Holds.gather {c : Moment σ ε ν κ η}
    (h : C.Holds none (c.queue : Multiset (Ready η)) c.machine) :
    C.Follows W (c.queue : Multiset (Ready η)) c.machine none
      (c.gather.queue : Multiset (Ready η)) c.gather.machine := by
  have due : Calm C.custom (fun _ => False) (C.claims c.machine.state) (C.claims c.machine.state)
      (HasLoop.loop c.machine.state) (Moment.due (HasLoop.loop c.machine.state)) :=
    (Loop.gentle_due _).calm
  -- First the timers that are due become ready, then what is ready is taken into the round.
  have first : C.Follows W (c.queue : Multiset (Ready η)) c.machine none
      (c.queue : Multiset (Ready η)) (c.machine.updateLoop Moment.due) :=
    h.pass (passes_of_calm h.inv h.guarded due)
  have k := first.holds
  have queue : (c.gather.queue : Multiset (Ready η)) = (c.queue : Multiset (Ready η)) +
      ((HasLoop.loop (c.machine.updateLoop Moment.due).state).ready : Multiset (Ready η)) := rfl
  have same : Loop.SameFirm C.custom (fun _ => False)
      (HasLoop.loop (c.machine.updateLoop Moment.due).state)
      { HasLoop.loop (c.machine.updateLoop Moment.due).state with ready := [] } :=
    .of_endings ⟨Nat.le_refl _, fun _ _ _ h => h, fun h => h⟩ (Nat.le_refl _) (fun _ _ _ => Iff.rfl)
      (fun _ => rfl) fun _ _ h => h
  have emptied : HasLoop.loop c.gather.machine.state =
      { HasLoop.loop (c.machine.updateLoop Moment.due).state with ready := [] } :=
    HasLoop.loop_update (c.machine.updateLoop Moment.due).state fun l => { l with ready := [] }
  rw [queue]
  refine first.trans ⟨k.loop (C.inv_loop k.inv (same.mono fun _ no => no.elim)) k.guarded.gather
    k.sane.gather (k.waiting.evolve (u := HasLoop.withLoop _ _) ?_ (fun t _ _ => ?_) fun t _ =>
      C.view_loop t _ _) fun u => Loop.pending_gather _ _ _, ?_, fun u j firm hj =>
        .inl ?_, fun n s b => ?_,
    fun s e he => ?_, fun u _ => ?_, fun _ _ => rfl, fun u n _ _ _ _ => .of_counts (.of_same ?_ ?_)⟩
  · rw [LawfulLoop.loop_withLoop]
    exact same.evolves
  · rw [LawfulLoop.loop_withLoop]
    rfl
  · rw [emptied]
    exact same.evolves
  · rw [emptied]
    exact hj
  · rw [emptied, Moment.gather, Machine.updateLoop, HasLoop.update, C.claims_loop]
    exact b.gather
  · rw [emptied]
    exact same.stays s e he
  · rw [emptied]
    rfl
  · rw [emptied]
    rfl
  · rw [emptied]
    rfl

/-- Whose turn it is once something is done that is ready.  Timers, relays and hooks are nobody's
turn. -/
def TurnOf (t : Nat) : Ready η → Prop
  | .start u | .follow (.resume u) _ => t = u
  | .timer _ | .follow .. => False

/-- Whatever is ready can be done.  The cases are the constructors of `Ready` and of `Follower`;
each is one of the lemmas above. -/
theorem Lawful.run (law : C.Lawful rules outside allowed) (h : C.Holds none (i ::ₘ Q) m) :
    C.Follows (TurnOf · i) (i ::ₘ Q) m none Q (m.runReady rules i) := by
  have left : C.Follows (TurnOf · i) (i ::ₘ Q) m none Q m := h.drop
  cases i with
  | start t => exact law.start h
  | timer id =>
    exact left.trans (left.holds.pass
      (passes_of_calm h.inv h.guarded (Loop.gentle_fireTimer h.guarded _ id).calm))
  | follow f signal =>
    cases f with
    | resume t => exact law.resume h
    | relay next => exact h.relay
    | part n =>
      exact left.trans (left.holds.pass
        (passes_of_calm h.inv h.guarded (Loop.gentle_countPart h.guarded _ n).calm))
    | hook k => exact left.trans (left.holds.pass (law.hooks h.inv h.guarded h.sane))

/-- A charter that every job heeds holds along every course, tickets stay bound and signals raised.
By induction on the course, with `Lawful.run` for what is done and the obligation about the outside
for what happens. -/
theorem Lawful.leads (law : C.Lawful rules outside allowed) {c d : Moment σ ε ν κ η} {os : List ω}
    (h : C.Holds none (c.queue : Multiset (Ready η)) c.machine) (leads : Leads rules outside c os d)
    (hos : ∀ o ∈ os, allowed o) :
    C.Follows (fun _ => True) (c.queue : Multiset (Ready η)) c.machine none
      (d.queue : Multiset (Ready η)) d.machine := by
  -- By what was done last.  The order in which things were ready does not matter, as they are a
  -- multiset.
  induction leads with
  | refl => exact .refl h
  | happens _ o ih =>
    obtain ⟨earlier, last⟩ := List.forall_mem_append.mp hos
    have hd := ih earlier
    exact hd.trans (hd.holds.pass
      (law.happens hd.holds.inv hd.holds.guarded (last o (List.mem_singleton_self o))))
  | gathers _ ih => exact (ih hos).trans (ih hos).holds.gather
  | runs _ ih =>
    have hm := ih hos
    rw [multiset_middle] at hm
    exact hm.trans ((law.run hm.holds).mono fun _ _ => trivial)

/-- What always holds does so in every state that a course comes by. -/
theorem Lawful.visits (law : C.Lawful rules outside allowed) {c : Moment σ ε ν κ η} {os : List ω}
    (h : C.Holds none (c.queue : Multiset (Ready η)) c.machine)
    (visits : Visits rules outside c os s) (hos : ∀ o ∈ os, allowed o) : C.inv s := by
  cases visits with
  | moment leads => exact (law.leads h leads hos).holds.inv
  | turn leads passes =>
    have hm := (law.leads h leads hos).holds
    rw [multiset_middle] at hm
    cases passes with
    | starts task turn =>
      have hjob := Loop.jobOf_of_task? task
      have idle := hm.unbegun _ (by rw [Loop.pending_cons, if_pos rfl]; omega)
      have amid := amid_turnOf hm.inv hm.guarded hjob (hm.sane.begin.turn _ rfl)
      exact ((law.bodies amid (.inl ⟨rfl, by rwa [view_turnOf]⟩)).amid_of_passes turn amid).inv
    | resumes task waiting turn =>
      obtain ⟨woken, hjob, heeds⟩ := hm.wake task waiting
      have amid := amid_turnOf woken.holds.inv woken.holds.guarded hjob
        (woken.holds.sane.turn _ rfl)
      exact (heeds.amid_of_passes turn amid).inv

end Charter

end PikeAnalysis.Concurrency
