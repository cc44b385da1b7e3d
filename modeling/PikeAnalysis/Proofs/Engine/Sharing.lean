import PikeAnalysis.Proofs.Bridge.Asking
import PikeAnalysis.Proofs.Concurrency.Suiting
import PikeAnalysis.Proofs.Engine.Closing
import PikeAnalysis.Proofs.Scheduler.Waiters

/-!
# Tasks that share requests

The task of a request is shared by all who ask for the same at the same time.  Nobody cancels it:
whoever asks waits for a ticket of his own, to which the end of the task is passed on.  So the task
of a request is under its key until it has ended, it does not end as cancelled, and what has no
answer yet is what such a task has asked (`Shared`).

Who is not cancelled from outside does not end as cancelled either.  That is said of some callers
that are told apart beforehand: the tasks of the calls in `spared` are firm, like those of the
requests, and only those who are spared are not cancelled.  Everybody else may be.

This file states the charter (`charter`) and shows that whatever leaves the threads of the bridge
alone suits it.  A step of the bridge changes one thread at most, and what it makes of the requests
is told by `Moves`.

The shape of the argument is that of a charter: tasks of requests are firm, and everything else the
engine does is shown to leave firm tasks alone.  Changes are classified once, by how much they
touch.  `Deals` is for changes of tasks that are not firm and of the tickets that others claim;
`Eases` for such changes made in a turn or between turns; `Moves` for a step of the bridge, in which
one thread changes and answers and turns may be given.

`Shared` is the invariant: a request's task is under its key from when it is created, and what the
bridge has not been answered is asked by the thread of such a task.  It is what makes a second
caller find the first one's request.
-/

namespace PikeAnalysis.Engine

open PikeAnalysis.Concurrency

/-- Whether a job is a call for a request. -/
def Job.Asks : Job → Prop
  | .call (.request ..) => True
  | _ => False

namespace Sharing

open PikeAnalysis.Concurrency.Loop (Calm Exposed Gentle Guarded SameFirm)

variable {spared : Nat → Prop} {A : Signal → Prop} {C : Nat → Prop} {s s' s'' : State}
  {t : Nat} {job : Job} {own : Option Nat}

/-! ## The charter -/

/-- The tasks of requests are firm, and so are calls that are spared; a request is forgotten only
after the end of its task.  Whether a call is spared depends on its task, as two calls may have the
same job. -/
def custom (spared : Nat → Prop) : Custom Job Hook where
  firm t job := job.IsRequest ∨ spared t ∧ job.Asks
  hooks hook signal := ∀ key task, hook = .forgetRequest key task → signal = .ended task

/-- A ticket that is raised once a worker prints or ends, once a document is idle, or once the
outside has done something that takes time. -/
def claims (s : State) (n : Nat) : Prop :=
  (∃ p ∈ s.pipes, p.output.waiter = some n ∨ p.errors.waiter = some n ∨ n ∈ p.exitWaiters) ∨
    s.scheduler.machine.Awaits n ∨ n ∈ s.delays

/-- A task that the engine itself may cancel.  None of them is firm, so what the engine cancels by
itself is no request. -/
def Held (s : State) (t : Nat) : Prop :=
  (∃ p ∈ s.pipes, t ∈ p.readers) ∨ (∃ e ∈ s.scheduler.timerTasks, e.2 = t) ∨
    ∃ e ∈ s.scheduler.runTasks, e.2 = t

/-- A thread is that of a task that has begun, and one that is for a request is that of the
request's task. -/
structure Fits (l : Loop Job Hook Trouble Value) (t : Nat) (thread : Bridge.Thread) : Prop where
  known : t < l.nextTask
  proper : thread.Proper
  request : ∀ method params, thread.job = .request method params →
    l.jobOf t = some (.request (Bridge.requestKey method params) method params)

/-- A request without an answer is that of a thread that is for a request of its method. -/
def Owned (b : Bridge.State) (id : Nat) (entry : Bridge.Pending) : Prop :=
  ∃ t thread params, Assoc.get? t b.threads = some thread ∧ thread.stage.request? = some id ∧
    thread.job = .request entry.method params

/-- What always holds of the requests that are under way.  The second half is about the threads of
the bridge: each is driven by the task that it belongs to. -/
structure Shared (spared : Nat → Prop) (s : State) : Prop where
  joined : ∀ t key method params, s.loop.jobOf t = some (.request key method params) →
    key = Bridge.requestKey method params ∧ Assoc.get? key s.bridge.inflight = some t
  /-- What can be joined is under way, or has ended and not as cancelled. -/
  inFlight : ∀ key t, Assoc.get? key s.bridge.inflight = some t →
    (∃ method params, s.loop.jobOf t = some (.request key method params)) ∨
      ∃ e, s.loop.ending? (.ended t) = some e ∧ e ≠ .cancelled
  threads : ∀ t thread, Assoc.get? t s.bridge.threads = some thread → Fits s.loop t thread
  pending : ∀ id entry, Assoc.get? id s.bridge.pending = some entry → Owned s.bridge id entry
  numbered : s.bridge.Numbered
  answered : ∀ id, s.loop.ending? (.answer id) ≠ none →
    id ≤ s.bridge.nextId ∧ Assoc.get? id s.bridge.pending = none
  granted : ∀ n, s.loop.ending? (.turn n) ≠ none → n < s.bridge.nextTicket
  queued : ∀ t n, s.loop.waitingOn t = some (.turn n) → n < s.bridge.nextTicket
  held : ∀ t, Held s t → s.loop.Exposed (custom spared) t
  claimed : ∀ n, claims s n → n < s.loop.nextTicket

/-- A task has no thread of the bridge.  It never had one, or its thread has ended. -/
def Gone (t : Nat) (s : State) : Prop :=
  Assoc.get? t s.bridge.threads = none

/-- The turns at the locks of the bridge that have been given out. -/
def GivenTurn (s : State) (n : Nat) : Prop :=
  n < s.bridge.nextTicket

theorem Shared.loop (h : Shared spared s) {l : Loop Job Hook Trouble Value}
    (same : SameFirm (custom spared) (fun signal => ∃ n, signal = .turn n ∧ GivenTurn s n)
      s.loop l) :
    Shared spared { s with loop := l } where
  joined t key method params hjob :=
    h.joined t key method params ((same.jobs t (.request key method params) (.inl trivial)).mp hjob)
  inFlight key t hkey := by
    rcases h.inFlight key t hkey with ⟨method, params, hjob⟩ | ⟨e, he, done⟩
    · exact .inl
        ⟨method, params, (same.jobs t (.request key method params) (.inl trivial)).mpr hjob⟩
    · exact .inr ⟨e, same.stays _ e he, done⟩
  threads t thread ht :=
    have fits := h.threads t thread ht
    { known := Nat.lt_of_lt_of_le fits.known same.evolves.next
      proper := fits.proper
      request := fun method params hjob =>
        (same.jobs t (.request _ method params) (.inl trivial)).mpr
          (fits.request method params hjob) }
  pending := h.pending
  numbered := h.numbered
  answered id hid := h.answered id ((same.answers id hid).resolve_right nofun)
  granted n hn := by
    rcases same.turns n hn with old | ⟨m, hm, given⟩ | ⟨t, ht⟩
    · exact h.granted n old
    · obtain rfl := Signal.turn.inj hm
      exact given
    · exact h.queued t n ht
  queued t n ht := by
    rcases same.waits t n ht with old | ⟨m, hm, given⟩
    · exact h.queued t n old
    · obtain rfl := Signal.turn.inj hm
      exact given
  held t ht := (h.held t ht).evolve same.evolves
  claimed n hn := Nat.lt_of_lt_of_le (h.claimed n hn) same.tickets

/-- A task ends that has no thread any more.  The task of a request does not end as cancelled. -/
theorem Shared.finish (h : Shared spared s) (idle : Gone t s) (hjob : s.loop.jobOf t = some job)
    (unended : s.loop.ending? (.ended t) = none) {e : Ending Trouble Value}
    (comes : job.IsRequest → e ≠ .cancelled) :
    Shared spared { s with loop := s.loop.finish t e } := by
  have evolves := Loop.evolves_finish s.loop t e
  -- Everything but the job of the task and the signal of its end is as it was.
  have other (u : Nat) (hne : u ≠ t) : (s.loop.finish t e).jobOf u = s.loop.jobOf u := by
    rw [Loop.jobOf, Loop.task?_finish, if_neg hne]
    rfl
  have gone : (s.loop.finish t e).jobOf t = none := Loop.jobOf_finish_self s.loop t e
  have endings (signal : Signal) (hne : signal ≠ .ended t) :
      (s.loop.finish t e).ending? signal = s.loop.ending? signal :=
    Loop.ending?_finish s.loop t e hne
  have ended : (s.loop.finish t e).ending? (.ended t) = some e := by
    rw [Loop.finish, Loop.ending?_raise, if_pos ⟨rfl, unended⟩]
  exact
    { joined := fun u key method params hu => by
        have hne : u ≠ t := by
          rintro rfl
          rw [gone] at hu
          cases hu
        exact h.joined u key method params ((other u hne).symm.trans hu)
      inFlight := fun key u hkey => by
        dsimp only at hkey ⊢
        by_cases hne : u = t
        · subst hne
          refine .inr ⟨e, ended, ?_⟩
          rcases h.inFlight key u hkey with ⟨method, params, requests⟩ | ⟨e', he', -⟩
          · rw [hjob] at requests
            obtain rfl := Option.some.inj requests
            exact comes trivial
          · rw [unended] at he'
            cases he'
        · rcases h.inFlight key u hkey with ⟨method, params, requests⟩ | ⟨e', he', done⟩
          · exact .inl ⟨method, params, (other u hne).trans requests⟩
          · exact .inr ⟨e', (endings _ fun he => hne (Signal.ended.inj he)).trans he', done⟩
      threads := fun u thread hu => by
        have fits := h.threads u thread hu
        have hne : u ≠ t := by
          rintro rfl
          rw [Gone, show Assoc.get? u s.bridge.threads = some thread from hu] at idle
          cases idle
        exact
          { known := Nat.lt_of_lt_of_le fits.known evolves.next
            proper := fits.proper
            request := fun method params hm => (other u hne).trans (fits.request method params hm) }
      pending := h.pending
      numbered := h.numbered
      answered := fun id hid => h.answered id (endings (.answer id) (by simp) ▸ hid)
      granted := fun n hn => h.granted n (endings (.turn n) (by simp) ▸ hn)
      queued := fun u n hu => by
        refine h.queued u n ?_
        rw [Loop.waitingOn, Loop.task?_finish] at hu
        split at hu
        · cases hu
        · exact hu
      held := fun u hu => (h.held u hu).evolve evolves
      claimed := fun n hn =>
        Nat.lt_of_lt_of_le (h.claimed n hn)
          (Nat.le_of_eq (Loop.nextTicket_finish s.loop t e).symm) }

/-- What the tasks of the engine owe those of the requests and those who are spared. -/
def charter (spared : Nat → Prop) : Charter State where
  custom := custom spared
  claims := claims
  inv := Shared spared
  turns := GivenTurn
  View := Option Bridge.Thread
  view t s := Assoc.get? t s.bridge.threads
  idle thread := thread = none
  comes job e := job.IsRequest → e ≠ .cancelled
  inv_loop h same := h.loop same
  inv_finish h hjob unended _ idle comes := h.finish idle hjob unended comes
  claims_loop _ _ := rfl
  view_loop _ _ _ := rfl
  idle_fresh {t s} h _ hle := by
    cases hthread : Assoc.get? t s.bridge.threads with
    | none => rfl
    | some thread => exact absurd (h.threads t thread hthread).known (Nat.not_lt.mpr hle)

/-! ## Dealing with tasks -/

/-- What can be relied on while tasks are dealt with, and others claim the tickets `C`.  Tickets
that others claim are ones they are going to raise, so they have been given out and nobody else may
raise them.  The tasks that the engine itself may cancel are exposed, that is, none of them is
firm. -/
structure Tame (spared C : Nat → Prop) (s : State) : Prop where
  guarded : Guarded (custom spared) s.loop
  held : ∀ t, Held s t → s.loop.Exposed (custom spared) t
  claimed : ∀ n, C n → n < s.loop.nextTicket

/-- A change of tasks that are not firm, and of what is kept of them.  The answers and turns in `A`
may be given, and the tickets `C'` are claimed after it.  It says what of the loop may have changed,
and composes. -/
structure Deals (spared : Nat → Prop) (A : Signal → Prop) (C C' : Nat → Prop) (s s' : State) :
    Prop where
  calm : Calm (custom spared) A C C' s.loop s'.loop
  tame : Tame spared C' s'
  bridge : s'.bridge = s.bridge

theorem Shared.tame (h : Shared spared s) (guarded : Guarded (custom spared) s.loop) :
    Tame spared (claims s) s :=
  ⟨guarded, h.held, h.claimed⟩

/-- Only requests and calls are firm. -/
theorem not_firm (other : ¬ job.IsRequest) (loose : ¬ job.Asks) (t : Nat) :
    ¬ (custom spared).firm t job :=
  fun firm => firm.elim other fun asks => loose asks.2

theorem not_request (loose : ¬ (custom spared).firm t job) : ¬ job.IsRequest :=
  fun request => loose (.inl request)

namespace Deals

variable {C' C'' : Nat → Prop}

theorem trans (h : Deals spared A C C' s s') (k : Deals spared A C' C'' s' s'') :
    Deals spared A C C'' s s'' :=
  ⟨h.calm.trans k.calm, k.tame, k.bridge.trans h.bridge⟩

/-- A change that leaves the loop alone. -/
theorem of_same (h : Tame spared C s) (loop : s'.loop = s.loop) (bridge : s'.bridge = s.bridge)
    (held : ∀ t, Held s' t → Held s t ∨ s.loop.Exposed (custom spared) t) :
    Deals spared A C C s s' where
  calm := by
    rw [loop]
    exact .refl s.loop
  tame :=
    { guarded := loop ▸ h.guarded
      held := fun t ht => loop ▸ (held t ht).elim (h.held t) id
      claimed := loop ▸ h.claimed }
  bridge := bridge

/-- A change of the loop alone. -/
theorem of_loop (h : Tame spared C s) {l : Loop Job Hook Trouble Value}
    (calm : Calm (custom spared) A C C s.loop l) :
    Deals spared A C C s { s with loop := l } := by
  obtain ⟨guarded, same, -, -⟩ := calm h.guarded
  exact
    { calm := calm
      tame :=
        { guarded := guarded
          held := fun t ht => (h.held t ht).evolve same.evolves
          claimed := fun n hn => Nat.lt_of_lt_of_le (h.claimed n hn) same.tickets }
      bridge := rfl }

/-- Fewer tickets are claimed. -/
theorem drop (h : Deals spared A C C s s') (fewer : ∀ n, C' n → C n) :
    Deals spared A C C' s s' where
  calm := h.calm.trans (.same s'.loop fewer)
  tame := ⟨h.tame.guarded, h.tame.held, fun n hn => h.tame.claimed n (fewer n hn)⟩
  bridge := h.bridge

/-- Changes in turn. -/
theorem foldl {α : Type} {f : State → α → State} {xs : List α}
    (step : ∀ s, Tame spared C s → ∀ a ∈ xs, Deals spared A C C s (f s a)) (h : Tame spared C s) :
    Deals spared A C C s (xs.foldl f s) := by
  induction xs generalizing s with
  | nil => exact of_loop h (.refl s.loop)
  | cons a rest ih =>
    have first := step s h a List.mem_cons_self
    exact first.trans (ih (fun u hu b hb => step u hu b (List.mem_cons_of_mem a hb)) first.tame)

/-- A task that may be cancelled is. -/
theorem cancel (h : Tame spared C s) (exposed : s.loop.Exposed (custom spared) t) :
    Deals spared A C C s { s with loop := (s.loop.cancel t).1 } :=
  of_loop h (Loop.gentle_cancel h.guarded exposed).calm

/-- A ticket that is claimed is raised. -/
theorem raise (h : Tame spared C s) {n : Nat} (claimed : C n) {e : Ending Trouble Value}
    (mild : e ≠ .cancelled) :
    Deals spared A C C s { s with loop := s.loop.raise (.ticket n) e } := by
  have may : Loop.MayRaise (custom spared) C A s.loop s.loop.nextTicket (.ticket n) e :=
    ⟨fun he => absurd he mild, h.claimed n claimed, .inr (.inr (.inr claimed))⟩
  exact of_loop h (Loop.gentle_raise s.loop may mild).calm

end Deals

theorem exposed_create (h : s.loop.Fresh) (loose : ¬ (custom spared).firm s.loop.nextTask job) :
    (s.loop.create job).1.Exposed (custom spared) s.loop.nextTask := by
  refine ⟨Nat.lt_succ_self _, fun j hj => ?_⟩
  rw [h.jobOf_create, if_pos rfl] at hj
  exact Option.some.inj hj ▸ loose

/-! ## The scheduler -/

/-- An effect of the scheduler, if it is one that wakes only those who wait. -/
theorem deals_carryOut (h : Tame spared C s) {x : Scheduler.Effect}
    (claimed : ∀ tickets, x = .wake tickets → ∀ n ∈ tickets, C n) :
    Deals spared A C C s (Scheduler.carryOut s x) := by
  have cancels (task : Option Nat) (held : ∀ t, task = some t → Held s t) :
      Deals spared A C C s (Scheduler.cancelTask s task) := by
    cases task with
    | none => exact .of_loop h (.refl s.loop)
    | some t => exact .cancel h (h.held t (held t rfl))
  cases x with
  | armTimer timer =>
    have created : Deals spared A C C s { s with loop := (s.loop.create (.timer timer)).1 } :=
      .of_loop h (Loop.calm_create s.loop (not_firm id id _))
    refine created.trans (.of_same created.tame rfl rfl fun t ht => ?_)
    rcases ht with ht | ⟨e, he, rfl⟩ | ht
    · exact .inl (.inl ht)
    · rcases Assoc.mem_set he with rfl | he
      · exact .inr (exposed_create h.guarded.fresh (not_firm id id _))
      · exact .inl (.inr (.inl ⟨e, he, rfl⟩))
    · exact .inl (.inr (.inr ht))
  | startRun run =>
    have created : Deals spared A C C s { s with loop := (s.loop.create (.run run)).1 } :=
      .of_loop h (Loop.calm_create s.loop (not_firm id id _))
    have followed : Deals spared A C C s (HasLoop.withLoop s ((s.loop.create (.run run)).1.follow
        (.ended s.loop.nextTask) (.hook (.runOver run)))) := by
      refine created.trans (.of_loop created.tame (Loop.calm_follow _ ?_ ?_ ?_))
      · exact fun key task heq => by cases heq
      · exact fun t heq => by cases heq
      · exact fun s' heq => by cases heq
    refine followed.trans (.of_same followed.tame rfl rfl fun t ht => ?_)
    rcases ht with ht | ht | ⟨e, he, rfl⟩
    · exact .inl (.inl ht)
    · exact .inl (.inr (.inl ht))
    · rcases Assoc.mem_set he with rfl | he
      · have exposed : (s.loop.create (.run run)).1.Exposed (custom spared) s.loop.nextTask :=
          exposed_create h.guarded.fresh (not_firm id id _)
        have same := Loop.sameFirm_follow (c := custom spared) (A := A) (s.loop.create (.run run)).1
          (.ended s.loop.nextTask) (.hook (.runOver run))
        exact .inr (exposed.evolve same.evolves)
      · exact .inl (.inr (.inr ⟨e, he, rfl⟩))
  | cancelTimer timer =>
    exact cancels _ fun t ht => .inr (.inl ⟨_, Assoc.mem_of_get? ht, rfl⟩)
  | cancelRun run =>
    exact cancels _ fun t ht => .inr (.inr ⟨_, Assoc.mem_of_get? ht, rfl⟩)
  | wake tickets =>
    exact .foldl (fun u hu n hn => .raise hu (claimed tickets rfl n hn) nofun) h
  | closed uri => exact .of_same h rfl rfl fun t ht => .inl ht

theorem pipes_carryOut (s : State) (x : Scheduler.Effect) :
    (Scheduler.carryOut s x).pipes = s.pipes ∧ (Scheduler.carryOut s x).delays = s.delays := by
  have cancelled (s : State) (task : Option Nat) :
      (Scheduler.cancelTask s task).pipes = s.pipes ∧
        (Scheduler.cancelTask s task).delays = s.delays := by
    cases task <;> exact ⟨rfl, rfl⟩
  cases x with
  | cancelTimer timer | cancelRun run => exact cancelled s _
  | wake tickets =>
    rw [Scheduler.carryOut]
    induction tickets generalizing s with
    | nil => exact ⟨rfl, rfl⟩
    | cons n rest ih => exact ih _
  | armTimer | startRun | closed => exact ⟨rfl, rfl⟩

/-- The scheduler is told something, and what it decides is done. -/
theorem deals_happen (h : Tame spared (claims s) s) (e : Scheduler.Event) :
    Deals spared A (claims s) (claims (Scheduler.tell s e)) s (Scheduler.tell s e) := by
  have wakes := Scheduler.wakes_step s.scheduler.machine e
  have decided : Deals spared A (claims s) (claims s) s
      { s with scheduler := { s.scheduler with machine := (s.scheduler.machine.step e).1 } } :=
    .of_same h rfl rfl fun t ht => .inl ht
  have done : Deals spared A (claims s) (claims s) s (Scheduler.tell s e) := by
    refine decided.trans
      (.foldl (fun u hu x hx => deals_carryOut hu fun tickets heq n hn => ?_) decided.tame)
    have woken := wakes.woken x hx
    rw [heq] at woken
    exact .inr (.inl (woken n hn))
  -- Some that waited for a slot may have been woken, so that less is claimed than before.
  obtain ⟨pipes, delays⟩ : (Scheduler.tell s e).pipes = s.pipes ∧
    (Scheduler.tell s e).delays = s.delays := by
    have fold (out : List Scheduler.Effect) (u : State) :
        (out.foldl Scheduler.carryOut u).pipes = u.pipes ∧
          (out.foldl Scheduler.carryOut u).delays = u.delays := by
      induction out generalizing u with
      | nil => exact ⟨rfl, rfl⟩
      | cons x rest ih =>
        exact ⟨(ih _).1.trans (pipes_carryOut u x).1, (ih _).2.trans (pipes_carryOut u x).2⟩
    exact fold _ _
  refine done.drop fun n hn => ?_
  rcases hn with hn | hn | hn
  · rw [pipes] at hn
    exact .inl hn
  · rw [Closing.machine_tell] at hn
    exact .inr (.inl (wakes.waiters n hn))
  · rw [delays] at hn
    exact .inr (.inr hn)

/-! ## Pipes -/

theorem mem_pipesOf (s : State) (w : Nat) : s.pipesOf w ∈ s.pipes ∨ s.pipesOf w = {} := by
  rw [State.pipesOf, List.getD_eq_getElem?_getD]
  cases h : s.pipes[w]? with
  | none => exact .inr rfl
  | some p => exact .inl (List.mem_of_getElem? h)

/-- Who waits for something of a worker. -/
def waiters (p : Pipes) : List Nat :=
  p.output.waiter.toList ++ p.errors.waiter.toList ++ p.exitWaiters

theorem claims_iff {n : Nat} :
    claims s n ↔ (∃ p ∈ s.pipes, n ∈ waiters p) ∨ s.scheduler.machine.Awaits n ∨ n ∈ s.delays := by
  simp only [claims, waiters, List.mem_append, Option.mem_toList, or_assoc]

theorem claims_of_waiters {w n : Nat} (h : n ∈ waiters (s.pipesOf w)) : claims s n := by
  rcases mem_pipesOf s w with hmem | hempty
  · exact claims_iff.mpr (.inl ⟨_, hmem, h⟩)
  · rw [hempty] at h
    cases h

/-- What a change of a worker's pipes and of the loop leaves claimed. -/
theorem claims_setPipes {w n : Nat} {p : Pipes} {l : Loop Job Hook Trouble Value}
    (h : claims (({ s with loop := l }).setPipes w p) n) : claims s n ∨ n ∈ waiters p := by
  rcases claims_iff.mp h with ⟨q, hq, hn⟩ | hn
  · rcases List.mem_or_eq_of_mem_set hq with hq | rfl
    · exact .inl (claims_iff.mpr (.inl ⟨q, hq, hn⟩))
    · exact .inr hn
  · exact .inl (claims_iff.mpr (.inr hn))

theorem held_setPipes {w : Nat} {p : Pipes} {l : Loop Job Hook Trouble Value}
    (readers : p.readers = (s.pipesOf w).readers)
    (h : Held (({ s with loop := l }).setPipes w p) t) :
    Held s t := by
  rcases h with ⟨q, hq, ht⟩ | h
  · rcases List.mem_or_eq_of_mem_set hq with hq | rfl
    · exact .inl ⟨q, hq, ht⟩
    · rw [readers] at ht
      rcases mem_pipesOf s w with hmem | hempty
      · exact .inl ⟨_, hmem, ht⟩
      · rw [hempty] at ht
        cases ht
  · exact .inr h

/-- Those who wait for something of a worker are told, and do not wait any more. -/
theorem deals_wake (h : Tame spared (claims s) s) (w : Nat) (p : Pipes)
    (readers : p.readers = (s.pipesOf w).readers) (tickets : List Nat)
    (told : ∀ n ∈ tickets, claims s n) (left : ∀ n ∈ waiters p, claims s n) :
    Deals spared A (claims s) (claims ((s.setPipes w p).wake tickets)) s
      ((s.setPipes w p).wake tickets) := by
  have changed : Deals spared A (claims s) (claims s) s (s.setPipes w p) :=
    .of_same h rfl rfl fun t ht => .inl (held_setPipes (l := s.loop) readers ht)
  have fold (l : Loop Job Hook Trouble Value)
    (hl : Tame spared (claims s) { s.setPipes w p with loop := l }) :
      Deals spared A (claims s) (claims s) { s.setPipes w p with loop := l } { s.setPipes w p with
        loop := tickets.foldl (fun l n => l.raise (.ticket n) (.value .nothing)) l } := by
    induction tickets generalizing l with
    | nil => exact .of_loop hl (.refl l)
    | cons n rest ih =>
      have raised := Deals.raise (A := A) hl (told n List.mem_cons_self)
        (e := .value .nothing) nofun
      exact raised.trans (ih (fun m hm => told m (List.mem_cons_of_mem n hm)) _ raised.tame)
  refine (changed.trans (fold s.loop changed.tame)).drop fun n hn => ?_
  exact (claims_setPipes (s := s) (w := w) (p := p) hn).elim id (left n)

theorem deals_feedOutput (h : Tame spared (claims s) s) (w : Nat)
    (lines : List String) (ended : Bool) :
    Deals spared A (claims s) (claims (s.feedOutput w lines ended)) s
      (s.feedOutput w lines ended) := by
  refine deals_wake h w { s.pipesOf w with output := State.feedChannel _ lines ended } rfl _
    (fun n hn => ?_) fun n hn => ?_
  · exact claims_of_waiters (List.mem_append_left _ (List.mem_append_left _ hn))
  · refine claims_of_waiters (w := w) ?_
    rcases List.mem_append.mp hn with hn | hn
    · rcases List.mem_append.mp hn with hn | hn
      · cases hn
      · exact List.mem_append_left _ (List.mem_append_right _ hn)
    · exact List.mem_append_right _ hn

theorem deals_feedErrors (h : Tame spared (claims s) s) (w : Nat)
    (lines : List String) (ended : Bool) :
    Deals spared A (claims s) (claims (s.feedErrors w lines ended)) s
      (s.feedErrors w lines ended) := by
  refine deals_wake h w { s.pipesOf w with errors := State.feedChannel _ lines ended } rfl _
    (fun n hn => ?_) fun n hn => ?_
  · exact claims_of_waiters (List.mem_append_left _ (List.mem_append_right _ hn))
  · refine claims_of_waiters (w := w) ?_
    rcases List.mem_append.mp hn with hn | hn
    · rcases List.mem_append.mp hn with hn | hn
      · exact List.mem_append_left _ (List.mem_append_left _ hn)
      · cases hn
    · exact List.mem_append_right _ hn

/-! ## Changes that leave requests alone -/

/-- A change that leaves the threads alone but for one respects all who wait. -/
theorem respects (guarded : Guarded (custom spared) s.loop)
    (calm : Calm (custom spared) A (claims s) (claims s') s.loop s'.loop)
    (threads : ∀ u, own ≠ some u → Assoc.get? u s'.bridge.threads = Assoc.get? u s.bridge.threads) :
    (charter spared).Respects own s s' := by
  obtain ⟨-, same, turn, sane⟩ := calm guarded
  exact
    { evolves := same.evolves
      jobs := turn.stays
      stays := same.stays
      waiting := fun u _ => turn.waiting u
      counts := fun u signal _ => turn.counts u signal
      starts := turn.starts
      view := threads
      sane := fun own Q hown k => sane own Q hown k }

/-- A task of the engine has the turn throughout what it does with tasks. -/
theorem amid_of_calm (amid : (charter spared).Amid t job s) (inv : Shared spared s')
    (calm : Calm (custom spared) A (claims s) (claims s') s.loop s'.loop) :
    (charter spared).Amid t job s' := by
  obtain ⟨guarded, -, turn, -⟩ := calm amid.guarded
  exact ⟨inv, guarded, turn.stays t job amid.job, turn.current.trans amid.current,
    (turn.waiting t).trans amid.awake⟩

namespace Deals

theorem shared (d : Deals spared (fun _ => False) (claims s) (claims s') s s') (h : Shared spared s)
    (guarded : Guarded (custom spared) s.loop) : Shared spared s' := by
  have moved := h.loop ((d.calm guarded).2.1.mono fun _ no => no.elim)
  have bridge := d.bridge
  exact
    { joined := bridge ▸ moved.joined
      inFlight := bridge ▸ moved.inFlight
      threads := fun t thread ht => by
        have fits := moved.threads t thread (bridge ▸ ht)
        exact ⟨fits.known, fits.proper, fits.request⟩
      pending := bridge ▸ moved.pending
      numbered := bridge ▸ moved.numbered
      answered := bridge ▸ moved.answered
      granted := bridge ▸ moved.granted
      queued := bridge ▸ moved.queued
      held := d.tame.held
      claimed := d.tame.claimed }

end Deals

/-- A change of tasks that are not firm, in the turn of one or between turns.  It is the form in
which changes are composed: what is calm, what is shared, and the threads of the bridge, which such
a change does not touch. -/
structure Eases (spared : Nat → Prop) (s s' : State) : Prop where
  calm : Calm (custom spared) (fun _ => True) (claims s) (claims s') s.loop s'.loop
  shared : Shared spared s'
  threads : s'.bridge.threads = s.bridge.threads

namespace Eases

theorem trans (h : Eases spared s s') (k : Eases spared s' s'') : Eases spared s s'' :=
  ⟨h.calm.trans k.calm, k.shared, k.threads.trans h.threads⟩

theorem respects (h : Eases spared s s') (guarded : Guarded (custom spared) s.loop) :
    (charter spared).Respects own s s' :=
  Sharing.respects guarded h.calm fun _ _ => by rw [h.threads]

theorem passes (h : Eases spared s s') (guarded : Guarded (custom spared) s.loop) :
    (charter spared).Passes s s' :=
  ⟨h.shared, (h.calm guarded).1, h.respects guarded⟩

theorem steps (h : Eases spared s s') (amid : (charter spared).Amid t job s) :
    (charter spared).Steps t job s s' :=
  ⟨amid_of_calm amid h.shared h.calm, h.respects amid.guarded⟩

end Eases

theorem Deals.eases (d : Deals spared (fun _ => False) (claims s) (claims s') s s')
    (h : Shared spared s)
    (guarded : Guarded (custom spared) s.loop) : Eases spared s s' :=
  ⟨d.calm.mono fun _ no => no.elim, d.shared h guarded, by rw [d.bridge]⟩

theorem Deals.steps (d : Deals spared (fun _ => False) (claims s) (claims s') s s')
    (amid : (charter spared).Amid t job s) :
    (charter spared).Steps t job s s' :=
  (d.eases amid.inv amid.guarded).steps amid

theorem tame_amid (amid : (charter spared).Amid t job s) : Tame spared (claims s) s :=
  Shared.tame amid.inv amid.guarded

/-! ## New tickets -/

/-- A new ticket is claimed. -/
theorem deals_claim (h : Tame spared (claims s) s) (loop : s'.loop = s.loop.newTicket.1)
    (bridge : s'.bridge = s.bridge) (held : ∀ t, Held s' t → Held s t)
    (claims : ∀ n, claims s' n → claims s n ∨ n = s.loop.nextTicket) :
    Deals spared A (Sharing.claims s) (Sharing.claims s') s s' := by
  have calm :
      Calm (custom spared) A (Sharing.claims s) (Sharing.claims s') s.loop s.loop.newTicket.1 :=
    Loop.calm_claim s.loop claims
  obtain ⟨guarded, same, -, -⟩ := calm h.guarded
  exact
    { calm := by rwa [loop]
      tame :=
        { guarded := by rwa [loop]
          held := fun t ht => by
            rw [loop]
            exact (h.held t (held t ht)).evolve same.evolves
          claimed := fun n hn => by
            rw [loop]
            rcases claims n hn with hn | rfl
            · exact Nat.lt_succ_of_lt (h.claimed n hn)
            · exact Nat.lt_succ_self _ }
      bridge := bridge }

/-- Somebody waits for something of a worker with a new ticket. -/
theorem deals_ask (h : Tame spared (claims s) s) (w : Nat) (p : Pipes)
    (readers : p.readers = (s.pipesOf w).readers)
    (asked : ∀ n ∈ waiters p, n ∈ waiters (s.pipesOf w) ∨ n = s.loop.nextTicket) :
    Deals spared A (claims s) (claims (({ s with loop := s.loop.newTicket.1 }).setPipes w p)) s
      (({ s with loop := s.loop.newTicket.1 }).setPipes w p) := by
  refine deals_claim h rfl rfl (fun t ht => held_setPipes readers ht) fun n hn => ?_
  rcases claims_setPipes hn with hn | hn
  · exact .inl hn
  · exact (asked n hn).imp_left claims_of_waiters

/-! ## Effects of the bridge -/

/-- The answers that a list of effects gives, and the turns.  No other signals are raised by the
bridge. -/
def Raised (effects : List Bridge.Effect) : Signal → Prop
  | .answer id => ∃ answer, .settle id answer ∈ effects
  | .turn n => .grant n ∈ effects
  | .ended _ | .ticket _ | .joint _ | .outside _ => False

theorem Raised.mono {x : Bridge.Effect} {effects : List Bridge.Effect} {signal : Signal}
    (h : Raised [x] signal) (hx : x ∈ effects) : Raised effects signal := by
  cases signal with
  | answer id =>
    obtain ⟨answer, hmem⟩ := h
    exact ⟨answer, List.mem_singleton.mp hmem ▸ hx⟩
  | turn n =>
    have hmem : Bridge.Effect.grant n ∈ [x] := h
    obtain rfl := List.mem_singleton.mp hmem
    exact hx
  | ended | ticket | joint | outside => exact h

theorem endingOf_ne_cancelled (answer : Except BridgeFailure Json) :
    endingOf answer ≠ .cancelled := by
  cases answer <;> exact nofun

/-- An effect of the bridge, of which the answers and turns are known. -/
theorem deals_bridgeEffect (h : Tame spared C s) {x : Bridge.Effect}
    (raised : ∀ signal, Raised [x] signal → A signal) :
    Deals spared A C C s (Engine.carryOut s x) := by
  cases x with
  | settle id answer =>
    have may :
        Loop.MayRaise (custom spared) C A s.loop s.loop.nextTicket (.answer id) (endingOf answer) :=
      ⟨fun he => absurd he (endingOf_ne_cancelled answer),
        .inl (raised _ ⟨answer, List.mem_singleton_self _⟩)⟩
    exact .of_loop h (Loop.gentle_raise s.loop may (endingOf_ne_cancelled answer)).calm
  | grant n =>
    have may : Loop.MayRaise (custom spared) C A s.loop s.loop.nextTicket (.turn n)
        (.value .nothing : Ending Trouble Value) :=
      ⟨nofun, .inl (raised _ (List.mem_singleton_self _))⟩
    exact .of_loop h (Loop.gentle_raise s.loop may nofun).calm
  | startReaders w =>
    have out : Deals spared A C C s { s with loop := (s.loop.create (.readOutput w)).1 } :=
      .of_loop h (Loop.calm_create s.loop (not_firm id id _))
    have both := out.trans (.of_loop out.tame
      (Loop.calm_create (k := .readErrors w) (s.loop.create (.readOutput w)).1 (not_firm id id _)))
    refine both.trans (.of_same both.tame rfl rfl fun t ht => ?_)
    rcases ht with ⟨p, hp, ht⟩ | ht
    · rcases List.mem_append.mp hp with hp | hp
      · exact .inl (.inl ⟨p, hp, ht⟩)
      · rw [List.mem_singleton.mp hp] at ht
        have first : (s.loop.create (.readOutput w)).1.Exposed (custom spared) s.loop.nextTask :=
          exposed_create h.guarded.fresh (not_firm id id _)
        rcases List.mem_cons.mp ht with rfl | ht
        · exact .inr (first.evolve (Loop.evolves_create _ _))
        · rw [List.mem_singleton.mp ht]
          exact .inr (exposed_create out.tame.guarded.fresh (not_firm id id _))
    · exact .inl (.inr ht)
  | stopReaders w =>
    -- Readers are tasks that are no requests, so they may be cancelled one after the other.
    have held (t : Nat) (ht : t ∈ (s.pipesOf w).readers) : Held s t := by
      rcases mem_pipesOf s w with hmem | hempty
      · exact .inl ⟨_, hmem, ht⟩
      · rw [hempty] at ht
        cases ht
    have fold (readers : List Nat) (l : Loop Job Hook Trouble Value)
        (hl : Tame spared C { s with loop := l })
        (held : ∀ t ∈ readers, Held s t) : Deals spared A C C
          { s with loop := l } { s with loop := readers.foldl (fun l t => (l.cancel t).1) l } := by
      induction readers generalizing l with
      | nil => exact .of_loop hl (.refl l)
      | cons t rest ih =>
        have first := Deals.cancel (A := A) hl (hl.held t (held t List.mem_cons_self))
        exact first.trans (ih _ first.tame fun u hu => held u (List.mem_cons_of_mem t hu))
    exact fold _ s.loop h held
  | waits | ends | register | send | launched | terminate | kill | log =>
    exact .of_same h rfl rfl fun t ht => .inl ht

theorem claims_bridgeEffect {x : Bridge.Effect} {n : Nat} (h : claims (Engine.carryOut s x) n) :
    claims s n := by
  have machine := (aside_carryOut s x).machine
  have delays : (Engine.carryOut s x).delays = s.delays := by cases x <;> rfl
  rcases h with h | h | h
  · cases x with
    | startReaders w =>
      obtain ⟨p, hp, hn⟩ := h
      rcases List.mem_append.mp hp with hp | hp
      · exact .inl ⟨p, hp, hn⟩
      · rw [List.mem_singleton.mp hp] at hn
        rcases hn with hn | hn | hn <;> cases hn
    | waits | ends | register | settle | grant | send | launched | stopReaders | terminate | kill
    | log => exact .inl h
  · exact .inr (.inl (machine ▸ h))
  · exact .inr (.inr (delays ▸ h))

/-- What the bridge wants done is done.  Signals are raised only for what the effects name. -/
theorem deals_effects (h : Tame spared (claims s) s) {effects : List Bridge.Effect}
    (raised : ∀ signal, Raised effects signal → A signal) :
    Deals spared A (claims s) (claims (effects.foldl Engine.carryOut s)) s
      (effects.foldl Engine.carryOut s) := by
  have all : Deals spared A (claims s) (claims s) s (effects.foldl Engine.carryOut s) :=
    .foldl (fun u hu x hx => deals_bridgeEffect hu fun signal hsignal =>
      raised signal (hsignal.mono hx)) h
  have fewer (out : List Bridge.Effect) (u : State) (n : Nat)
      (hn : claims (out.foldl Engine.carryOut u) n) : claims u n := by
    induction out generalizing u with
    | nil => exact hn
    | cons x rest ih => exact claims_bridgeEffect (ih _ hn)
  exact all.drop (fewer effects s)

/-! ## Steps of the bridge -/

/-- A step of the bridge in which at most the thread `own` changes.  This is what is used of a step
here; how it follows from the machine is in `Proofs/Bridge/Asking.lean`. -/
structure Moves (own : Option Nat) (out : List Bridge.Effect) (b b' : Bridge.State) : Prop where
  inflight : b'.inflight = b.inflight
  nextId : b.nextId ≤ b'.nextId
  nextTicket : b.nextTicket ≤ b'.nextTicket
  numbered : b'.Numbered
  threads : ∀ u, own ≠ some u → Assoc.get? u b'.threads = Assoc.get? u b.threads
  fresh : ∀ id, Assoc.get? id b'.pending ≠ none → Assoc.get? id b.pending ≠ none ∨ b.nextId < id
  owned : (∀ id entry, Assoc.get? id b.pending = some entry → Owned b id entry) →
    ∀ id entry, Assoc.get? id b'.pending = some entry → Owned b' id entry
  settled : ∀ id answer, .settle id answer ∈ out → id ≤ b'.nextId ∧ Assoc.get? id b'.pending = none
  granted : ∀ n, .grant n ∈ out → n < b'.nextTicket

/-- What the requests share after a step of the bridge. -/
theorem Moves.shared {out : List Bridge.Effect} (m : Moves own out s.bridge s'.bridge)
    (h : Shared spared s)
    (same : SameFirm (custom spared) (Raised out) s.loop s'.loop)
    (tame : Tame spared (claims s') s')
    (fits : ∀ t thread, own = some t → Assoc.get? t s'.bridge.threads = some thread →
      Fits s'.loop t thread) :
    Shared spared s' where
  joined t key method params hjob := by
    rw [m.inflight]
    exact h.joined t key method params
      ((same.jobs t (.request key method params) (.inl trivial)).mp hjob)
  inFlight key t hkey := by
    rw [m.inflight] at hkey
    rcases h.inFlight key t hkey with ⟨method, params, hjob⟩ | ⟨e, he, done⟩
    · exact .inl
        ⟨method, params, (same.jobs t (.request key method params) (.inl trivial)).mpr hjob⟩
    · exact .inr ⟨e, same.stays _ e he, done⟩
  threads t thread ht := by
    by_cases hown : own = some t
    · exact fits t thread hown ht
    · rw [m.threads t hown] at ht
      have old := h.threads t thread ht
      exact
        { known := Nat.lt_of_lt_of_le old.known same.evolves.next
          proper := old.proper
          request := fun method params hjob =>
            (same.jobs t (.request _ method params) (.inl trivial)).mpr
              (old.request method params hjob) }
  pending := m.owned h.pending
  numbered := m.numbered
  answered id hid := by
    rcases same.answers id hid with old | ⟨answer, settled⟩
    · obtain ⟨hle, hnone⟩ := h.answered id old
      refine ⟨Nat.le_trans hle m.nextId, ?_⟩
      -- A number that is pending again would have been given anew, and then it is a later one.
      by_contra pending
      rcases m.fresh id pending with had | new
      · exact had hnone
      · exact absurd hle (Nat.not_le.mpr new)
    · exact m.settled id answer settled
  granted n hn := by
    rcases same.turns n hn with old | granted | ⟨t, ht⟩
    · exact Nat.lt_of_lt_of_le (h.granted n old) m.nextTicket
    · exact m.granted n granted
    · exact Nat.lt_of_lt_of_le (h.queued t n ht) m.nextTicket
  queued t n ht := by
    rcases same.waits t n ht with old | granted
    · exact Nat.lt_of_lt_of_le (h.queued t n old) m.nextTicket
    · exact m.granted n granted
  held := tame.held
  claimed := tame.claimed

/-- A step that has come to its last decision has left the threads alone. -/
theorem Moves.of_within {out : List Bridge.Effect} {b b' : Bridge.State}
    (w : Bridge.Within b none out b') (own : Option Nat) : Moves own out b b' where
  inflight := w.inflight
  nextId := w.nextId
  nextTicket := w.nextTicket
  numbered := w.after
  threads _ _ := by rw [w.threads]
  fresh id hid := by
    obtain ⟨entry, hentry⟩ := Option.ne_none_iff_exists'.mp hid
    exact .inl (by simp [(w.pending id entry hentry).resolve_right nofun])
  owned h id entry hentry := by
    obtain ⟨t, thread, params, hthread, owns⟩ :=
      h id entry ((w.pending id entry hentry).resolve_right nofun)
    exact ⟨t, thread, params, w.threads ▸ hthread, owns⟩
  settled id answer hmem := by
    obtain ⟨had, gone⟩ := w.settled id answer hmem
    exact ⟨Nat.le_trans (w.outset.pending id had) w.nextId, gone⟩
  granted := w.granted

/-- The thread whose step it is ends or waits, and keeps the request that it has.  No other thread
is changed. -/
theorem Moves.of_leaves {b : Bridge.State} {bjob : Bridge.Job} {limit : Nat} {may : Prop}
    {p : Bridge.State.Step} (leaves : Bridge.Leaves b t bjob limit may p)
    (kept : ∀ thread id, Assoc.get? t b.threads = some thread → thread.stage.request? = some id →
      thread.job = bjob) : Moves (some t) p.2 b p.1 := by
  -- What the state is like when the last decision is made, apart from the thread whose step it is.
  have moves {mine : Option (Nat × String)} {out : List Bridge.Effect} {u : Bridge.State}
    (last : Bridge.Effect)
      (threads : List (Nat × Bridge.Thread)) (w : Bridge.Within b mine out u)
      (silent : (∀ id answer, last ≠ .settle id answer) ∧ ∀ n, last ≠ .grant n)
      (others : ∀ v, v ≠ t → Assoc.get? v threads = Assoc.get? v u.threads)
      (owned : (∀ id entry, Assoc.get? id b.pending = some entry → Owned b id entry) →
        ∀ id entry, Assoc.get? id u.pending = some entry → Owned { u with threads } id entry) :
      Moves (some t) (out ++ [last]) b { u with threads } :=
    { inflight := w.inflight
      nextId := w.nextId
      nextTicket := w.nextTicket
      numbered := ⟨w.after.pending, fun g n hn => w.after.queues g n (by cases g <;> exact hn)⟩
      threads := fun v hv => by
        rw [others v fun he => hv (he ▸ rfl), w.threads]
      fresh := fun id hid => by
        obtain ⟨entry, hentry⟩ := Option.ne_none_iff_exists'.mp hid
        rcases w.pending id entry hentry with old | new
        · exact .inl (by simp [old])
        · exact .inr (w.numbered id _ new).1
      owned := owned
      settled := fun id answer hmem => by
        obtain ⟨had, gone⟩ := w.settled id answer
          ((List.mem_append.mp hmem).resolve_right fun hx =>
            silent.1 id answer (List.mem_singleton.mp hx).symm)
        exact ⟨Nat.le_trans (w.outset.pending id had) w.nextId, gone⟩
      granted := fun n hmem => w.granted n
        ((List.mem_append.mp hmem).resolve_right fun hx =>
          silent.2 n (List.mem_singleton.mp hx).symm) }
  -- A request that was open before has its thread still if that is not the one whose step it is.
  have stays {mine : Option (Nat × String)} {out : List Bridge.Effect} {u : Bridge.State}
      {threads : List (Nat × Bridge.Thread)} (w : Bridge.Within b mine out u)
      (others : ∀ v, v ≠ t → Assoc.get? v threads = Assoc.get? v u.threads) {id : Nat}
      {entry : Bridge.Pending} (free : mine ≠ none → Bridge.held b t none = none)
      (had : Owned b id entry) : Owned { u with threads } id entry ∨
        Bridge.held b t mine = some id ∧
        ∃ thread params, Assoc.get? t b.threads = some thread ∧ thread.stage.request? = some id ∧
          thread.job = .request entry.method params := by
    obtain ⟨v, thread, params, hthread, request, hjob⟩ := had
    by_cases hv : v = t
    · subst hv
      have held : Bridge.held b v none = some id := by
        rw [Bridge.held, hthread]
        exact request
      have none : mine = none := by
        by_contra new
        rw [free new] at held
        cases held
      subst none
      exact .inr ⟨held, thread, params, hthread, request, hjob⟩
    · refine .inl ⟨v, thread, params, ?_, request, hjob⟩
      rw [others v hv, w.threads, hthread]
  cases leaves with
  | @ends mine out u within free outcome closed asked cancelled =>
    have others (v : Nat) (hv : v ≠ t) : Assoc.get? v (Assoc.erase t u.threads) =
      Assoc.get? v u.threads :=
      Assoc.get?_erase_of_ne hv _
    refine moves _ _ within (by simp) others fun h id entry hentry => ?_
    rcases within.pending id entry hentry with old | new
    · rcases stays within others free (h id entry old) with owned | ⟨held, -⟩
      · exact owned
      · rw [closed id held] at hentry
        cases hentry
    · rw [closed id (by rw [Bridge.held, new]; rfl)] at hentry
      cases hentry
  | @waits mine out u within free thread on same proper fits turn request named rank =>
    have others (v : Nat) (hv : v ≠ t) : Assoc.get? v (Assoc.set t thread u.threads) =
      Assoc.get? v u.threads :=
      Assoc.get?_set_of_ne hv _ _
    refine moves _ _ within (by simp) others fun h id entry hentry => ?_
    rcases within.pending id entry hentry with old | new
    · rcases stays within others free
        (h id entry old) with owned | ⟨held, thread', params, hthread, asks, hjob⟩
      · exact owned
      · have hsame := kept thread' id hthread asks
        refine ⟨t, thread, params, Assoc.get?_set_self _ _ _, request.trans held, ?_⟩
        rcases same with same | ⟨other, -⟩
        · rw [same, ← hsame, hjob]
        · rw [← hsame, hjob] at other
          exact absurd trivial other
    · obtain ⟨params, hjob⟩ := named id entry.method new
      refine ⟨t, thread, params, Assoc.get?_set_self _ _ _, ?_, hjob⟩
      rw [request, Bridge.held, new]
      rfl

end Sharing

end PikeAnalysis.Engine
