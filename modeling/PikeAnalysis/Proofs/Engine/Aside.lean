import PikeAnalysis.Proofs.Concurrency.Discipline
import PikeAnalysis.Proofs.Engine.Makeup

/-!
# What the engine does aside

Asking the worker, reading what it prints and waiting for it leave documents alone: they change
neither what is scheduled nor what is stored of a document or published.  `Aside` says so of a
change of the state, and every routine of the engine that only asks makes no other changes.

Most of what the engine does is of no account to documents, and every invariant about documents
would have to say so of the same routines again.  So it is said once, with the relation between the
states before and after as specific as it can be (`Apart`), and a contract that allows such changes
(`Obliging`) is kept by all of these routines without further proof.  What is left for each
invariant are the few changes that do matter.
-/

namespace PikeAnalysis.Engine

open PikeAnalysis.Concurrency

instance : LawfulLoop State where
  loop_withLoop _ _ := rfl

/-- Jobs that are about the worker: requests, and the reading of its streams. -/
def Job.IsAside : Job → Prop
  | .request .. | .readOutput _ | .readErrors _ => True
  | _ => False

/-- A change that leaves documents alone, and begins only tasks of a kind.  The kind says which
tasks may begin; everything else about documents is the same. -/
structure Apart (kind : Job → Prop) (s s' : State) : Prop where
  machine : s'.scheduler.machine = s.scheduler.machine
  documents : s'.stores.documents = s.stores.documents
  programs : s'.stores.programs = s.stores.programs
  closings : s'.stores.closings = s.stores.closings
  completed : s'.stores.completed = s.stores.completed
  published : s'.published = s.published
  loop : Loop.Gains kind s.loop s'.loop

/-- A change that leaves documents alone, and begins no tasks but those that are about the
worker. -/
abbrev Aside : State → State → Prop :=
  Apart Job.IsAside

variable {s s' s'' : State} {kind : Job → Prop}

namespace Apart

theorem refl (s : State) : Apart kind s s :=
  ⟨rfl, rfl, rfl, rfl, rfl, rfl, .refl _⟩

theorem trans (h : Apart kind s s') (k : Apart kind s' s'') : Apart kind s s'' :=
  ⟨k.machine.trans h.machine, k.documents.trans h.documents, k.programs.trans h.programs,
    k.closings.trans h.closings, k.completed.trans h.completed, k.published.trans h.published,
    h.loop.trans k.loop⟩

end Apart

theorem apart_gains {l : Loop Job Hook Trouble Value} (h : Loop.Gains kind s.loop l) :
    Apart kind s { s with loop := l } :=
  ⟨rfl, rfl, rfl, rfl, rfl, rfl, h⟩

theorem apart_loop {l : Loop Job Hook Trouble Value} (h : Loop.SameJobs s.loop l) :
    Apart kind s { s with loop := l } :=
  apart_gains h.gains

/-- Changes that are made in turn leave documents alone if each of them does. -/
theorem apart_foldl {α : Type} {f : State → α → State} (h : ∀ s a, Apart kind s (f s a))
    (xs : List α) (s : State) : Apart kind s (xs.foldl f s) := by
  induction xs generalizing s with
  | nil => exact .refl s
  | cons a rest ih => exact (h s a).trans (ih (f s a))

/-! ## The worker's streams -/

theorem aside_wake (s : State) (tickets : List Nat) : Aside s (s.wake tickets) := by
  refine apart_loop ?_
  have hfold : ∀ l : Loop Job Hook Trouble Value, Loop.SameJobs s.loop l →
      Loop.SameJobs s.loop
        (tickets.foldl (fun l n => l.raise (.ticket n) (.value .nothing)) l) := by
    induction tickets with
    | nil => exact fun l hl => hl
    | cons n rest ih => exact fun l hl => ih _ (hl.raise _ _)
  exact hfold _ (.refl _)

theorem aside_setPipes (s : State) (w : Nat) (p : Pipes) : Aside s (s.setPipes w p) :=
  ⟨rfl, rfl, rfl, rfl, rfl, rfl, .refl _⟩

theorem aside_feedOutput (s : State) (w : Nat) (lines : List String) (ended : Bool) :
    Aside s (s.feedOutput w lines ended) :=
  (aside_setPipes s w _).trans (aside_wake _ _)

theorem aside_feedErrors (s : State) (w : Nat) (lines : List String) (ended : Bool) :
    Aside s (s.feedErrors w lines ended) :=
  (aside_setPipes s w _).trans (aside_wake _ _)

/-! ## The bridge -/

theorem aside_startReaders (s : State) (w : Nat) : Aside s (startReaders s w) := by
  have hout : Loop.Gains Job.IsAside s.loop (s.loop.create (.readOutput w)).1 :=
    Loop.gains_create _ trivial
  have herr : Loop.Gains Job.IsAside s.loop
      ((s.loop.create (.readOutput w)).1.create (.readErrors w)).1 :=
    hout.trans (Loop.gains_create _ trivial)
  exact ⟨rfl, rfl, rfl, rfl, rfl, rfl, herr⟩

theorem aside_cancelAll (s : State) (tasks : List Nat) :
    Aside s { s with loop := tasks.foldl (fun l t => (l.cancel t).1) s.loop } := by
  refine apart_loop ?_
  have hfold : ∀ l : Loop Job Hook Trouble Value, Loop.SameJobs s.loop l →
      Loop.SameJobs s.loop (tasks.foldl (fun l t => (l.cancel t).1) l) := by
    induction tasks with
    | nil => exact fun l hl => hl
    | cons t rest ih => exact fun l hl => ih _ (hl.cancel t)
  exact hfold _ (.refl _)

theorem aside_carryOut (s : State) (x : Bridge.Effect) : Aside s (carryOut s x) := by
  cases x with
  | waits | ends | register => exact .refl s
  | settle | grant => exact apart_loop (Loop.SameJobs.raise (.refl _) _ _)
  | startReaders w => exact aside_startReaders s w
  | stopReaders w => exact aside_cancelAll s _
  | send | launched | terminate | kill | log => exact ⟨rfl, rfl, rfl, rfl, rfl, rfl, .refl _⟩

theorem aside_bridgeStep (e : Bridge.Event) (s : State) : Aside s (bridgeStep e s).1 := by
  have hbridge : Aside s { s with bridge := (s.bridge.step (outside s) e).1 } :=
    ⟨rfl, rfl, rfl, rfl, rfl, rfl, .refl _⟩
  exact hbridge.trans (apart_foldl aside_carryOut _ _)

theorem aside_tellBridge (e : Bridge.Event) (s : State) : Aside s (tellBridge e s) :=
  aside_bridgeStep e s

theorem aside_workerExited (s : State) (w : Nat) (code : Int) (quiet : Bool) :
    Aside s (s.workerExited w code quiet) := by
  have htold := aside_tellBridge (.exited w code) s
  have hfed : Aside s (if quiet then tellBridge (.exited w code) s
      else ((tellBridge (.exited w code) s).feedOutput w [] true).feedErrors w [] true) := by
    split
    · exact htold
    · exact htold.trans ((aside_feedOutput _ w [] true).trans (aside_feedErrors _ w [] true))
  exact hfed.trans ((aside_setPipes _ w _).trans (aside_wake _ _))

theorem aside_joinRequest (method : String) (params : List (String × Json)) (s : State) :
    Aside s (joinRequest method params s).1 := by
  unfold joinRequest
  dsimp only
  split
  · exact .refl s
  · refine (apart_gains ?_).trans (aside_tellBridge (.join _ _) _)
    exact (Loop.gains_create _ trivial).trans (Loop.SameJobs.follow (.refl _) _ _).gains

/-! ## Contracts -/

/-- A contract that allows whatever is done aside.  It must also not ask for more at waits than that
others have done what they may. -/
structure Obliging (c : Contract State Job) : Prop where
  waits : ∀ signal, c.waits signal
  aside : ∀ s s', c.pause s → Aside s s' → c.step s s' ∧ c.pause s'
  renews : ∀ job, job.IsAside → c.renews job

variable {c : Contract State Job} {α : Type}

theorem Obliging.easy (h : Obliging c) : c.Easy :=
  ⟨h.waits, fun s _ hs same _ => h.aside s _ hs (apart_loop same)⟩

theorem abides_aside (h : Obliging c) {f : State → State × α} (aside : ∀ s, Aside s (f s).1) :
    (Routine.act f : Act α).Abides c :=
  Routine.abides_act fun s hs => h.aside s _ hs (aside s)

theorem abides_modify_aside (h : Obliging c) {f : State → State} (aside : ∀ s, Aside s (f s)) :
    (Routine.modify f : Act Unit).Abides c :=
  Routine.abides_modify fun s hs => h.aside s _ hs (aside s)

open Routine

/-! ## Threads of the bridge -/

theorem abides_awaitExit (h : Obliging c) (w : Nat) : (awaitExit w).Abides c := by
  unfold awaitExit
  refine (abides_aside h fun s => ?_).bind fun ticket => ?_
  · dsimp only
    split
    · exact .refl s
    · refine Apart.trans ?_ (aside_setPipes _ w _)
      exact apart_loop (sameJobs_newTicket _)
  · cases ticket with
    | none => exact abides_done ()
    | some n => exact (abides_await h.easy _).andThen fun _ => abides_done ()

theorem aside_delay (s : State) : Aside s (delay s).1 := by
  have drawn : Aside s { s with loop := s.loop.newTicket.1 } :=
    apart_loop (sameJobs_newTicket s.loop)
  exact drawn.trans ⟨rfl, rfl, rfl, rfl, rfl, rfl, .refl _⟩

theorem abides_waitFor (h : Obliging c) (on : Bridge.Wait) : (waitFor on).Abides c := by
  cases on with
  | turn n | answer n => exact abides_wait (h.waits _) fun _ => abides_done _
  | launch | pipe w =>
    exact (abides_aside h aside_delay).bind fun n => abides_wait (h.waits _) fun _ => abides_done _
  | readers w =>
    refine (abides_read _).bind fun readers => ?_
    refine (abides_awaitAll h.easy _).onEnd fun ending => ?_
    cases ending <;> exact abides_done _
  | exit w graced =>
    refine (abides_read _).bind fun grace => ?_
    refine Abides.onEnd ?_ fun ending => ?_
    · split
      · exact abides_within h.easy grace .timedOut (abides_awaitExit h w)
      · exact abides_awaitExit h w
    · cases ending <;> exact abides_done _

/-- What a thread does that is over. -/
theorem abides_ends (h : Obliging c) (t fuel : Nat) (outcome : Bridge.Outcome) :
    (runThread t fuel (some (.ends outcome))).Abides c := by
  cases outcome with
  | finished =>
    rw [runThread]
    exact abides_done _
  | failed why | unwritten id why =>
    rw [runThread]
    exact abides_fail _
  | cancelled =>
    rw [runThread]
    exact abides_cancelled
  | answered id =>
    rw [runThread]
    refine abides_wait (h.waits _) fun ending => ?_
    rcases ending with (_ | _) | e | _ <;>
      first | exact abides_done _ | exact abides_fail _ | exact abides_cancelled

theorem abides_runThread (h : Obliging c) (t fuel : Nat) (next : Option Next) :
    (runThread t fuel next).Abides c := by
  induction fuel generalizing next with
  | zero =>
    rcases next with _ | (on | outcome)
    · rw [runThread]
      exact abides_done _
    · rw [runThread]
      exact abides_fail _
    · exact abides_ends h t 0 outcome
  | succ fuel ih =>
    rcases next with _ | (on | outcome)
    · rw [runThread]
      exact abides_done _
    · rw [runThread]
      refine (abides_waitFor h on).bind fun how => ?_
      exact (abides_aside h fun s => aside_bridgeStep _ s).bind fun next => ih next
    · exact abides_ends h t (fuel + 1) outcome

theorem abides_bridgeThread (h : Obliging c) (job : Bridge.Job) : (bridgeThread job).Abides c := by
  refine (abides_read _).bind fun t => ?_
  exact (abides_aside h fun s => aside_bridgeStep _ s).bind fun next => abides_runThread h t _ next

/-! ## Tasks about the worker -/

theorem abides_requestBody (h : Obliging c) (method : String) (params : List (String × Json)) :
    (requestBody method params).Abides c :=
  (abides_bridgeThread h _).bind fun _ => abides_done _

theorem aside_moreOf (ch : Channel) (l : Loop Job Hook Trouble Value) :
    Loop.SameJobs l (moreOf ch l).1 := by
  unfold moreOf
  split
  · exact .refl l
  · exact sameJobs_newTicket l

theorem abides_hearOutput (h : Obliging c) (w : Nat) (lines : List String) :
    (hearOutput w lines).Abides c := by
  induction lines with
  | nil => exact abides_done ()
  | cons line rest ih =>
    exact (abides_modify_aside h fun s => aside_tellBridge _ s).bind fun _ => ih

theorem abides_readOutput (h : Obliging c) (w : Nat) : (readOutput w).Abides c := by
  unfold readOutput
  refine (abides_aside h fun s => aside_setPipes s w _).bind fun lines => ?_
  refine (abides_hearOutput h w lines).bind fun _ =>
    (abides_aside h fun s => ?_).bind fun more => ?_
  · exact (apart_loop (aside_moreOf _ s.loop)).trans (aside_setPipes _ w _)
  · cases more with
    | some n => exact abides_renew (h.waits _) (h.renews _ trivial)
    | none =>
      refine (abides_awaitExit h w).bind fun _ => ?_
      exact (abides_modify_aside h fun s => aside_tellBridge _ s).bind fun _ => abides_done _

theorem abides_hearErrors (h : Obliging c) (w : Nat) (lines : List String) :
    (hearErrors w lines).Abides c := by
  induction lines with
  | nil => exact abides_done false
  | cons line rest ih =>
    refine (abides_modify_aside h fun s => aside_tellBridge _ s).bind fun _ => ?_
    split
    · exact abides_done true
    · exact ih

theorem abides_readErrors (h : Obliging c) (w : Nat) : (readErrors w).Abides c := by
  unfold readErrors
  refine (abides_aside h fun s => aside_setPipes s w _).bind fun lines => ?_
  refine (abides_hearErrors h w lines).bind fun fatal => ?_
  cases fatal with
  | true => exact abides_done _
  | false =>
    refine (abides_aside h fun s => ?_).bind fun more => ?_
    · exact (apart_loop (aside_moreOf _ s.loop)).trans (aside_setPipes _ w _)
    · cases more with
      | some n => exact abides_renew (h.waits _) (h.renews _ trivial)
      | none => exact abides_done _

/-- Whatever a job about the worker does is done aside.  This covers requests and both readers. -/
theorem abides_jobBody (h : Obliging c) {job : Job} (hjob : job.IsAside) :
    (jobBody job).Abides c := by
  cases job with
  | request key method params => exact abides_requestBody h method params
  | readOutput w => exact abides_readOutput h w
  | readErrors w => exact abides_readErrors h w
  | call | awaitValidation | awaitIdle | load | timer | run => exact hjob.elim

/-- The sink is waited for aside. -/
theorem abides_awaitSink (h : Obliging c) (sink : Sink) : (awaitSink sink).Abides c := by
  have told : (tell ⟨.error, "diagnostics_sink_failed"⟩).Abides c :=
    abides_modify_aside h fun s => ⟨rfl, rfl, rfl, rfl, rfl, rfl, .refl _⟩
  cases sink with
  | absent | accepts => exact abides_done ()
  | fails => exact told
  | slow =>
    refine (abides_aside h aside_delay).bind fun n => abides_wait (h.waits _) fun ending => ?_
    split
    · exact abides_cancelled
    · exact told
    · exact told
    · exact abides_done ()

/-! ## Tasks of the scheduler -/

/-- A timer does nothing but tell the scheduler that it has fired. -/
theorem abides_timerBody (h : Obliging c) {id : Nat}
    (fired : (Routine.modify fun s : State => Scheduler.tell s (.fired id) : Act Unit).Abides c) :
    (Scheduler.timerBody id : Act Unit).Abides c := by
  refine (abides_read _).bind fun quiet => (abides_sleep h.easy _).onEnd fun ending => ?_
  cases ending with
  | value _ => exact fired
  | error e => exact abides_fail e
  | cancelled => exact abides_done ()

/-- Who waits for a document leaves a ticket with its slot. -/
theorem abides_idle (h : Obliging c) (uri : String) {job : Job} {idle : Act Value}
    (renews : c.renews job) (goesOn : idle.Abides c)
    (left : ∀ slot, (Routine.act fun s : State => ({ s with
      loop := s.loop.newTicket.1
      scheduler := { s.scheduler with
        machine := s.scheduler.machine.awaitIdle slot s.loop.newTicket.2 } },
          some s.loop.newTicket.2) :
      Act (Option Nat)).Abides c) :
    ((Scheduler.busyTicket uri : Act (Option Nat)).andThen fun
      | none => idle
      | some n => .renew (.ticket n) job).Abides c := by
  have ticket : (Scheduler.busyTicket uri : Act (Option Nat)).Abides c := by
    refine (abides_read _).bind fun slot => ?_
    cases slot with
    | none => exact abides_done none
    | some slot => exact left slot
  refine ticket.bind fun n => ?_
  cases n with
  | none => exact goesOn
  | some n => exact abides_renew (h.waits _) renews

theorem abides_stopBody (h : Obliging c)
    (stopped : (Routine.act fun s : State => Scheduler.happen s .stop : Act (List Nat)).Abides c) :
    (Scheduler.stopBody : Act Unit).Abides c := by
  refine stopped.bind fun tasks => ?_
  induction tasks with
  | nil => exact abides_done ()
  | cons t rest ih =>
    refine abides_wait (h.waits _) fun ending => ?_
    cases ending with
    | error e => exact abides_fail e
    | value | cancelled => exact ih

/-- Whatever only asks the worker is done aside. -/
theorem Obliging.asks (h : Obliging c) : Asks fun r => r.Abides c where
  done := abides_done
  fail := abides_fail
  cancelled := abides_cancelled
  read := abides_read
  onEnd hr next := hr.onEnd next
  within d late _ hr := abides_within h.easy d late hr
  awaitTask := abides_awaitTask h.easy
  join method params := abides_aside h (aside_joinRequest method params)

end PikeAnalysis.Engine
