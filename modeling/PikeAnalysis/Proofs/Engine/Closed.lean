import PikeAnalysis.Proofs.Engine.Closing

/-!
# Closed documents stay closed

Documents are opened, edited, saved and closed, and the worker prints and exits, at any moment and
in any order with what the engine does by itself.  Once a document has been closed and no run of it
is left that has not begun, nothing is stored of it or published until it is registered again
(`closed_document_stays_closed`).  A run that has not begun makes the difference: it takes the
closing to be one before its time, and what it finds is stored and published
(`late_beginner_is_published`).

The discipline depends on how often the document has been closed: `n` is the closing after which
nothing is to be stored, and a state in which it has not come yet is in order whatever happens.  So
the number can be chosen when the course is known (`holds_of_leads`), and at the closing itself the
premise about runs comes in (`holds_of_closed`).

What is excluded is only a registration of the document, by which it is there again, and a run that
was created before the closing and begins after it.  The second is no weakness of the statement:
`late_beginner_is_published` is a course in which such a run publishes what it finds.
-/

namespace PikeAnalysis.Engine

open PikeAnalysis.Concurrency
open PikeAnalysis.Scheduler (Effect Event Inv Setting startedRuns)

/-! ## What happens from outside -/

/-- What happens to the engine from outside.  Documents are edited, the worker says something or
exits, and time passes; the rest are changes of the surroundings.  Any of these may happen at any
time, in any order, and between any two tasks. -/
inductive Happening where
  | opened (uri : String) (version : Int) (text : String)
  | changed (uri : String) (version : Int) (text : String)
  | saved (uri : String) (version : Option Int) (text : Option String)
  | closed (uri : String)
  | output (worker : Nat) (lines : List String) (ended : Bool)
  | errors (worker : Nat) (lines : List String) (ended : Bool)
  | exited (worker : Nat) (code : Int) (quiet : Bool)
  /-- What the engine wants of the outside has been passed on. -/
  | passedOn
  | surroundings (host : Host)
  /-- What becomes of published diagnostics from now on. -/
  | sinks (sink : Sink)
  /-- The outside has done what somebody waits for, or has failed to. -/
  | delayed (ticket : Nat) (well : Bool)
  | clock (t : Instant)

def happen : Happening → State → State
  | .opened uri version text, s => s.documentOpened uri version text
  | .changed uri version text, s => s.documentChanged uri version text
  | .saved uri version text, s => s.documentSaved uri version text
  | .closed uri, s => s.documentClosed uri
  | .output w lines ended, s => s.feedOutput w lines ended
  | .errors w lines ended, s => s.feedErrors w lines ended
  | .exited w code quiet, s => s.workerExited w code quiet
  | .passedOn, s => { s with orders := [] }
  | .surroundings host, s => { s with host }
  | .sinks sink, s => { s with sink }
  | .delayed n well, s => s.delayOver n well
  | .clock t, s => { s with loop := { s.loop with now := t } }

/-- Whether a document is registered that was not open. -/
def Happening.Registers (uri : String) : Happening → Prop
  | .opened u .. | .changed u .. => u = uri
  | .saved u version text => u = uri ∧ version ≠ none ∧ text ≠ none
  | _ => False

namespace Closing

variable {uri : String} {n : Nat} {s s' s'' : State} {t : Nat} {job : Job}

/-! ## The discipline -/

/-- What the tasks of the engine owe a document that has been closed `n` times.  It asks nothing as
long as there were fewer closings. -/
def discipline (uri : String) (n : Nat) : Discipline State Trouble Value Job Hook where
  inv := Sound uri n
  during _ _ := Sound uri n
  item i s := Shut uri n s → ∀ t, i = .start t → Spares uri t s
  held _ _ _ := True
  waits _ _ := True
  atEnd _ _ _ _ := True
  renews _ next := next.IsAside
  kept s s' := s'.stores.closingsOf uri = s.stores.closingsOf uri ∧
    (Shut uri n s → Unchanged uri s s')
  kept_refl s := ⟨rfl, fun _ => .refl s⟩
  kept_trans h k := ⟨k.1.trans h.1, fun hs => (h.2 hs).trans (k.2 (by rwa [Shut, h.1]))⟩

theorem Goes.carries (h : Goes uri n s s') (late : Shut uri n s' → Shut uri n s)
    (own : Option Nat) :
    (discipline uri n).Carries own s s' :=
  ⟨h.evolves, fun _ hi hs t ht => h.spares (late hs) t (hi (late hs) t ht),
    fun _ _ _ _ _ _ => trivial⟩

/-- A change that does not close the document.  The number of closings is what a run compares with
the number that it began with, so as long as it stays a run of the document is not void. -/
structure Leaves (uri : String) (n : Nat) (s s' : State) : Prop where
  goes : Goes uri n s s'
  closings : s'.stores.closingsOf uri = s.stores.closingsOf uri

theorem Leaves.late (h : Leaves uri n s s') (hs : Shut uri n s') : Shut uri n s := by
  rwa [Shut, ← h.closings]

theorem Leaves.trans (h : Leaves uri n s s') (k : Leaves uri n s' s'') : Leaves uri n s s'' :=
  ⟨h.goes.trans k.goes, k.closings.trans h.closings⟩

theorem Leaves.kept (h : Leaves uri n s s') : (discipline uri n).kept s s' :=
  ⟨h.closings, h.goes.unchanged⟩

theorem Leaves.steps (h : Leaves uri n s s') : (discipline uri n).Steps t job s s' :=
  ⟨h.goes.sound, h.goes.carries h.late _, h.kept⟩

theorem Leaves.passes (h : Leaves uri n s s') (own : Option Nat) :
    (discipline uri n).Passes own s s' :=
  ⟨h.goes.sound, h.goes.carries h.late own, h.kept⟩

theorem Sound.leaves_aside (h : Sound uri n s) (a : Aside s s') : Leaves uri n s s' :=
  ⟨h.aside a, closingsOf_apart a uri⟩

theorem Sound.leaves_loop (h : Sound uri n s) {l : Loop Job Hook Trouble Value}
    (same : Loop.SameJobs s.loop l) : Leaves uri n s { s with loop := l } :=
  h.leaves_aside (apart_loop same)

theorem Sound.leaves_finish (h : Sound uri n s) (t : Nat) (e : Ending Trouble Value) :
    Leaves uri n s { s with loop := s.loop.finish t e } :=
  h.leaves_aside (apart_gains (Loop.gains_finish s.loop t e))

/-- What a timer or a run tells the scheduler is about neither the registration nor the closing of a
document. -/
theorem Sound.leaves_tell (h : Sound uri n s) {e : Event} (he : e ≠ .stop)
    (quiet : ¬ e.Registers uri) (close : e ≠ .close uri) :
    Leaves uri n s (Scheduler.tell s e) := by
  have hclosings := closings_tell s he close
  refine ⟨h.tell he (fun _ => quiet) fun hs => ?_, hclosings⟩
  rwa [Shut, ← hclosings]

theorem Sound.leaves_commit (h : Sound uri n s) {d : Validation.Draft} (void : Void uri n d.target)
    (positions : PositionIndex) : Leaves uri n s (Engine.commit d positions s).1 :=
  ⟨h.commit void positions, Stores.closingsOf_congr (closings_commit d positions s) uri⟩

theorem Sound.leaves_hand (h : Sound uri n s) {other : String}
    (unshut : other = uri → ¬ Shut uri n s)
    (ds : List Diagnostic) : Leaves uri n s (Engine.hand other ds s).1 :=
  ⟨h.hand unshut ds, Stores.closingsOf_congr (by rw [(hand_eq other ds s).2.2]) uri⟩

/-! ## Turns -/

theorem obliging (t : Nat) (job : Job) : Obliging ((discipline uri n).contract t job) where
  waits _ := trivial
  aside s s' hs a := by
    have h := Sound.leaves_aside hs.1 a
    exact ⟨h.steps, h.goes.sound, trivial⟩
  renews _ hjob := hjob

theorem Leaves.allowed (h : Leaves uri n s s') (t : Nat) (job : Job) :
    ((discipline uri n).contract t job).step s s' ∧ ((discipline uri n).contract t job).pause s' :=
  ⟨h.steps, h.goes.sound, trivial⟩

open Routine

/-- Diagnostics are published in the turn in which they have been committed. -/
theorem keeps_publish (t : Nat) (job : Job) (h : Sound uri n s) {u : String}
    (unshut : u = uri → ¬ Shut uri n s) (ds : List Diagnostic) :
    (publish u ds).Keeps ((discipline uri n).contract t job)
      (fun _ => ((discipline uri n).contract t job).pause) s := by
  have handed := h.leaves_hand unshut ds
  exact keeps_act_andThen handed.steps
    (abides_awaitSink (obliging t job) _ _ ⟨handed.goes.sound, trivial⟩)

/-- A validation is respectful if it is not of the document or begins before the document is
shut. -/
theorem keeps_validateVersion (t : Nat) (job : Job) (h : Sound uri n s) {u : String}
    (clear : Shut uri n s → u ≠ uri) (version : Int) (text : String) :
    (validateVersion u version text).Keeps ((discipline uri n).contract t job)
      (fun _ => ((discipline uri n).contract t job).pause) s := by
  -- If it is the document, it was not shut at the start, and a closing since then is noticed at the
  -- final check.
  have void : Void uri n (Validation.start s.stores u version text) :=
    fun hu => Nat.lt_of_not_le fun hle => clear (hu ▸ hle) hu
  unfold validateVersion
  refine keeps_read_andThen ?_
  refine (((obliging t job).asks.analyze _).bind fun analysis => ?_) s ⟨h, trivial⟩
  cases analysis with
  | error miss =>
    refine (abides_modify_aside (obliging t job) fun s => ?_).bind fun _ => abides_done _
    obtain ⟨hdocuments, hprograms, hclosings⟩ := Validation.missed_eq s.stores miss
    exact ⟨rfl, hdocuments, hprograms, hclosings, Validation.completed_missed _ _, rfl, .refl _⟩
  | ok analysis =>
    intro v hv
    have hdraft : Aside v { v with stores := (Validation.draft v.stores v.settings.maxProblems
        (Validation.start s.stores u version text) analysis).1 } :=
      ⟨rfl, rfl, rfl, rfl, rfl, rfl, .refl _⟩
    obtain ⟨hstep, hpause⟩ := (obliging t job).aside v _ hv hdraft
    refine keeps_act_andThen hstep ?_
    refine (((obliging t job).asks.buildPositions _ _ _ _).bind fun positions w hw => ?_) _ hpause
    generalize hd : (Validation.draft v.stores v.settings.maxProblems
      (Validation.start s.stores u version text) analysis).2 = d
    have void : Void uri n d.target := hd ▸ void
    have committed := hw.1.leaves_commit void positions
    refine keeps_act_andThen committed.steps ?_
    cases hstored : (Engine.commit d positions w).2 with
    | none => exact ⟨committed.goes.sound, trivial⟩
    | some diagnostics =>
      have unshut (hu : u = uri) : ¬ Shut uri n (Engine.commit d positions w).1 :=
        not_shut_of_commit void hstored (hd ▸ hu)
      have published := keeps_publish t job committed.goes.sound unshut diagnostics
      refine published.andThen (fun _ x hx => ?_) (fun _ _ hx => hx) fun _ hx => hx
      have completed : Leaves uri n x { x with stores := Validation.complete x.stores } :=
        ⟨hx.1.complete, rfl⟩
      exact ⟨completed.steps, completed.goes.sound, trivial⟩

theorem keeps_validateRun (t : Nat) (job : Job) (h : Sound uri n s) {run : Scheduler.Run}
    (clear : Shut uri n s → run.uri ≠ uri) :
    (validateRun run).Keeps ((discipline uri n).contract t job)
      (fun _ => ((discipline uri n).contract t job).pause) s := by
  refine (keeps_validateVersion t job h clear run.version run.text).onEnd fun ending v hv => ?_
  cases ending with
  | value _ => exact hv
  | error _ =>
    have htold : Aside v (v.note [⟨.error, "validation_run_failed"⟩]) :=
      ⟨rfl, rfl, rfl, rfl, rfl, rfl, .refl _⟩
    exact (obliging t job).aside v _ hv htold
  | cancelled => exact hv

theorem Sound.leaves_ended (h : Sound uri n s) (r : Nat) :
    Leaves uri n s (Scheduler.forgetTimers (Scheduler.tell s (.ended r))) := by
  have htold := h.leaves_tell (e := .ended r) nofun nofun nofun
  have hforgot : Aside (Scheduler.tell s (.ended r))
      (Scheduler.forgetTimers (Scheduler.tell s (.ended r))) :=
    ⟨rfl, rfl, rfl, rfl, rfl, rfl, .refl _⟩
  exact htold.trans (htold.goes.sound.leaves_aside hforgot)

theorem keeps_runBody (t : Nat) (job : Job) (h : Sound uri n s) (r : Nat)
    (clear : Shut uri n s → Clear uri r s) :
    (Scheduler.runBody validateRun r : Act Unit).Keeps ((discipline uri n).contract t job)
      (fun _ => ((discipline uri n).contract t job).pause) s := by
  unfold Scheduler.runBody
  refine keeps_read_andThen ?_
  cases hrun : Assoc.get? r (Scheduler.machineIn s).runs with
  | none => exact ⟨h, trivial⟩
  | some run =>
    have hrest := keeps_validateRun t job h fun hs => clear hs run hrun
    exact hrest.always (fun _ v hv => (hv.1.leaves_ended r).steps)
      fun _ v hv => ⟨(hv.1.leaves_ended r).goes.sound, trivial⟩

theorem Sound.leaves_turn (h : Sound uri n s) (t : Nat) : Leaves uri n s (Machine.turnOf t s) :=
  h.leaves_loop ⟨fun _ => rfl, rfl, fun _ hi => hi⟩

/-- Whatever a task does that begins is respectful.  A run has to be clear of the document if that
is shut; of other jobs nothing is asked. -/
theorem keeps_body (h : Sound uri n s) (hjob : job.OfDocuments)
    (clear : Shut uri n s → ∀ r, job = .run r → Clear uri r s) :
    (jobBody job).Keeps ((discipline uri n).contract t job) ((discipline uri n).post t job) s := by
  cases job with
  | timer id =>
    have fired : (Routine.modify fun s : State => Scheduler.tell s (.fired id) : Act Unit).Abides
        ((discipline uri n).contract t (.timer id)) := abides_modify fun s hs =>
      (Sound.leaves_tell (e := .fired id) hs.1 nofun nofun nofun).allowed t (.timer id)
    exact ((abides_timerBody (obliging t _) fired).andThen fun _ => abides_done _) s ⟨h, trivial⟩
  | run r =>
    have hrun := keeps_runBody t (.run r) h r fun hs => clear hs r rfl
    exact hrun.andThen (fun _ _ hv => hv) (fun _ _ hv => hv) fun _ hv => hv
  | request key method params =>
    exact abides_requestBody (obliging t _) method params s ⟨h, trivial⟩
  | readOutput w => exact abides_readOutput (obliging t _) w s ⟨h, trivial⟩
  | readErrors w => exact abides_readErrors (obliging t _) w s ⟨h, trivial⟩
  | call | awaitValidation | awaitIdle | load => exact hjob.elim

/-! ## Happenings -/

/-- What may happen in which state: the document is not closed the time that shuts it, and not
registered once it is shut. -/
def Proper (uri : String) (n : Nat) (o : Happening) (s : State) : Prop :=
  Shut uri n (happen o s) → Shut uri n s ∧ ¬ o.Registers uri

theorem closings_happen (s : State) {o : Happening} (ho : o ≠ .closed uri) :
    (happen o s).stores.closingsOf uri = s.stores.closingsOf uri := by
  cases o with
  | opened u version text => exact closings_tell { s with stores := s.stores.opened u } nofun nofun
  | changed u version text => exact closings_tell s nofun nofun
  | saved u version text => exact closings_tell s nofun nofun
  | closed u =>
    exact closings_tell s nofun fun hu => ho (congrArg Happening.closed (Event.close.inj hu))
  | output w lines ended => exact closingsOf_apart (aside_feedOutput s w lines ended) uri
  | errors w lines ended => exact closingsOf_apart (aside_feedErrors s w lines ended) uri
  | exited w code quiet => exact closingsOf_apart (aside_workerExited s w code quiet) uri
  | delayed m well =>
    dsimp only [happen, State.delayOver]
    split <;> rfl
  | passedOn | surroundings | sinks | clock => rfl

theorem closings_le_happen (uri : String) (s : State) (o : Happening) :
    s.stores.closingsOf uri ≤ (happen o s).stores.closingsOf uri := by
  by_cases ho : o = .closed uri
  · rw [ho]
    exact Nat.le_of_lt (closings_lt_tell s uri)
  · exact Nat.le_of_eq (closings_happen s ho).symm

theorem goes_opened (h : Sound uri n s) (u : String) (clear : Shut uri n s → u ≠ uri) :
    Goes uri n s { s with stores := s.stores.opened u } := by
  refine h.still rfl rfl rfl fun hs => ⟨id, .inl ?_, rfl⟩
  exact TypeDatabase.get?_reopen_of_ne _ (Ne.symm (clear hs))

theorem goes_happen (h : Sound uri n s) {o : Happening} (proper : Proper uri n o s) :
    Goes uri n s (happen o s) := by
  have late : Shut uri n (happen o s) → Shut uri n s := fun hs => (proper hs).1
  have unregistered : Shut uri n s → ¬ o.Registers uri :=
    fun hs => (proper (Nat.le_trans hs (closings_le_happen uri s o))).2
  cases o with
  | opened u version text =>
    have hopened := goes_opened h u unregistered
    exact hopened.trans (hopened.sound.tell nofun unregistered late)
  | changed u version text => exact h.tell nofun unregistered late
  | saved u version text => exact h.tell nofun unregistered late
  | closed u => exact h.tell nofun (fun _ => nofun) late
  | output w lines ended => exact h.aside (aside_feedOutput s w lines ended)
  | errors w lines ended => exact h.aside (aside_feedErrors s w lines ended)
  | exited w code quiet => exact h.aside (aside_workerExited s w code quiet)
  | passedOn | surroundings | sinks => exact h.aside ⟨rfl, rfl, rfl, rfl, rfl, rfl, .refl _⟩
  | delayed m well =>
    dsimp only [happen, State.delayOver]
    split
    · have raised : Loop.SameJobs s.loop (s.loop.raise (.outside m) (.value (.taken well))) :=
        .raise (.refl _) _ _
      exact h.aside ⟨rfl, rfl, rfl, rfl, rfl, rfl, raised.gains⟩
    · exact .refl h
  | clock t => exact h.aside (apart_loop ⟨fun _ => rfl, rfl, fun _ hi => hi⟩)

/-- Whatever is ready, and whatever may happen from outside, the discipline is kept. -/
theorem lawful (uri : String) (n : Nat) :
    (discipline uri n).Lawful rules happen (Proper uri n) where
  begins {s t st} h hitem hst _ := by
    have hturn := Sound.leaves_turn h t
    have hjob := Loop.jobOf_of_task? hst
    refine ⟨hturn.steps, keeps_body hturn.goes.sound (h.jobs t _ hjob) fun hs r hr => ?_⟩
    exact hitem (hturn.late hs) t rfl r (hr ▸ hjob)
  skips h _ _ _ := (Sound.leaves_finish h _ _).passes none
  resumes {s t st} h hst _ := by
    have hjob : s.loop.jobOf t = some st.job := Loop.jobOf_of_task? hst
    have same : Loop.SameJobs s.loop
        (s.loop.setTask t { st with waiting := none, mustCancel := false }) :=
          .setTask (.refl _) hjob
    have hset := Sound.leaves_loop h same
    have hturn := hset.goes.sound.leaves_turn t
    exact ⟨hset.steps.trans hturn.steps, trivial⟩
  renews e h _ hnext := by
    cases e with
    | value _ => exact abides_jobBody (obliging _ _) hnext _ ⟨h, trivial⟩
    | error | cancelled => exact ⟨h, trivial⟩
  ends {s t job e} h _ := by
    obtain ⟨e', he'⟩ := Loop.conclude_eq_finish s.loop t e
    have hend := (Sound.leaves_finish h t e').passes (some t)
    rwa [← he'] at hend
  suspends h _ _ := ⟨(Sound.leaves_loop h (Loop.sameJobs_suspend _ _ _)).passes _, trivial⟩
  fires h _ := (Sound.leaves_loop h (Loop.sameJobs_fireTimer _ _ _)).passes none
  relays h _ := (Sound.leaves_loop h (Loop.SameJobs.raise (.refl _) _ _)).passes none
  counts h _ := (Sound.leaves_loop h (Loop.sameTasks_countPart _ _ _).sameJobs).passes none
  hooks {s hook signal} h _ := by
    cases hook with
    | forgetRequest key task =>
      have haside : Aside s (rules.hook (.forgetRequest key task) s) :=
        aside_tellBridge (.forget key task) s
      exact (Sound.leaves_aside h haside).passes none
    | endLoading path =>
      have haside : Aside s (rules.hook (.endLoading path) s) :=
        ⟨rfl, rfl, rfl, rfl, rfl, rfl, .refl _⟩
      exact (Sound.leaves_aside h haside).passes none
    | runOver r =>
      have hdropped := Sound.leaves_tell h (e := .dropped r) nofun nofun nofun
      have hforgot : Aside (Scheduler.tell s (.dropped r)) (rules.hook (.runOver r) s) :=
        ⟨rfl, rfl, rfl, rfl, rfl, rfl, .refl _⟩
      exact (hdropped.trans (hdropped.goes.sound.leaves_aside hforgot)).passes none
  dues h := (Sound.leaves_loop h (Moment.sameTasks_due _).sameJobs).passes none
  ready h hi hs t ht := Sound.starts h hs t (ht ▸ hi)
  empties {s} h := by
    have same : Loop.SameJobs s.loop { s.loop with ready := [] } :=
      ⟨fun _ => rfl, rfl, fun _ hi => absurd hi List.not_mem_nil⟩
    exact (Sound.leaves_loop h same).passes none
  happens h proper := by
    have hgoes := goes_happen h proper
    exact ⟨hgoes.sound, hgoes.carries (fun hs => (proper hs).1) none⟩

end Closing

/-! ## Courses -/

/-- An engine before anything happens.  Every course of the engine starts here. -/
def opening (settings : Config.Settings) (typedbBudget stdlibBudget : Int)
    (host : Host) (sink : Sink) :
    Moment State Trouble Value Job Hook :=
  { machine := { state := State.initial settings typedbBudget stdlibBudget host sink } }

/-- There is a run of a document whose task has not begun.  Such a run would read the count of
closings only when it begins. -/
def Unbegun (uri : String) (c : Moment State Trouble Value Job Hook) : Prop :=
  ∃ t r run, .start t ∈ c.items ∧ c.state.loop.jobOf t = some (.run r) ∧
    Assoc.get? r c.state.scheduler.machine.runs = some run ∧ run.uri = uri

variable {settings : Config.Settings} {typedbBudget stdlibBudget : Int} {host : Host} {sink : Sink}
  {before after : List Happening} {c d : Moment State Trouble Value Job Hook} {uri : String}

namespace Closing

theorem sound_opening (uri : String) (n : Nat) :
    (discipline uri n).Holds (opening settings typedbBudget stdlibBudget host sink) where
  inv :=
    { fresh := nofun, machine := .start _, jobs := nofun, closed := fun _ => rfl, starts := nofun }
  fresh := nofun
  queue := nofun
  waiting := nofun

/-- As long as the document has not been closed `n` times, nothing has to be asked of what
happens. -/
theorem holds_of_leads
    (course : Leads rules happen (opening settings typedbBudget stdlibBudget host sink) before c)
    {n : Nat} (hn : c.state.stores.closingsOf uri < n) : (discipline uri n).Holds c := by
  -- The number is general, since a turn is judged by the count of closings that it begins with.
  induction course generalizing n with
  | refl => exact sound_opening uri n
  | @happens os d _ o ih =>
    have hle := closings_le_happen uri d.state o
    have hd := ih (Nat.lt_of_le_of_lt hle hn)
    have proper : Proper uri n o d.state := fun hs => absurd hs (Nat.not_le.mpr hn)
    obtain ⟨hinv, carries⟩ := (lawful uri n).happens hd.inv proper
    exact hd.change (m := d.machine) hinv carries
  | gathers _ ih => exact ((lawful uri n).gather (ih hn)).holds
  | @runs os m item earlier later _ ih =>
    obtain ⟨hrest, hitem⟩ := (ih (Nat.lt_succ_self _)).others
    have hkept := ((lawful uri _).run hrest hitem).kept
    have hn' : m.state.stores.closingsOf uri < n := by
      rw [← hkept.1]
      exact hn
    obtain ⟨hrest', hitem'⟩ := (ih hn').others
    exact ((lawful uri n).run hrest' hitem').holds

/-- When the document has been closed and all its runs have begun, all that is left is
respectful. -/
theorem holds_of_closed
    (course : Leads rules happen (opening settings typedbBudget stdlibBudget host sink) before c)
    (begun : ¬ Unbegun uri (c.happen happen (.closed uri))) :
    (discipline uri ((c.happen happen (.closed uri)).state.stores.closingsOf uri)).Holds
      (c.happen happen (.closed uri)) := by
  have hlt : c.state.stores.closingsOf uri <
      (c.happen happen (.closed uri)).state.stores.closingsOf uri := closings_lt_tell c.state uri
  have hc := holds_of_leads course hlt
  have hnext :
      (discipline uri ((c.happen happen (.closed uri)).state.stores.closingsOf uri + 1)).Holds
      (c.happen happen (.closed uri)) := holds_of_leads (course.happens _) (Nat.lt_succ_self _)
  have hspares : ∀ t, .start t ∈ (c.happen happen (.closed uri)).items →
      Spares uri t (c.happen happen (.closed uri)).state :=
    fun t ht r hr run hrun huri => begun ⟨t, r, run, ht, hr, hrun, huri⟩
  have proper : Proper uri ((c.happen happen (.closed uri)).state.stores.closingsOf uri + 1)
      (.closed uri) c.state := fun hs => absurd hs (Nat.not_succ_le_self _)
  have hgoes := goes_happen (holds_of_leads course (Nat.lt_succ_of_lt hlt)).inv proper
  exact
    { inv :=
        { hnext.inv with
          closed := fun _ => hc.inv.content_closed
          starts := fun _ t ht => hspares t (List.mem_append_right _ ht) }
      fresh := hnext.fresh
      queue := fun i hi _ t ht => hspares t (List.mem_append_left _ (ht ▸ hi))
      waiting := hc.waiting.evolve hgoes.evolves fun _ _ _ _ _ _ => trivial }

end Closing

/-- A closed document stays closed.  When a document has been closed and the tasks of all its runs
have begun, then until something registers it again, whatever else happens and in whatever order the
engine does what is ready, the cache holds no entry for it, its program is not replaced, and nothing
more is published of it.  Nothing is assumed of the sink, of the worker, or of what else is open. -/
theorem closed_document_stays_closed
    (course : Leads rules happen (opening settings typedbBudget stdlibBudget host sink) before c)
    (begun : ¬ Unbegun uri (c.happen happen (.closed uri)))
    (later : Leads rules happen (c.happen happen (.closed uri)) after d)
    (unregistered : ∀ o ∈ after, ¬ o.Registers uri) :
    d.state.stores.documents.get? uri = none ∧
    (d.state.stores.programs.get? uri =
        (c.happen happen (.closed uri)).state.stores.programs.get? uri ∨
      d.state.stores.programs.get? uri = none) ∧
    d.state.publishedOf uri = (c.happen happen (.closed uri)).state.publishedOf uri := by
  have hstart := Closing.holds_of_closed course begun
  obtain ⟨-, -, hunchanged⟩ := (Closing.lawful uri _).leads
    (p := fun _ s => Closing.Shut uri _ s ∧
      Closing.Unchanged uri (c.happen happen (.closed uri)).state s)
    (q := fun o => ¬ o.Registers uri)
    (fun _ s s' ⟨hshut, hun⟩ hkept => ⟨by rwa [Closing.Shut, hkept.1], hun.trans (hkept.2 hshut)⟩)
    (fun _ s o hinv ho ⟨hshut, hun⟩ => by
      have proper : Closing.Proper uri _ o s := fun _ => ⟨hshut, ho⟩
      have hgoes := Closing.goes_happen hinv proper
      exact ⟨proper, hgoes.shut hshut, hun.trans (hgoes.unchanged hshut)⟩)
    hstart ⟨Nat.le_refl _, .refl _⟩ later unregistered
  exact ⟨hunchanged.documents (Closing.documents_tell_close c.state uri), hunchanged.programs,
    hunchanged.published⟩

/-- A host with the worker's executable.  Nothing else is in its file tree, so the worker can be
started and nothing can be read. -/
def desk : Host :=
  { surroundings :=
      { tree := ({ cwd := Path.ofText "/desk" } : FileTree).put "bin/pike" ⟨[], true⟩
        home := "/desk" } }

/-- A document has been opened, and its analysis has been asked for. -/
def analysing : Moment State Trouble Value Job Hook :=
  { machine := ((opening {} 1000 1000 desk .accepts).happen happen
      (.opened "file:///a.pike" 1 "int x;")).machine.settle rules 20 }

/-- The answer to a document that has been closed meanwhile comes to nothing. -/
theorem late_answer_is_discarded :
    let m := ((analysing.happen happen (.closed "file:///a.pike")).happen happen
      (.output 0 ["\x7b\"id\": 1, \"result\": \x7b\x7d\x7d"] false)).machine.settle rules 20
    m.state.stores.documents.get? "file:///a.pike" = none ∧
      m.state.publishedOf "file:///a.pike" = [] := by
  have course : Leads rules happen (opening {} 1000 1000 desk .accepts)
      [.opened "file:///a.pike" 1 "int x;"] analysing := Leads.settle (Leads.refl.happens _) 20
  have begun : ¬ Unbegun "file:///a.pike" (analysing.happen happen (.closed "file:///a.pike")) := by
    rintro ⟨t, r, run, hstart, -⟩
    have hnone : ((analysing.happen happen (.closed "file:///a.pike")).items.all fun
        | .start _ => false
        | _ => true) = true := by decide +kernel
    exact absurd (List.all_eq_true.mp hnone _ hstart) Bool.false_ne_true
  have answered : Leads rules happen (analysing.happen happen (.closed "file:///a.pike")) _ _ :=
    Leads.refl.happens (.output 0 ["\x7b\"id\": 1, \"result\": \x7b\x7d\x7d"] false)
  obtain ⟨hnone, -, hpublished⟩ :=
    closed_document_stays_closed course begun (answered.settle 20) (by simp [Happening.Registers])
  refine ⟨hnone, hpublished.trans ?_⟩
  decide +kernel

/-- A validation that begins when its document has been closed is held back by nothing: unless the
document is closed once more or known again by then, what it finds is stored, and handed to the
sink. -/
theorem late_beginner_is_published {s s' : State} {d : Validation.Draft}
    {version : Int} {text : String} (begun : d.target = Validation.start s.stores uri version text)
    (since : s'.stores.closingsOf uri = s.stores.closingsOf uri)
    (absent : s'.stores.documents.get? uri = none) (heard : s'.sink ≠ .absent)
    (positions : PositionIndex) :
    (commit d positions s').2 = some d.diagnostics ∧
    (commit d positions s').1.stores.documents.get? uri = some (d.entry positions) ∧
    (hand uri d.diagnostics (commit d positions s').1).1.publishedOf uri =
      s'.publishedOf uri ++ [(uri, d.diagnostics)] := by
  have huri : d.target.uri = uri := by rw [begun]; rfl
  have hclosings : s'.stores.closingsOf d.target.uri = d.target.closings := by
    rw [huri, since, begun]
    rfl
  have hstale : s'.stores.documents.isStale (d.entry positions) = false := by
    have hnone : s'.stores.documents.get? (d.entry positions).uri = none := by
      rw [← huri] at absent
      exact absent
    rw [DocumentCache.isStale, hnone]
  obtain ⟨stores, log, hstored⟩ := Validation.commit_stored_iff.mpr ⟨hclosings, hstale⟩
  have hself := Validation.commit_self hstored
  rw [huri] at hself
  rw [commit, hstored]
  exact ⟨rfl, hself, Closing.publishedOf_hand_self
    (s := { s' with stores }.note log) heard uri d.diagnostics⟩

end PikeAnalysis.Engine
