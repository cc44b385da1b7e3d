import PikeAnalysis.Proofs.Engine.InFlight
import PikeAnalysis.Proofs.Scheduler.Informed

/-!
# Where cached diagnostics come from

Documents are opened, edited, saved and closed, the engine is called for validations and checks, and
the worker may fail at any moment.  Whatever of this happens, and in whatever order the engine does
what is ready: an entry of the document cache is of a version and a text that the engine was told
together, and its diagnostics are those that an analysis of that text comes to
(`grounded_of_leads`).  `Sound` says so of the cache, and of all that an entry may yet come of: what
the scheduler takes documents to hold, its runs, and the tasks.

An analysis has to be of the text that the entry names, and the version of the entry has to be that
with which the text came.  Both are lost easily: by a run that takes the version from one edit and
the text from another, or by an entry that is stored after the document has moved on.  So the
invariant follows what was told to wherever it is kept: into the slots of the scheduler, into the
run that is started, and into the draft.

Nothing is said about how recent an entry is.  That entries do not go back in version is the subject
of `Proofs/Validation`.
-/

namespace PikeAnalysis.Engine

open PikeAnalysis.Concurrency
open PikeAnalysis.Scheduler (Effect Event Informed)

/-! ## What is told -/

/-- What a happening tells the scheduler.  What does not concern documents tells it nothing. -/
def Happening.event? : Happening → Option Event
  | .opened uri version text => some (.opened uri version text)
  | .changed uri version text => some (.change uri version text)
  | .saved uri version text => some (.save uri version text)
  | .closed uri => some (.close uri)
  | _ => none

/-- Whether what an occurrence says of documents is within a relation. -/
def Occurrence.Within (told : String → Int → String → Prop) : Occurrence → Prop
  | .happens o => ∀ e ∈ o.event?, e.Within told
  | .calls c => c.Within told
  | .cancels _ => True

/-- Jobs that begin while the engine goes on by itself say nothing of documents. -/
theorem Job.IsAside.within {told : String → Int → String → Prop} {job : Job} (h : job.IsAside) :
    job.Within told := by
  cases job with
  | request | readOutput | readErrors => trivial
  | call | awaitValidation | awaitIdle | load | timer | run => exact h.elim

namespace Provenance

variable (told : String → Int → String → Prop)

/-- An entry of what the engine was told, with what an analysis of its text comes to.  That the
analysis was of this text is what ties the diagnostics to it. -/
structure Grounded (e : DocumentEntry) : Prop where
  told : told e.uri e.version e.text
  analysed : ∃ analysis limit, e.diagnostics = Diagnostic.collect analysis e.text.toList e.uri limit

/-- What holds between any two changes of the state.  What the scheduler holds of a document is in
it, as runs are started from that. -/
structure Sound (s : State) : Prop where
  scheduler : Informed told s.scheduler.machine
  entries : ∀ uri, ∀ e ∈ s.stores.documents.get? uri, e.uri = uri ∧ Grounded told e
  jobs : ∀ t job, s.loop.jobOf t = some job → job.Within told

/-- What a change respects.  It is asked of every change in a turn: afterwards all that is held of
documents is as it was told, and the loop has only gone on. -/
structure Goes (s s' : State) : Prop where
  sound : Sound told s'
  evolves : Loop.Evolves s.loop s'.loop

variable {told} {s s' s'' : State} {t : Nat} {job : Job}

theorem Goes.refl (h : Sound told s) : Goes told s s :=
  ⟨h, .refl _⟩

theorem Goes.trans (h : Goes told s s') (k : Goes told s' s'') : Goes told s s'' :=
  ⟨k.sound, h.evolves.trans k.evolves⟩

/-! ## What is done apart -/

theorem Sound.apart {kind : Job → Prop} (h : Sound told s) (a : Apart kind s s')
    (within : ∀ job, kind job → job.Within told) : Goes told s s' where
  sound :=
    { scheduler := by rw [a.machine]; exact h.scheduler
      entries := by rw [a.documents]; exact h.entries
      jobs := fun t job hj => (a.loop.jobs t job hj).elim (h.jobs t job) (within job) }
  evolves := a.loop.evolves

theorem Sound.aside (h : Sound told s) (a : Aside s s') : Goes told s s' :=
  h.apart a fun _ hj => hj.within

theorem Sound.loop (h : Sound told s) {l : Loop Job Hook Trouble Value}
    (same : Loop.SameJobs s.loop l) :
    Goes told s { s with loop := l } :=
  h.aside (apart_loop same)

theorem Sound.finish (h : Sound told s) (t : Nat) (e : Ending Trouble Value) :
    Goes told s { s with loop := s.loop.finish t e } :=
  h.aside (apart_gains (Loop.gains_finish s.loop t e))

/-- A task of a job begins. -/
theorem Sound.create (h : Sound told s) {k : Job} (within : k.Within told) :
    Goes told s { s with loop := (s.loop.create k).1 } := by
  have gains : Loop.Gains (· = k) s.loop (s.loop.create k).1 := Loop.gains_create _ rfl
  exact h.apart (apart_gains gains) fun _ hj => hj ▸ within

theorem Sound.elsewhere (h : Sound told s) (e : Elsewhere s s') : Goes told s s' where
  sound :=
    { scheduler := by rw [e.scheduler]; exact h.scheduler
      entries := by rw [e.stores]; exact h.entries
      jobs := by rw [e.loop]; exact h.jobs }
  evolves := by rw [e.loop]; exact .refl _

/-! ## The scheduler -/

/-- The closing of a document drops its entry and says nothing of others. -/
theorem Sound.close (h : Sound told s) (uri : String) :
    Goes told s (Scheduler.carryOut s (.closed uri)) := by
  refine ⟨{ h with entries := fun u e he => h.entries u e ?_ }, .refl _⟩
  have found : (s.stores.documents.delete uri).1.get? u = some e := he
  rw [DocumentCache.get?_delete] at found
  split at found
  · cases found
  · exact found

theorem Sound.carryOut (h : Sound told s) (x : Effect) : Goes told s (Scheduler.carryOut s x) := by
  by_cases hx : ∀ u, x ≠ .closed u
  · refine h.apart (Closing.apart_carryOut s hx) fun job hj => ?_
    cases x with
    | armTimer | startRun =>
      obtain rfl : job = _ := hj
      trivial
    | cancelTimer | cancelRun | wake | closed => exact hj.elim
  · obtain ⟨u, rfl⟩ := not_forall_not.mp hx
    exact h.close u

theorem Sound.carryOutAll (out : List Effect) (h : Sound told s) :
    Goes told s (out.foldl Scheduler.carryOut s) := by
  induction out generalizing s with
  | nil => exact .refl h
  | cons x rest ih => exact (h.carryOut x).trans (ih (h.carryOut x).sound)

theorem Sound.tell (h : Sound told s) {e : Event} (within : e.Within told) :
    Goes told s (Scheduler.tell s e) := by
  have decided : Goes told s (Closing.decided s e) :=
    ⟨{ h with scheduler := h.scheduler.step within }, .refl _⟩
  exact decided.trans (decided.sound.carryOutAll _)

theorem Sound.ended (h : Sound told s) (run : Nat) :
    Goes told s (Scheduler.forgetTimers (Scheduler.tell s (.ended run))) := by
  have told := h.tell (e := .ended run) (Event.within_of_quiet fun _ _ _ hc => hc)
  exact told.trans (told.sound.aside ⟨rfl, rfl, rfl, rfl, rfl, rfl, .refl _⟩)

/-! ## Drafts -/

/-- What a validation drafts of an analysis is grounded if it was told what it validates. -/
theorem grounded_draft {uri : String} {version : Int} {text : String} (h : told uri version text)
    (began now : Stores) (limit : Int) (analysis : Wire.Analysis) (positions : PositionIndex) :
    Grounded told ((Validation.draft now limit (Validation.start began uri version text)
      analysis).2.entry positions) :=
  ⟨h, analysis, limit, rfl⟩

theorem Sound.commit (h : Sound told s) {d : Validation.Draft} {positions : PositionIndex}
    (grounded : Grounded told (d.entry positions)) : Goes told s (commit d positions s).1 := by
  unfold Engine.commit
  split
  · exact .refl h
  · next stores log stored =>
    refine ⟨{ h with entries := fun uri e he => ?_ }, .refl _⟩
    -- The entry of the draft is the only one that is not as before.
    have he : stores.documents.get? uri = some e := he
    by_cases same : uri = d.target.uri
    · subst same
      obtain rfl := Option.some.inj ((Validation.commit_self stored).symm.trans he)
      exact ⟨rfl, grounded⟩
    · rw [(Validation.commit_of_ne same stored).1] at he
      exact h.entries uri e he

theorem Sound.complete (h : Sound told s) :
    Goes told s { s with stores := Validation.complete s.stores } :=
  ⟨{ h with }, .refl _⟩

/-- Diagnostics that are published change nothing of the cache. -/
theorem Sound.hand (h : Sound told s) (uri : String) (ds : List Diagnostic) :
    Goes told s (hand uri ds s).1 := by
  unfold Engine.hand
  dsimp only
  split <;> exact h.elsewhere ⟨rfl, rfl, rfl, rfl, rfl, rfl⟩

/-! ## The discipline -/

/-- What tasks owe one another: to keep what is sound so, and to go on only as what was told. -/
def discipline (told : String → Int → String → Prop) : Discipline State Trouble Value Job Hook where
  inv := Sound told
  during _ _ := Sound told
  item _ _ := True
  held _ _ _ := True
  waits _ _ := True
  atEnd _ _ _ _ := True
  renews _ next := next.Within told
  kept _ _ := True
  kept_refl _ := trivial
  kept_trans _ _ := trivial

theorem Goes.carries (h : Goes told s s') (own : Option Nat) : (discipline told).Carries own s s' :=
  ⟨h.evolves, fun _ _ => trivial, fun _ _ _ _ _ _ => trivial⟩

theorem Goes.steps (h : Goes told s s') : (discipline told).Steps t job s s' :=
  ⟨h.sound, h.carries _, trivial⟩

theorem Goes.passes (h : Goes told s s') (own : Option Nat) : (discipline told).Passes own s s' :=
  ⟨h.sound, h.carries own, trivial⟩

theorem Goes.allowed (h : Goes told s s') (t : Nat) (job : Job) :
    ((discipline told).contract t job).step s s' ∧ ((discipline told).contract t job).pause s' :=
  ⟨h.steps, h.sound, trivial⟩

theorem obliging (t : Nat) (job : Job) : Obliging ((discipline told).contract t job) where
  waits _ := trivial
  aside _ _ hs a := (Sound.aside hs.1 a).allowed t job
  renews _ hjob := hjob.within

open Routine

variable {α : Type}

theorem abides_goes {f : State → State × α} (goes : ∀ s, Sound told s → Goes told s (f s).1) :
    (Routine.act f : Act α).Abides ((discipline told).contract t job) :=
  abides_act fun s hs => (goes s hs.1).allowed t job

theorem abides_modify_goes {f : State → State} (goes : ∀ s, Sound told s → Goes told s (f s)) :
    (Routine.modify f : Act Unit).Abides ((discipline told).contract t job) :=
  abides_modify fun s hs => (goes s hs.1).allowed t job

/-! ## Validations -/

/-- A validation of what was told stores only what is grounded. -/
theorem abides_validateVersion {uri : String} {version : Int} {text : String}
    (h : told uri version text) :
    (validateVersion uri version text).Abides ((discipline told).contract t job) := by
  intro s hs
  unfold validateVersion
  refine keeps_read_andThen ?_
  refine (((obliging t job).asks.analyze _).bind fun analysis => ?_) s hs
  cases analysis with
  | error miss =>
    refine (abides_modify_goes fun v hv => ?_).bind fun _ => abides_done _
    obtain ⟨documents, -, -⟩ := Validation.missed_eq v.stores miss
    exact ⟨{ hv with entries := by dsimp only; rw [State.note, documents]; exact hv.entries },
      .refl _⟩
  | ok analysis =>
    intro v hv
    have drafted : Goes told v { v with stores := (Validation.draft v.stores v.settings.maxProblems
        (Validation.start s.stores uri version text) analysis).1 } := ⟨{ hv.1 with }, .refl _⟩
    refine keeps_act_andThen drafted.steps ?_
    refine (((obliging t job).asks.buildPositions _ _ _ _).bind fun positions => ?_) _
      ⟨drafted.sound, trivial⟩
    refine (abides_goes fun w hw => hw.commit (grounded_draft h _ _ _ _ positions)).bind
      fun stored => ?_
    cases stored with
    | none => exact abides_done none
    | some diagnostics =>
      refine ((abides_goes fun w hw => hw.hand _ _).bind fun sink =>
        abides_awaitSink (obliging t job) sink).bind fun _ => ?_
      exact (abides_modify_goes fun _ hw => hw.complete).bind fun _ => abides_done _

theorem abides_runBody (id : Nat) :
    (Scheduler.runBody validateRun id : Act Unit).Abides ((discipline told).contract t job) := by
  intro s hs
  unfold Scheduler.runBody
  refine keeps_read_andThen ?_
  cases hrun : Assoc.get? id (Scheduler.machineIn s).runs with
  | none => exact hs
  | some run =>
    have known : told run.uri run.version run.text := hs.1.scheduler.runs _ (Assoc.mem_of_get? hrun)
    have validated : (validateRun run).Abides ((discipline told).contract t job) := by
      refine (abides_validateVersion known).onEnd fun ending => ?_
      cases ending with
      | value _ => exact abides_done ()
      | error _ => exact abides_modify_goes fun v hv => hv.elsewhere ⟨rfl, rfl, rfl, rfl, rfl, rfl⟩
      | cancelled => exact abides_cancelled
    exact (validated.onEnd fun ending => (abides_modify_goes fun v hv => hv.ended id).andThen
      fun _ =>
      abides_ofEnding ending) s hs

/-! ## All tasks -/

theorem Sound.findModule (h : Sound told s) (path : String) :
    Goes told s (findModule path s).1 := by
  have asked : Goes told s { s with stdlib := (s.stdlib.ask s.now s.bridge.generation path).1 } :=
    h.elsewhere ⟨rfl, rfl, rfl, rfl, rfl, rfl⟩
  unfold Engine.findModule
  dsimp only
  split
  · exact asked
  · exact asked
  · exact asked
  · have created := asked.trans (asked.sound.create (k := .load path) trivial)
    have followed := created.trans (created.sound.loop (.follow (.refl _) (.ended s.loop.nextTask)
      (.hook (.endLoading path))))
    exact followed.trans (followed.sound.elsewhere ⟨rfl, rfl, rfl, rfl, rfl, rfl⟩)

theorem Sound.awaitIdle (h : Sound told s) (slot : Nat) : Goes told s { s with
    loop := s.loop.newTicket.1
    scheduler := { s.scheduler with
      machine := s.scheduler.machine.awaitIdle slot s.loop.newTicket.2 } } where
  sound := { h with scheduler := h.scheduler.awaitIdle slot _ }
  evolves := (sameJobs_newTicket s.loop).evolves

/-- Whatever a task does, requests aside, keeps what is sound so. -/
theorem conducts (t : Nat) (job : Job) :
    Conducts told fun r => r.Abides ((discipline told).contract t job) where
  toAsks := (obliging t job).asks
  elsewhere same := abides_goes fun s hs => hs.elsewhere (same s)
  find path := abides_goes fun _ hs => hs.findModule path
  begin within := abides_goes fun _ hs => hs.create within
  validate h := abides_validateVersion h
  save h := abides_modify_goes fun _ hs => hs.tell (Event.within_save h)
  run := abides_runBody
  timer _ := abides_timerBody (obliging t job) <| abides_modify_goes fun _ hs =>
    hs.tell (Event.within_of_quiet fun _ _ _ hc => hc)
  idle uri {next _} awaits goesOn := by
    have within : next.Within told := by
      cases next with
      | awaitValidation | awaitIdle => trivial
      | call | request | load | readOutput | readErrors | timer | run => exact awaits.elim
    exact abides_idle (obliging t job) uri within goesOn fun slot =>
      abides_goes fun _ hs => hs.awaitIdle slot
  stopping := abides_stopBody (obliging t job) <| abides_goes fun _ hs =>
    hs.tell (Event.within_of_quiet fun _ _ _ hc => hc)
  thread _ := abides_bridgeThread (obliging t job) _
  output := abides_readOutput (obliging t job)
  errors := abides_readErrors (obliging t job)

theorem keeps_body {next : Job} (h : Sound told s) (within : next.Within told) :
    (jobBody next).Keeps ((discipline told).contract t job) ((discipline told).post t job) s := by
  have abides : (jobBody next).Abides ((discipline told).contract t job) := by
    by_cases request : next.IsRequest
    · cases next with
      | request key method params => exact abides_requestBody (obliging t job) method params
      | call | awaitValidation | awaitIdle | load | readOutput | readErrors | timer | run =>
        exact request.elim
    · exact (conducts t job).jobBody request within
  exact abides s ⟨h, trivial⟩

/-! ## Courses -/

theorem Sound.happen (h : Sound told s) {o : Happening} (within : ∀ e ∈ o.event?, e.Within told) :
    Goes told s (happen o s) := by
  cases o with
  | opened uri version text =>
    have reopened : Goes told s { s with stores := s.stores.opened uri } := ⟨{ h with }, .refl _⟩
    exact reopened.trans (reopened.sound.tell (within _ rfl))
  | changed | saved | closed => exact h.tell (within _ rfl)
  | output w lines ended => exact h.aside (aside_feedOutput s w lines ended)
  | errors w lines ended => exact h.aside (aside_feedErrors s w lines ended)
  | exited w code quiet => exact h.aside (aside_workerExited s w code quiet)
  | passedOn | surroundings | sinks => exact h.elsewhere ⟨rfl, rfl, rfl, rfl, rfl, rfl⟩
  | delayed n well =>
    unfold Engine.happen State.delayOver
    dsimp only
    split
    · have raised : Loop.SameJobs s.loop (s.loop.raise (.outside n) (.value (.taken well))) :=
        .raise (.refl _) _ _
      exact h.aside ⟨rfl, rfl, rfl, rfl, rfl, rfl, raised.gains⟩
    · exact .refl h
  | clock now => exact h.loop ⟨fun _ => rfl, rfl, fun _ hi => hi⟩

theorem Sound.befall (h : Sound told s) {o : Occurrence} (within : o.Within told) :
    Goes told s (Sharing.befall o s) := by
  cases o with
  | happens o => exact h.happen within
  | calls c => exact h.create within
  | cancels task =>
    have cancelled : Goes told s { s with loop := (s.loop.cancel task).1 } :=
      h.loop (.cancel (.refl _) task)
    unfold Sharing.befall
    dsimp only
    split
    · exact .refl h
    · exact cancelled

theorem Sound.turnOf (h : Sound told s) (t : Nat) : Goes told s (Machine.turnOf t s) :=
  h.loop ⟨fun _ => rfl, rfl, fun _ hi => hi⟩

/-- Whatever is ready, and whatever is told from outside, the discipline is kept. -/
theorem lawful (told : String → Int → String → Prop) :
    (discipline told).Lawful rules Sharing.befall fun o _ => o.Within told where
  begins {s t st} h _ hst _ := by
    have hturn := Sound.turnOf h t
    exact ⟨hturn.steps, keeps_body hturn.sound (h.jobs t _ (Loop.jobOf_of_task? hst))⟩
  skips h _ _ _ := (Sound.finish h _ _).passes none
  resumes {s t st} h hst _ := by
    have hjob : s.loop.jobOf t = some st.job := Loop.jobOf_of_task? hst
    have same : Loop.SameJobs s.loop
        (s.loop.setTask t { st with waiting := none, mustCancel := false }) :=
          .setTask (.refl _) hjob
    have hset := Sound.loop h same
    exact ⟨(hset.trans (hset.sound.turnOf t)).steps, trivial⟩
  renews e h _ hnext := by
    cases e with
    | value _ => exact keeps_body h hnext
    | error | cancelled => exact ⟨h, trivial⟩
  ends {s t job e} h _ := by
    obtain ⟨e', he'⟩ := Loop.conclude_eq_finish s.loop t e
    have hend := (Sound.finish h t e').passes (some t)
    rwa [← he'] at hend
  suspends h _ _ := ⟨(Sound.loop h (Loop.sameJobs_suspend _ _ _)).passes _, trivial⟩
  fires h _ := (Sound.loop h (Loop.sameJobs_fireTimer _ _ _)).passes none
  relays h _ := (Sound.loop h (Loop.SameJobs.raise (.refl _) _ _)).passes none
  counts h _ := (Sound.loop h (Loop.sameTasks_countPart _ _ _).sameJobs).passes none
  hooks {s hook signal} h _ := by
    cases hook with
    | forgetRequest key task =>
      have haside : Aside s (rules.hook (.forgetRequest key task) s) :=
        aside_tellBridge (.forget key task) s
      exact (Sound.aside h haside).passes none
    | endLoading path =>
      have same : Elsewhere s (rules.hook (.endLoading path) s) := ⟨rfl, rfl, rfl, rfl, rfl, rfl⟩
      exact (Sound.elsewhere h same).passes none
    | runOver r =>
      have dropped := Sound.tell h (e := .dropped r) (Event.within_of_quiet fun _ _ _ hc => hc)
      have forgot : Aside (Scheduler.tell s (.dropped r)) (rules.hook (.runOver r) s) :=
        ⟨rfl, rfl, rfl, rfl, rfl, rfl, .refl _⟩
      exact (dropped.trans (dropped.sound.aside forgot)).passes none
  dues h := (Sound.loop h (Moment.sameTasks_due _).sameJobs).passes none
  ready _ _ := trivial
  empties {s} h := by
    have same : Loop.SameJobs s.loop { s.loop with ready := [] } :=
      ⟨fun _ => rfl, rfl, fun _ hi => absurd hi List.not_mem_nil⟩
    exact (Sound.loop h same).passes none
  happens h within := ⟨(Sound.befall h within).sound, (Sound.befall h within).carries none⟩

variable {settings : Config.Settings} {typedbBudget stdlibBudget : Int} {host : Host} {sink : Sink}

theorem holds_opening :
    (discipline told).Holds (opening settings typedbBudget stdlibBudget host sink) where
  inv := { scheduler := .start _, entries := nofun, jobs := nofun }
  fresh := nofun
  queue := nofun
  waiting := nofun

end Provenance

end PikeAnalysis.Engine
