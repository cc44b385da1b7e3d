import Mathlib
import PikeAnalysis.Proofs.Simulation.Prospects
import PikeAnalysis.Proofs.Simulation.Turns
import PikeAnalysis.Proofs.Simulation.Turning

/-!
# The tracks of the documents in a rehearsal

How long a validation takes, and whether it fails, may depend only on what is validated
(`Outcomes`), or each validation takes the next of some behaviours.  Either is a `Choice`, and
nothing else matters about it here.

What a rehearsal then does is laid out by document: each document that waits or has a run has one
task, and how far that task has come says when the document moves on (`Tied`).  `Holds` is what is
known of a rehearsal between two things that it does, with a track for each document.  An edit moves
the track of its document and no other (`Holds.tell`).

`Holds` is the invariant that carries the whole development.  It joins four things, each with its
own account in the modules before: the scheduler's own invariant, the books of the loop, the agenda
of the tasks, and the tracks of the documents.  What ties them is `Tied`: a document that waits or
has a run has one task, the agenda says how far that task has come, and this is the stage in the
document's track.

A change that is about one document is dealt with by saying what happens to its own task and track;
that all the others stay as they are follows from tasks belonging to one document only
(`For.unique`, `Holds.alone`).  An edit is taken apart in this way as well: the scheduler gives up
what the document had under way, decides, and begins what is to follow (`Holds.giveUp`,
`Holds.decide`, `Holds.begun`).
-/

namespace PikeAnalysis.Scheduler

namespace Doc

variable {α β : Type}

/-- The document with something else for its timer or run.  Its phase, version and text stay. -/
def map (f : α → β) : Doc α → Doc β
  | .absent => .absent
  | .resting version text => .resting version text
  | .waiting version text x => .waiting version text (f x)
  | .running version text subject sequel x => .running version text subject sequel (f x)

/-- How many tasks a document still begins by itself.  One that waits begins a run, and one whose
run is followed by a wait begins a timer and then a run. -/
def credit : Doc α → Nat
  | .waiting .. | .running _ _ _ .again _ => 1
  | .running _ _ _ .wait _ => 2
  | _ => 0

theorem credit_le (d : Doc α) : d.credit ≤ 2 := by
  cases d with
  | running _ _ _ sequel => cases sequel <;> exact Nat.le_of_ble_eq_true rfl
  | absent | resting | waiting => exact Nat.le_of_ble_eq_true rfl

/-- What is validated of a document, if anything is. -/
def subject? : Doc α → Option (Int × String)
  | .running _ _ subject _ _ => some subject
  | _ => none

@[simp] theorem subject?_map (f : α → β) (d : Doc α) : (d.map f).subject? = d.subject? := by
  cases d <;> rfl

@[simp] theorem phase_map (f : α → β) (d : Doc α) : (d.map f).phase = d.phase := by
  cases d <;> rfl

@[simp] theorem stage?_map (f : α → β) (d : Doc α) : (d.map f).stage? = d.stage?.map f := by
  cases d <;> rfl

end Doc

end PikeAnalysis.Scheduler

namespace PikeAnalysis.Simulation.Scheduling

open PikeAnalysis.Concurrency
open PikeAnalysis.Scheduler (Doc Effect Event Inv Setting Shows Does Elsewhere Run Sequel)
open Function (update)

/-! ## Validations with given outcomes -/

/-- How validations turn out, by document, version and text.  With these the outcome does not depend
on which validation comes first. -/
abbrev Outcomes := String → Int → String → Behaviour

/-- What is taken down at the end of a validation. -/
def finishing (run : Run) (b : Behaviour) (s : State) : State :=
  let s := s.note (.ended s.loop.now run.uri run.version)
  if b.fails then s.note (.told ⟨.error, "validation_run_failed"⟩) else s

/-- A validation that has begun and turns out in a given way. -/
def perform (run : Run) (b : Behaviour) : Act Unit := do
  match b.length with
  | some d => Routine.sleep d
  | none => pure ()
  Routine.modify (finishing run b)

/-- A validation that turns out as what is validated says. -/
def validateAs (outcome : Outcomes) (run : Run) : Act Unit := do
  Routine.modify fun (s : State) => s.note (.started s.loop.now run.uri run.version run.text)
  perform run (outcome run.uri run.version run.text)

def bodyAs (outcome : Outcomes) : Job → Act Unit
  | .run id => Scheduler.runBody (validateAs outcome) id
  | job => body job

/-- The rules of a rehearsal with given outcomes.  Rehearsals with a list of behaviours are compared
with these. -/
def rulesAs (outcome : Outcomes) : Rules State Unit Unit Job Nat :=
  { rules with body := bodyAs outcome }

/-! ## Where behaviours come from -/

/-- How a validation is made to turn out, and the behaviours that are then left for later ones.  The
list of behaviours may be ignored, or what is validated may be. -/
abbrev Choice := List Behaviour → String → Int → String → List Behaviour × Behaviour

/-- Each validation takes the next behaviour.  The order in which documents are validated then
decides who gets which. -/
def taking : Choice := fun behaviours _ _ _ => (behaviours.tail, behaviours.headD {})

/-- What is validated says how it turns out.  Nothing is taken, so no document can take anything
from another. -/
def given (outcome : Outcomes) : Choice := fun behaviours uri version text =>
  (behaviours, outcome uri version text)

/-- A state in which a validation has begun. -/
def started (choice : Choice) (run : Run) (s : State) : State :=
  { s with behaviours := (choice s.behaviours run.uri run.version run.text).1 }.note
    (.started s.loop.now run.uri run.version run.text)

/-- How a validation that begins turns out. -/
def behaves (choice : Choice) (run : Run) (s : State) : Behaviour :=
  (choice s.behaviours run.uri run.version run.text).2

def validateBy (choice : Choice) (run : Run) : Act Unit := do
  let b ← Routine.act fun (s : State) => (started choice run s, behaves choice run s)
  perform run b

def bodyBy (choice : Choice) : Job → Act Unit
  | .run id => Scheduler.runBody (validateBy choice) id
  | job => body job

/-- The rules of a rehearsal whose validations are made to turn out in some way. -/
def rulesBy (choice : Choice) : Rules State Unit Unit Job Nat :=
  { rules with body := bodyBy choice }

theorem rulesBy_taking : rulesBy taking = rules := by
  have same : bodyBy taking = body := by
    funext job
    cases job <;> rfl
  rw [rulesBy, same]
  rfl

theorem rulesBy_given (outcome : Outcomes) : rulesBy (given outcome) = rulesAs outcome := by
  have same : bodyBy (given outcome) = bodyAs outcome := by
    funext job
    cases job <;> rfl
  rw [rulesBy, rulesAs, same]

/-- How long the validations of a document may be made to last. -/
def lengthsBy (choice : Choice) (uri : String) : Lengths := fun version text length =>
  ∃ behaviours, (choice behaviours uri version text).2.length = length

theorem lengthsBy_given (outcome : Outcomes) (uri : String) :
    lengthsBy (given outcome) uri = lengths (outcome uri) := by
  funext version text length
  exact propext ⟨fun ⟨_, same⟩ => same, fun same => ⟨[], same⟩⟩

/-! ## What tasks still have to do -/

/-- A state in which the timer of a sleep has been stopped. -/
def stopped (id : Nat) (s : State) : State :=
  { s with loop := s.loop.stopTimer id }

/-- A state in which a validation has ended and the scheduler has been told. -/
def validated (b : Behaviour) (r : Nat) (run : Run) (s : State) : State :=
  Scheduler.forgetTimers (Scheduler.tell (finishing run b s) (.ended r))

/-- How a task goes on after a sleep. -/
def rising (id : Nat) (ending : Ending Unit Unit) : Act Unit :=
  ((Routine.onLoop fun l => (l.stopTimer id, ()) : Act Unit).andThen fun _ =>
    (Routine.ofEnding ending).andThen fun _ => .done ())

/-- What the task of a timer does after its sleep. -/
def timerEnd (x : Nat) : Rest State Unit Unit Job
  | .value _ => .modify fun s => Scheduler.tell s (.fired x)
  | .error e => .fail e
  | .cancelled => .done ()

/-- What the task of a timer still has to do while it sleeps. -/
def timerRest (x id : Nat) : Rest State Unit Unit Job := fun ending =>
  (rising id ending).onEnd (timerEnd x)

/-- What the task of a run still has to do while it sleeps. -/
def runRest (b : Behaviour) (r : Nat) (run : Run) (id : Nat) : Rest State Unit Unit Job :=
  fun ending =>
  ((rising id ending).andThen fun _ => .modify (finishing run b)).always fun s =>
    Scheduler.forgetTimers (Scheduler.tell s (.ended r))

/-- How the tasks of timers and runs go on after their sleeps.  It is the parameter with which
agendas are used here. -/
def goesOn : Sequels
  | .timer x, id, rest => rest = timerRest x id
  | .run r run, id, rest => ∃ b, rest = runRest b r run id

/-! ## Marks -/

/-- The begin or end of a validation of a document, if that has happened. -/
def Happening.mark? (uri : String) : Happening → Option Mark
  | .started t u version text => if u = uri then some (.began t version text) else none
  | .ended t u version => if u = uri then some (.ended t version) else none
  | _ => none

/-- The begins and ends of the validations of a document so far. -/
def State.marksOf (s : State) (uri : String) : List Mark :=
  s.happenings.filterMap (Happening.mark? uri)

/-- What is seen of a document.  It is read off the machine and off what was taken down, and no
number occurs in it. -/
def State.view (s : State) (uri : String) : View :=
  ⟨s.machine.phaseOf uri, s.marksOf uri⟩

theorem marksOf_note (s : State) (what : Happening) (uri : String) :
    (s.note what).marksOf uri = s.marksOf uri ++ (what.mark? uri).toList := by
  rw [State.marksOf, State.note, List.filterMap_append]
  cases h : what.mark? uri <;> simp [h, State.marksOf]

/-! ## Stages -/

/-- How far a task has come that began, or begins, with the stage `start`. -/
def Plan.stage? (start : Stage) : Plan → Option Stage
  | .fresh => some start
  | .asleep nap | .woken nap => some (.until nap.due)
  | _ => none

/-- What a task begins with: that of a timer sleeps as soon as it is its turn. -/
def Errand.start (quiet : Duration) (now : Instant) : Errand → Stage
  | .timer _ => .until (now.after quiet)
  | .run .. => .ahead

/-- How far the tasks have come on which documents wait.  This is what an agenda knows of them;
tasks without a document have none. -/
abbrev Stages := Nat → Option (Errand × Stage)

def Agenda.stages (quiet : Duration) (now : Instant) (A : Agenda) : Stages := fun t =>
  (A t).bind fun e => (e.2.stage? (e.1.start quiet now)).map fun stage => (e.1, stage)

theorem stages_of {A : Agenda} {t : Nat} {errand : Errand} {plan : Plan}
    (quiet : Duration) (now : Instant)
    (hA : A t = some (errand, plan)) :
    A.stages quiet now t = (plan.stage? (errand.start quiet now)).map fun stage =>
      (errand, stage) := by
  rw [Agenda.stages, hA]
  rfl

theorem of_stages {A : Agenda} {t : Nat} {quiet : Duration} {now : Instant}
    {errand : Errand} {stage : Stage}
    (h : A.stages quiet now t = some (errand, stage)) :
    ∃ plan, A t = some (errand, plan) ∧ plan.stage? (errand.start quiet now) = some stage := by
  obtain ⟨⟨errand', plan⟩, hA, hstage⟩ := Option.bind_eq_some_iff.mp h
  obtain ⟨stage', hstage', heq⟩ := Option.map_eq_some_iff.mp hstage
  obtain ⟨rfl, rfl⟩ := Prod.mk.inj heq
  exact ⟨plan, hA, hstage'⟩

theorem stages_update (A : Agenda) (t : Nat) (x : Option (Errand × Plan))
    (quiet : Duration) (now : Instant) :
    Agenda.stages quiet now (update A t x) = update (A.stages quiet now) t
      (x.bind fun e => (e.2.stage? (e.1.start quiet now)).map fun stage => (e.1, stage)) := by
  funext u
  by_cases hu : u = t
  · subst hu
    rw [Function.update_self, Agenda.stages, Function.update_self]
  · rw [Function.update_of_ne hu, Agenda.stages, Function.update_of_ne hu, Agenda.stages]

/-- A task that has come as far as before. -/
theorem stages_update_of {A : Agenda} {t : Nat} {errand : Errand}
    {plan plan' : Plan} {quiet : Duration} {now : Instant} (hA : A t = some (errand, plan))
    (same : plan'.stage? (errand.start quiet now) = plan.stage? (errand.start quiet now)) :
    Agenda.stages quiet now (update A t (some (errand, plan'))) = A.stages quiet now := by
  rw [stages_update]
  refine Function.update_eq_self_iff.mpr ?_
  rw [stages_of quiet now hA, ← same]
  rfl

/-! ## Documents and tasks -/

/-- The task of a document.  It is the task of its timer or of its run, by the tables of the
scheduler. -/
def taskFor? (s : State) : Doc Nat → Option Nat
  | .waiting _ _ x => Assoc.get? x s.scheduler.timerTasks
  | .running _ _ _ _ r => Assoc.get? r s.scheduler.runTasks
  | _ => none

/-- What the task of a document is for.  It names the timer that the document waits for, or the run
that the document has, with what that is of. -/
inductive For (s : State) (uri : String) : Errand → Doc Nat → Prop
  | timer {version : Int} {text : String} {x : Nat} : For s uri (.timer x) (.waiting version text x)
  | run {version : Int} {text : String} {r : Nat} {run : Run} {sequel : Sequel}
    (found : Assoc.get? r s.machine.runs = some run) (about : run.uri = uri) :
    For s uri (.run r run) (.running version text (run.version, run.text) sequel r)

/-- A document and how far its task has come.  A document without a task has no stage.  The document
is known from the scheduler and the stage from the loop, and the task's number, which occurs in
both, is what connects them. -/
inductive Tied (s : State) (B : Stages) (uri : String) : Doc Nat → Doc Stage → Prop
  | still {d : Doc Nat} (quiet : d.stage? = none) : Tied s B uri d (d.map fun _ => .ahead)
  | busy {d : Doc Nat} {t : Nat} {errand : Errand} {stage : Stage} (task : taskFor? s d = some t)
    (staged : B t = some (errand, stage)) (purpose : For s uri errand d) :
    Tied s B uri d (d.map fun _ => stage)

/-- Any validation may have been before. -/
def anyhow : Setting where
  lossy := False
  validated _ _ _ := True

/-- What is known of a rehearsal, with a track for each document.  The document `but`, if there is
one, is in between: its task is as good as over, and what is to follow has not begun.  The rests of
the tasks that wait are in `rests`, and what is ready is in `items`. -/
structure Holds (quiet : Duration) (but : Option String) (items : List (Ready Nat))
    (s : State) (rests : Rests) (A : Agenda) (D : String → Doc Nat) (T : String → Track) :
    Prop where
  inv : Inv anyhow s.machine
  nobody : ∀ n, ¬ s.machine.Awaits n
  debounce : Duration.milliseconds s.machine.debounce = quiet
  shows : ∀ uri, Shows s.machine uri (D uri)
  agrees : Agrees goesOn s.Over items s.loop rests A
  tied : ∀ uri, but ≠ some uri → Tied s (A.stages quiet s.loop.now) uri (D uri) (T uri).doc
  /-- A task that documents wait on is that of a document. -/
  owned : ∀ t errand stage, A.stages quiet s.loop.now t = some (errand, stage) →
    ∃ uri, but ≠ some uri ∧ taskFor? s (D uri) = some t ∧ For s uri errand (D uri)
  marks : ∀ uri, (T uri).marks = s.marksOf uri

variable {quiet : Duration} {but : Option String} {items items' : List (Ready Nat)}
  {s s' : State} {rests rests' : Rests} {A A' : Agenda} {B B' : Stages} {D : String → Doc Nat}
  {T : String → Track} {uri other : String} {d : Doc Nat} {errand : Errand} {t : Nat} {l : Tasks}

/-- Two documents do not wait on the same. -/
theorem For.unique {d' : Doc Nat} (inv : Inv anyhow s.machine) (h : For s uri errand d)
    (h' : For s other errand d') (shows : Shows s.machine uri d)
    (shows' : Shows s.machine other d') :
    uri = other := by
  cases h with
  | timer =>
    cases h' with
    | timer =>
      obtain ⟨slot, hslot⟩ := shows.found_timer inv.tidy
      obtain ⟨slot', hslot'⟩ := shows'.found_timer inv.tidy
      rw [hslot] at hslot'
      exact congrArg Scheduler.TimerEntry.uri (Option.some.inj hslot')
  | run found about =>
    cases h' with
    | run found' about' => exact about.symm.trans about'

theorem Tied.of_task {k : Doc Stage} (h : Tied s B uri d k) (task : taskFor? s d = some t) :
    ∃ errand stage, B t = some (errand, stage) ∧ For s uri errand d ∧ k = d.map fun _ => stage := by
  cases h with
  | still quiet => cases d <;> first | cases task | cases quiet
  | busy htask staged purpose =>
    obtain rfl := Option.some.inj (htask.symm.trans task)
    exact ⟨_, _, staged, purpose, rfl⟩

/-- What a document is tied to does not depend on other tasks. -/
theorem Tied.congr {k : Doc Stage} (h : Tied s B uri d k) (task : taskFor? s' d = taskFor? s d)
    (purpose : ∀ errand, For s uri errand d → For s' uri errand d)
    (staged : ∀ t, taskFor? s d = some t → B' t = B t) : Tied s' B' uri d k := by
  cases h with
  | still quiet => exact .still quiet
  | busy htask hstaged hfor =>
    exact .busy (task.trans htask) ((staged _ htask).trans hstaged) (purpose _ hfor)

theorem For.congr (h : For s uri errand d)
    (kept : ∀ r run, Assoc.get? r s.machine.runs = some run → run.uri = uri →
      Assoc.get? r s'.machine.runs = some run) : For s' uri errand d := by
  cases h with
  | timer => exact .timer
  | run found about => exact .run (kept _ _ found about) about

/-! ## Changes to the loop and to what has happened -/

/-- No task is that of two documents. -/
theorem Holds.alone (h : Holds quiet none items s rests A D T)
    (task : taskFor? s (D other) = some t)
    (task' : taskFor? s (D uri) = some t) : other = uri := by
  obtain ⟨errand, stage, staged, hfor, -⟩ := (h.tied other nofun).of_task task
  obtain ⟨errand', stage', staged', hfor', -⟩ := (h.tied uri nofun).of_task task'
  obtain ⟨rfl, -⟩ := Prod.mk.inj (Option.some.inj (staged.symm.trans staged'))
  exact hfor.unique h.inv hfor' (h.shows other) (h.shows uri)

/-- A change that leaves the scheduler alone, and how far its tasks have come. -/
theorem Holds.alter {T' : String → Track} (h : Holds quiet but items s rests A D T) (s' : State)
    (scheduler : s'.scheduler = s.scheduler)
    (agrees : Agrees goesOn s.Over items' s'.loop rests' A')
    (stages : A'.stages quiet s'.loop.now = A.stages quiet s.loop.now)
    (docs : ∀ uri, (T' uri).doc = (T uri).doc) (marks : ∀ uri, (T' uri).marks = s'.marksOf uri) :
    Holds quiet but items' s' rests' A' D T' := by
  have machine : s'.machine = s.machine := congrArg Scheduler.Live.machine scheduler
  have task (d : Doc Nat) : taskFor? s' d = taskFor? s d := by
    cases d <;> simp only [taskFor?, scheduler]
  have purpose (uri : String) (errand : Errand) (d : Doc Nat) (hfor : For s uri errand d) :
      For s' uri errand d := hfor.congr fun r run hr _ => by rwa [machine]
  exact
    { inv := machine ▸ h.inv
      nobody := machine ▸ h.nobody
      debounce := machine ▸ h.debounce
      shows := fun uri => machine ▸ h.shows uri
      agrees := agrees.mono fun r hr => by rwa [State.Over, machine]
      tied := fun uri hb => by
        rw [docs, stages]
        exact (h.tied uri hb).congr (task _) (fun errand => purpose uri errand _) fun _ _ => rfl
      owned := fun t errand stage hB => by
        rw [stages] at hB
        obtain ⟨uri, hb, htask, hfor⟩ := h.owned t errand stage hB
        exact ⟨uri, hb, (task _).trans htask, purpose uri errand _ hfor⟩
      marks := marks }

theorem Tied.of_purpose {k : Doc Stage} {stage : Stage} (h : Tied s B uri d k)
    (task : taskFor? s d = some t)
    (staged : B t = some (errand, stage)) : k = d.map fun _ => stage := by
  obtain ⟨errand', stage', staged', -, rfl⟩ := h.of_task task
  obtain ⟨-, rfl⟩ := Prod.mk.inj (Option.some.inj (staged.symm.trans staged'))
  rfl

/-- The task of a document has come further. -/
theorem Holds.restage (h : Holds quiet none items s rests A D T) (s' : State) (stage : Stage)
    (scheduler : s'.scheduler = s.scheduler)
    (agrees : Agrees goesOn s.Over items' s'.loop rests' A')
    (task : taskFor? s (D uri) = some t) (purpose : For s uri errand (D uri))
    (stages : A'.stages quiet s'.loop.now = update (A.stages quiet s.loop.now) t
      (some (errand, stage)))
    (marks : ∀ other, other ≠ uri → s'.marksOf other = s.marksOf other) :
    Holds quiet none items' s' rests' A' D
      (update T uri ⟨(D uri).map fun _ => stage, s'.marksOf uri⟩) := by
  have machine : s'.machine = s.machine := congrArg Scheduler.Live.machine scheduler
  have tasks (d : Doc Nat) : taskFor? s' d = taskFor? s d := by
    cases d <;> simp only [taskFor?, scheduler]
  -- The scheduler is as it was, so tasks are for what they were for.
  have purposes {uri : String} {errand : Errand} {d : Doc Nat} (hfor : For s uri errand d) :
      For s' uri errand d := hfor.congr fun _ _ hr _ => by rwa [machine]
  refine
    { inv := machine ▸ h.inv
      nobody := machine ▸ h.nobody
      debounce := machine ▸ h.debounce
      shows := fun uri => machine ▸ h.shows uri
      agrees := agrees.mono fun r hr => by rwa [State.Over, machine]
      tied := fun other _ => ?_
      owned := fun u errand' stage' hB => ?_
      marks := fun other => ?_ }
  · rw [stages]
    by_cases ho : other = uri
    · subst ho
      rw [Function.update_self]
      exact .busy ((tasks _).trans task) (Function.update_self ..) (purposes purpose)
    · rw [Function.update_of_ne ho]
      refine (h.tied other (Option.some_ne_none _).symm).congr (tasks _) (fun _ => purposes)
        fun u hu =>
        Function.update_of_ne ?_ _ _
      rintro rfl
      exact ho (h.alone hu task)
  · rw [stages] at hB
    by_cases hu : u = t
    · subst hu
      rw [Function.update_self] at hB
      obtain ⟨rfl, -⟩ := Prod.mk.inj (Option.some.inj hB)
      exact ⟨uri, (Option.some_ne_none _).symm, (tasks _).trans task, purposes purpose⟩
    · rw [Function.update_of_ne hu] at hB
      obtain ⟨other, hb, htask, hfor⟩ := h.owned u errand' stage' hB
      exact ⟨other, hb, (tasks _).trans htask, purposes hfor⟩
  · by_cases ho : other = uri
    · subst ho
      rw [Function.update_self]
    · rw [Function.update_of_ne ho, marks other ho]
      exact h.marks other

/-- The task of a document is as good as over. -/
theorem Holds.release (h : Holds quiet none items s rests A D T)
    (agrees : Agrees goesOn s.Over items' l rests' A') (task : taskFor? s (D uri) = some t)
    (stages : A'.stages quiet l.now = update (A.stages quiet s.loop.now) t none) :
    Holds quiet (some uri) items' { s with loop := l } rests' A' D T := by
  have purpose {uri : String} {errand : Errand} {d : Doc Nat} (hfor : For s uri errand d) :
      For { s with loop := l } uri errand d := hfor.congr fun _ _ hr _ => hr
  -- Every other task is that of another document.
  have alone {u : Nat} {errand : Errand} {stage : Stage} (hu : u ≠ t)
      (hB : A.stages quiet s.loop.now u = some (errand, stage)) :
      ∃ other, other ≠ uri ∧ taskFor? s (D other) = some u ∧ For s other errand (D other) := by
    obtain ⟨other, -, htask, hfor⟩ := h.owned u errand stage hB
    refine ⟨other, ?_, htask, hfor⟩
    rintro rfl
    exact hu (Option.some.inj (htask.symm.trans task))
  refine
    { h with
      agrees := agrees
      tied := fun other hb => ?_
      owned := fun u errand stage hB => ?_ }
  · rw [stages]
    refine (h.tied other nofun).congr rfl (fun _ => purpose) fun u hu =>
      Function.update_of_ne ?_ _ _
    rintro rfl
    exact hb (congrArg some (h.alone task hu))
  · rw [stages] at hB
    have hu : u ≠ t := by
      rintro rfl
      rw [Function.update_self] at hB
      cases hB
    rw [Function.update_of_ne hu] at hB
    obtain ⟨other, hother, htask, hfor⟩ := alone hu hB
    exact ⟨other, fun he => hother (Option.some.inj he).symm, htask, purpose hfor⟩

/-! ## Decisions -/

/-- What is about another document is left alone. -/
theorem For.elsewhere (inv : Inv anyhow s'.machine) (others : Elsewhere uri s.machine s'.machine)
    (ho : other ≠ uri) (h : For s other errand d) : For s' other errand d := by
  refine h.congr fun r run found about => ?_
  have hmem : (r, run) ∈ s.machine.runsOf other :=
    Scheduler.State.mem_runsOf.mpr ⟨Assoc.mem_of_get? found, about⟩
  rw [← (others other ho).runs] at hmem
  exact Assoc.get?_of_mem inv.tidy.run_inj (Scheduler.State.mem_runsOf.mp hmem).1

/-- The scheduler decides on an event that is about a document, which may keep its task. -/
theorem Holds.decide {e : Event} {out : List Effect} {T' : String → Track}
    (h : Holds quiet but items s rests A D T) (allowed : e.Allowed anyhow s.machine)
    (does : Does s.machine uri d out (s.machine.step e))
    (others : ∀ other, other ≠ uri → T' other = T other)
    (marks : (T' uri).marks = s.marksOf uri)
    (tied : but ≠ some uri → Tied (decided s e) (A.stages quiet s.loop.now) uri d (T' uri).doc)
    (owned : ∀ t errand, but ≠ some uri → taskFor? s (D uri) = some t → For s uri errand (D uri) →
      taskFor? (decided s e) d = some t ∧ For (decided s e) uri errand d) :
    Holds quiet but items (decided s e) rests A (update D uri d) T' := by
  have he : e ≠ .stop := by
    rintro rfl
    exact allowed
  have inv : Inv anyhow (decided s e).machine := h.inv.step allowed
  -- The event is about one document; of the others neither slots nor timers nor runs have changed.
  have same {other : String} (ho : other ≠ uri) : update D uri d other = D other :=
    Function.update_of_ne ho _ _
  refine
    { inv := inv
      nobody := fun n hn => h.nobody n ((Scheduler.wakes_step s.machine e).waiters n hn)
      debounce := by
        rw [show (decided s e).machine.debounce = s.machine.debounce from does.debounce]
        exact h.debounce
      shows := fun other => ?_
      agrees := h.agrees.mono fun _ => over_decided he
      tied := fun other hb => ?_
      owned := fun t errand stage hB => ?_
      marks := fun other => ?_ }
  · by_cases ho : other = uri
    · subst ho
      rw [Function.update_self]
      exact does.shows
    · rw [same ho]
      exact (h.shows other).congr (does.others other ho)
  · by_cases ho : other = uri
    · subst ho
      rw [Function.update_self]
      exact tied hb
    · rw [same ho, others other ho]
      exact (h.tied other hb).congr rfl (fun _ => For.elsewhere inv does.others ho) fun _ _ => rfl
  · obtain ⟨other, hb, htask, hfor⟩ := h.owned t errand stage hB
    refine ⟨other, hb, ?_⟩
    by_cases ho : other = uri
    · subst ho
      rw [Function.update_self]
      exact owned t errand hb htask hfor
    · rw [same ho]
      exact ⟨htask, hfor.elsewhere inv does.others ho⟩
  · by_cases ho : other = uri
    · subst ho
      exact marks
    · rw [others other ho]
      exact h.marks other

/-! ## Effects -/

/-- What a change makes ready; it leaves the clock and the timers alone.  The turns that an event
makes ready come behind those that were, in a known order, which is what decides who is next in the
same instant. -/
structure Adds (s s' : State) (new : List (Ready Nat)) : Prop where
  ready : s'.loop.ready = s.loop.ready ++ new
  timers : s'.loop.timers = s.loop.timers
  now : s'.loop.now = s.loop.now

theorem Adds.refl (s : State) : Adds s s [] :=
  ⟨(List.append_nil _).symm, rfl, rfl⟩

theorem Adds.trans {s'' : State} {new more : List (Ready Nat)} (h : Adds s s' new)
    (k : Adds s' s'' more) :
    Adds s s'' (new ++ more) where
  ready := by rw [k.ready, h.ready, List.append_assoc]
  timers := k.timers.trans h.timers
  now := k.now.trans h.now

/-- How much is still to be done for what is ready, at most.  Each thing that is done makes less
ready than it was itself, which is why an instant comes to an end. -/
def weight : Ready Nat → Nat
  | .start _ => 4
  | .timer _ => 3
  | .follow (.resume _) _ => 2
  | .follow _ _ => 1

def weigh (items : List (Ready Nat)) : Nat :=
  (items.map weight).sum

@[simp] theorem weigh_nil : weigh [] = 0 := rfl

@[simp] theorem weigh_cons (i : Ready Nat) (items : List (Ready Nat)) :
    weigh (i :: items) = weight i + weigh items :=
  List.sum_cons

@[simp] theorem weigh_append (items more : List (Ready Nat)) :
    weigh (items ++ more) = weigh items + weigh more := by
  rw [weigh, List.map_append, List.sum_append]
  rfl

/-- A document as it is when what it decides on has just begun. -/
def anew (quiet : Duration) (now : Instant) (d : Doc Nat) : Doc Stage :=
  d.map fun _ => if d.phase = .pending then .until (now.after quiet) else .ahead

/-- A document for which nothing is to be begun is tied to nothing. -/
theorem Holds.still (h : Holds quiet (some uri) items s rests A D T)
    (still : (D uri).stage? = none) :
    Holds quiet none items s rests A D
      (update T uri ⟨anew quiet s.loop.now (D uri), s.marksOf uri⟩) := by
  refine
    { h with
      tied := fun other _ => ?_
      owned := fun t errand stage hB => ?_
      marks := fun other => ?_ }
  · by_cases ho : other = uri
    · subst ho
      rw [Function.update_self]
      have hmap : anew quiet s.loop.now (D other) = (D other).map fun _ => .ahead := by
        cases hd : D other <;> first | rfl | simp [hd, Doc.stage?] at still
      rw [hmap]
      exact .still still
    · rw [Function.update_of_ne ho]
      exact h.tied other fun he => ho (Option.some.inj he).symm
  · obtain ⟨other, -, howned⟩ := h.owned t errand stage hB
    exact ⟨other, nofun, howned⟩
  · by_cases ho : other = uri
    · subst ho
      rw [Function.update_self]
    · rw [Function.update_of_ne ho]
      exact h.marks other

/-- The task of a document is begun. -/
theorem Holds.begin (h : Holds quiet (some uri) items s rests A D T) (s' : State)
    (purpose : For s uri errand (D uri)) (machine : s'.machine = s.machine)
    (happenings : s'.happenings = s.happenings) (loop : s'.loop = commissioned s.loop errand)
    (task : taskFor? s' (D uri) = some s.loop.nextTask)
    (tasks : ∀ other, other ≠ uri → taskFor? s' (D other) = taskFor? s (D other)) :
    Holds quiet none (items ++ [.start s.loop.nextTask]) s' rests
        (update A s.loop.nextTask (some (errand, .fresh))) D
        (update T uri ⟨anew quiet s.loop.now (D uri), s.marksOf uri⟩) ∧
      Adds s s' [.start s.loop.nextTask] := by
  obtain ⟨agrees, ready⟩ := h.agrees.create errand
  rw [← loop] at agrees ready
  have now : s'.loop.now = s.loop.now := by rw [loop, now_commissioned]
  have purposes {uri : String} {errand : Errand} {d : Doc Nat} (hfor : For s uri errand d) :
      For s' uri errand d := hfor.congr fun _ _ hr _ => by rwa [machine]
  -- The number of the new task stood for nothing before, so no other document is tied to it.
  have unborn : A.stages quiet s.loop.now s.loop.nextTask = none := by
    have hnone : A s.loop.nextTask = none := by
      by_contra hne
      exact Nat.lt_irrefl _ (h.agrees.taskLt _ hne)
    rw [Agenda.stages, hnone]
    rfl
  have stages : Agenda.stages quiet s'.loop.now (update A s.loop.nextTask (some (errand, .fresh))) =
      update (A.stages quiet s.loop.now) s.loop.nextTask
        (some (errand, errand.start quiet s.loop.now)) := by
    rw [stages_update, now]
    rfl
  have start : anew quiet s.loop.now (D uri) = (D uri).map fun _ =>
    errand.start quiet s.loop.now := by
    generalize D uri = d at purpose
    cases purpose <;> rfl
  refine ⟨?_, ⟨ready, by rw [loop, timers_commissioned], now⟩⟩
  refine
    { inv := machine ▸ h.inv
      nobody := machine ▸ h.nobody
      debounce := machine ▸ h.debounce
      shows := fun other => machine ▸ h.shows other
      agrees := agrees.mono fun r hr => by rwa [State.Over, machine]
      tied := fun other _ => ?_
      owned := fun t errand' stage hB => ?_
      marks := fun other => ?_ }
  · rw [stages]
    by_cases ho : other = uri
    · subst ho
      rw [Function.update_self, start]
      exact .busy task (Function.update_self ..) (purposes purpose)
    · rw [Function.update_of_ne ho]
      have tied := h.tied other fun he => ho (Option.some.inj he).symm
      refine tied.congr (tasks other ho) (fun _ => purposes) fun u hu =>
        Function.update_of_ne ?_ _ _
      rintro rfl
      obtain ⟨_, _, staged, -⟩ := tied.of_task hu
      rw [unborn] at staged
      cases staged
  · rw [stages] at hB
    by_cases ht : t = s.loop.nextTask
    · subst ht
      rw [Function.update_self] at hB
      obtain ⟨rfl, -⟩ := Prod.mk.inj (Option.some.inj hB)
      exact ⟨uri, nofun, task, purposes purpose⟩
    · rw [Function.update_of_ne ht] at hB
      obtain ⟨other, hb, htask, hfor⟩ := h.owned t errand' stage hB
      exact ⟨other, nofun, (tasks other fun he => hb (congrArg some he.symm)).trans htask,
        purposes hfor⟩
  · have marks : s'.marksOf other = s.marksOf other := by
      rw [State.marksOf, happenings]
      rfl
    rw [marks]
    by_cases ho : other = uri
    · subst ho
      rw [Function.update_self]
    · rw [Function.update_of_ne ho]
      exact h.marks other

/-- What is to be begun for a document is begun. -/
theorem Holds.begun (h : Holds quiet (some uri) items s rests A D T) :
    ∃ A' new, Holds quiet none (items ++ new) ((D uri).begun.foldl Scheduler.carryOut s) rests A' D
        (update T uri ⟨anew quiet s.loop.now (D uri), s.marksOf uri⟩) ∧
      Adds s ((D uri).begun.foldl Scheduler.carryOut s) new ∧ weigh new = 4 * (D uri).begun.length ∧
      ∀ t, A t ≠ none → A' t = A t := by
  -- Plans of other tasks are as before, since the number of the new one is theirs in no case.
  have old (e : Option (Errand × Plan)) (t : Nat) (ht : A t ≠ none) :
      update A s.loop.nextTask e t = A t :=
    Function.update_of_ne (Nat.ne_of_lt (h.agrees.taskLt t ht)) _ _
  have shows := h.shows uri
  cases hd : D uri with
  | absent | resting =>
    have still := h.still (by rw [hd]; rfl)
    rw [hd] at still
    exact ⟨A, [], by rwa [List.append_nil], .refl s, rfl, fun _ _ => rfl⟩
  | waiting version text x =>
    have purpose : For s uri (.timer x) (D uri) := hd ▸ .timer
    obtain ⟨holds, adds⟩ := h.begin (Scheduler.startTimerTask s x) purpose rfl rfl rfl
      (by rw [hd]; exact Assoc.get?_set_self ..) fun other ho => by
        cases ho' : D other with
        | waiting version' text' x' =>
          refine Assoc.get?_set_of_ne ?_ _ _
          rintro rfl
          have purpose' : For s other (.timer x') (D other) := ho' ▸ .timer
          exact ho (purpose'.unique h.inv purpose (h.shows other) shows)
        | absent | resting | running => rfl
    rw [hd] at holds
    exact ⟨_, _, holds, adds, rfl, old _⟩
  | running version text subject sequel r =>
    rw [hd] at shows
    obtain ⟨run, found, about, rfl⟩ := shows.found_run h.inv.tidy
    have purpose : For s uri (.run r run) (D uri) := hd ▸ .run found about
    obtain ⟨holds, adds⟩ := h.begin (Scheduler.startRunTask s r) purpose rfl rfl rfl
      (by rw [hd]; exact Assoc.get?_set_self ..) fun other ho => by
        cases ho' : D other with
        | running version' text' subject' sequel' r' =>
          refine Assoc.get?_set_of_ne ?_ _ _
          rintro rfl
          have shows' := h.shows other
          rw [ho'] at shows'
          obtain ⟨run', found', about', rfl⟩ := shows'.found_run h.inv.tidy
          rw [found] at found'
          obtain rfl := Option.some.inj found'
          exact ho (about'.symm.trans about)
        | absent | resting | waiting => rfl
    rw [hd] at holds
    exact ⟨_, _, holds, adds, rfl, old _⟩

/-- A document that has no task may be decided on at once. -/
theorem Holds.aside (h : Holds quiet none items s rests A D T) (still : (D uri).stage? = none) :
    Holds quiet (some uri) items s rests A D T :=
  { h with
    tied := fun other _ => h.tied other nofun
    owned := fun t errand stage hB => by
      obtain ⟨other, -, htask, hfor⟩ := h.owned t errand stage hB
      refine ⟨other, ?_, htask, hfor⟩
      rintro ⟨⟩
      generalize D uri = d at still htask
      cases d <;> first | cases htask | cases still }

/-- What a document without a run has under way is given up. -/
theorem Holds.giveUp (h : Holds quiet none items s rests A D T) (idle : (D uri).phase ≠ .running) :
    ∃ A' new, Holds quiet (some uri) (items ++ new) ((D uri).gone.foldl Scheduler.carryOut s) rests
        A' D T ∧
      Adds s ((D uri).gone.foldl Scheduler.carryOut s) new ∧ weigh new ≤ 2 := by
  have tied := h.tied uri nofun
  cases hd : D uri with
  | absent | resting =>
    exact ⟨A, [], by rw [List.append_nil]; exact h.aside (by rw [hd]; rfl), .refl s, Nat.zero_le _⟩
  | running => exact absurd (by rw [hd]; rfl) idle
  | waiting version text x =>
    rw [hd] at tied
    generalize (T uri).doc = k at tied
    cases tied with
    | still still => cases still
    | @busy t errand stage task staged purpose =>
      cases purpose
      obtain ⟨plan, hA, hstage⟩ := of_stages staged
      -- A task that is under way has not begun yet, or sleeps, or is about to go on.
      have hplan : plan = .fresh ∨ ∃ nap, plan = .asleep nap ∨ plan = .woken nap := by
        cases plan with
        | fresh => exact .inl rfl
        | asleep nap => exact .inr ⟨nap, .inl rfl⟩
        | woken nap => exact .inr ⟨nap, .inr rfl⟩
        | acting | doomed => cases hstage
      obtain ⟨new, agrees, ready, hnew⟩ := h.agrees.cancel hA hplan
      obtain ⟨timers, now⟩ := Loop.clock_cancel s.loop t
      have state : (Doc.waiting version text x).gone.foldl Scheduler.carryOut s =
          { s with loop := (s.loop.cancel t).1 } := by
        have task : Assoc.get? x s.scheduler.timerTasks = some t := task
        change Scheduler.cancelTask s (Assoc.get? x s.scheduler.timerTasks) = _
        rw [task]
        rfl
      rw [state]
      refine ⟨_, new, h.release agrees (by rw [hd]; exact task) ?_, ⟨ready, timers, now⟩, ?_⟩
      · rw [stages_update, now]
        rfl
      · rcases hnew with rfl | ⟨s, rfl⟩
        · exact Nat.zero_le _
        · exact Nat.le_refl _

/-! ## Edits -/

/-- An edit of a document without a run is as of one that has just begun what it decides on. -/
theorem anew_told {k : Doc Stage} {e : Event} {now : Instant} (tied : Tied s B uri d k)
    (idle : d.phase ≠ .running) {about : String} (edits : e.edits = some about) (x r : Nat) :
    anew quiet now (d.told x r e) = k.told (.until (now.after quiet)) .ahead e := by
  obtain ⟨stage, rfl⟩ : ∃ stage, k = d.map fun _ => stage := by
    cases tied with
    | still | busy => exact ⟨_, rfl⟩
  cases d with
  | running => exact absurd rfl idle
  | absent =>
    cases e with
    | save u version text => cases version <;> cases text <;> rfl
    | change | opened | close => rfl
    | fired | ended | dropped | stop => cases edits
  | resting | waiting =>
    cases e with
    | change | opened | save | close => rfl
    | fired | ended | dropped | stop => cases edits

/-- What an edit of a document without a run begins, and what that may lead to. -/
theorem outlay_told {e : Event} (idle : d.phase ≠ .running) {about : String}
    (edits : e.edits = some about)
    (x r : Nat) : (d.told x r e).begun.length + (d.told x r e).credit ≤ 2 := by
  cases d with
  | running => exact absurd rfl idle
  | absent =>
    cases e with
    | save u version text => cases version <;> cases text <;> exact Nat.le_of_ble_eq_true rfl
    | change | opened | close => exact Nat.le_of_ble_eq_true rfl
    | fired | ended | dropped | stop => cases edits
  | resting | waiting =>
    cases e with
    | change | opened | save | close => exact Nat.le_of_ble_eq_true rfl
    | fired | ended | dropped | stop => cases edits

/-- An edit of a document with a run leaves that run alone. -/
theorem told_of_running {e : Event} (version : Int) (text : String) (subject : Int × String)
    (sequel : Sequel) {about : String} (edits : e.edits = some about) :
    ∃ version' text' sequel', ∀ (α : Type) (x a b : α),
      (Doc.running version text subject sequel x).told a b e =
        .running version' text' subject sequel' x := by
  cases e with
  | change _ v t => exact ⟨v, t, _, fun _ _ _ _ => rfl⟩
  | opened _ v t => exact ⟨v, t, .again, fun _ _ _ _ => rfl⟩
  | save _ v t => cases sequel <;> cases v <;> cases t <;> exact ⟨_, _, _, fun _ _ _ _ => rfl⟩
  | close => exact ⟨version, text, .leave, fun _ _ _ _ => rfl⟩
  | fired | ended | dropped | stop => cases edits

theorem allowed_of_edits {e : Event} (edits : e.edits = some uri) : e.Allowed anyhow s.machine := by
  cases e with
  | change | opened | save | close => trivial
  | fired | ended | dropped | stop => cases edits

/-- The scheduler decides on an edit of a document with a run. -/
theorem Holds.remark {e : Event} (h : Holds quiet none items s rests A D T)
    (edits : e.edits = some uri)
    (running : (D uri).phase = .running) :
    Holds quiet none items (decided s e) rests A
      (update D uri ((D uri).told s.machine.nextTimer s.machine.nextRun e))
      (update T uri ((T uri).told quiet s.loop.now e)) := by
  have does := Scheduler.does_edit h.inv.tidy h.nobody edits (h.shows uri)
  have starts := Scheduler.starts_step s.machine (show e ≠ .stop by rintro rfl; cases edits)
  -- An edit ends no run, so the run in flight is found as before.
  have before : s.machine.before e = s.machine := by
    cases e with
    | change | opened | save | close => rfl
    | fired | ended | dropped | stop => cases edits
  rw [before] at starts
  have tied := h.tied uri nofun
  cases hd : D uri with
  | absent | resting | waiting => simp [hd, Doc.phase] at running
  | running version text subject sequel r =>
    obtain ⟨version', text', sequel', told⟩ :=
      told_of_running version text subject sequel edits
    rw [hd] at does tied
    rw [told] at does ⊢
    refine h.decide (allowed_of_edits edits) does (fun other ho => Function.update_of_ne ho _ _) ?_
      (fun _ => ?_) fun t errand _ htask hfor => ?_
    · rw [Function.update_self]
      exact h.marks uri
    · rw [Function.update_self, Track.told]
      generalize (T uri).doc = k at tied
      cases tied with
      | still still => cases still
      | @busy t errand stage task staged purpose =>
        cases purpose with
        | run found about =>
          dsimp only [Doc.map]
          rw [told]
          exact .busy task staged (.run (starts.get?_of found) about)
    · rw [hd] at htask hfor
      cases hfor with
      | run found about => exact ⟨htask, .run (starts.get?_of found) about⟩

/-- The closing of a document is taken down.  Nothing becomes ready by that. -/
theorem Holds.closing (h : Holds quiet none items s rests A D T) (e : Event) :
    Holds quiet none items (e.closing.foldl Scheduler.carryOut s) rests A D T ∧
      Adds s (e.closing.foldl Scheduler.carryOut s) [] := by
  cases e with
  | close uri =>
    change Holds _ _ _ (if s.watchesClosing then s.note (.closed uri) else s) _ _ _ _ ∧
      Adds s (if s.watchesClosing then s.note (.closed uri) else s) []
    split
    · refine ⟨h.alter _ rfl h.agrees rfl (fun _ => rfl) fun other => ?_, (List.append_nil _).symm,
        rfl, rfl⟩
      rw [marksOf_note]
      exact (h.marks other).trans (List.append_nil _).symm
    · exact ⟨h, .refl s⟩
  | change | opened | save | fired | ended | dropped | stop => exact ⟨h, .refl s⟩

/-- Giving up what a document has under way, and deciding on an event, may be done in any order. -/
theorem gone_decided (d : Doc Nat) (s : State) (e : Event) :
    d.gone.foldl Scheduler.carryOut (decided s e) =
      decided (d.gone.foldl Scheduler.carryOut s) e := by
  cases d with
  | waiting version text x =>
    change Scheduler.cancelTask (decided s e) (Assoc.get? x s.scheduler.timerTasks) =
      decided (Scheduler.cancelTask s (Assoc.get? x s.scheduler.timerTasks)) e
    cases Assoc.get? x s.scheduler.timerTasks <;> rfl
  | absent | resting | running => rfl

theorem gone_same (d : Doc Nat) (s : State) :
    (d.gone.foldl Scheduler.carryOut s).machine = s.machine ∧
      (d.gone.foldl Scheduler.carryOut s).happenings = s.happenings := by
  cases d with
  | waiting version text x =>
    change (Scheduler.cancelTask s (Assoc.get? x s.scheduler.timerTasks)).machine = _ ∧
      (Scheduler.cancelTask s (Assoc.get? x s.scheduler.timerTasks)).happenings = _
    cases Assoc.get? x s.scheduler.timerTasks <;> exact ⟨rfl, rfl⟩
  | absent | resting | running => exact ⟨rfl, rfl⟩

/-- An edit moves the track of its document and nothing else.  It may be the edit of any document,
at any moment, also in between two things that are done. -/
theorem Holds.tell {e : Event} (h : Holds quiet none items s rests A D T)
    (edits : e.edits = some uri) :
    ∃ A' d new, Holds quiet none (items ++ new) (Scheduler.tell s e) rests A' (update D uri d)
        (update T uri ((T uri).told quiet s.loop.now e)) ∧
      Adds s (Scheduler.tell s e) new ∧ weigh new + 4 * d.credit ≤ 10 := by
  obtain ⟨d, hd⟩ : ∃ d, d = (D uri).told s.machine.nextTimer s.machine.nextRun e := ⟨_, rfl⟩
  have does := Scheduler.does_edit h.inv.tidy h.nobody edits (h.shows uri)
  rw [← hd] at does
  have told : Scheduler.tell s e = e.closing.foldl Scheduler.carryOut
      (((D uri).replaced d).foldl Scheduler.carryOut (decided s e)) := by
    change (s.machine.step e).2.foldl Scheduler.carryOut (decided s e) = _
    rw [does.effects, List.foldl_append]
  by_cases running : (D uri).phase = .running
  · -- In a run an edit leaves a mark and begins nothing.
    have none : (D uri).replaced d = [] := by
      cases hu : D uri with
      | running => rfl
      | absent | resting | waiting => simp [hu, Doc.phase] at running
    obtain ⟨holds, adds⟩ := (h.remark edits running).closing e
    rw [← hd] at holds
    rw [told, none]
    have credit := d.credit_le
    exact ⟨A, d, [], by rwa [List.append_nil],
      ⟨adds.ready, adds.timers, adds.now⟩, by rw [weigh_nil]; omega⟩
  · -- Otherwise what was begun is given up first, then the event is decided, and then what the
    -- document is to have is begun.
    have both : (D uri).replaced d = (D uri).gone ++ d.begun := by
      cases hu : D uri with
      | running => simp [hu, Doc.phase] at running
      | absent | resting | waiting => rfl
    obtain ⟨A₁, new₁, holds₁, adds₁, le₁⟩ := h.giveUp running
    obtain ⟨machine, happenings⟩ := gone_same (D uri) s
    have does₁ : Does ((D uri).gone.foldl Scheduler.carryOut s).machine uri d
      ((D uri).replaced d ++ e.closing)
        (((D uri).gone.foldl Scheduler.carryOut s).machine.step e) := by
      rw [machine]
      exact does
    have holds₂ := holds₁.decide (allowed_of_edits edits) does₁ (fun _ _ => rfl) (holds₁.marks uri)
      (fun hb => absurd rfl hb) fun _ _ hb => absurd rfl hb
    obtain ⟨A₃, new₃, holds₃, adds₃, eq₃, -⟩ := holds₂.begun
    obtain ⟨holds, adds⟩ := holds₃.closing e
    rw [Function.update_self] at holds adds eq₃ adds₃
    have track : (⟨anew quiet (decided ((D uri).gone.foldl Scheduler.carryOut s) e).loop.now d,
        (decided ((D uri).gone.foldl Scheduler.carryOut s) e).marksOf uri⟩ : Track) =
        (T uri).told quiet s.loop.now e := by
      rw [Track.told, ← anew_told (h.tied uri nofun) running edits, h.marks uri, hd]
      congr 1
      · exact congrArg (anew quiet · _) adds₁.now
      · exact congrArg (List.filterMap (Happening.mark? uri)) happenings
    rw [track, List.append_assoc] at holds
    rw [told, both, List.foldl_append, gone_decided]
    refine ⟨A₃, d, new₁ ++ new₃, holds, ?_, ?_⟩
    · have all := (adds₁.trans ⟨adds₃.ready, adds₃.timers, adds₃.now⟩).trans adds
      rwa [List.append_nil] at all
    · have outlay := outlay_told running edits s.machine.nextTimer s.machine.nextRun
      rw [← hd] at outlay
      rw [weigh_append, eq₃]
      omega

end PikeAnalysis.Simulation.Scheduling
