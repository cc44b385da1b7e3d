import PikeAnalysis.Proofs.Simulation.Turns

/-!
# Validations in a rehearsal

No edit is lost: a document that has come to rest was last validated as it is, and the run of one
that is being validated undisturbed carries what the document holds.  No document is validated twice
at a time.  Both hold along every course, and everything that a rehearsal can be made to do is one.

Two claims are read off the invariant of `Proofs/Simulation/Turns.lean`.  The first compares what
documents hold with what was validated: a slot that is idle holds what was validated last, and one
that is running holds what its run carries unless something has been noted since.  The second counts
tasks: a task that has not ended and whose run is of a document is the only one for it, also when
the document was closed and opened again meanwhile.

Both are about courses, in which anything that is ready may be done next; `leads_advance` says that
what the rehearsal does when time is let pass is such a course, so they hold of what runs.
-/

namespace PikeAnalysis.Simulation.Scheduling

open PikeAnalysis.Concurrency
open PikeAnalysis.Scheduler (Phase Slot Standing)

variable {debounce : Int} {behaviours : List Behaviour} {watchesClosing : Bool} {os : List Outside}
  {c : Moment State Unit Unit Job Nat} {m : Rehearsal}

/-! ## Rehearsals are courses -/

theorem leads_tell {c : Moment State Unit Unit Job Nat} (h : Leads rules outside c os ⟨m, []⟩)
    (e : Edit) : Leads rules outside c (os ++ [.edit e]) ⟨m.tell e.event, []⟩ :=
  h.happens (.edit e)

theorem leads_settle {c : Moment State Unit Unit Job Nat} (h : Leads rules outside c os ⟨m, []⟩) :
    Leads rules outside c os ⟨m.settle, []⟩ :=
  Leads.settle h _

theorem leads_advanceTo {c : Moment State Unit Unit Job Nat} (target : Instant) (fuel : Nat)
    (h : Leads rules outside c os ⟨m, []⟩) :
    ∃ times : List Instant,
      Leads rules outside c (os ++ times.map .clock) ⟨m.advanceTo target fuel, []⟩ := by
  induction fuel generalizing os m with
  | zero => exact ⟨[target], h.happens (.clock target)⟩
  | succ fuel ih =>
    unfold Rehearsal.advanceTo
    split
    · next due _ =>
      split
      · obtain ⟨times, htimes⟩ := ih (leads_settle (h.happens (.clock (max m.state.loop.now due))))
        rw [List.append_assoc] at htimes
        exact ⟨max m.state.loop.now due :: times, htimes⟩
      · exact ⟨[target], h.happens (.clock target)⟩
    · exact ⟨[target], h.happens (.clock target)⟩

/-- Letting time pass is setting the clock a number of times and doing what is ready in between.
Fuel that runs out only ends the course earlier. -/
theorem leads_advance {c : Moment State Unit Unit Job Nat} (h : Leads rules outside c os ⟨m, []⟩)
    (ms : Int) :
    ∃ times : List Instant, Leads rules outside c (os ++ times.map .clock) ⟨m.advance ms, []⟩ :=
  leads_advanceTo _ _ h

/-! ## The latest edit -/

/-- The run that is under way for a slot: its task has not ended, and it carries what the slot
holds. -/
structure Carried (s : State) (uri : String) (slot : Slot) (task r : Nat) (run : Scheduler.Run) :
    Prop where
  job : s.loop.jobOf task = some (.run r)
  current : slot.run = some r
  found : Assoc.get? r s.machine.runs = some run
  document : run.uri = uri
  version : run.version = slot.version
  text : run.text = slot.text

/-- No edit is lost.  A registered document that is idle was last validated as the edits left it;
while a run is in flight that no edit, save or close has come after, it is of what the edits left.
`os` is any interleaving of edits, turns of tasks and movements of the clock, and `known` reads what
the edits left off it, so the right-hand sides do not depend on the scheduler. -/
theorem latest_edit_validated
    (course : Leads rules outside (opening debounce behaviours watchesClosing) os c)
    {uri : String} {id : Nat} {slot : Slot}
    (registered : c.state.machine.slotOf? uri = some (id, slot)) :
    (slot.phase = .idle →
      c.state.lastBegun uri = some (slot.version, slot.text) ∧
      known uri os = some (slot.version, slot.text)) ∧
    (slot.phase = .running → slot.closed = false → slot.dirty = false → slot.rerunNow = false →
      (∃ task r run, Carried c.state uri slot task r run) ∧
      known uri os = some (slot.version, slot.text)) := by
  obtain ⟨sound, hknown⟩ := sound_of_leads course
  obtain ⟨doc, found⟩ := Scheduler.State.found_of_slotOf? registered
  have hcontent : slot.closed = false → known uri os = some (slot.version, slot.text) := by
    intro hopen
    rw [← hknown uri, Scheduler.State.content_of_found doc found, Slot.content, hopen]
    rfl
  have hslot : ∀ {id' slot'}, Assoc.get? uri c.state.machine.docs = some id' →
      c.state.machine.slot? id' = some slot' → slot' = slot := by
    intro id' slot' doc' found'
    rw [doc] at doc'
    rw [← Option.some.inj doc', found] at found'
    exact (Option.some.inj found').symm
  -- The invariant says how the document stands, and of the ways only two are asked about.
  cases sound.machine.standing uri with
  | absent doc' => simp [doc] at doc'
  | resting doc' found' rests validated =>
    obtain rfl := hslot doc' found'
    refine ⟨fun _ => ⟨validated, hcontent rests.closed⟩, fun hrunning => ?_⟩
    simp [rests.phase] at hrunning
  | waiting doc' found' waits =>
    obtain rfl := hslot doc' found'
    constructor <;> intro hphase <;> simp [waits.phase] at hphase
  | @running _ _ r run doc' found' hasRun slotOf carries timers runs =>
    obtain rfl := hslot doc' found'
    refine ⟨fun hidle => ?_, fun _ hopen hdirty hrerun => ⟨?_, hcontent hopen⟩⟩
    · simp [hasRun.phase] at hidle
    · have hmem : (r, run) ∈ c.state.machine.runsOf uri := by simp [runs]
      obtain ⟨hruns, huri⟩ := Scheduler.State.mem_runsOf.mp hmem
      have hfound := Assoc.get?_of_mem sound.machine.tidy.run_inj hruns
      obtain ⟨task, htask⟩ := (sound.alive r (by simp [hfound])).resolve_left List.not_mem_nil
      obtain ⟨hversion, htext⟩ := carries ⟨hdirty, hrerun, hopen⟩
      exact ⟨task, r, run, htask, hasRun.run, hfound, huri, hversion, htext⟩
  | stranded lost => exact lost.elim

/-- A rehearsal in which the first validation takes a while and a document has been opened. -/
def openedOnce : Rehearsal :=
  ((Rehearsal.start 250 [{ length := Duration.milliseconds 300 }] true).tell
    (Edit.opened "file:///a.pike" 1 "int x;").event).settle

theorem leads_openedOnce :
    Leads rules outside (opening 250 [{ length := Duration.milliseconds 300 }] true)
      [.edit (.opened "file:///a.pike" 1 "int x;")] ⟨openedOnce, []⟩ :=
  leads_settle (leads_tell .refl _)

/-- While a document is validated as it was opened the run carries that, and after a change during
the run it comes to rest only when it has been validated as changed. -/
theorem latest_edit_validated_of_change :
    (∃ task r run, Carried openedOnce.state "file:///a.pike"
      { version := 1, text := "int x;", phase := .running, run := some 0, idle := false } task
        r run) ∧
    ∃ os, known "file:///a.pike" os = some (2, "int y;") ∧
      ((openedOnce.tell (Edit.change "file:///a.pike" 2 "int y;").event).advance
        1000).state.lastBegun
        "file:///a.pike" = some (2, "int y;") := by
  have hrunning : openedOnce.state.machine.slotOf? "file:///a.pike" = some (0,
      { version := 1, text := "int x;", phase := .running, run := some 0, idle := false }) := by
    decide +kernel
  obtain ⟨times, course⟩ :=
    leads_advance (leads_tell leads_openedOnce (.change "file:///a.pike" 2 "int y;")) 1000
  have hidle : ((openedOnce.tell (Edit.change "file:///a.pike" 2 "int y;").event).advance
      1000).state.machine.slotOf? "file:///a.pike" =
        some (0, { version := 2, text := "int y;" }) := by
    decide +kernel
  obtain ⟨hlast, hknown⟩ := (latest_edit_validated course hidle).1 rfl
  exact ⟨((latest_edit_validated leads_openedOnce hrunning).2 rfl rfl rfl rfl).1, _, hknown, hlast⟩

/-! ## One run at a time -/

/-- A task that has not ended and whose run is of a document.  It may not have begun, or it may be
asleep. -/
def Validating (s : State) (uri : String) (task : Nat) : Prop :=
  ∃ r run, s.loop.jobOf task = some (.run r) ∧ Assoc.get? r s.machine.runs = some run ∧
    run.uri = uri

/-- Every run's task that has not ended is validating some document, and no two are validating the
same one.  The document may have been closed and opened again in between: then the run of its former
slot is the one that goes on, and there is no other until it has ended.  Only a stop of the
scheduler is not among the edits. -/
theorem one_validation_per_document
    (course : Leads rules outside (opening debounce behaviours watchesClosing) os c) :
    (∀ task r, c.state.loop.jobOf task = some (.run r) → ∃ uri, Validating c.state uri task) ∧
    (∀ uri task other, Validating c.state uri task → Validating c.state uri other →
      task = other) := by
  obtain ⟨sound, -⟩ := sound_of_leads course
  constructor
  · intro task r htask
    obtain ⟨run, hrun⟩ := Option.ne_none_iff_exists'.mp ((sound.running task r htask).2 nofun)
    exact ⟨run.uri, r, run, htask, hrun, rfl⟩
  · rintro uri task other ⟨r, run, htask, hrun, huri⟩ ⟨r', run', hother, hrun', huri'⟩
    obtain ⟨-, -, -, -, -, -, runs⟩ := sound.machine.running_of_run hrun
    have hmem : (r', run') ∈ c.state.machine.runsOf run.uri :=
      Scheduler.State.mem_runsOf.mpr ⟨Assoc.mem_of_get? hrun', huri'.trans huri.symm⟩
    rw [runs, List.mem_singleton] at hmem
    obtain ⟨rfl, -⟩ := Prod.mk.inj hmem
    exact sound.books.unique task other r' htask hother

/-- A document that is closed and opened again during its run still has that run only. -/
theorem one_validation_of_reopened :
    let m := (openedOnce.tell (Edit.close "file:///a.pike").event).tell
      (Edit.opened "file:///a.pike" 2 "int y;").event
    ∀ task, Validating m.state "file:///a.pike" task ↔ task = 0 := by
  intro m task
  have course := leads_tell (leads_tell leads_openedOnce (.close "file:///a.pike"))
    (.opened "file:///a.pike" 2 "int y;")
  have hfirst : Validating m.state "file:///a.pike" 0 := by
    refine ⟨0, ⟨"file:///a.pike", 0, 1, "int x;"⟩, ?_, by decide +kernel, rfl⟩
    rfl
  constructor
  · intro htask
    exact (one_validation_per_document course).2 _ task 0 htask hfirst
  · rintro rfl
    exact hfirst

end PikeAnalysis.Simulation.Scheduling
