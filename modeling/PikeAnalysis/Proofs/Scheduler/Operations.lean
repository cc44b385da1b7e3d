import Mathlib.Logic.Basic
import Mathlib.Tactic.Common
import PikeAnalysis.Scheduler.Machine

/-!
# How a document stands with the scheduler

Everything that the scheduler holds for one document: its slot, its timers and its runs.  `Standing`
lists the ways in which these can go together between two events.  Within an event a document passes
through states that are not among them; `Loose` describes those, in which nothing is under way.

The lemmas here say what each operation of the machine does to the standing of the document that it
is about, and that it leaves all other documents alone.  Events are put together from them in
`Proofs/Scheduler/Invariant.lean`.

A document can stand in few ways, and each has its own condition on slot, timers and runs: it is
absent, rests, waits with exactly one timer, or has exactly one run, be it open or closed; and where
runs may be lost, it may be stranded without the run that it had.  That there is only one timer and
one run of a document is part of the standing and not of a separate invariant, so that no operation
has to be looked at twice.

Frames are stated with `SameFor`: two states that hold the same slot, timers and runs of a document.
Each of the small changes of which operations consist, such as dropping a timer or writing a slot,
has one lemma about the document that it is about and one about all others.
-/

namespace PikeAnalysis.Scheduler

namespace State

/-- The timers of a document.  There is one at most, which is part of what is shown. -/
def timersOf (s : State) (uri : String) : List (Nat × TimerEntry) :=
  s.timers.filter fun e => decide (e.2.uri = uri)

/-- The runs of a document.  There may be one of a former slot after a stop. -/
def runsOf (s : State) (uri : String) : List (Nat × Run) :=
  s.runs.filter fun e => decide (e.2.uri = uri)

end State

/-! ## Slots -/

/-- Nothing is under way for the slot.  No mark of an edit or a save is left over, so whoever waits
for the document to become idle need not wait. -/
structure Slot.Rests (slot : Slot) : Prop where
  phase : slot.phase = .idle
  timer : slot.timer = none
  run : slot.run = none
  dirty : slot.dirty = false
  rerunNow : slot.rerunNow = false
  closed : slot.closed = false
  idle : slot.idle = true

/-- The slot waits for a timer.  An edit that came during the run before may still be marked.  Such
a mark means nothing any more, since the run that starts when the timer fires is of the latest text
anyway. -/
structure Slot.Waits (slot : Slot) (timer : Nat) : Prop where
  phase : slot.phase = .pending
  timer : slot.timer = some timer
  run : slot.run = none
  rerunNow : slot.rerunNow = false
  closed : slot.closed = false
  idle : slot.idle = false

/-- The slot has a run.  The slot of a document that was closed in the meantime has no marks: what
follows the run is then that the document goes, and nothing else. -/
structure Slot.Runs (slot : Slot) (run : Nat) : Prop where
  phase : slot.phase = .running
  timer : slot.timer = none
  run : slot.run = some run
  dirty : slot.closed = true → slot.dirty = false
  rerunNow : slot.closed = true → slot.rerunNow = false
  idle : slot.idle = false

/-- No edit, save or close came to the slot since its run began.  So the run is still of the latest
version and text, and the document comes to rest when the run ends. -/
structure Slot.Undisturbed (slot : Slot) : Prop where
  dirty : slot.dirty = false
  rerunNow : slot.rerunNow = false
  closed : slot.closed = false

/-- The run is of what the slot holds.  This holds from the start of a run up to the next edit, and
again of every run that starts. -/
structure Run.Carries (run : Run) (slot : Slot) : Prop where
  version : run.version = slot.version
  text : run.text = slot.text

/-! ## Documents -/

/-- What the standing of a document depends on besides the scheduler. -/
structure Setting where
  /-- Whether a run may be dropped while it is under way. -/
  lossy : Prop
  /-- Whether the latest validation of a document was of this version and text. -/
  validated : String → Int → String → Prop

/-- How a document stands between two events.  A run that was dropped strands its slot, which is
only to be expected in a lossy setting.  In the other cases the document is unknown, rests, or has
just one timer or just one run. -/
inductive Standing (w : Setting) (s : State) (uri : String) : Prop
  | absent (doc : Assoc.get? uri s.docs = none)
      (timers : s.timersOf uri = []) (runs : s.runsOf uri = [])
  | resting {id : Nat} {slot : Slot} (doc : Assoc.get? uri s.docs = some id)
      (found : s.slot? id = some slot) (rests : slot.Rests)
      (validated : w.validated uri slot.version slot.text)
      (timers : s.timersOf uri = []) (runs : s.runsOf uri = [])
  | waiting {id : Nat} {slot : Slot} {timer : Nat} (doc : Assoc.get? uri s.docs = some id)
      (found : s.slot? id = some slot) (waits : slot.Waits timer)
      (timers : s.timersOf uri = [(timer, ⟨uri, id⟩)]) (runs : s.runsOf uri = [])
  | running {id : Nat} {slot : Slot} {r : Nat} {run : Run}
      (doc : Assoc.get? uri s.docs = some id)
      (found : s.slot? id = some slot) (hasRun : slot.Runs r) (slotOf : run.slot = id)
      (carries : slot.Undisturbed → run.Carries slot)
      (timers : s.timersOf uri = []) (runs : s.runsOf uri = [(r, run)])
  | stranded {id : Nat} {slot : Slot} {r : Nat} (lost : w.lossy)
      (doc : Assoc.get? uri s.docs = some id)
      (found : s.slot? id = some slot) (hasRun : slot.Runs r)
      (timers : s.timersOf uri = []) (runs : s.runsOf uri = [])

/-- Numbers are given once: nothing that exists has a number yet to be given, and no two things
share one.  It does not depend on the setting, and survives a stop. -/
structure Tidy (s : State) : Prop where
  slot_lt : ∀ uri id, Assoc.get? uri s.docs = some id → id < s.nextSlot
  slot_inj : ∀ uri other id, Assoc.get? uri s.docs = some id → Assoc.get? other s.docs = some id →
    uri = other
  timer_lt : ∀ e ∈ s.timers, e.1 < s.nextTimer
  timer_inj : ∀ e ∈ s.timers, ∀ f ∈ s.timers, e.1 = f.1 → e = f
  run_lt : ∀ e ∈ s.runs, e.1 < s.nextRun
  run_inj : ∀ e ∈ s.runs, ∀ f ∈ s.runs, e.1 = f.1 → e = f

/-- What holds of the scheduler between two events. -/
structure Inv (w : Setting) (s : State) : Prop where
  tidy : Tidy s
  standing : ∀ uri, Standing w s uri

/-- What holds within an event that is about a document.  Every other document stands in one of the
ways that there are, and of this one nothing is known. -/
structure Others (w : Setting) (s : State) (uri : String) : Prop where
  tidy : Tidy s
  standing : ∀ other, other ≠ uri → Standing w s other

/-- A registered document for which nothing is under way; its phase and its marks may be anything.
From here it can be put to rest, given a timer, or given a run. -/
structure Loose (s : State) (uri : String) (id : Nat) (slot : Slot) : Prop where
  doc : Assoc.get? uri s.docs = some id
  found : s.slot? id = some slot
  timer : slot.timer = none
  run : slot.run = none
  timers : s.timersOf uri = []
  runs : s.runsOf uri = []

variable {w : Setting} {s t : State} {uri other : String} {id : Nat} {slot : Slot}

theorem Inv.others (h : Inv w s) (uri : String) : Others w s uri :=
  ⟨h.tidy, fun other _ => h.standing other⟩

theorem Others.inv (h : Others w s uri) (hs : Standing w s uri) : Inv w s := by
  refine ⟨h.tidy, fun other => ?_⟩
  by_cases ho : other = uri
  · exact ho ▸ hs
  · exact h.standing other ho

/-! ## Leaving a document alone -/

/-- Two states hold the same for a document. -/
structure SameFor (uri : String) (s t : State) : Prop where
  doc : Assoc.get? uri t.docs = Assoc.get? uri s.docs
  slot : ∀ id, Assoc.get? uri s.docs = some id → t.slot? id = s.slot? id
  timers : t.timersOf uri = s.timersOf uri
  runs : t.runsOf uri = s.runsOf uri

theorem Standing.congr (same : SameFor uri s t) (h : Standing w s uri) :
    Standing w t uri := by
  cases h with
  | absent doc timers runs =>
    exact .absent (same.doc.trans doc) (same.timers.trans timers) (same.runs.trans runs)
  | resting doc found rests validated timers runs =>
    exact .resting (same.doc.trans doc) ((same.slot _ doc).trans found) rests validated
      (same.timers.trans timers) (same.runs.trans runs)
  | waiting doc found waits timers runs =>
    exact .waiting (same.doc.trans doc) ((same.slot _ doc).trans found) waits
      (same.timers.trans timers) (same.runs.trans runs)
  | running doc found hasRun slotOf carries timers runs =>
    exact .running (same.doc.trans doc) ((same.slot _ doc).trans found) hasRun slotOf carries
      (same.timers.trans timers) (same.runs.trans runs)
  | stranded lost doc found hasRun timers runs =>
    exact .stranded lost (same.doc.trans doc) ((same.slot _ doc).trans found) hasRun
      (same.timers.trans timers) (same.runs.trans runs)

theorem Others.congr (h : Others w s uri) (tidy : Tidy t)
    (same : ∀ other, other ≠ uri → SameFor other s t) : Others w t uri :=
  ⟨tidy, fun other ho => (h.standing other ho).congr (same other ho)⟩

/-- The setting may change as long as it agrees about the documents that rest. -/
theorem Inv.resettle {w' : Setting} (h : Inv w s) (lossy : w.lossy → w'.lossy)
    (validated : ∀ uri id slot, Assoc.get? uri s.docs = some id → s.slot? id = some slot →
      slot.Rests → w.validated uri slot.version slot.text →
        w'.validated uri slot.version slot.text) :
    Inv w' s := by
  refine ⟨h.tidy, fun uri => ?_⟩
  cases h.standing uri with
  | absent doc timers runs => exact .absent doc timers runs
  | resting doc found rests shown timers runs =>
    exact .resting doc found rests (validated _ _ _ doc found rests shown) timers runs
  | waiting doc found waits timers runs => exact .waiting doc found waits timers runs
  | running doc found hasRun slotOf carries timers runs =>
    exact .running doc found hasRun slotOf carries timers runs
  | stranded lost doc found hasRun timers runs =>
    exact .stranded (lossy lost) doc found hasRun timers runs

/-! ## Reading -/

namespace State

@[simp] theorem slot?_setSlot (s : State) (id other : Nat) (slot : Slot) :
    (s.setSlot id slot).slot? other = if other = id then some slot else s.slot? other :=
  Assoc.get?_set id other slot s.slots

theorem slot?_setSlot_self (s : State) (id : Nat) (slot : Slot) :
    (s.setSlot id slot).slot? id = some slot := by
  simp

@[simp] theorem docs_setSlot (s : State) (id : Nat) (slot : Slot) :
    (s.setSlot id slot).docs = s.docs := rfl

@[simp] theorem timers_setSlot (s : State) (id : Nat) (slot : Slot) :
    (s.setSlot id slot).timers = s.timers := rfl

@[simp] theorem runs_setSlot (s : State) (id : Nat) (slot : Slot) :
    (s.setSlot id slot).runs = s.runs := rfl

@[simp] theorem nextSlot_setSlot (s : State) (id : Nat) (slot : Slot) :
    (s.setSlot id slot).nextSlot = s.nextSlot := rfl

@[simp] theorem nextTimer_setSlot (s : State) (id : Nat) (slot : Slot) :
    (s.setSlot id slot).nextTimer = s.nextTimer := rfl

@[simp] theorem nextRun_setSlot (s : State) (id : Nat) (slot : Slot) :
    (s.setSlot id slot).nextRun = s.nextRun := rfl

@[simp] theorem timersOf_setSlot (s : State) (id : Nat) (slot : Slot) (uri : String) :
    (s.setSlot id slot).timersOf uri = s.timersOf uri := rfl

@[simp] theorem runsOf_setSlot (s : State) (id : Nat) (slot : Slot) (uri : String) :
    (s.setSlot id slot).runsOf uri = s.runsOf uri := rfl

theorem mem_timersOf {e : Nat × TimerEntry} :
    e ∈ s.timersOf uri ↔ e ∈ s.timers ∧ e.2.uri = uri := by
  simp [timersOf]

theorem mem_runsOf {e : Nat × Run} : e ∈ s.runsOf uri ↔ e ∈ s.runs ∧ e.2.uri = uri := by
  simp [runsOf]

theorem slotOf?_of_found (doc : Assoc.get? uri s.docs = some id) (found : s.slot? id = some slot) :
    s.slotOf? uri = some (id, slot) := by
  simp [slotOf?, doc, found]

theorem found_of_slotOf? (h : s.slotOf? uri = some (id, slot)) :
    Assoc.get? uri s.docs = some id ∧ s.slot? id = some slot := by
  rw [slotOf?, Option.bind_eq_some_iff] at h
  obtain ⟨i, hi, hslot⟩ := h
  obtain ⟨found, hfound, he⟩ := Option.map_eq_some_iff.mp hslot
  obtain ⟨rfl, rfl⟩ := Prod.mk.inj he
  exact ⟨hi, hfound⟩

theorem slotOf?_of_absent (doc : Assoc.get? uri s.docs = none) : s.slotOf? uri = none := by
  simp [slotOf?, doc]

end State

end PikeAnalysis.Scheduler

/-!
## What the operations of the scheduler do

For each operation of the machine: what it yields where its slot is known, and how the document that
it is about stands before and after it.
-/

namespace PikeAnalysis.Scheduler

variable {w : Setting} {s t : State} {uri other : String} {id : Nat} {slot : Slot}

/-! ### Frames -/

theorem SameFor.trans {u : State} (h : SameFor uri s t) (k : SameFor uri t u) :
    SameFor uri s u := by
  refine ⟨k.doc.trans h.doc, fun id hid => ?_, k.timers.trans h.timers, k.runs.trans h.runs⟩
  rw [k.slot id (h.doc.trans hid), h.slot id hid]

theorem Tidy.setSlot (h : Tidy s) (id : Nat) (slot : Slot) : Tidy (s.setSlot id slot) :=
  ⟨h.slot_lt, h.slot_inj, h.timer_lt, h.timer_inj, h.run_lt, h.run_inj⟩

/-- Writing the slot of a document leaves the others alone. -/
theorem sameFor_setSlot (h : Tidy s) (doc : Assoc.get? uri s.docs = some id) (slot : Slot)
    (ho : other ≠ uri) : SameFor other s (s.setSlot id slot) := by
  refine ⟨rfl, fun other' hother => ?_, rfl, rfl⟩
  have hne : other' ≠ id := fun he => ho (h.slot_inj _ _ _ (he ▸ hother) doc)
  simp [hne]

theorem Others.setSlot (h : Others w s uri) (doc : Assoc.get? uri s.docs = some id)
    (slot : Slot) : Others w (s.setSlot id slot) uri :=
  h.congr (h.tidy.setSlot id slot) fun _ ho => sameFor_setSlot h.tidy doc slot ho

/-- A timer with a new number. -/
def State.addTimer (s : State) (uri : String) (id : Nat) : State :=
  { s with
    nextTimer := s.nextTimer + 1, timers := s.timers ++ [(s.nextTimer, { uri, slot := id })] }

/-- A run with a new number. -/
def State.addRun (s : State) (run : Run) : State :=
  { s with nextRun := s.nextRun + 1, runs := s.runs ++ [(s.nextRun, run)] }

/-- The state without a timer. -/
def State.dropTimer (s : State) (timer : Nat) : State :=
  { s with timers := Assoc.erase timer s.timers }

/-- The state without a run. -/
def State.dropRun (s : State) (r : Nat) : State :=
  { s with runs := Assoc.erase r s.runs }

/-- The state in which a document is not registered. -/
def State.unregister (s : State) (uri : String) : State :=
  { s with docs := Assoc.erase uri s.docs }

theorem Tidy.addTimer (h : Tidy s) (uri : String) (id : Nat) : Tidy (s.addTimer uri id) := by
  refine { h with timer_lt := fun e he => ?_, timer_inj := fun e he f hf hef => ?_ }
  · rcases List.mem_append.mp he with he | he
    · exact Nat.lt_succ_of_lt (h.timer_lt e he)
    · rw [List.mem_singleton.mp he]
      exact Nat.lt_succ_self _
  · rcases List.mem_append.mp he with he | he <;> rcases List.mem_append.mp hf with hf | hf
    · exact h.timer_inj e he f hf hef
    · rw [List.mem_singleton.mp hf] at hef
      exact absurd hef (Nat.ne_of_lt (h.timer_lt e he))
    · rw [List.mem_singleton.mp he] at hef
      exact absurd hef.symm (Nat.ne_of_lt (h.timer_lt f hf))
    · rw [List.mem_singleton.mp he, List.mem_singleton.mp hf]

theorem Tidy.addRun (h : Tidy s) (run : Run) : Tidy (s.addRun run) := by
  refine { h with run_lt := fun e he => ?_, run_inj := fun e he f hf hef => ?_ }
  · rcases List.mem_append.mp he with he | he
    · exact Nat.lt_succ_of_lt (h.run_lt e he)
    · rw [List.mem_singleton.mp he]
      exact Nat.lt_succ_self _
  · rcases List.mem_append.mp he with he | he <;> rcases List.mem_append.mp hf with hf | hf
    · exact h.run_inj e he f hf hef
    · rw [List.mem_singleton.mp hf] at hef
      exact absurd hef (Nat.ne_of_lt (h.run_lt e he))
    · rw [List.mem_singleton.mp he] at hef
      exact absurd hef.symm (Nat.ne_of_lt (h.run_lt f hf))
    · rw [List.mem_singleton.mp he, List.mem_singleton.mp hf]

theorem Tidy.dropTimer (h : Tidy s) (timer : Nat) : Tidy (s.dropTimer timer) :=
  { h with
    timer_lt := fun e he => h.timer_lt e (Assoc.mem_erase.mp he).1
    timer_inj := fun e he f hf =>
      h.timer_inj e (Assoc.mem_erase.mp he).1 f (Assoc.mem_erase.mp hf).1 }

theorem Tidy.dropRun (h : Tidy s) (r : Nat) : Tidy (s.dropRun r) :=
  { h with
    run_lt := fun e he => h.run_lt e (Assoc.mem_erase.mp he).1
    run_inj := fun e he f hf => h.run_inj e (Assoc.mem_erase.mp he).1 f (Assoc.mem_erase.mp hf).1 }

theorem Tidy.unregister (h : Tidy s) (uri : String) : Tidy (s.unregister uri) := by
  have keep : ∀ {u i}, Assoc.get? u (Assoc.erase uri s.docs) = some i →
    Assoc.get? u s.docs = some i := by
    intro u i hu
    rw [Assoc.get?_erase] at hu
    split at hu
    · cases hu
    · exact hu
  exact { h with
    slot_lt := fun u i hu => h.slot_lt u i (keep hu)
    slot_inj := fun u v i hu hv => h.slot_inj u v i (keep hu) (keep hv) }

theorem sameFor_addTimer (uri : String) (id : Nat) (ho : other ≠ uri) :
    SameFor other s (s.addTimer uri id) :=
  ⟨rfl, fun _ _ => rfl, by simp [State.timersOf, State.addTimer, Ne.symm ho], rfl⟩

theorem sameFor_addRun (run : Run) (ho : other ≠ run.uri) : SameFor other s (s.addRun run) :=
  ⟨rfl, fun _ _ => rfl, rfl, by simp [State.runsOf, State.addRun, Ne.symm ho]⟩

/-- A timer that is not another document's leaves that document alone when it goes. -/
theorem sameFor_dropTimer {timer : Nat} (h : ∀ e ∈ s.timers, e.1 = timer → e.2.uri ≠ other) :
    SameFor other s (s.dropTimer timer) := by
  refine ⟨rfl, fun _ _ => rfl, ?_, rfl⟩
  simp only [State.timersOf, State.dropTimer, Assoc.erase, List.filter_filter]
  refine List.filter_congr fun e he => ?_
  by_cases hk : e.1 = timer
  · simp [h e he hk]
  · simp [hk]

theorem sameFor_dropRun {r : Nat} (h : ∀ e ∈ s.runs, e.1 = r → e.2.uri ≠ other) :
    SameFor other s (s.dropRun r) := by
  refine ⟨rfl, fun _ _ => rfl, rfl, ?_⟩
  simp only [State.runsOf, State.dropRun, Assoc.erase, List.filter_filter]
  refine List.filter_congr fun e he => ?_
  by_cases hk : e.1 = r
  · simp [h e he hk]
  · simp [hk]

theorem sameFor_unregister (ho : other ≠ uri) : SameFor other s (s.unregister uri) :=
  ⟨Assoc.get?_erase_of_ne ho s.docs, fun _ _ => rfl, rfl, rfl⟩

/-- The only timer of a document is found under its number. -/
theorem Tidy.timer_uri {timer : Nat} {entry : TimerEntry} (h : Tidy s)
    (timers : s.timersOf uri = [(timer, entry)]) (e : Nat × TimerEntry) (he : e ∈ s.timers)
    (hk : e.1 = timer) : e = (timer, entry) := by
  have hmem : (timer, entry) ∈ s.timersOf uri := by simp [timers]
  exact h.timer_inj e he _ (State.mem_timersOf.mp hmem).1 hk

theorem Tidy.run_uri {r : Nat} {run : Run} (h : Tidy s) (runs : s.runsOf uri = [(r, run)])
    (e : Nat × Run) (he : e ∈ s.runs) (hk : e.1 = r) : e = (r, run) := by
  have hmem : (r, run) ∈ s.runsOf uri := by simp [runs]
  exact h.run_inj e he _ (State.mem_runsOf.mp hmem).1 hk

theorem timersOf_dropTimer {timer : Nat} {entry : TimerEntry}
    (timers : s.timersOf uri = [(timer, entry)]) : (s.dropTimer timer).timersOf uri = [] := by
  rw [List.eq_nil_iff_forall_not_mem]
  intro e he
  obtain ⟨hmem, huri⟩ := State.mem_timersOf.mp he
  obtain ⟨hold, hne⟩ := Assoc.mem_erase.mp hmem
  have : e ∈ s.timersOf uri := State.mem_timersOf.mpr ⟨hold, huri⟩
  rw [timers, List.mem_singleton] at this
  exact hne (congrArg Prod.fst this)

theorem runsOf_dropRun {r : Nat} {run : Run} (runs : s.runsOf uri = [(r, run)]) :
    (s.dropRun r).runsOf uri = [] := by
  rw [List.eq_nil_iff_forall_not_mem]
  intro e he
  obtain ⟨hmem, huri⟩ := State.mem_runsOf.mp he
  obtain ⟨hold, hne⟩ := Assoc.mem_erase.mp hmem
  have : e ∈ s.runsOf uri := State.mem_runsOf.mpr ⟨hold, huri⟩
  rw [runs, List.mem_singleton] at this
  exact hne (congrArg Prod.fst this)

theorem timersOf_addTimer (timers : s.timersOf uri = []) :
    (s.addTimer uri id).timersOf uri = [(s.nextTimer, ⟨uri, id⟩)] := by
  have hold : s.timers.filter (fun e => decide (e.2.uri = uri)) = [] := timers
  simp [State.timersOf, State.addTimer, hold]

theorem runsOf_addRun {run : Run} (hrun : run.uri = uri) (runs : s.runsOf uri = []) :
    (s.addRun run).runsOf uri = [(s.nextRun, run)] := by
  have hold : s.runs.filter (fun e => decide (e.2.uri = uri)) = [] := runs
  simp [State.runsOf, State.addRun, hrun, hold]

/-! ### Timers -/

theorem cancelTimer_of_none (found : s.slot? id = some slot) (timer : slot.timer = none) :
    s.cancelTimer id = (s, []) := by
  simp [State.cancelTimer, found, timer]

theorem cancelTimer_of_some {timer : Nat} (found : s.slot? id = some slot)
    (htimer : slot.timer = some timer) :
    s.cancelTimer id =
      ((s.dropTimer timer).setSlot id { slot with timer := none }, [.cancelTimer timer]) := by
  simp [State.cancelTimer, found, htimer, State.dropTimer]

/-- A document that waits is loose once its timer is gone.  Of all other documents the invariant
still holds. -/
theorem Others.dropTimer {timer : Nat} (h : Others w s uri)
    (doc : Assoc.get? uri s.docs = some id) (waits : slot.Waits timer)
    (timers : s.timersOf uri = [(timer, ⟨uri, id⟩)]) (runs : s.runsOf uri = []) :
    Others w ((s.dropTimer timer).setSlot id { slot with timer := none }) uri ∧
      Loose ((s.dropTimer timer).setSlot id { slot with timer := none }) uri id
        { slot with timer := none } := by
  have tidy := h.tidy.dropTimer timer
  have hothers : Others w (s.dropTimer timer) uri := h.congr tidy fun other ho =>
    sameFor_dropTimer fun e he hk => by
      rw [h.tidy.timer_uri timers e he hk]
      exact Ne.symm ho
  exact ⟨hothers.setSlot doc _,
    { doc
      found := by simp
      timer := rfl
      run := waits.run
      timers := timersOf_dropTimer timers
      runs }⟩

theorem armTimer_of_none (found : s.slot? id = some slot) (timer : slot.timer = none) :
    s.armTimer uri id =
      ((s.addTimer uri id).setSlot id
        { slot with phase := .pending, idle := false, timer := some s.nextTimer },
        [.armTimer s.nextTimer]) := by
  simp [State.armTimer, cancelTimer_of_none found timer, found, State.addTimer]

theorem armTimer_of_some {timer : Nat} (found : s.slot? id = some slot)
    (htimer : slot.timer = some timer) :
    s.armTimer uri id =
      ((((s.dropTimer timer).setSlot id { slot with timer := none }).armTimer uri id).1,
        .cancelTimer timer ::
          (((s.dropTimer timer).setSlot id { slot with timer := none }).armTimer uri id).2) := by
  rw [armTimer_of_none (State.slot?_setSlot_self ..) rfl]
  simp [State.armTimer, cancelTimer_of_some found htimer, State.addTimer]

theorem Others.armTimer (h : Others w s uri) (l : Loose s uri id slot)
    (rerunNow : slot.rerunNow = false) (closed : slot.closed = false) :
    Inv w (s.armTimer uri id).1 := by
  rw [armTimer_of_none l.found l.timer]
  have hothers : Others w (s.addTimer uri id) uri :=
    h.congr (h.tidy.addTimer uri id) fun other ho => sameFor_addTimer uri id ho
  refine (hothers.setSlot l.doc _).inv ?_
  exact .waiting l.doc (State.slot?_setSlot_self ..)
    ⟨rfl, rfl, l.run, rerunNow, closed, rfl⟩ (timersOf_addTimer l.timers) l.runs

/-! ### Runs -/

/-- The run of what a slot holds. -/
def Slot.runFor (slot : Slot) (uri : String) (id : Nat) : Run :=
  { uri, slot := id, version := slot.version, text := slot.text }

theorem startRun_of_found (found : s.slot? id = some slot) :
    s.startRun uri id =
      ((s.addRun (slot.runFor uri id)).setSlot id
        { slot with
          phase := .running, dirty := false, rerunNow := false, idle := false
          run := some s.nextRun },
        [.startRun s.nextRun]) := by
  simp [State.startRun, found, State.addRun, Slot.runFor]

theorem Others.startRun (h : Others w s uri) (l : Loose s uri id slot) :
    Inv w (s.startRun uri id).1 := by
  rw [startRun_of_found l.found]
  have hothers : Others w (s.addRun (slot.runFor uri id)) uri :=
    h.congr (h.tidy.addRun _) fun other ho => sameFor_addRun _ ho
  refine (hothers.setSlot l.doc _).inv ?_
  exact .running l.doc (State.slot?_setSlot_self ..)
    ⟨rfl, l.timer, rfl, fun _ => rfl, fun _ => rfl, rfl⟩ rfl (fun _ => ⟨rfl, rfl⟩)
    l.timers (runsOf_addRun rfl l.runs)

/-- A document with a run is loose once the run is gone.  Of all other documents the invariant still
holds. -/
theorem Others.dropRun {r : Nat} {run : Run} (h : Others w s uri)
    (doc : Assoc.get? uri s.docs = some id) (hasRun : slot.Runs r)
    (timers : s.timersOf uri = []) (runs : s.runsOf uri = [(r, run)]) :
    Others w ((s.dropRun r).setSlot id { slot with run := none }) uri ∧
      Loose ((s.dropRun r).setSlot id { slot with run := none }) uri id
        { slot with run := none } := by
  have huri : run.uri = uri := (State.mem_runsOf.mp (by simp [runs] : (r, run) ∈ s.runsOf uri)).2
  have hothers : Others w (s.dropRun r) uri := h.congr (h.tidy.dropRun r) fun other ho =>
    sameFor_dropRun fun e he hk => by
      rw [h.tidy.run_uri runs e he hk, huri]
      exact Ne.symm ho
  exact ⟨hothers.setSlot doc _,
    { doc
      found := by simp
      timer := hasRun.timer
      run := rfl
      timers
      runs := runsOf_dropRun runs }⟩

/-! ### Rest and closing -/

theorem makeIdle_of_found (found : s.slot? id = some slot) :
    s.makeIdle id =
      (s.setSlot id { slot with phase := .idle, idle := true, waiters := [] },
        if slot.waiters.isEmpty then [] else [.wake slot.waiters]) := by
  simp [State.makeIdle, found]

theorem Others.makeIdle (h : Others w s uri) (l : Loose s uri id slot)
    (quiet : slot.Undisturbed) (validated : w.validated uri slot.version slot.text) :
    Inv w (s.makeIdle id).1 := by
  rw [makeIdle_of_found l.found]
  exact (h.setSlot l.doc _).inv <| .resting l.doc (State.slot?_setSlot_self ..)
    ⟨rfl, l.timer, l.run, quiet.dirty, quiet.rerunNow, quiet.closed, rfl⟩ validated l.timers l.runs

/-- A loose document that is no longer registered is absent, whatever becomes of its slot. -/
theorem Others.unregister (h : Others w s uri) (l : Loose s uri id slot) :
    Inv w ((s.unregister uri).makeIdle id).1 := by
  have hfound : (s.unregister uri).slot? id = some slot := l.found
  rw [makeIdle_of_found hfound]
  have hothers : Others w ((s.setSlot id
      { slot with phase := .idle, idle := true, waiters := [] }).unregister uri) uri :=
    (h.setSlot l.doc _).congr ((h.tidy.setSlot _ _).unregister uri) fun _ ho =>
      sameFor_unregister ho
  exact hothers.inv <| .absent (Assoc.get?_erase_self uri s.docs) l.timers l.runs

end PikeAnalysis.Scheduler
