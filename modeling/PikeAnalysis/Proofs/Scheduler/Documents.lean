import PikeAnalysis.Proofs.Scheduler.Invariant
import PikeAnalysis.Proofs.Scheduler.Waiters

/-!
# What the scheduler holds for one document

A document as it shows from outside: what it holds, whether it waits for its timer or has its run,
and what is to follow that run.  `Doc` leaves open what stands for the timer or the run, so that the
same transitions can be read of the numbers that the scheduler gives and of what becomes of its
tasks.

Each event moves the document that it is about as `Doc` says, tells of what it gives up and begins,
and leaves all other documents alone (`does_edit`, `does_fired`, `does_ended`).

`Shows` ties the slots, timers and runs of one document to a `Doc`, and `Does` says what an event
makes of it and what is to be done outside.  An edit is seen as two steps: first the document is
made ready, which gives up the timer or the run that it has (`Readied`), and then what the event
asks for is begun.  That the scheduler does these in one go, and in another order for a document
that is new, does not show in what results.

The type is general in what stands for timers and runs, since the rehearsals of `Proofs/Simulation`
read the same transitions with how far the tasks have come in that place.
-/

namespace PikeAnalysis.Scheduler

/-! ## Documents -/

/-- What follows the run of a document.  It is decided while the run is under way, by the last edit,
save or close that came, and carried out when the run ends; a later event may decide anew. -/
inductive Sequel where
  /-- The document comes to rest. -/
  | rest
  /-- The document waits, as an edit came. -/
  | wait
  /-- There is another run at once, as a save or open came. -/
  | again
  /-- The document goes, as it was closed. -/
  | leave
  deriving DecidableEq

/-- A document, with `α` for what stands for its timer or its run.  The four cases are mutually
exclusive and cover all that can be asked of a document from outside. -/
inductive Doc (α : Type) where
  | absent
  | resting (version : Int) (text : String)
  | waiting (version : Int) (text : String) (timer : α)
  /-- The run is of the subject, whatever the document holds by now. -/
  | running (version : Int) (text : String) (subject : Int × String) (sequel : Sequel) (run : α)

/-- What follows a run during which an edit came.  An edit does not take back what a save has asked
for. -/
def Sequel.changed : Sequel → Sequel
  | .again => .again
  | _ => .wait

namespace Doc

variable {α : Type}

/-- The version and text of a document; a new one has none to speak of. -/
def content : Doc α → Int × String
  | .absent => (0, "")
  | .resting version text | .waiting version text _ | .running version text _ _ _ => (version, text)

def phase : Doc α → Phase
  | .absent | .resting .. => .idle
  | .waiting .. => .pending
  | .running .. => .running

def isOpen : Doc α → Bool
  | .absent | .running _ _ _ .leave _ => false
  | _ => true

/-- The document with a run of what it holds.  Nothing has come since, so the document would come to
rest. -/
def begin (version : Int) (text : String) (run : α) : Doc α :=
  .running version text (version, text) .rest run

def changed (version : Int) (text : String) (timer : α) : Doc α → Doc α
  | .running _ _ subject sequel run => .running version text subject sequel.changed run
  | _ => .waiting version text timer

/-- The document after a save or an open.  During a run it is noted for the end of the run;
otherwise a run starts at once. -/
def validated (version : Option Int) (text : Option String) (run : α) : Doc α → Doc α
  | .running old was subject _ r => .running (version.getD old) (text.getD was) subject .again r
  | d => begin (version.getD d.content.1) (text.getD d.content.2) run

def saved (version : Option Int) (text : Option String) (run : α) (d : Doc α) : Doc α :=
  if !d.isOpen && (version.isNone || text.isNone) then d else d.validated version text run

def closed : Doc α → Doc α
  | .running version text subject _ run => .running version text subject .leave run
  | _ => .absent

/-- The document after an event that says something of it.  Events without a document change
none. -/
def told (timer run : α) : Event → Doc α → Doc α
  | .change _ version text, d => d.changed version text timer
  | .opened _ version text, d => d.validated (some version) (some text) run
  | .save _ version text, d => d.saved version text run
  | .close _, d => d.closed
  | _, d => d

/-- The document after its timer has fired. -/
def fired (run : α) : Doc α → Doc α
  | .waiting version text _ => begin version text run
  | d => d

/-- The document after its run has ended.  A document that was closed goes. -/
def ended (timer run : α) : Doc α → Doc α
  | .running version text _ .rest _ => .resting version text
  | .running version text _ .wait _ => .waiting version text timer
  | .running version text _ .again _ => begin version text run
  | .running _ _ _ .leave _ => .absent
  | d => d

/-- What is given up with a document that waits. -/
def gone : Doc Nat → List Effect
  | .waiting _ _ timer => [.cancelTimer timer]
  | _ => []

/-- What is begun with a document that has a new timer or run. -/
def begun : Doc Nat → List Effect
  | .waiting _ _ timer => [.armTimer timer]
  | .running _ _ _ _ run => [.startRun run]
  | _ => []

/-- What is to be done when an edit turns a document into another; with a run under way, nothing. -/
def replaced (d d' : Doc Nat) : List Effect :=
  match d with
  | .running .. => []
  | d => d.gone ++ d'.begun

end Doc

/-- What is marked in a slot for the end of its run. -/
def Slot.sequel (slot : Slot) : Sequel :=
  if slot.closed then .leave
  else if slot.rerunNow then .again
  else if slot.dirty then .wait
  else .rest

/-- How the scheduler holds a document.  There are four ways and no others, and in each the slot,
the timers and the runs of the document agree with one another: a timer belongs to a document that
waits, a run to one that is being validated, and neither to any other. -/
inductive Shows (s : State) (uri : String) : Doc Nat → Prop
  | absent (doc : Assoc.get? uri s.docs = none) (timers : s.timersOf uri = [])
      (runs : s.runsOf uri = []) : Shows s uri .absent
  | resting {id : Nat} {slot : Slot} (doc : Assoc.get? uri s.docs = some id)
      (found : s.slot? id = some slot) (rests : slot.Rests)
      (timers : s.timersOf uri = []) (runs : s.runsOf uri = []) :
      Shows s uri (.resting slot.version slot.text)
  | waiting {id : Nat} {slot : Slot} {timer : Nat} (doc : Assoc.get? uri s.docs = some id)
      (found : s.slot? id = some slot) (waits : slot.Waits timer)
      (timers : s.timersOf uri = [(timer, ⟨uri, id⟩)]) (runs : s.runsOf uri = []) :
      Shows s uri (.waiting slot.version slot.text timer)
  | running {id : Nat} {slot : Slot} {r : Nat} {run : Run} (doc : Assoc.get? uri s.docs = some id)
      (found : s.slot? id = some slot) (hasRun : slot.Runs r) (slotOf : run.slot = id)
      (timers : s.timersOf uri = []) (runs : s.runsOf uri = [(r, run)]) :
      Shows s uri (.running slot.version slot.text (run.version, run.text) slot.sequel r)

/-- Two states hold the same for all documents but one.  Their timers and runs have the same numbers
in both. -/
def Elsewhere (uri : String) (s t : State) : Prop :=
  ∀ other, other ≠ uri → SameFor other s t

/-- What an event about a document does: how the document shows then, and what is to be done.  All
other documents show as before. -/
structure Does (s : State) (uri : String) (d : Doc Nat) (out : List Effect)
    (p : State × List Effect) :
    Prop where
  shows : Shows p.1 uri d
  others : Elsewhere uri s p.1
  effects : p.2 = out
  debounce : p.1.debounce = s.debounce
  next : s.nextTimer ≤ p.1.nextTimer
  armed : ∀ timer, .armTimer timer ∈ out → timer = s.nextTimer ∧ timer < p.1.nextTimer

variable {w : Setting} {s t : State} {uri other : String} {id : Nat} {slot : Slot} {d : Doc Nat}

theorem Elsewhere.refl (uri : String) (s : State) : Elsewhere uri s s :=
  fun _ _ => ⟨rfl, fun _ _ => rfl, rfl, rfl⟩

theorem Elsewhere.trans {u : State} (h : Elsewhere uri s t) (k : Elsewhere uri t u) :
    Elsewhere uri s u :=
  fun other ho => (h other ho).trans (k other ho)

theorem Elsewhere.setSlot (h : Elsewhere uri s t) (tidy : Tidy t)
    (doc : Assoc.get? uri t.docs = some id) (slot : Slot) : Elsewhere uri s (t.setSlot id slot) :=
  h.trans fun _ ho => sameFor_setSlot tidy doc slot ho

/-! ## How documents show -/

theorem Shows.congr (same : SameFor uri s t) (h : Shows s uri d) : Shows t uri d := by
  cases h with
  | absent doc timers runs =>
    exact .absent (same.doc.trans doc) (same.timers.trans timers) (same.runs.trans runs)
  | resting doc found rests timers runs =>
    exact .resting (same.doc.trans doc) ((same.slot _ doc).trans found) rests
      (same.timers.trans timers)
      (same.runs.trans runs)
  | waiting doc found waits timers runs =>
    exact .waiting (same.doc.trans doc) ((same.slot _ doc).trans found) waits
      (same.timers.trans timers)
      (same.runs.trans runs)
  | running doc found hasRun slotOf timers runs =>
    exact .running (same.doc.trans doc) ((same.slot _ doc).trans found) hasRun slotOf
      (same.timers.trans timers) (same.runs.trans runs)

theorem Shows.phaseOf (h : Shows s uri d) : s.phaseOf uri = d.phase := by
  cases h with
  | absent doc => rw [State.phaseOf, State.slotOf?_of_absent doc]; rfl
  | resting doc found rests =>
    rw [State.phaseOf, State.slotOf?_of_found doc found]; exact rests.phase
  | waiting doc found waits =>
    rw [State.phaseOf, State.slotOf?_of_found doc found]; exact waits.phase
  | running doc found hasRun =>
    rw [State.phaseOf, State.slotOf?_of_found doc found]; exact hasRun.phase

/-! ## Documents with nothing under way -/

/-- On the way to what an event does, a document has been made ready for it: nothing is under
way. -/
structure Readied (s t : State) (uri : String) (id : Nat) (slot : Slot) : Prop where
  tidy : Tidy t
  loose : Loose t uri id slot
  others : Elsewhere uri s t
  debounce : t.debounce = s.debounce
  nextTimer : t.nextTimer = s.nextTimer
  nextRun : t.nextRun = s.nextRun

namespace Readied

theorem setSlot (h : Readied s t uri id slot) {a : Slot} (timer : a.timer = none)
    (run : a.run = none) :
    Readied s (t.setSlot id a) uri id a where
  tidy := h.tidy.setSlot id a
  loose := h.loose.setSlot timer run
  others := h.others.setSlot h.tidy h.loose.doc a
  debounce := h.debounce
  nextTimer := h.nextTimer
  nextRun := h.nextRun

theorem armTimer (h : Readied s t uri id slot) (rerunNow : slot.rerunNow = false)
    (closed : slot.closed = false) :
    Does s uri (.waiting slot.version slot.text s.nextTimer) [.armTimer s.nextTimer]
      (t.armTimer uri id) := by
  have added : Elsewhere uri s (t.addTimer uri id) :=
    h.others.trans fun _ ho => sameFor_addTimer uri id ho
  rw [armTimer_of_none h.loose.found h.loose.timer, ← h.nextTimer]
  let armed : Slot := { slot with phase := .pending, idle := false, timer := some t.nextTimer }
  have shows : Shows ((t.addTimer uri id).setSlot id armed) uri
      (.waiting armed.version armed.text t.nextTimer) :=
    .waiting h.loose.doc (State.slot?_setSlot_self ..)
      ⟨rfl, rfl, h.loose.run, rerunNow, closed, rfl⟩
      (timersOf_addTimer h.loose.timers) h.loose.runs
  exact
    { shows := shows
      others := added.setSlot (h.tidy.addTimer uri id) h.loose.doc _
      effects := rfl
      debounce := h.debounce
      next := h.nextTimer ▸ Nat.le_succ _
      armed := fun timer ht => by
        obtain rfl : timer = t.nextTimer := by simpa using ht
        exact ⟨h.nextTimer, Nat.lt_succ_self _⟩ }

theorem startRun (h : Readied s t uri id slot) (closed : slot.closed = false) :
    Does s uri (.begin slot.version slot.text s.nextRun) [.startRun s.nextRun]
      (t.startRun uri id) := by
  have added : Elsewhere uri s (t.addRun (slot.runFor uri id)) :=
    h.others.trans fun _ ho => sameFor_addRun _ ho
  let started : Slot := { slot with
    phase := .running, dirty := false, rerunNow := false, idle := false, run := some t.nextRun }
  have sequel : started.sequel = .rest := by simp [started, Slot.sequel, closed]
  have runs : (t.addRun (slot.runFor uri id)).runsOf uri = [(t.nextRun, slot.runFor uri id)] :=
    runsOf_addRun rfl h.loose.runs
  have shows : Shows ((t.addRun (slot.runFor uri id)).setSlot id started) uri
      (.running started.version started.text
        ((slot.runFor uri id).version, (slot.runFor uri id).text)
        started.sequel t.nextRun) :=
    .running h.loose.doc (State.slot?_setSlot_self ..)
      ⟨rfl, h.loose.timer, rfl, fun _ => rfl, fun _ => rfl, rfl⟩ rfl h.loose.timers runs
  rw [sequel] at shows
  rw [startRun_of_found h.loose.found, ← h.nextRun]
  exact
    { shows := shows
      others := added.setSlot (h.tidy.addRun _) h.loose.doc _
      effects := rfl
      debounce := h.debounce
      next := Nat.le_of_eq h.nextTimer.symm
      armed := fun timer ht => by simp at ht }

theorem makeIdle (h : Readied s t uri id slot) (quiet : slot.Undisturbed)
    (alone : slot.waiters = []) :
    Does s uri (.resting slot.version slot.text) [] (t.makeIdle id) := by
  rw [makeIdle_of_found h.loose.found, alone]
  let rested : Slot := { slot with phase := .idle, idle := true, waiters := [] }
  have shows : Shows (t.setSlot id rested) uri (.resting rested.version rested.text) :=
    .resting h.loose.doc (State.slot?_setSlot_self ..)
      ⟨rfl, h.loose.timer, h.loose.run, quiet.dirty, quiet.rerunNow, quiet.closed, rfl⟩
      h.loose.timers h.loose.runs
  exact
    { shows := shows
      others := h.others.setSlot h.tidy h.loose.doc _
      effects := rfl
      debounce := h.debounce
      next := Nat.le_of_eq h.nextTimer.symm
      armed := nofun }

theorem unregister (h : Readied s t uri id slot) (alone : slot.waiters = []) :
    Does s uri .absent [] ((t.unregister uri).makeIdle id) := by
  have hfound : (t.unregister uri).slot? id = some slot := h.loose.found
  rw [makeIdle_of_found hfound, alone]
  exact
    { shows := .absent (Assoc.get?_erase_self uri t.docs) h.loose.timers h.loose.runs
      others := (h.others.setSlot h.tidy h.loose.doc
        { slot with phase := .idle, idle := true, waiters := [] }).trans fun _ ho =>
          sameFor_unregister ho
      effects := rfl
      debounce := h.debounce
      next := Nat.le_of_eq h.nextTimer.symm
      armed := nofun }

/-- What was done to a document before it was made ready. -/
theorem after {u : State} (h : Readied u t uri id slot) (others : Elsewhere uri s u)
    (debounce : u.debounce = s.debounce) (nextTimer : u.nextTimer = s.nextTimer)
    (nextRun : u.nextRun = s.nextRun) : Readied s t uri id slot :=
  { h with
    others := others.trans h.others
    debounce := h.debounce.trans debounce
    nextTimer := h.nextTimer.trans nextTimer
    nextRun := h.nextRun.trans nextRun }

end Readied

/-- A document that rests has nothing under way. -/
theorem readied_of_resting (tidy : Tidy s) (doc : Assoc.get? uri s.docs = some id)
    (found : s.slot? id = some slot) (rests : slot.Rests) (timers : s.timersOf uri = [])
    (runs : s.runsOf uri = []) : Readied s s uri id slot :=
  ⟨tidy, ⟨doc, found, rests.timer, rests.run, timers, runs⟩, .refl uri s, rfl, rfl, rfl⟩

/-- A new document is registered.  It has neither a timer nor a run. -/
theorem readied_register (tidy : Tidy s) (timers : s.timersOf uri = []) (runs : s.runsOf uri = [])
    {a : Slot} (timer : a.timer = none) (run : a.run = none) :
    Readied s ((s.register uri).setSlot s.nextSlot a) uri s.nextSlot a := by
  have doc : Assoc.get? uri (s.register uri).docs = some s.nextSlot :=
    Assoc.get?_set_self uri s.nextSlot s.docs
  have registered : Elsewhere uri s (s.register uri) :=
    fun _ ho => ⟨Assoc.get?_set_of_ne ho _ _, fun _ _ => rfl, rfl, rfl⟩
  exact
    { tidy := (tidy.register uri).setSlot _ a
      loose := { doc, found := State.slot?_setSlot_self .., timer, run, timers, runs }
      others := registered.setSlot (tidy.register uri) doc a
      debounce := rfl
      nextTimer := rfl
      nextRun := rfl }

/-- A document that waits gives up its timer.  It was the only one that ran for the document. -/
theorem readied_dropTimer {timer : Nat} (tidy : Tidy s) (doc : Assoc.get? uri s.docs = some id)
    (waits : slot.Waits timer) (timers : s.timersOf uri = [(timer, ⟨uri, id⟩)])
    (runs : s.runsOf uri = []) :
    Readied s ((s.dropTimer timer).setSlot id { slot with timer := none }) uri id
      { slot with timer := none } := by
  have dropped : Elsewhere uri s (s.dropTimer timer) := fun other ho =>
    sameFor_dropTimer fun e he hk => by
      rw [tidy.timer_uri timers e he hk]
      exact Ne.symm ho
  exact
    { tidy := (tidy.dropTimer timer).setSlot id _
      loose :=
        { doc
          found := State.slot?_setSlot_self ..
          timer := rfl
          run := waits.run
          timers := timersOf_dropTimer timers
          runs }
      others := dropped.setSlot (tidy.dropTimer timer) doc _
      debounce := rfl
      nextTimer := rfl
      nextRun := rfl }

/-- A document with a run loses it, and the run is counted. -/
theorem readied_dropRun {r : Nat} {run : Run} (tidy : Tidy s)
    (doc : Assoc.get? uri s.docs = some id)
    (hasRun : slot.Runs r) (timers : s.timersOf uri = []) (runs : s.runsOf uri = [(r, run)])
    (n : Nat) :
    Readied s (({ s.dropRun r with completed := n } : State).setSlot id { slot with run := none })
      uri id
      { slot with run := none } := by
  have huri : run.uri = uri := (State.mem_runsOf.mp (by simp [runs] : (r, run) ∈ s.runsOf uri)).2
  -- The run was the only one of the document, and it was none of another.
  have dropped : Elsewhere uri s (s.dropRun r) := fun other ho =>
    sameFor_dropRun fun e he hk => by
      rw [tidy.run_uri runs e he hk, huri]
      exact Ne.symm ho
  have counted : Elsewhere uri s { s.dropRun r with completed := n } :=
    dropped.trans fun _ _ => ⟨rfl, fun _ _ => rfl, rfl, rfl⟩
  have tidy' := tidy.dropRun r
  have counts : Tidy { s.dropRun r with completed := n } :=
    ⟨tidy'.slot_lt, tidy'.slot_inj, tidy'.timer_lt, tidy'.timer_inj, tidy'.run_lt, tidy'.run_inj⟩
  exact
    { tidy := counts.setSlot id _
      loose :=
        { doc
          found := State.slot?_setSlot_self ..
          timer := hasRun.timer
          run := rfl
          timers
          runs := runsOf_dropRun runs }
      others := counted.setSlot counts doc _
      debounce := rfl
      nextTimer := rfl
      nextRun := rfl }

theorem elsewhere_setSlot (tidy : Tidy s) (doc : Assoc.get? uri s.docs = some id) (slot : Slot) :
    Elsewhere uri s (s.setSlot id slot) :=
  (Elsewhere.refl uri s).setSlot tidy doc slot

/-- A document that waits is touched and gives up its timer. -/
theorem readied_touched {timer : Nat} (tidy : Tidy s) (doc : Assoc.get? uri s.docs = some id)
    (waits : slot.Waits timer) (timers : s.timersOf uri = [(timer, ⟨uri, id⟩)])
    (runs : s.runsOf uri = []) (version : Option Int) (text : Option String) :
    Readied s (((s.setSlot id (slot.touched version text)).dropTimer timer).setSlot id
        { slot.touched version text with timer := none }) uri id
      { slot.touched version text with timer := none } :=
  have touched : (slot.touched version text).Waits timer := { waits with closed := rfl }
  have dropped := readied_dropTimer (s := s.setSlot id (slot.touched version text))
    (tidy.setSlot id _) doc
    touched timers runs
  dropped.after (elsewhere_setSlot tidy doc _) rfl rfl rfl

/-! ## Edits -/

/-- Something is marked in the slot of a document with a run. -/
theorem does_mark {r : Nat} {run : Run} {old : Slot} {sequel : Sequel} (tidy : Tidy s)
    (doc : Assoc.get? uri s.docs = some id) (hasRun : slot.Runs r) (marked : slot.sequel = sequel)
    (slotOf : run.slot = id) (timers : s.timersOf uri = []) (runs : s.runsOf uri = [(r, run)]) :
    Does s uri (.running slot.version slot.text (run.version, run.text) sequel r) []
      ((s.setSlot id old).setSlot id slot, []) where
  shows := marked ▸ .running doc (State.slot?_setSlot_self ..) hasRun slotOf timers runs
  others := (elsewhere_setSlot tidy doc _).setSlot (tidy.setSlot id _) doc slot
  effects := rfl
  debounce := rfl
  next := Nat.le_refl _
  armed := nofun

/-- What an edit marks. -/
theorem Slot.Runs.sequel_changed {r : Nat} (h : slot.Runs r) (version : Option Int)
    (text : Option String) :
    ({ slot.touched version text with dirty := true } : Slot).sequel = slot.sequel.changed := by
  cases hc : slot.closed with
  | true => simp [Slot.sequel, Slot.touched, Sequel.changed, hc, h.rerunNow hc]
  | false =>
    cases hr : slot.rerunNow <;> cases hd : slot.dirty <;>
      simp [Slot.sequel, Slot.touched, Sequel.changed, hc, hr, hd]

/-- Giving something up before. -/
theorem Does.giving {out more : List Effect} {p : State × List Effect} (h : Does s uri d out p)
    (quiet : ∀ timer, .armTimer timer ∉ more) : Does s uri d (more ++ out) (p.1, more ++ p.2) :=
  { h with
    effects := by rw [h.effects]
    armed := fun timer ht => h.armed timer ((List.mem_append.mp ht).resolve_left (quiet timer)) }

theorem not_mem_gone (d : Doc Nat) (timer : Nat) : .armTimer timer ∉ d.gone := by
  cases d <;> simp [Doc.gone]

theorem does_change (tidy : Tidy s) (h : Shows s uri d) (version : Int) (text : String) :
    Does s uri (d.changed version text s.nextTimer)
      (d.replaced (d.changed version text s.nextTimer)) (s.onChange uri version text) := by
  cases h with
  | absent doc timers runs =>
    have ready := readied_register (a := ({} : Slot).touched (some version) (some text)) tidy
      timers runs
      rfl rfl
    rw [onChange_of_ne_running (touch_of_absent doc) ready.loose.found (by simp [Slot.touched])]
    exact ready.armTimer rfl rfl
  | @resting id slot doc found rests timers runs =>
    have ready := (readied_of_resting tidy doc found rests timers runs).setSlot
      (a := slot.touched (some version) (some text)) rests.timer rests.run
    rw [onChange_of_ne_running (touch_of_found doc found) ready.loose.found
      (by simp [Slot.touched, rests.phase])]
    exact ready.armTimer rests.rerunNow rfl
  | @waiting id slot timer doc found waits timers runs =>
    have waits' : (slot.touched (some version) (some text)).Waits timer :=
      { waits with closed := rfl }
    have ready := readied_touched tidy doc waits timers runs (some version) (some text)
    rw [onChange_of_ne_running (touch_of_found doc found) (State.slot?_setSlot_self ..)
      (by simp [waits'.phase]), armTimer_of_some (State.slot?_setSlot_self ..) waits'.timer]
    exact (ready.armTimer waits.rerunNow rfl).giving
      (not_mem_gone (.waiting slot.version slot.text timer))
  | @running id slot r run doc found hasRun slotOf timers runs =>
    have hasRun' := hasRun.touched (some version) (some text)
    rw [onChange_of_running (touch_of_found doc found) (State.slot?_setSlot_self ..) hasRun'.phase]
    exact does_mark tidy doc (hasRun'.marked rfl true _)
      (hasRun.sequel_changed ..) slotOf timers runs

theorem does_validate (tidy : Tidy s) (h : Shows s uri d) (version : Option Int)
    (text : Option String) :
    Does s uri (d.validated version text s.nextRun)
      (d.replaced (d.validated version text s.nextRun))
      ((s.touch uri version text).1.validateNow uri (s.touch uri version text).2) := by
  cases h with
  | absent doc timers runs =>
    have ready := readied_register (a := ({} : Slot).touched version text) tidy timers runs rfl rfl
    rw [touch_of_absent doc, validateNow_of_none ready.loose.found
      (by simp [Slot.touched]) ready.loose.timer]
    exact ready.startRun rfl
  | @resting id slot doc found rests timers runs =>
    have ready := (readied_of_resting tidy doc found rests timers runs).setSlot
      (a := slot.touched version text) rests.timer rests.run
    rw [touch_of_found doc found, validateNow_of_none ready.loose.found
      (by simp [Slot.touched, rests.phase]) ready.loose.timer]
    exact ready.startRun rfl
  | @waiting id slot timer doc found waits timers runs =>
    have waits' : (slot.touched version text).Waits timer := { waits with closed := rfl }
    have ready := readied_touched tidy doc waits timers runs version text
    rw [touch_of_found doc found, validateNow_of_some (State.slot?_setSlot_self ..)
      (by simp [waits'.phase]) waits'.timer]
    exact (ready.startRun rfl).giving (not_mem_gone (.waiting slot.version slot.text timer))
  | @running id slot r run doc found hasRun slotOf timers runs =>
    have hasRun' := hasRun.touched version text
    rw [touch_of_found doc found,
      validateNow_of_running (State.slot?_setSlot_self ..) hasRun'.phase]
    exact does_mark tidy doc (hasRun'.marked rfl _ true) rfl slotOf timers runs

/-- A document that is registered and not closed is open. -/
theorem Shows.isOpen (h : Shows s uri d) :
    (s.slotOf? uri).any (fun e => !e.2.closed) = d.isOpen := by
  cases h with
  | absent doc => rw [State.slotOf?_of_absent doc]; rfl
  | resting doc found rests =>
    rw [State.slotOf?_of_found doc found, Option.any_some, rests.closed]
    rfl
  | waiting doc found waits =>
    rw [State.slotOf?_of_found doc found, Option.any_some, waits.closed]
    rfl
  | @running id slot r run doc found hasRun =>
    rw [State.slotOf?_of_found doc found, Option.any_some]
    unfold Slot.sequel
    cases slot.closed <;> cases slot.rerunNow <;> cases slot.dirty <;> rfl

/-- Nothing happens. -/
theorem Shows.stays (h : Shows s uri d) : Does s uri d [] (s, []) where
  shows := h
  others := .refl uri s
  effects := rfl
  debounce := rfl
  next := Nat.le_refl _
  armed := nofun

theorem replaced_self (d : Doc Nat) (closed : d.isOpen = false) : d.replaced d = [] := by
  cases d with
  | absent | running => rfl
  | resting | waiting => cases closed

theorem does_save (tidy : Tidy s) (h : Shows s uri d) (version : Option Int)
    (text : Option String) :
    Does s uri (d.saved version text s.nextRun) (d.replaced (d.saved version text s.nextRun))
      (s.onSave uri version text) := by
  rw [State.onSave, h.isOpen, Doc.saved]
  dsimp only
  split
  · next ignored =>
    rw [replaced_self d (by simpa using (Bool.and_eq_true_iff.mp ignored).1)]
    exact h.stays
  · exact does_validate tidy h version text

/-! ## Closing -/

/-- Telling of a closing afterwards. -/
theorem Does.closing {out : List Effect} {p : State × List Effect} (h : Does s uri d out p) :
    Does s uri d (out ++ [.closed uri]) (p.1, p.2 ++ [.closed uri]) :=
  { h with
    effects := by rw [h.effects]
    armed := fun timer ht => h.armed timer ((List.mem_append.mp ht).resolve_right (by simp)) }

/-- A document without a run that is closed is not registered any more. -/
theorem onClose_of_resting (doc : Assoc.get? uri s.docs = some id) (found : s.slot? id = some slot)
    (timer : slot.timer = none) (gone : slot.run.any (fun r => Assoc.has r s.runs) = false) :
    s.onClose uri = ((((s.setSlot id slot.unmarked).unregister uri).makeIdle id).1,
      (((s.setSlot id slot.unmarked).unregister uri).makeIdle id).2 ++ [.closed uri]) := by
  simp only [State.onClose, State.slotOf?_of_found doc found,
    cancelTimer_of_none found timer, found, gone]
  rfl

theorem onClose_of_waiting {timer : Nat} (doc : Assoc.get? uri s.docs = some id)
    (found : s.slot? id = some slot) (htimer : slot.timer = some timer) (run : slot.run = none) :
    let t := (((s.dropTimer timer).setSlot id { slot with timer := none }).setSlot id
      (Slot.unmarked { slot with timer := none })).unregister uri
    s.onClose uri =
      ((t.makeIdle id).1, .cancelTimer timer :: (t.makeIdle id).2 ++ [.closed uri]) := by
  simp only [State.onClose, State.slotOf?_of_found doc found, cancelTimer_of_some found htimer,
    State.slot?_setSlot_self, run, Option.any_none, Bool.false_eq_true, if_false]
  rfl

theorem onClose_of_alive (doc : Assoc.get? uri s.docs = some id) (found : s.slot? id = some slot)
    (timer : slot.timer = none) (alive : slot.run.any (fun r => Assoc.has r s.runs) = true) :
    s.onClose uri = (s.setSlot id { slot.unmarked with closed := true }, [.closed uri]) := by
  simp only [State.onClose, State.slotOf?_of_found doc found,
    cancelTimer_of_none found timer, found, alive]
  rfl

theorem Slot.Runs.left {r : Nat} (h : slot.Runs r) :
    ({ slot.unmarked with closed := true } : Slot).Runs r :=
  ⟨h.phase, h.timer, h.run, fun _ => rfl, fun _ => rfl, h.idle⟩

theorem waiters_of_found (nobody : ∀ n, ¬ s.Awaits n) (found : s.slot? id = some slot) :
    slot.waiters = [] :=
  List.eq_nil_iff_forall_not_mem.mpr fun n hn => nobody n (awaits_of_found found n hn)

theorem does_close (tidy : Tidy s) (nobody : ∀ n, ¬ s.Awaits n) (h : Shows s uri d) :
    Does s uri d.closed (d.replaced d.closed ++ [.closed uri]) (s.onClose uri) := by
  cases h with
  | absent doc timers runs =>
    rw [onClose_of_absent doc]
    exact (Shows.absent doc timers runs).stays.closing
  | @resting id slot doc found rests timers runs =>
    have ready := (readied_of_resting tidy doc found rests timers runs).setSlot
      (a := slot.unmarked) rests.timer rests.run
    have alone : slot.waiters = [] := waiters_of_found nobody found
    rw [onClose_of_resting doc found rests.timer (by simp [rests.run])]
    exact (ready.unregister alone).closing
  | @waiting id slot timer doc found waits timers runs =>
    have ready := (readied_dropTimer tidy doc waits timers runs).setSlot
      (a := Slot.unmarked { slot with timer := none }) rfl waits.run
    have alone : slot.waiters = [] := waiters_of_found nobody found
    rw [onClose_of_waiting doc found waits.timer waits.run]
    exact ((ready.unregister alone).giving
      (not_mem_gone (.waiting slot.version slot.text timer))).closing
  | @running id slot r run doc found hasRun slotOf timers runs =>
    have hmem : (r, run) ∈ s.runsOf uri := by simp [runs]
    -- A run in flight keeps the document registered until it is over.
    have alive : Assoc.has r s.runs = true := by
      rw [Assoc.has, Option.isSome_iff_ne_none]
      exact Assoc.get?_ne_none_of_mem (State.mem_runsOf.mp hmem).1
    rw [onClose_of_alive doc found hasRun.timer (by simp [hasRun.run, alive])]
    let leaving : Slot := { slot.unmarked with closed := true }
    have left : Shows (s.setSlot id leaving) uri
        (.running leaving.version leaving.text (run.version, run.text) leaving.sequel r) :=
      .running doc (State.slot?_setSlot_self ..) hasRun.left slotOf timers runs
    exact Does.closing (p := (s.setSlot id { slot.unmarked with closed := true }, []))
      { shows := left
        others := elsewhere_setSlot tidy doc _
        effects := rfl
        debounce := rfl
        next := Nat.le_refl _
        armed := fun _ ht => by cases ht }

/-! ## Events -/

/-- The document that an edit is about. -/
def Event.edits : Event → Option String
  | .change uri .. | .opened uri .. | .save uri .. | .close uri => some uri
  | _ => none

/-- What is told of an edit that closes its document. -/
def Event.closing : Event → List Effect
  | .close uri => [.closed uri]
  | _ => []

/-- An edit moves its document and nothing else.  The cases are how the document stood, and the four
edits. -/
theorem does_edit (tidy : Tidy s) (nobody : ∀ n, ¬ s.Awaits n) {e : Event}
    (edits : e.edits = some uri) (h : Shows s uri d) :
    Does s uri (d.told s.nextTimer s.nextRun e)
      (d.replaced (d.told s.nextTimer s.nextRun e) ++ e.closing) (s.step e) := by
  have plain {out : List Effect} {d' : Doc Nat} {p : State × List Effect}
    (k : Does s uri d' out p) :
      Does s uri d' (out ++ []) p := (List.append_nil out).symm ▸ k
  cases e with
  | change u version text =>
    obtain rfl := Option.some.inj edits
    exact plain (does_change tidy h version text)
  | opened u version text =>
    obtain rfl := Option.some.inj edits
    exact plain (does_validate tidy h (some version) (some text))
  | save u version text =>
    obtain rfl := Option.some.inj edits
    exact plain (does_save tidy h version text)
  | close u =>
    obtain rfl := Option.some.inj edits
    exact does_close tidy nobody h
  | fired | ended | dropped | stop => cases edits

/-- A timer that fires moves the document that waits for it. -/
theorem does_fired {version : Int} {text : String} {timer : Nat} (tidy : Tidy s)
    (h : Shows s uri (.waiting version text timer)) :
    Does s uri (.begin version text s.nextRun) [.startRun s.nextRun] (s.onFired timer) := by
  cases h with
  | @waiting id slot timer doc found waits timers runs =>
    have htimer : Assoc.get? timer s.timers = some ⟨uri, id⟩ :=
      Assoc.get?_of_mem tidy.timer_inj
        (State.mem_timersOf.mp (timers ▸ List.mem_singleton_self _)).1
    rw [onFired_of_found htimer doc found]
    exact (readied_dropTimer tidy doc waits timers runs).startRun waits.closed

/-- The sequel of a run that ends is what its document moves to. -/
theorem does_ended {version : Int} {text : String} {subject : Int × String}
    {sequel : Sequel} {r : Nat} (tidy : Tidy s) (nobody : ∀ n, ¬ s.Awaits n)
    (h : Shows s uri (.running version text subject sequel r)) :
    Does s uri ((Doc.running version text subject sequel r).ended s.nextTimer s.nextRun)
      ((Doc.running version text subject sequel r).ended s.nextTimer s.nextRun).begun
      (s.onEnded r) := by
  cases h with
  | @running id slot r run doc found hasRun slotOf timers runs =>
    subst slotOf
    have hrun : Assoc.get? r s.runs = some run :=
      Assoc.get?_of_mem tidy.run_inj (State.mem_runsOf.mp (runs ▸ List.mem_singleton_self _)).1
    have huri : run.uri = uri := (State.mem_runsOf.mp (by simp [runs] : (r, run) ∈ s.runsOf uri)).2
    have alone : slot.waiters = [] := waiters_of_found nobody found
    have ready := readied_dropRun tidy doc hasRun timers runs (s.completed + 1)
    rw [onEnded_of_found hrun found, huri]
    unfold Slot.sequel
    -- The sequel of the run is read off the marks, the first of which is that of a closing.
    by_cases closed : slot.closed = true
    · rw [afterRun_of_closed ready.loose.doc ready.loose.found closed, if_pos closed]
      exact ready.unregister alone
    · have hopen : slot.closed = false := Bool.eq_false_iff.mpr closed
      rw [afterRun_of_open ready.loose.doc ready.loose.found hopen, if_neg closed]
      by_cases rerunNow : slot.rerunNow = true
      · rw [if_pos rerunNow, if_pos rerunNow]
        exact ready.startRun hopen
      · have hrerun : slot.rerunNow = false := Bool.eq_false_iff.mpr rerunNow
        rw [if_neg rerunNow, if_neg rerunNow]
        by_cases dirty : slot.dirty = true
        · rw [if_pos dirty, if_pos dirty]
          exact ready.armTimer hrerun hopen
        · rw [if_neg dirty, if_neg dirty]
          exact ready.makeIdle ⟨Bool.eq_false_iff.mpr dirty, hrerun, hopen⟩ alone

/-! ## Timers and runs of documents -/

theorem Shows.found_timer {version : Int} {text : String} {timer : Nat} (tidy : Tidy s)
    (h : Shows s uri (.waiting version text timer)) :
    ∃ slot, Assoc.get? timer s.timers = some ⟨uri, slot⟩ := by
  cases h with
  | waiting _ _ _ timers _ =>
    exact ⟨_, Assoc.get?_of_mem tidy.timer_inj
      (State.mem_timersOf.mp (timers ▸ List.mem_singleton_self _)).1⟩

theorem Shows.found_run {version : Int} {text : String} {subject : Int × String}
    {sequel : Sequel} {r : Nat}
    (tidy : Tidy s) (h : Shows s uri (.running version text subject sequel r)) :
    ∃ run, Assoc.get? r s.runs = some run ∧ run.uri = uri ∧ (run.version, run.text) = subject := by
  cases h with
  | @running id slot r run _ _ _ _ _ runs =>
    have hmem : (r, run) ∈ s.runsOf uri := by simp [runs]
    obtain ⟨mem, huri⟩ := State.mem_runsOf.mp hmem
    exact ⟨run, Assoc.get?_of_mem tidy.run_inj mem, huri, rfl⟩

end PikeAnalysis.Scheduler
