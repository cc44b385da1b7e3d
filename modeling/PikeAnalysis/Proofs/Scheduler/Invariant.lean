import PikeAnalysis.Proofs.Scheduler.Operations

/-!
# The invariant of the scheduler

Every event keeps `Inv`, so between two events every document stands with the scheduler in one of
the ways of `Standing`.  The scheduler may be stopped only by forgetting it, so `stop` is left out;
a run that is dropped while it is under way strands its slot, which only a lossy setting allows.

The invariant has one part for each document and one about numbers.  An event is about one document
at most, so its proof has two halves: the document that it is about goes from one standing to
another, through loose states in between, and all others stand as they stood (`SameFor`).  The
second half is the same for every operation, and is dealt with in the module on operations.

What a rested document was last validated with is a parameter (`Setting`), since the scheduler
itself does not keep it.  It is what turns "no edit is lost" into an invariant.
-/

namespace PikeAnalysis.Scheduler

variable {w : Setting} {s : State} {uri : String} {id : Nat} {slot : Slot}

/-! ## Registering -/

/-- A slot with what is new about its document. -/
def Slot.touched (slot : Slot) (version : Option Int) (text : Option String) : Slot :=
  { slot with
    closed := false
    version := version.getD slot.version
    text := text.getD slot.text }

theorem Slot.Runs.touched {r : Nat} (h : slot.Runs r) (version : Option Int)
    (text : Option String) :
    (slot.touched version text).Runs r :=
  ⟨h.phase, h.timer, h.run, nofun, nofun, h.idle⟩

/-- The marks of a slot that is open can be set in any way. -/
theorem Slot.Runs.marked {r : Nat} (h : slot.Runs r) (hopen : slot.closed = false)
    (dirty rerunNow : Bool) : ({ slot with dirty, rerunNow } : Slot).Runs r :=
  ⟨h.phase, h.timer, h.run, fun hc => by simp [hopen] at hc,
    fun hc => by simp [hopen] at hc, h.idle⟩

/-- The state with a slot number for a document. -/
def State.register (s : State) (uri : String) : State :=
  { s with nextSlot := s.nextSlot + 1, docs := Assoc.set uri s.nextSlot s.docs }

variable {version : Option Int} {text : Option String}

theorem touch_of_found (doc : Assoc.get? uri s.docs = some id) (found : s.slot? id = some slot) :
    s.touch uri version text = (s.setSlot id (slot.touched version text), id) := by
  simp [State.touch, State.slotOf?_of_found doc found, Slot.touched]

theorem touch_of_unknown (h : s.slotOf? uri = none) :
    s.touch uri version text =
      ((s.register uri).setSlot s.nextSlot (({} : Slot).touched version text), s.nextSlot) := by
  simp [State.touch, h, Slot.touched, State.register]

theorem touch_of_absent (doc : Assoc.get? uri s.docs = none) :
    s.touch uri version text =
      ((s.register uri).setSlot s.nextSlot (({} : Slot).touched version text), s.nextSlot) :=
  touch_of_unknown (State.slotOf?_of_absent doc)

theorem Tidy.register (h : Tidy s) (uri : String) : Tidy (s.register uri) := by
  refine { h with slot_lt := fun u i hu => ?_, slot_inj := fun u v i hu hv => ?_ }
  · rw [State.register, Assoc.get?_set] at hu
    split at hu
    · rw [← Option.some.inj hu]
      exact Nat.lt_succ_self _
    · exact Nat.lt_succ_of_lt (h.slot_lt u i hu)
  · rw [State.register, Assoc.get?_set] at hu hv
    split at hu <;> split at hv
    · subst u v; rfl
    · rw [← Option.some.inj hu] at hv
      exact absurd (h.slot_lt v _ hv) (Nat.lt_irrefl _)
    · rw [← Option.some.inj hv] at hu
      exact absurd (h.slot_lt u _ hu) (Nat.lt_irrefl _)
    · exact h.slot_inj u v i hu hv

/-- A document that is registered anew is loose until it is decided what to do with it. -/
theorem Inv.register (h : Inv w s) (timers : s.timersOf uri = []) (runs : s.runsOf uri = [])
    {a : Slot} (timer : a.timer = none) (run : a.run = none) :
    Others w ((s.register uri).setSlot s.nextSlot a) uri ∧
      Loose ((s.register uri).setSlot s.nextSlot a) uri s.nextSlot a := by
  have doc : Assoc.get? uri (s.register uri).docs = some s.nextSlot :=
    Assoc.get?_set_self uri s.nextSlot s.docs
  have hothers : Others w (s.register uri) uri :=
    (h.others uri).congr (h.tidy.register uri) fun other ho =>
      ⟨Assoc.get?_set_of_ne ho _ _, fun _ _ => rfl, rfl, rfl⟩
  exact ⟨hothers.setSlot doc a,
    { doc, found := State.slot?_setSlot_self .., timer, run, timers, runs }⟩

/-- Writing the slot of a document keeps it loose if it was. -/
theorem Loose.setSlot (l : Loose s uri id slot) {a : Slot} (timer : a.timer = none)
    (run : a.run = none) : Loose (s.setSlot id a) uri id a :=
  { doc := l.doc, found := State.slot?_setSlot_self .., timer, run, timers := l.timers
    runs := l.runs }

/-! ## Edits -/

theorem validateNow_of_running (found : s.slot? id = some slot) (phase : slot.phase = .running) :
    s.validateNow uri id = (s.setSlot id { slot with rerunNow := true }, []) := by
  simp [State.validateNow, found, phase]

theorem validateNow_of_none (found : s.slot? id = some slot) (phase : slot.phase ≠ .running)
    (timer : slot.timer = none) : s.validateNow uri id = s.startRun uri id := by
  simp [State.validateNow, found, phase, cancelTimer_of_none found timer]

theorem validateNow_of_some {timer : Nat} (found : s.slot? id = some slot)
    (phase : slot.phase ≠ .running) (htimer : slot.timer = some timer) :
    s.validateNow uri id =
      ((((s.dropTimer timer).setSlot id { slot with timer := none }).startRun uri id).1,
        .cancelTimer timer ::
          (((s.dropTimer timer).setSlot id { slot with timer := none }).startRun uri id).2) := by
  simp [State.validateNow, found, phase, cancelTimer_of_some found htimer]

/-- What was marked during a run is remembered: the run no longer has to carry what the slot
holds. -/
theorem Others.mark {r : Nat} {run : Run} (h : Others w s uri)
    (doc : Assoc.get? uri s.docs = some id) (hasRun : slot.Runs r) (slotOf : run.slot = id)
    (timers : s.timersOf uri = []) (runs : s.runsOf uri = [(r, run)])
    (marked : slot.dirty = true ∨ slot.rerunNow = true ∨ slot.closed = true) :
    Inv w (s.setSlot id slot) := by
  refine (h.setSlot doc slot).inv ?_
  refine .running doc (State.slot?_setSlot_self ..) hasRun slotOf (fun quiet => ?_) timers runs
  rcases marked with hm | hm | hm
  · exact absurd hm (by simp [quiet.dirty])
  · exact absurd hm (by simp [quiet.rerunNow])
  · exact absurd hm (by simp [quiet.closed])

/-- A save or an open is validated at once, or as soon as the run in flight is over. -/
theorem Inv.touch_validateNow (h : Inv w s) (uri : String) (version : Option Int)
    (text : Option String) :
    Inv w ((s.touch uri version text).1.validateNow uri (s.touch uri version text).2).1 := by
  -- Without a run in flight whatever is under way is dropped first, so that the run to be started
  -- is the only one.
  cases h.standing uri with
  | absent doc timers runs =>
    rw [touch_of_absent doc]
    obtain ⟨hothers, hl⟩ :=
      h.register (a := ({} : Slot).touched version text) timers runs rfl rfl
    rw [validateNow_of_none hl.found (by simp [Slot.touched]) hl.timer]
    exact hothers.startRun hl
  | @resting id slot doc found rests validated timers runs =>
    rw [touch_of_found doc found]
    have hl : Loose s uri id slot := ⟨doc, found, rests.timer, rests.run, timers, runs⟩
    have hl' := hl.setSlot (a := slot.touched version text) rests.timer rests.run
    rw [validateNow_of_none hl'.found (by simp [Slot.touched, rests.phase]) hl'.timer]
    exact ((h.others uri).setSlot doc _).startRun hl'
  | @waiting id slot timer doc found waits timers runs =>
    rw [touch_of_found doc found]
    have waits' : (slot.touched version text).Waits timer := { waits with closed := rfl }
    obtain ⟨hothers, hl⟩ := ((h.others uri).setSlot doc _).dropTimer doc waits' timers runs
    rw [validateNow_of_some (State.slot?_setSlot_self ..) (by simp [waits'.phase]) waits'.timer]
    exact hothers.startRun hl
  | @running id slot r run doc found hasRun slotOf carries timers runs =>
    have hasRun' := hasRun.touched version text
    rw [touch_of_found doc found,
      validateNow_of_running (State.slot?_setSlot_self ..) hasRun'.phase]
    exact ((h.others uri).setSlot doc _).mark doc (hasRun'.marked rfl _ true) slotOf timers runs
      (.inr (.inl rfl))
  | @stranded id slot r lost doc found hasRun timers runs =>
    have hasRun' := hasRun.touched version text
    rw [touch_of_found doc found,
      validateNow_of_running (State.slot?_setSlot_self ..) hasRun'.phase]
    exact (((h.others uri).setSlot doc _).setSlot doc _).inv <|
      .stranded lost doc (State.slot?_setSlot_self ..) (hasRun'.marked rfl _ true) timers runs

theorem onChange_of_running {version : Int} {text : String} {touched : State × Nat}
    (ht : s.touch uri (some version) (some text) = touched)
    (found : touched.1.slot? touched.2 = some slot) (phase : slot.phase = .running) :
    s.onChange uri version text =
      (touched.1.setSlot touched.2 { slot with dirty := true }, []) := by
  subst ht
  simp [State.onChange, found, phase]

theorem onChange_of_ne_running {version : Int} {text : String} {touched : State × Nat}
    (ht : s.touch uri (some version) (some text) = touched)
    (found : touched.1.slot? touched.2 = some slot) (phase : slot.phase ≠ .running) :
    s.onChange uri version text = touched.1.armTimer uri touched.2 := by
  subst ht
  simp [State.onChange, found, phase]

/-- An edit starts the timer anew, or is marked for the end of the run in flight. -/
theorem Inv.onChange (h : Inv w s) (uri : String) (version : Int) (text : String) :
    Inv w (s.onChange uri version text).1 := by
  -- The cases are the ways in which a document may stand.
  cases h.standing uri with
  | absent doc timers runs =>
    obtain ⟨hothers, hl⟩ :=
      h.register (a := ({} : Slot).touched (some version) (some text)) timers runs rfl rfl
    rw [onChange_of_ne_running (touch_of_absent doc) hl.found (by simp [Slot.touched])]
    exact hothers.armTimer hl rfl rfl
  | @resting id slot doc found rests validated timers runs =>
    have hl : Loose s uri id slot := ⟨doc, found, rests.timer, rests.run, timers, runs⟩
    have hl' := hl.setSlot (a := slot.touched (some version) (some text)) rests.timer rests.run
    rw [onChange_of_ne_running (touch_of_found doc found) hl'.found
      (by simp [Slot.touched, rests.phase])]
    exact ((h.others uri).setSlot doc _).armTimer hl' rests.rerunNow rfl
  | @waiting id slot timer doc found waits timers runs =>
    have waits' : (slot.touched (some version) (some text)).Waits timer :=
      { waits with closed := rfl }
    obtain ⟨hothers, hl⟩ := ((h.others uri).setSlot doc _).dropTimer doc waits' timers runs
    rw [onChange_of_ne_running (touch_of_found doc found) (State.slot?_setSlot_self ..)
      (by simp [waits'.phase]), armTimer_of_some (State.slot?_setSlot_self ..) waits'.timer]
    exact hothers.armTimer hl waits.rerunNow rfl
  | @running id slot r run doc found hasRun slotOf carries timers runs =>
    have hasRun' := hasRun.touched (some version) (some text)
    rw [onChange_of_running (touch_of_found doc found) (State.slot?_setSlot_self ..) hasRun'.phase]
    exact ((h.others uri).setSlot doc _).mark doc (hasRun'.marked rfl true _) slotOf timers runs
      (.inl rfl)
  | @stranded id slot r lost doc found hasRun timers runs =>
    have hasRun' := hasRun.touched (some version) (some text)
    rw [onChange_of_running (touch_of_found doc found) (State.slot?_setSlot_self ..) hasRun'.phase]
    exact (((h.others uri).setSlot doc _).setSlot doc _).inv <|
      .stranded lost doc (State.slot?_setSlot_self ..) (hasRun'.marked rfl true _) timers runs

theorem Inv.onSave (h : Inv w s) (uri : String) (version : Option Int) (text : Option String) :
    Inv w (s.onSave uri version text).1 := by
  rw [State.onSave]
  split
  · exact h
  · exact h.touch_validateNow uri version text

/-! ## Closing -/

/-- The slot without its marks. -/
def Slot.unmarked (slot : Slot) : Slot :=
  { slot with dirty := false, rerunNow := false }

theorem onClose_of_absent (doc : Assoc.get? uri s.docs = none) :
    s.onClose uri = (s, [.closed uri]) := by
  simp [State.onClose, State.slotOf?_of_absent doc]

theorem onClose_of_none (doc : Assoc.get? uri s.docs = some id) (found : s.slot? id = some slot)
    (timer : slot.timer = none) (gone : slot.run.any (fun r => Assoc.has r s.runs) = false) :
    (s.onClose uri).1 = (((s.setSlot id slot.unmarked).unregister uri).makeIdle id).1 := by
  simp only [State.onClose, State.slotOf?_of_found doc found,
    cancelTimer_of_none found timer, found, gone]
  rfl

theorem onClose_of_some {timer : Nat} (doc : Assoc.get? uri s.docs = some id)
    (found : s.slot? id = some slot) (htimer : slot.timer = some timer) (run : slot.run = none) :
    (s.onClose uri).1 =
      (((((s.dropTimer timer).setSlot id { slot with timer := none }).setSlot id
        { slot.unmarked with timer := none, run := none }).unregister uri).makeIdle id).1 := by
  simp only [State.onClose, State.slotOf?_of_found doc found, cancelTimer_of_some found htimer,
    State.slot?_setSlot_self, run, Option.any_none, Bool.false_eq_true, if_false]
  rfl

theorem onClose_of_running (doc : Assoc.get? uri s.docs = some id) (found : s.slot? id = some slot)
    (timer : slot.timer = none) (alive : slot.run.any (fun r => Assoc.has r s.runs) = true) :
    (s.onClose uri).1 = s.setSlot id { slot.unmarked with closed := true } := by
  simp only [State.onClose, State.slotOf?_of_found doc found,
    cancelTimer_of_none found timer, found, alive]
  rfl

/-- A closed document is absent, but for one whose run is under way: that one stays registered. -/
theorem Inv.onClose (h : Inv w s) (uri : String) : Inv w (s.onClose uri).1 := by
  cases h.standing uri with
  | absent doc timers runs =>
    rw [onClose_of_absent doc]
    exact h
  | @resting id slot doc found rests validated timers runs =>
    rw [onClose_of_none doc found rests.timer (by simp [rests.run])]
    have hl : Loose s uri id slot := ⟨doc, found, rests.timer, rests.run, timers, runs⟩
    exact ((h.others uri).setSlot doc _).unregister
      (hl.setSlot (a := slot.unmarked) rests.timer rests.run)
  | @waiting id slot timer doc found waits timers runs =>
    rw [onClose_of_some doc found waits.timer waits.run]
    obtain ⟨hothers, hl⟩ := (h.others uri).dropTimer doc waits timers runs
    exact (hothers.setSlot doc _).unregister (hl.setSlot rfl rfl)
  | @running id slot r run doc found hasRun slotOf carries timers runs =>
    have hmem : (r, run) ∈ s.runsOf uri := by simp [runs]
    have alive : Assoc.has r s.runs = true := by
      rw [Assoc.has, Option.isSome_iff_ne_none]
      exact Assoc.get?_ne_none_of_mem (State.mem_runsOf.mp hmem).1
    rw [onClose_of_running doc found hasRun.timer (by simp [hasRun.run, alive])]
    exact (h.others uri).mark doc
      ⟨hasRun.phase, hasRun.timer, hasRun.run, fun _ => rfl, fun _ => rfl, hasRun.idle⟩
      slotOf timers runs (.inr (.inr rfl))
  | @stranded id slot r lost doc found hasRun timers runs =>
    -- A run that is lost may still be listed, and then the document stays registered for it.
    by_cases alive : Assoc.has r s.runs = true
    · rw [onClose_of_running doc found hasRun.timer (by simp [hasRun.run, alive])]
      exact ((h.others uri).setSlot doc _).inv <|
        .stranded lost doc (State.slot?_setSlot_self ..)
          ⟨hasRun.phase, hasRun.timer, hasRun.run, fun _ => rfl, fun _ => rfl, hasRun.idle⟩
          timers runs
    · rw [onClose_of_none doc found hasRun.timer (by simp [hasRun.run, alive])]
      have hfound : ((s.setSlot id slot.unmarked).unregister uri).slot? id = some slot.unmarked :=
        State.slot?_setSlot_self ..
      rw [makeIdle_of_found hfound]
      have hothers := (((h.others uri).setSlot doc slot.unmarked).setSlot doc
        { slot.unmarked with phase := .idle, idle := true, waiters := [] })
      refine Others.inv (hothers.congr (t := State.unregister _ uri) (hothers.tidy.unregister uri)
        fun _ ho => sameFor_unregister ho) ?_
      exact .absent (Assoc.get?_erase_self uri s.docs) timers runs

/-! ## Timers and ends of runs -/

theorem onFired_of_none {timer : Nat} (h : Assoc.get? timer s.timers = none) :
    s.onFired timer = (s, []) := by
  simp [State.onFired, h]

theorem onFired_of_found {timer : Nat} (h : Assoc.get? timer s.timers = some ⟨uri, id⟩)
    (doc : Assoc.get? uri s.docs = some id) (found : s.slot? id = some slot) :
    s.onFired timer =
      ((s.dropTimer timer).setSlot id { slot with timer := none }).startRun uri id := by
  have hfound : (s.dropTimer timer).slot? id = some slot := found
  have hcurrent : ((s.dropTimer timer).setSlot id { slot with timer := none }).isCurrent uri id =
      true := by
    simp [State.isCurrent, State.dropTimer, doc]
  simp only [State.onFired, h]
  rw [show ({ s with timers := Assoc.erase timer s.timers } : State) = s.dropTimer timer from rfl,
    hfound]
  simp only [hcurrent, if_true]

/-- A timer that exists is the one for which its document waits. -/
theorem Inv.waiting_of_timer {timer : Nat} {entry : TimerEntry} (h : Inv w s)
    (ht : Assoc.get? timer s.timers = some entry) :
    ∃ slot, Assoc.get? entry.uri s.docs = some entry.slot ∧ s.slot? entry.slot = some slot ∧
      slot.Waits timer ∧ s.timersOf entry.uri = [(timer, entry)] ∧ s.runsOf entry.uri = [] := by
  have hmem : (timer, entry) ∈ s.timersOf entry.uri :=
    State.mem_timersOf.mpr ⟨Assoc.mem_of_get? ht, rfl⟩
  cases h.standing entry.uri with
  | @waiting id slot timer' doc found waits timers runs =>
    have he := hmem
    rw [timers, List.mem_singleton, Prod.mk.injEq] at he
    obtain ⟨rfl, hentry⟩ := he
    have hslot : entry.slot = id := congrArg TimerEntry.slot hentry
    rw [← hentry] at timers
    rw [← hslot] at doc found
    exact ⟨slot, doc, found, waits, timers, runs⟩
  | absent _ timers _ | resting _ _ _ _ timers _ | running _ _ _ _ _ timers _
  | stranded _ _ _ _ timers _ => simp [timers] at hmem

/-- A timer that fires starts the run for which its document waits.  A timer that is none of a
registered slot is used up without effect. -/
theorem Inv.onFired (h : Inv w s) (timer : Nat) : Inv w (s.onFired timer).1 := by
  cases ht : Assoc.get? timer s.timers with
  | none =>
    rw [onFired_of_none ht]
    exact h
  | some entry =>
    obtain ⟨slot, doc, found, waits, timers, runs⟩ := h.waiting_of_timer ht
    rw [onFired_of_found ht doc found]
    obtain ⟨hothers, hl⟩ := (h.others entry.uri).dropTimer doc waits timers runs
    exact hothers.startRun hl

theorem onEnded_of_none {r : Nat} (h : Assoc.get? r s.runs = none) : s.onEnded r = (s, []) := by
  simp [State.onEnded, h]

/-- A run that exists is the one of its document.  No other run exists for that document, and no
timer runs for it. -/
theorem Inv.running_of_run {r : Nat} {run : Run} (h : Inv w s)
    (hr : Assoc.get? r s.runs = some run) :
    ∃ slot, Assoc.get? run.uri s.docs = some run.slot ∧ s.slot? run.slot = some slot ∧
      slot.Runs r ∧ (slot.Undisturbed → run.Carries slot) ∧ s.timersOf run.uri = [] ∧
      s.runsOf run.uri = [(r, run)] := by
  have hmem : (r, run) ∈ s.runsOf run.uri := State.mem_runsOf.mpr ⟨Assoc.mem_of_get? hr, rfl⟩
  cases h.standing run.uri with
  | running doc found hasRun slotOf carries timers runs =>
    have he := hmem
    rw [runs, List.mem_singleton, Prod.mk.injEq] at he
    obtain ⟨rfl, rfl⟩ := he
    rw [← slotOf] at doc found
    exact ⟨_, doc, found, hasRun, carries, timers, runs⟩
  | absent _ _ runs | resting _ _ _ _ _ runs | waiting _ _ _ _ runs | stranded _ _ _ _ _ runs =>
    simp [runs] at hmem

theorem isCurrent_of_doc (doc : Assoc.get? uri s.docs = some id) : s.isCurrent uri id = true := by
  simp [State.isCurrent, doc]

theorem afterRun_of_closed (doc : Assoc.get? uri s.docs = some id) (found : s.slot? id = some slot)
    (closed : slot.closed = true) : s.afterRun uri id = (s.unregister uri).makeIdle id := by
  have hgone : (s.unregister uri).isCurrent uri id = false := by
    simp [State.isCurrent, State.unregister]
  simp only [State.afterRun, found, closed, isCurrent_of_doc doc, Bool.and_self, if_true]
  rw [show ({ s with docs := Assoc.erase uri s.docs } : State) = s.unregister uri from rfl, hgone]
  rfl

theorem afterRun_of_open (doc : Assoc.get? uri s.docs = some id) (found : s.slot? id = some slot)
    (hopen : slot.closed = false) :
    s.afterRun uri id =
      if slot.rerunNow then s.startRun uri id
      else if slot.dirty then s.armTimer uri id
      else s.makeIdle id := by
  simp [State.afterRun, found, hopen, isCurrent_of_doc doc]

/-- After a run a document is validated again at once, waits, rests, or is gone.  The cases are the
marks that were set during the run. -/
theorem Others.afterRun (h : Others w s uri) (l : Loose s uri id slot)
    (validated : slot.Undisturbed → w.validated uri slot.version slot.text) :
    Inv w (s.afterRun uri id).1 := by
  by_cases closed : slot.closed = true
  · rw [afterRun_of_closed l.doc l.found closed]
    exact h.unregister l
  · have hopen : slot.closed = false := Bool.eq_false_iff.mpr closed
    rw [afterRun_of_open l.doc l.found hopen]
    by_cases rerunNow : slot.rerunNow = true
    · rw [if_pos rerunNow]
      exact h.startRun l
    · have hrerun : slot.rerunNow = false := Bool.eq_false_iff.mpr rerunNow
      rw [if_neg rerunNow]
      by_cases dirty : slot.dirty = true
      · rw [if_pos dirty]
        exact h.armTimer l hrerun hopen
      · rw [if_neg dirty]
        have quiet : slot.Undisturbed := ⟨Bool.eq_false_iff.mpr dirty, hrerun, hopen⟩
        exact h.makeIdle l quiet (validated quiet)

theorem onEnded_of_found {r : Nat} {run : Run} (hr : Assoc.get? r s.runs = some run)
    (found : s.slot? run.slot = some slot) :
    s.onEnded r =
      (({ s.dropRun r with completed := s.completed + 1 } : State).setSlot run.slot
        { slot with run := none }).afterRun run.uri run.slot := by
  have hfound : ({ s.dropRun r with completed := s.completed + 1 } : State).slot? run.slot =
      some slot := found
  simp only [State.onEnded, hr]
  rw [show ({ s with completed := s.completed + 1, runs := Assoc.erase r s.runs } : State) =
    { s.dropRun r with completed := s.completed + 1 } from rfl, hfound]

/-- How many runs were completed is of no account. -/
theorem Others.completed (h : Others w s uri) (n : Nat) :
    Others w { s with completed := n } uri :=
  h.congr ⟨h.tidy.slot_lt, h.tidy.slot_inj, h.tidy.timer_lt, h.tidy.timer_inj, h.tidy.run_lt,
    h.tidy.run_inj⟩ fun _ _ => ⟨rfl, fun _ _ => rfl, rfl, rfl⟩

theorem Inv.onEnded (h : Inv w s) (r : Nat)
    (validated : ∀ run, Assoc.get? r s.runs = some run →
      w.validated run.uri run.version run.text) : Inv w (s.onEnded r).1 := by
  cases hr : Assoc.get? r s.runs with
  | none =>
    rw [onEnded_of_none hr]
    exact h
  | some run =>
    obtain ⟨slot, doc, found, hasRun, carries, timers, runs⟩ := h.running_of_run hr
    obtain ⟨hothers, hl⟩ := (h.others run.uri).dropRun doc hasRun timers runs
    rw [onEnded_of_found hr found]
    refine (hothers.completed _).afterRun
      ⟨hl.doc, hl.found, hl.timer, hl.run, hl.timers, hl.runs⟩ fun quiet => ?_
    obtain ⟨version, text⟩ := carries ⟨quiet.dirty, quiet.rerunNow, quiet.closed⟩
    simpa [version, text] using validated run hr

/-- Dropping a run strands its document.  This is only allowed where runs may be lost. -/
theorem Inv.drop (h : Inv w s) (r : Nat) (lost : Assoc.get? r s.runs ≠ none → w.lossy) :
    Inv w (s.dropRun r) := by
  cases hr : Assoc.get? r s.runs with
  | none =>
    have hsame : s.dropRun r = s := by
      rw [State.dropRun, Assoc.erase_of_get?_eq_none hr]
    rw [hsame]
    exact h
  | some run =>
    obtain ⟨slot, doc, found, hasRun, -, timers, runs⟩ := h.running_of_run hr
    have hothers : Others w (s.dropRun r) run.uri :=
      (h.others run.uri).congr (h.tidy.dropRun r) fun other ho => sameFor_dropRun fun e he hk => by
        rw [h.tidy.run_uri runs e he hk]
        exact Ne.symm ho
    exact hothers.inv <|
      .stranded (lost (by simp [hr])) doc found hasRun timers (runsOf_dropRun runs)

/-! ## All events -/

/-- What may happen: anything but a stop.  A run that ends was the latest validation of its
document, and no run is dropped while it is under way unless the setting is lossy. -/
def Event.Allowed (w : Setting) (s : State) : Event → Prop
  | .ended r => ∀ run, Assoc.get? r s.runs = some run → w.validated run.uri run.version run.text
  | .dropped r => Assoc.get? r s.runs ≠ none → w.lossy
  | .stop => False
  | _ => True

theorem Inv.step (h : Inv w s) {e : Event} (allowed : e.Allowed w s) :
    Inv w (s.step e).1 := by
  cases e with
  | change uri version text => exact h.onChange uri version text
  | opened uri version text => exact h.touch_validateNow uri (some version) (some text)
  | save uri version text => exact h.onSave uri version text
  | close uri => exact h.onClose uri
  | fired timer => exact h.onFired timer
  | ended r => exact h.onEnded r allowed
  | dropped r => exact h.drop r allowed
  | stop => exact allowed.elim

theorem Inv.start (debounce : Int) : Inv w (State.start debounce) :=
  { tidy :=
      { slot_lt := nofun, slot_inj := nofun, timer_lt := nofun, timer_inj := nofun
        run_lt := nofun, run_inj := nofun }
    standing := fun _ => .absent rfl rfl rfl }

end PikeAnalysis.Scheduler
