import Mathlib.Data.List.Induction
import PikeAnalysis.Proofs.Scheduler.Effects

/-!
# No validation after a close

A document can be closed while its timer runs, while its run is under way, and with edits and saves
marked for after that run.  None of this starts a run later: once a document is closed, or the
scheduler is stopped, no run of it is started before an event registers it again, and when its run
in flight ends it is not registered any more (`no_validation_after_close`).  Events may come in any
order, stops included, so `Inv` is of no use here: a stop leaves runs behind whose documents are not
registered.  `Kempt` is what remains: a timer is always that of a slot that is not closed.

Nothing has to be undone for this: a closing takes the timer away and marks the slot as closed if a
run is under way, and a run that ends is followed by another only where its slot is not closed.  So
the proof is that each of the two ways to start a run, a timer and the end of a run, meets a slot
that is open, and that a slot does not become open again but by an event that registers its
document.

The statement is about sequences of events in any order, from a scheduler without documents.  What
it says of a run that is started is that some event registered its document, and that no closing has
come since.
-/

namespace PikeAnalysis.Scheduler

open State

variable {s t : State} {uri other : String} {id : Nat} {slot : Slot} {r : Nat} {run : Run}

/-- What holds between any two events.  It is weaker than `Inv` and kept by all events, a stop
included. -/
structure Kempt (s : State) : Prop where
  tidy : Tidy s
  slotted : ∀ uri id, Assoc.get? uri s.docs = some id → s.slot? id ≠ none
  armed : ∀ e ∈ s.timers, e.2.slot < s.nextSlot ∧
    ∃ slot, s.slot? e.2.slot = some slot ∧ slot.timer = some e.1 ∧ slot.closed = false

/-! ## Operations -/

/-- A change that concerns neither slots nor timers. -/
theorem Kempt.congr (h : Kempt s) (tidy : Tidy t)
    (docs : ∀ uri id, Assoc.get? uri t.docs = some id → Assoc.get? uri s.docs = some id)
    (slots : t.slots = s.slots) (timers : t.timers = s.timers)
    (nextSlot : t.nextSlot = s.nextSlot) :
    Kempt t where
  tidy := tidy
  slotted u i hu := by
    rw [slot?, slots]
    exact h.slotted u i (docs u i hu)
  armed e he := by
    rw [slot?, slots, nextSlot]
    exact h.armed e (timers ▸ he)

/-- A slot may change as long as it keeps its timer, and is closed only without one. -/
theorem Kempt.setSlot (h : Kempt s) (found : s.slot? id = some slot) {a : Slot}
    (timer : a.timer = slot.timer)
    (opened : slot.closed = false → slot.timer ≠ none → a.closed = false) :
    Kempt (s.setSlot id a) where
  tidy := h.tidy.setSlot id a
  slotted u i hu := by
    rw [slot?_setSlot]
    split
    · exact Option.some_ne_none _
    · exact h.slotted u i hu
  armed e he := by
    obtain ⟨hlt, slot', hslot, htimer, hopen⟩ := h.armed e he
    refine ⟨hlt, ?_⟩
    rw [slot?_setSlot]
    split
    · next same =>
      rw [same, found] at hslot
      obtain rfl := Option.some.inj hslot
      exact ⟨a, rfl, timer.trans htimer, opened hopen (by simp [htimer])⟩
    · exact ⟨slot', hslot, htimer, hopen⟩

/-- The timer of a slot goes, and the slot with it has none. -/
theorem Kempt.dropTimer (h : Kempt s) {timer : Nat} (found : s.slot? id = some slot)
    (htimer : slot.timer = some timer) :
    Kempt ((s.dropTimer timer).setSlot id { slot with timer := none }) where
  tidy := (h.tidy.dropTimer timer).setSlot id _
  slotted u i hu := by
    rw [slot?_setSlot]
    split
    · exact Option.some_ne_none _
    · exact h.slotted u i hu
  armed e he := by
    obtain ⟨hmem, hne⟩ := Assoc.mem_erase.mp he
    obtain ⟨hlt, slot', hslot, htimer', hopen⟩ := h.armed e hmem
    refine ⟨hlt, ?_⟩
    rw [slot?_setSlot]
    split
    · next same =>
      rw [same, found] at hslot
      obtain rfl := Option.some.inj hslot
      exact absurd (Option.some.inj (htimer'.symm.trans htimer)) hne
    · exact ⟨slot', hslot, htimer', hopen⟩

theorem Kempt.cancelTimer (h : Kempt s) (id : Nat) : Kempt (s.cancelTimer id).1 := by
  cases found : s.slot? id with
  | none =>
    rw [State.cancelTimer, found]
    exact h
  | some slot =>
    cases htimer : slot.timer with
    | none =>
      rw [cancelTimer_of_none found htimer]
      exact h
    | some timer =>
      rw [cancelTimer_of_some found htimer]
      exact h.dropTimer found htimer

theorem Kempt.startTimer (h : Kempt s) (uri : String) (found : s.slot? id = some slot)
    (timer : slot.timer = none) (hopen : slot.closed = false) (lt : id < s.nextSlot) :
    Kempt (s.armTimer uri id).1 := by
  rw [armTimer_of_none found timer]
  exact
    { tidy := (h.tidy.addTimer uri id).setSlot id _
      slotted := fun u i hu => by
        rw [slot?_setSlot]
        split
        · exact Option.some_ne_none _
        · exact h.slotted u i hu
      armed := fun e he => by
        rcases List.mem_append.mp he with he | he
        · obtain ⟨hlt, slot', hslot, htimer, hopen'⟩ := h.armed e he
          refine ⟨hlt, slot', ?_, htimer, hopen'⟩
          rw [slot?_setSlot, if_neg fun same => ?_]
          · exact hslot
          · rw [same, found] at hslot
            obtain rfl := Option.some.inj hslot
            simp [timer] at htimer
        · rw [List.mem_singleton.mp he]
          exact ⟨lt, _, slot?_setSlot_self .., rfl, hopen⟩ }

theorem Kempt.armTimer (h : Kempt s) (uri : String) (found : s.slot? id = some slot)
    (hopen : slot.closed = false) (lt : id < s.nextSlot) : Kempt (s.armTimer uri id).1 := by
  cases htimer : slot.timer with
  | none => exact h.startTimer uri found htimer hopen lt
  | some timer =>
    rw [armTimer_of_some found htimer]
    exact (h.dropTimer found htimer).startTimer uri (slot?_setSlot_self ..) rfl hopen lt

theorem Kempt.startRun (h : Kempt s) (uri : String) (id : Nat) : Kempt (s.startRun uri id).1 := by
  cases found : s.slot? id with
  | none =>
    rw [State.startRun, found]
    exact h
  | some slot =>
    rw [startRun_of_found found]
    have added : Kempt (s.addRun (slot.runFor uri id)) :=
      h.congr (h.tidy.addRun _) (fun _ _ hu => hu) rfl rfl rfl
    exact added.setSlot (a := { slot with
      phase := .running, dirty := false, rerunNow := false, idle := false, run := some s.nextRun })
      found rfl fun hopen _ => hopen

theorem Kempt.makeIdle (h : Kempt s) (id : Nat) : Kempt (s.makeIdle id).1 := by
  cases found : s.slot? id with
  | none =>
    rw [State.makeIdle, found]
    exact h
  | some slot =>
    rw [makeIdle_of_found found]
    exact h.setSlot (a := { slot with phase := .idle, idle := true, waiters := [] }) found rfl
      fun hopen _ => hopen

theorem Kempt.validateNow (h : Kempt s) (uri : String) (id : Nat) :
    Kempt (s.validateNow uri id).1 := by
  unfold State.validateNow
  split
  · exact h
  · next slot found =>
    split
    · exact h.setSlot (a := { slot with rerunNow := true }) found rfl fun hopen _ => hopen
    · exact (h.cancelTimer id).startRun uri id

theorem Kempt.unregister (h : Kempt s) (uri : String) : Kempt (s.unregister uri) :=
  h.congr (h.tidy.unregister uri) (fun _ _ hu => (Assoc.of_get?_erase hu).2) rfl rfl rfl

/-- A slot under a new number has no timer yet. -/
theorem Kempt.register (h : Kempt s) (uri : String) (a : Slot) :
    Kempt ((s.register uri).setSlot s.nextSlot a) where
  tidy := (h.tidy.register uri).setSlot _ _
  slotted u i hu := by
    rw [slot?_setSlot]
    split
    · exact Option.some_ne_none _
    · next hne =>
      rw [docs_setSlot, State.register, Assoc.get?_set] at hu
      split at hu
      · exact absurd (Option.some.inj hu).symm hne
      · exact h.slotted u i hu
  armed e he := by
    obtain ⟨hlt, slot', hslot, htimer, hopen⟩ := h.armed e he
    refine ⟨Nat.lt_succ_of_lt hlt, slot', ?_, htimer, hopen⟩
    rw [slot?_setSlot, if_neg (Nat.ne_of_lt hlt)]
    exact hslot

/-- A document that is touched is registered, and its slot is not closed. -/
theorem Kempt.touch (h : Kempt s) (uri : String) (version : Option Int) (text : Option String) :
    Kempt (s.touch uri version text).1 ∧
      Assoc.get? uri (s.touch uri version text).1.docs = some (s.touch uri version text).2 ∧
      ∃ slot, (s.touch uri version text).1.slot? (s.touch uri version text).2 = some slot ∧
        slot.closed = false := by
  cases hslot : s.slotOf? uri with
  | none =>
    rw [touch_of_unknown hslot]
    exact ⟨h.register uri _, Assoc.get?_set_self uri _ _, _, slot?_setSlot_self .., rfl⟩
  | some e =>
    obtain ⟨id, slot⟩ := e
    obtain ⟨doc, found⟩ := found_of_slotOf? hslot
    rw [touch_of_found doc found]
    exact ⟨h.setSlot (a := slot.touched version text) found rfl fun _ _ => rfl, doc, _,
      slot?_setSlot_self .., rfl⟩

/-! ## Events -/

theorem Kempt.onChange (h : Kempt s) (uri : String) (version : Int) (text : String) :
    Kempt (s.onChange uri version text).1 := by
  obtain ⟨touched, doc, slot, found, hopen⟩ := h.touch uri (some version) (some text)
  by_cases phase : slot.phase = .running
  · rw [onChange_of_running rfl found phase]
    exact touched.setSlot (a := { slot with dirty := true }) found rfl fun hopen _ => hopen
  · rw [onChange_of_ne_running rfl found phase]
    exact touched.armTimer uri found hopen (touched.tidy.slot_lt uri _ doc)

theorem Kempt.touch_validateNow (h : Kempt s) (uri : String) (version : Option Int)
    (text : Option String) :
    Kempt ((s.touch uri version text).1.validateNow uri (s.touch uri version text).2).1 :=
  (h.touch uri version text).1.validateNow uri _

theorem Kempt.onSave (h : Kempt s) (uri : String) (version : Option Int) (text : Option String) :
    Kempt (s.onSave uri version text).1 := by
  unfold State.onSave
  dsimp only
  split
  · exact h
  · exact h.touch_validateNow uri version text

theorem Kempt.onClose (h : Kempt s) (uri : String) : Kempt (s.onClose uri).1 := by
  cases hslot : s.slotOf? uri with
  | none =>
    simp only [State.onClose, hslot]
    exact h
  | some e =>
    obtain ⟨id, slot⟩ := e
    have found := found_cancelTimer (found_of_slotOf? hslot).2
    have cancelled := h.cancelTimer id
    simp only [State.onClose, hslot, found]
    split
    · exact cancelled.setSlot found rfl fun _ some => absurd rfl some
    · refine Kempt.makeIdle ?_ id
      exact (cancelled.unregister uri).setSlot (a := { slot.unmarked with timer := none }) found rfl
        fun _ some => absurd rfl some

theorem Kempt.onFired (h : Kempt s) (timer : Nat) : Kempt (s.onFired timer).1 := by
  cases ht : Assoc.get? timer s.timers with
  | none =>
    rw [onFired_of_none ht]
    exact h
  | some entry =>
    obtain ⟨-, slot, found, htimer, -⟩ := h.armed _ (Assoc.mem_of_get? ht)
    have fired := h.dropTimer found htimer
    have hfound : (s.dropTimer timer).slot? entry.slot = some slot := found
    simp only [State.onFired, ht]
    rw [show ({ s with timers := Assoc.erase timer s.timers } : State) =
      s.dropTimer timer from rfl, hfound]
    dsimp only
    split
    · exact fired.startRun _ _
    · exact fired

theorem Kempt.afterRun (h : Kempt s) (uri : String) (id : Nat) : Kempt (s.afterRun uri id).1 := by
  cases found : s.slot? id with
  | none =>
    rw [State.afterRun, found]
    exact h
  | some slot =>
    by_cases doc : Assoc.get? uri s.docs = some id
    · cases hclosed : slot.closed with
      | true =>
        rw [afterRun_of_closed doc found hclosed]
        exact (h.unregister uri).makeIdle id
      | false =>
        rw [afterRun_of_open doc found hclosed]
        split
        · exact h.startRun uri id
        · split
          · exact h.armTimer uri found hclosed (h.tidy.slot_lt uri id doc)
          · exact h.makeIdle id
    · have gone : s.isCurrent uri id = false := by simp [State.isCurrent, doc]
      simp only [State.afterRun, found, gone, Bool.and_false, Bool.false_eq_true,
        if_false, Bool.not_false, if_true]
      exact h.makeIdle id

theorem Kempt.onEnded (h : Kempt s) (r : Nat) : Kempt (s.onEnded r).1 := by
  cases hr : Assoc.get? r s.runs with
  | none =>
    rw [onEnded_of_none hr]
    exact h
  | some run =>
    have dropped : Kempt { s.dropRun r with completed := s.completed + 1 } :=
      have tidy := h.tidy.dropRun r
      h.congr
        ⟨tidy.slot_lt, tidy.slot_inj, tidy.timer_lt, tidy.timer_inj, tidy.run_lt, tidy.run_inj⟩
        (fun _ _ hu => hu) rfl rfl rfl
    cases found : s.slot? run.slot with
    | none =>
      simp only [State.onEnded, hr]
      rw [show ({ s with completed := s.completed + 1, runs := Assoc.erase r s.runs } : State).slot?
        run.slot = none from found]
      exact dropped
    | some slot =>
      rw [onEnded_of_found hr found]
      exact (dropped.setSlot (a := { slot with run := none }) found rfl fun hopen _ =>
        hopen).afterRun _ _

/-! ## Stopping -/

theorem docs_makeIdle (s : State) (id : Nat) : (s.makeIdle id).1.docs = s.docs := by
  unfold State.makeIdle
  split <;> rfl

/-- A slot is stopped: no run is started, and those under way are not taken note of.  Stopping the
scheduler does this to one slot after another, when it has no documents any more. -/
structure Stops (s : State) (p : State × List Effect) : Prop where
  kempt : Kempt p.1
  docs : p.1.docs = s.docs
  runs : p.1.runs = s.runs
  nextRun : p.1.nextRun = s.nextRun
  started : startedRuns p.2 = []

theorem Kempt.stopSlot (h : Kempt s) (id : Nat) : Stops s (s.stopSlot id) where
  kempt := (h.cancelTimer id).makeIdle id
  docs := (docs_makeIdle _ id).trans (docs_cancelTimer s id)
  runs := (still_makeIdle _ id).runs.trans (still_cancelTimer s id).runs
  nextRun := (still_makeIdle _ id).next.trans (still_cancelTimer s id).next
  started := by
    unfold State.stopSlot
    dsimp only
    rw [startedRuns_append, startedRuns_append, (still_cancelTimer s id).started,
      (still_makeIdle _ id).started, List.nil_append, List.append_nil]
    split
    · split <;> rfl
    · rfl

/-- After a stop no document is registered, and no run was started. -/
theorem Kempt.onStop (h : Kempt s) : Stops { s with docs := [] } s.onStop := by
  have slots (ids : List Nat) : ∀ p, Stops { s with docs := [] } p → Stops { s with docs := [] }
      (ids.foldl (fun p id => ((p.1.stopSlot id).1, p.2 ++ (p.1.stopSlot id).2)) p) := by
    induction ids with
    | nil => exact fun p hp => hp
    | cons id rest ih =>
      intro p hp
      have stopped := hp.kempt.stopSlot id
      exact ih _
        { kempt := stopped.kempt
          docs := stopped.docs.trans hp.docs
          runs := stopped.runs.trans hp.runs
          nextRun := stopped.nextRun.trans hp.nextRun
          started := by rw [startedRuns_append, hp.started, stopped.started, List.nil_append] }
  have empty : Kempt { s with docs := [] } :=
    { h with
      tidy :=
        { h.tidy with
          slot_lt := fun _ _ hslot => by cases hslot
          slot_inj := fun _ _ _ hslot => by cases hslot }
      slotted := fun _ _ hslot => by cases hslot }
  exact slots _ _ ⟨empty, rfl, rfl, rfl, rfl⟩

theorem Kempt.step (h : Kempt s) (e : Event) : Kempt (s.step e).1 := by
  cases e with
  | change uri version text => exact h.onChange uri version text
  | opened uri version text => exact h.touch_validateNow uri (some version) (some text)
  | save uri version text => exact h.onSave uri version text
  | close uri => exact h.onClose uri
  | fired timer => exact h.onFired timer
  | ended r => exact h.onEnded r
  | dropped r => exact h.congr (h.tidy.dropRun r) (fun _ _ hu => hu) rfl rfl rfl
  | stop => exact h.onStop.kempt

/-! ## Runs that are started -/

/-- The slot of a registered document that is not closed holds something. -/
theorem content_ne_none (doc : Assoc.get? uri s.docs = some id) (found : s.slot? id = some slot)
    (hopen : slot.closed = false) : s.content uri ≠ none := by
  rw [content_of_found doc found, Slot.content, hopen]
  simp

theorem startedRuns_onFired_of_gone {timer : Nat} {entry : TimerEntry}
    (ht : Assoc.get? timer s.timers = some entry)
    (gone : Assoc.get? entry.uri s.docs ≠ some entry.slot) :
    startedRuns (s.onFired timer).2 = [] := by
  simp only [State.onFired, ht]
  split
  · rfl
  · simp [State.isCurrent, gone]

theorem startedRuns_afterRun_of_gone (gone : Assoc.get? uri s.docs ≠ some id) :
    startedRuns (s.afterRun uri id).2 = [] := by
  have hgone : s.isCurrent uri id = false := by simp [State.isCurrent, gone]
  unfold State.afterRun
  split
  · rfl
  · simp only [hgone, Bool.and_false, Bool.false_eq_true, if_false, Bool.not_false, if_true]
    exact (still_makeIdle s id).started

/-- A run that ends is followed by another only where its document is not closed. -/
theorem content_of_started_onEnded (hr : Assoc.get? r s.runs = some run)
    (started : startedRuns (s.onEnded r).2 ≠ []) : s.content run.uri ≠ none := by
  cases found : s.slot? run.slot with
  | none =>
    simp only [State.onEnded, hr] at started
    rw [show ({ s with completed := s.completed + 1, runs := Assoc.erase r s.runs } : State).slot?
      run.slot = none from found] at started
    exact absurd rfl started
  | some slot =>
    rw [onEnded_of_found hr found] at started
    by_cases doc : Assoc.get? run.uri s.docs = some run.slot
    · cases hclosed : slot.closed with
      | false => exact content_ne_none doc found hclosed
      | true =>
        have hdoc :
            Assoc.get? run.uri (({ s.dropRun r with completed := s.completed + 1 } : State).setSlot
          run.slot { slot with run := none }).docs = some run.slot := doc
        rw [afterRun_of_closed hdoc (slot?_setSlot_self ..) hclosed] at started
        exact absurd (still_makeIdle _ _).started started
    · exact absurd (startedRuns_afterRun_of_gone (s := ({ s.dropRun r with
        completed := s.completed + 1 } : State).setSlot run.slot
          { slot with run := none }) doc) started

/-- A run is started only of a document that is open after the event.  This is the whole of the
argument; the rest is bookkeeping over sequences. -/
theorem Kempt.open_of_started (h : Kempt s) (e : Event) (hr : r ∈ startedRuns (s.step e).2) :
    ∃ run, Assoc.get? r (s.step e).1.runs = some run ∧ (s.step e).1.content run.uri ≠ none := by
  by_cases he : e = .stop
  · subst he
    have none : startedRuns (s.step .stop).2 = [] := h.onStop.started
    rw [none] at hr
    cases hr
  obtain ⟨hge, -, hruns⟩ := (starts_step s he).started hr
  rw [nextRun_before] at hge
  obtain ⟨run, hrun⟩ := Option.ne_none_iff_exists'.mp hruns
  refine ⟨run, hrun, ?_⟩
  have hmem := Assoc.mem_of_get? hrun
  -- The number of the run is new, so the run was not there before the event.
  have hnew : (r, run) ∉ s.runs := fun hold => absurd (h.tidy.run_lt _ hold) (Nat.not_lt.mpr hge)
  have hbefore : (r, run) ∉ (s.before e).runs := by
    intro hold
    refine hnew ?_
    cases e with
    | ended r' | dropped r' => exact (Assoc.mem_erase.mp hold).1
    | change | opened | save | close | fired | stop => exact hold
  have hd := (runs_step s he _ hmem).resolve_left hbefore
  have hcontent := content_step h.tidy e he run.uri
  cases e with
  | change u version text | opened u version text =>
    obtain rfl : u = run.uri := Option.some.inj hd
    rw [hcontent, Event.accept, if_pos rfl]
    exact Option.some_ne_none _
  | save u version text =>
    obtain rfl : u = run.uri := Option.some.inj hd
    refine (content_onSave_self h.tidy run.uri version text).resolve_left fun same => hnew ?_
    rwa [State.step, same] at hmem
  | close u =>
    have none : startedRuns (s.step (.close u)).2 = [] := (still_onClose s u).1.2.2
    rw [none] at hr
    cases hr
  | fired timer =>
    obtain ⟨entry, ht, huri⟩ := Option.map_eq_some_iff.mp hd
    obtain ⟨-, slot, found, -, hopen⟩ := h.armed _ (Assoc.mem_of_get? ht)
    have same : (s.step (.fired timer)).1.content run.uri = s.content run.uri := hcontent
    rw [same, ← huri]
    by_cases doc : Assoc.get? entry.uri s.docs = some entry.slot
    · exact content_ne_none doc found hopen
    · have none : startedRuns (s.step (.fired timer)).2 = [] := startedRuns_onFired_of_gone ht doc
      rw [none] at hr
      cases hr
  | ended r' =>
    obtain ⟨run', hr', huri⟩ := Option.map_eq_some_iff.mp hd
    have same : (s.step (.ended r')).1.content run.uri = s.content run.uri := hcontent
    rw [same, ← huri]
    exact content_of_started_onEnded hr' (List.ne_nil_of_mem hr)
  | dropped r' => cases hr
  | stop => exact absurd rfl he

/-! ## Documents that are not open -/

theorem docs_startRun (s : State) (uri : String) (id : Nat) :
    (s.startRun uri id).1.docs = s.docs := by
  unfold State.startRun
  split <;> rfl

theorem docs_armTimer (s : State) (uri : String) (id : Nat) :
    (s.armTimer uri id).1.docs = s.docs := by
  unfold State.armTimer
  dsimp only
  split
  · exact docs_cancelTimer s id
  · exact docs_cancelTimer s id

theorem docs_validateNow (s : State) (uri : String) (id : Nat) :
    (s.validateNow uri id).1.docs = s.docs := by
  unfold State.validateNow
  split
  · rfl
  · split
    · rfl
    · exact (docs_startRun _ uri id).trans (docs_cancelTimer s id)

theorem docs_touch_of_ne (h : other ≠ uri) (s : State) (version : Option Int)
    (text : Option String) :
    Assoc.get? other (s.touch uri version text).1.docs = Assoc.get? other s.docs := by
  cases hslot : s.slotOf? uri with
  | none =>
    rw [touch_of_unknown hslot]
    exact Assoc.get?_set_of_ne h _ _
  | some e =>
    obtain ⟨doc, found⟩ := found_of_slotOf? hslot
    rw [touch_of_found doc found]
    rfl

theorem docs_onChange (s : State) (uri : String) (version : Int) (text : String) :
    (s.onChange uri version text).1.docs = (s.touch uri (some version) (some text)).1.docs := by
  unfold State.onChange
  dsimp only
  split
  · rfl
  · split
    · rfl
    · exact docs_armTimer _ uri _

/-- Either documents are left as they are, or one is no longer registered. -/
theorem docs_onClose (s : State) (uri : String) :
    (s.onClose uri).1.docs = s.docs ∨ (s.onClose uri).1.docs = Assoc.erase uri s.docs := by
  unfold State.onClose
  split
  · exact .inl rfl
  · next id _ _ =>
    dsimp only
    split
    · exact .inl (docs_cancelTimer s id)
    · split
      · exact .inl (docs_cancelTimer s id)
      · refine .inr ((docs_makeIdle _ id).trans ?_)
        change Assoc.erase uri (s.cancelTimer id).1.docs = _
        rw [docs_cancelTimer]

theorem docs_onFired (s : State) (timer : Nat) : (s.onFired timer).1.docs = s.docs := by
  unfold State.onFired
  split
  · rfl
  · dsimp only
    split
    · rfl
    · split
      · exact docs_startRun _ _ _
      · rfl

theorem docs_afterRun (s : State) (uri : String) (id : Nat) :
    (s.afterRun uri id).1.docs = s.docs ∨ (s.afterRun uri id).1.docs = Assoc.erase uri s.docs := by
  have decided (t : State) (rerunNow dirty : Bool) :
      (if !t.isCurrent uri id then t.makeIdle id
        else if rerunNow then t.startRun uri id
        else if dirty then t.armTimer uri id
        else t.makeIdle id).1.docs = t.docs := by
    split
    · exact docs_makeIdle t id
    · split
      · exact docs_startRun t uri id
      · split
        · exact docs_armTimer t uri id
        · exact docs_makeIdle t id
  unfold State.afterRun
  split
  · exact .inl rfl
  · dsimp only
    rw [decided]
    split
    · exact .inr rfl
    · exact .inl rfl

theorem docs_onEnded (s : State) (r : Nat) :
    (s.onEnded r).1.docs = s.docs ∨ ∃ uri, (s.onEnded r).1.docs = Assoc.erase uri s.docs := by
  unfold State.onEnded
  split
  · exact .inl rfl
  · next run _ =>
    dsimp only
    split
    · exact .inl rfl
    · exact (docs_afterRun _ run.uri run.slot).imp_right fun h => ⟨run.uri, h⟩

theorem get?_of_erased {docs docs' : List (String × Nat)}
    (h : docs' = docs ∨ ∃ u, docs' = Assoc.erase u docs) (uri : String) :
    Assoc.get? uri docs' = Assoc.get? uri docs ∨ Assoc.get? uri docs' = none := by
  rcases h with rfl | ⟨u, rfl⟩
  · exact .inl rfl
  · rw [Assoc.get?_erase]
    split
    · exact .inr rfl
    · exact .inl rfl

/-- A document that is not open is registered by such events only that open it. -/
theorem Kempt.docs_step (h : Kempt s) (e : Event) (unopened : s.content uri = none)
    (closes : ¬ e.Registers uri) :
    Assoc.get? uri (s.step e).1.docs = Assoc.get? uri s.docs ∨
      Assoc.get? uri (s.step e).1.docs = none := by
  cases e with
  | change u version text =>
    rw [State.step, docs_onChange]
    exact .inl (docs_touch_of_ne (Ne.symm closes) s _ _)
  | opened u version text =>
    rw [State.step, State.onOpen, docs_validateNow]
    exact .inl (docs_touch_of_ne (Ne.symm closes) s _ _)
  | save u version text =>
    unfold State.step State.onSave
    dsimp only
    split
    · exact .inl rfl
    · next told =>
      rw [docs_validateNow]
      refine .inl (docs_touch_of_ne (fun same => ?_) s _ _)
      subst same
      -- A save of a document that is not open registers it only with a version and a text.
      have unknown : (s.slotOf? uri).any (fun e => !e.2.closed) = false := by
        cases hslot : s.slotOf? uri with
        | none => rfl
        | some e =>
          rw [State.content, hslot, Option.bind_some, Slot.content] at unopened
          cases hclosed : e.2.closed with
          | true => simp [hclosed]
          | false => simp [hclosed] at unopened
      cases version <;> cases text <;> simp_all [Event.Registers]
  | close u => exact get?_of_erased ((docs_onClose s u).imp_right fun he => ⟨u, he⟩) uri
  | fired timer =>
    rw [State.step, docs_onFired]
    exact .inl rfl
  | ended r => exact get?_of_erased (docs_onEnded s r) uri
  | dropped r => exact .inl rfl
  | stop =>
    rw [State.step, h.onStop.docs]
    exact .inr rfl

/-- What an event leaves of a run that is under way.  It is there as it was, or it is over. -/
theorem Kempt.runs_step (h : Kempt s) (e : Event) (lt : r < s.nextRun)
    (under : ∀ found, Assoc.get? r s.runs = some found → found = run) :
    ∀ found, Assoc.get? r (s.step e).1.runs = some found → found = run := by
  intro found hfound
  by_cases he : e = .stop
  · subst he
    rw [State.step, h.onStop.runs] at hfound
    exact under found hfound
  rcases (starts_step s he).known_or_started hfound with known | started
  · refine under found ?_
    cases e with
    | ended r' | dropped r' => exact (Assoc.of_get?_erase known).2
    | change | opened | save | close | fired | stop => exact known
  · have hge := ((starts_step s he).started started).1
    rw [nextRun_before] at hge
    exact absurd lt (Nat.not_lt.mpr hge)

theorem Kempt.nextRun_le (h : Kempt s) (e : Event) : s.nextRun ≤ (s.step e).1.nextRun := by
  by_cases he : e = .stop
  · subst he
    exact Nat.le_of_eq h.onStop.nextRun.symm
  · rw [← nextRun_before s e]
    exact (starts_step s he).next_le

/-- The run of a closed document ends, and the document is not registered any more. -/
theorem Kempt.docs_onEnded_of_closed (h : Kempt s) (hr : Assoc.get? r s.runs = some run)
    (unopened : s.content run.uri = none)
    (own : ∀ id, Assoc.get? run.uri s.docs = some id → id = run.slot) :
    Assoc.get? run.uri (s.onEnded r).1.docs = none := by
  cases doc : Assoc.get? run.uri s.docs with
  | none =>
    have kept := get?_of_erased (docs_onEnded s r) run.uri
    rw [doc] at kept
    exact kept.elim id id
  | some id =>
    obtain rfl := own id doc
    obtain ⟨slot, found⟩ := Option.ne_none_iff_exists'.mp (h.slotted _ _ doc)
    have hclosed : slot.closed = true := by
      rw [content_of_found doc found, Slot.content] at unopened
      by_contra hopen
      simp [hopen] at unopened
    have hdoc :
        Assoc.get? run.uri (({ s.dropRun r with completed := s.completed + 1 } : State).setSlot
      run.slot { slot with run := none }).docs = some run.slot := doc
    rw [onEnded_of_found hr found, afterRun_of_closed hdoc (slot?_setSlot_self ..) hclosed,
      docs_makeIdle]
    exact Assoc.get?_erase_self run.uri _

/-! ## Sequences of events -/

/-- The state after events. -/
def State.after (s : State) (es : List Event) : State :=
  es.foldl (fun s e => (s.step e).1) s

@[simp] theorem after_append (s : State) (es more : List Event) :
    s.after (es ++ more) = (s.after es).after more :=
  List.foldl_append

/-- An event that closes a document; a stop closes all. -/
def Event.Closes (uri : String) : Event → Prop
  | .close u => u = uri
  | .stop => True
  | _ => False

/-- Since it was closed last, if it was, a document was registered: by its opening, by a change, or
by a save that gave both its version and its text.  A save that gives only one of the two does not
register a document. -/
def Reopened (uri : String) (es : List Event) : Prop :=
  ∃ before e after, es = before ++ e :: after ∧ e.Registers uri ∧ ∀ x ∈ after, ¬ x.Closes uri

/-- A run of a document is under way, and the document is registered with the run's slot. -/
def State.UnderWay (s : State) (uri : String) (r : Nat) : Prop :=
  ∃ run, Assoc.get? r s.runs = some run ∧ run.uri = uri ∧ Assoc.get? uri s.docs = some run.slot

theorem Reopened.of_registers {e : Event} (h : e.Registers uri) (es : List Event) :
    Reopened uri (es ++ [e]) :=
  ⟨es, e, [], rfl, h, nofun⟩

theorem Reopened.keep {es : List Event} {e : Event} (h : Reopened uri es) (open_ : ¬ e.Closes uri) :
    Reopened uri (es ++ [e]) := by
  obtain ⟨before, e', after, rfl, registers, opened⟩ := h
  refine ⟨before, e', after ++ [e], by simp, registers, fun x hx => ?_⟩
  rcases List.mem_append.mp hx with hx | hx
  · exact opened x hx
  · rwa [List.mem_singleton.mp hx]

theorem content_of_closes (h : Kempt s) {e : Event} (closes : e.Closes uri) :
    (s.step e).1.content uri = none := by
  cases e with
  | close u =>
    rw [content_step h.tidy _ (by simp), Event.accept]
    exact if_pos closes
  | stop =>
    refine content_of_absent ?_
    rw [State.step, h.onStop.docs]
    rfl
  | change | opened | save | fired | ended | dropped => exact closes.elim

theorem content_of_unregistered (h : Kempt s) {e : Event} (closed : s.content uri = none)
    (other : ¬ e.Registers uri) : (s.step e).1.content uri = none := by
  by_cases he : e = .stop
  · exact content_of_closes h (by rw [he]; trivial)
  · exact content_of_not_registers h.tidy he other closed

theorem kempt_after (debounce : Int) (es : List Event) :
    Kempt ((State.start debounce).after es) := by
  induction es using List.reverseRecOn with
  | nil =>
    exact
      { tidy := (Inv.start (w := ⟨True, fun _ _ _ => True⟩) debounce).tidy
        slotted := nofun
        armed := nofun }
  | append_singleton es e ih =>
    rw [after_append]
    exact ih.step e

/-- A document that is open was registered since it was closed last. -/
theorem reopened_of_content (debounce : Int) (es : List Event)
    (h : ((State.start debounce).after es).content uri ≠ none) : Reopened uri es := by
  induction es using List.reverseRecOn with
  | nil => exact absurd rfl h
  | append_singleton es e ih =>
    rw [after_append] at h
    have kempt := kempt_after debounce es
    have opened : ¬ e.Closes uri := fun closes => h (content_of_closes kempt closes)
    by_cases registers : e.Registers uri
    · exact .of_registers registers es
    · exact (ih fun closed => h (content_of_unregistered kempt closed registers)).keep opened

/-- What is so after a document was closed, as long as no event registers it: it is registered at
most with the slot that it had, and the run that was under way is that one still or over. -/
structure Fading (uri : String) (r : Nat) (run : Run) (s : State) : Prop where
  closed : s.content uri = none
  slot : ∀ id, Assoc.get? uri s.docs = some id → id = run.slot
  lt : r < s.nextRun
  under : ∀ found, Assoc.get? r s.runs = some found → found = run

theorem Fading.step (h : Fading uri r run s) (kempt : Kempt s) {e : Event}
    (other : ¬ e.Registers uri) :
    Fading uri r run (s.step e).1 where
  closed := content_of_unregistered kempt h.closed other
  slot id hid := by
    rcases kempt.docs_step e h.closed other with same | gone
    · exact h.slot id (same.symm.trans hid)
    · rw [gone] at hid
      cases hid
  lt := Nat.lt_of_lt_of_le h.lt (kempt.nextRun_le e)
  under := kempt.runs_step e h.lt h.under

theorem fading_after_close (h : Kempt s) (hr : Assoc.get? r s.runs = some run)
    (doc : Assoc.get? uri s.docs = some run.slot) : Fading uri r run (s.step (.close uri)).1 where
  closed := content_of_closes h rfl
  slot id hid := by
    rcases get?_of_erased ((docs_onClose s uri).imp_right fun he => ⟨uri, he⟩) uri with same | gone
    · exact Option.some.inj ((same.symm.trans hid).symm.trans doc)
    · rw [State.step, gone] at hid
      cases hid
  lt := Nat.lt_of_lt_of_le (h.tidy.run_lt _ (Assoc.mem_of_get? hr)) (h.nextRun_le _)
  under := h.runs_step _ (h.tidy.run_lt _ (Assoc.mem_of_get? hr)) fun found hfound =>
    Option.some.inj (hfound.symm.trans hr)

/-- What the closing of a document means when events come in any order.  It also says what becomes
of a run that was under way when the document was closed. -/
structure ClosesForGood (first : State) (es : List Event) : Prop where
  /-- Whatever comes next, a run that is started then is of a document that was registered since it
  was closed last. -/
  started : ∀ e, ∀ r ∈ startedRuns ((first.after es).step e).2,
    ∃ run, Assoc.get? r ((first.after es).step e).1.runs = some run ∧ Reopened run.uri (es ++ [e])
  /-- When the run ends that was under way as a document was closed, and it was not registered
  since, then it is not registered any more. -/
  ended : ∀ before uri after r, es = before ++ .close uri :: after →
    (first.after before).UnderWay uri r →
    (∀ e ∈ after, ¬ e.Registers uri) → Assoc.get? r (first.after es).runs ≠ none →
    Assoc.get? uri ((first.after es).step (.ended r)).1.docs = none
  /-- Unless the scheduler was stopped, every run that has not ended is under way in this sense. -/
  underWay : .stop ∉ es → ∀ r run, Assoc.get? r (first.after es).runs = some run →
    (first.after es).UnderWay run.uri r

/-- No validation of a document is started after it was closed, whatever was due for it then, before
an event registers it again.  The events are those of the machine, in any order, with timers that
fire late and runs that end late among them.  The second half follows one run: if its document is
closed and not registered again, the document is unregistered once the run has ended. -/
theorem no_validation_after_close (debounce : Int) (es : List Event) :
    ClosesForGood (State.start debounce) es where
  started e r hr := by
    obtain ⟨run, hrun, hopen⟩ := (kempt_after debounce es).open_of_started e hr
    refine ⟨run, hrun, reopened_of_content debounce (es ++ [e]) ?_⟩
    rwa [after_append]
  ended before uri after r split under unregistered alive := by
    obtain ⟨run, hr, rfl, doc⟩ := under
    have fading : Fading run.uri r run
        (((State.start debounce).after (before ++ [.close run.uri])).after after) := by
      clear split alive
      induction after using List.reverseRecOn with
      | nil =>
        rw [after_append]
        exact fading_after_close (kempt_after debounce before) hr doc
      | append_singleton after e ih =>
        rw [after_append]
        refine (ih fun x hx => unregistered x (List.mem_append_left _ hx)).step ?_
          (unregistered e (by simp))
        rw [← after_append]
        exact kempt_after debounce _
    rw [← after_append, List.append_assoc, List.singleton_append, ← split] at fading
    obtain ⟨found, hfound⟩ := Option.ne_none_iff_exists'.mp alive
    obtain rfl := fading.under found hfound
    exact (kempt_after debounce es).docs_onEnded_of_closed hfound fading.closed fading.slot
  underWay unstopped r run hr := by
    have inv : Inv ⟨True, fun _ _ _ => True⟩ ((State.start debounce).after es) := by
      clear hr
      -- Events are added at the end, as what is claimed of an event refers to those before it.
      induction es using List.reverseRecOn with
      | nil => exact .start debounce
      | append_singleton es e ih =>
        rw [after_append]
        refine (ih fun hmem => unstopped (List.mem_append_left _ hmem)).step ?_
        cases e with
        | stop => exact absurd (by simp) unstopped
        | ended => exact fun _ _ => trivial
        | dropped => exact fun _ => trivial
        | change | opened | save | close | fired => trivial
    obtain ⟨slot, doc, -⟩ := inv.running_of_run hr
    exact ⟨run, hr, rfl, doc⟩

/-- A save and an edit came during the run; the document is closed before it ends. -/
example :
    let s := (State.start 250).after
      [.opened "a" 1 "int x;", .save "a" none none, .change "a" 2 "int y;", .close "a",
        .save "a" none none]
    s.docs = [("a", 0)] ∧ s.runs.map (·.1) = [0] ∧ (s.after [.ended 0]).docs = [] ∧
      (s.after [.ended 0]).runs = [] ∧ (s.after [.ended 0]).timers = [] := by
  decide

end PikeAnalysis.Scheduler
