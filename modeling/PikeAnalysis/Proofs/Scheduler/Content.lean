import PikeAnalysis.Proofs.Scheduler.Invariant

/-!
# What the scheduler takes a document to hold

The version and text of an open document are those of the latest event that said so, whatever timers
and runs have done meanwhile.  `Event.accept` is what an event says about a document, given what was
known of it; `content_step` shows that the slots follow it.

What a document holds is a matter of the editor's events alone: timers, runs and their ends must not
change it, and this is what lets the claims about the latest edit speak of edits only.  The one
event that needs care is a save, which may give a version or a text or neither: it counts as far as
it says something, and only of a document that is open, or that it says everything of.
-/

namespace PikeAnalysis.Scheduler

/-- What is known of a document after an event.  A save may say only what is new, but then the
document has to be open.  Nothing is known of a document that is closed. -/
def Event.accept (uri : String) (known : Option (Int × String)) : Event → Option (Int × String)
  | .change u version text | .opened u version text =>
    if u = uri then some (version, text) else known
  | .save u version text =>
    if u = uri then
      match known with
      | some (version', text') => some (version.getD version', text.getD text')
      | none => version.bind fun v => text.map (v, ·)
    else known
  | .close u => if u = uri then none else known
  | _ => known

/-- The version and text of a document that is open.  A document that is closed has none, even while
its run goes on. -/
def Slot.content (slot : Slot) : Option (Int × String) :=
  if slot.closed then none else some (slot.version, slot.text)

namespace State

/-- The version and text of a document that is registered and not closed. -/
def content (s : State) (uri : String) : Option (Int × String) :=
  (s.slotOf? uri).bind (·.2.content)

variable {s : State} {uri other : String} {id : Nat} {slot slot' : Slot}

theorem content_of_found (doc : Assoc.get? uri s.docs = some id) (found : s.slot? id = some slot) :
    s.content uri = slot.content := by
  rw [content, slotOf?_of_found doc found, Option.bind_some]

theorem content_of_absent (doc : Assoc.get? uri s.docs = none) : s.content uri = none := by
  rw [content, slotOf?_of_absent doc, Option.bind_none]

theorem slotOf?_setSlot_of_ne (h : Assoc.get? uri s.docs ≠ some id) (slot : Slot) :
    (s.setSlot id slot).slotOf? uri = s.slotOf? uri := by
  cases hdoc : Assoc.get? uri s.docs with
  | none => rw [slotOf?_of_absent hdoc, slotOf?_of_absent (s := s.setSlot id slot) hdoc]
  | some i =>
    have hne : i ≠ id := fun he => h (he ▸ hdoc)
    simp [slotOf?, hdoc, hne]

/-! ## Operations -/

/-- Marks, timers and runs are no content. -/
theorem content_setSlot (found : s.slot? id = some slot) {a : Slot}
    (same : a.content = slot.content)
    (uri : String) : (s.setSlot id a).content uri = s.content uri := by
  by_cases hdoc : Assoc.get? uri s.docs = some id
  · rw [content_of_found (s := s.setSlot id a) hdoc (slot?_setSlot_self ..),
      content_of_found hdoc found, same]
  · rw [content, slotOf?_setSlot_of_ne hdoc, content]

theorem content_cancelTimer (s : State) (id : Nat) (uri : String) :
    (s.cancelTimer id).1.content uri = s.content uri := by
  cases found : s.slot? id with
  | none => rw [cancelTimer, found]
  | some slot =>
    cases htimer : slot.timer with
    | none => rw [cancelTimer_of_none found htimer]
    | some t =>
      rw [cancelTimer_of_some found htimer]
      have hfound : (s.dropTimer t).slot? id = some slot := found
      exact content_setSlot (a := { slot with timer := none }) hfound rfl uri

theorem content_startTimer (found : s.slot? id = some slot) (timer : slot.timer = none)
    (uri other : String) : (s.armTimer uri id).1.content other = s.content other := by
  rw [armTimer_of_none found timer]
  have hfound : (s.addTimer uri id).slot? id = some slot := found
  exact content_setSlot
    (a := { slot with phase := .pending, idle := false, timer := some s.nextTimer }) hfound
      rfl other

theorem content_armTimer (s : State) (uri : String) (id : Nat) (other : String) :
    (s.armTimer uri id).1.content other = s.content other := by
  cases found : s.slot? id with
  | none => simp [armTimer, cancelTimer, found]
  | some slot =>
    cases htimer : slot.timer with
    | none => exact content_startTimer found htimer uri other
    | some t =>
      rw [armTimer_of_some found htimer,
        content_startTimer (slot?_setSlot_self ..) rfl uri other]
      have hfound : (s.dropTimer t).slot? id = some slot := found
      exact content_setSlot (a := { slot with timer := none }) hfound rfl other

theorem content_startRun (s : State) (uri : String) (id : Nat) (other : String) :
    (s.startRun uri id).1.content other = s.content other := by
  cases found : s.slot? id with
  | none => rw [startRun, found]
  | some slot =>
    rw [startRun_of_found found]
    have hfound : (s.addRun (slot.runFor uri id)).slot? id = some slot := found
    exact content_setSlot
      (a := { slot with
        phase := .running, dirty := false, rerunNow := false, idle := false,
        run := some s.nextRun })
      hfound rfl other

theorem content_makeIdle (s : State) (id : Nat) (uri : String) :
    (s.makeIdle id).1.content uri = s.content uri := by
  cases found : s.slot? id with
  | none => rw [makeIdle, found]
  | some slot =>
    rw [makeIdle_of_found found]
    exact content_setSlot (a := { slot with phase := .idle, idle := true, waiters := [] })
      found rfl uri

theorem content_validateNow (s : State) (uri : String) (id : Nat) (other : String) :
    (s.validateNow uri id).1.content other = s.content other := by
  cases found : s.slot? id with
  | none => rw [validateNow, found]
  | some slot =>
    by_cases phase : slot.phase = .running
    · rw [validateNow_of_running found phase]
      exact content_setSlot (a := { slot with rerunNow := true }) found rfl other
    · simp only [validateNow, found, phase, if_false]
      exact (content_startRun _ uri id other).trans (content_cancelTimer s id other)

/-- A document that is no longer registered holds nothing; the others hold what they held. -/
theorem content_unregister (s : State) (uri other : String) :
    (s.unregister uri).content other = if other = uri then none else s.content other := by
  split
  · next h => exact content_of_absent (h ▸ Assoc.get?_erase_self uri s.docs)
  · next h =>
    have hdoc : Assoc.get? other (s.unregister uri).docs = Assoc.get? other s.docs :=
      Assoc.get?_erase_of_ne h s.docs
    rw [content, content, slotOf?, slotOf?, hdoc]
    rfl

theorem content_register (tidy : Tidy s) (slot : Slot) (h : other ≠ uri) :
    ((s.register uri).setSlot s.nextSlot slot).content other = s.content other := by
  have hdoc : Assoc.get? other (s.register uri).docs = Assoc.get? other s.docs :=
    Assoc.get?_set_of_ne h _ _
  have hne : Assoc.get? other (s.register uri).docs ≠ some s.nextSlot := by
    rw [hdoc]
    exact fun hn => Nat.lt_irrefl _ (tidy.slot_lt other _ hn)
  rw [content, slotOf?_setSlot_of_ne hne, content, slotOf?, slotOf?, hdoc]
  rfl

/-- Registering a document says what it holds, as far as it was not known. -/
theorem content_touch (tidy : Tidy s) (uri : String) (version : Option Int) (text : Option String)
    (other : String) :
    (s.touch uri version text).1.content other =
      if other = uri then (((s.slotOf? uri).elim {} (·.2)).touched version text).content
      else s.content other := by
  cases hslot : s.slotOf? uri with
  | none =>
    rw [touch_of_unknown hslot]
    split
    · next h =>
      subst h
      exact content_of_found (Assoc.get?_set_self other _ _) (slot?_setSlot_self ..)
    · next h => exact content_register tidy _ h
  | some e =>
    obtain ⟨id, slot⟩ := e
    obtain ⟨doc, found⟩ := found_of_slotOf? hslot
    rw [touch_of_found doc found]
    split
    · next h =>
      subst h
      exact content_of_found (s := s.setSlot id _) doc (slot?_setSlot_self ..)
    · next h =>
      have hne : Assoc.get? other s.docs ≠ some id :=
        fun hi => h (tidy.slot_inj other uri id hi doc)
      rw [content, slotOf?_setSlot_of_ne hne, content]

/-! ## Events -/

theorem content_onChange (tidy : Tidy s) (uri : String) (version : Int) (text : String)
    (other : String) :
    (s.onChange uri version text).1.content other =
      (Event.change uri version text).accept other (s.content other) := by
  have htouch := content_touch tidy uri (some version) (some text) other
  have hkept : (s.onChange uri version text).1.content other =
      (s.touch uri (some version) (some text)).1.content other := by
    cases found : (s.touch uri (some version) (some text)).1.slot?
        (s.touch uri (some version) (some text)).2 with
    | none => simp only [onChange, found]
    | some slot =>
      by_cases phase : slot.phase = .running
      · rw [onChange_of_running rfl found phase]
        exact content_setSlot (a := { slot with dirty := true }) found rfl other
      · rw [onChange_of_ne_running rfl found phase]
        exact content_armTimer _ _ _ other
  rw [hkept, htouch, Event.accept]
  by_cases h : other = uri
  · simp [h, Slot.touched, Slot.content]
  · simp [h, Ne.symm h]

theorem content_onOpen (tidy : Tidy s) (uri : String) (version : Int) (text : String)
    (other : String) :
    (s.onOpen uri version text).1.content other =
      (Event.opened uri version text).accept other (s.content other) := by
  have hkept : (s.onOpen uri version text).1.content other =
      (s.touch uri (some version) (some text)).1.content other :=
    content_validateNow _ _ _ other
  rw [hkept, content_touch tidy, Event.accept]
  by_cases h : other = uri
  · simp [h, Slot.touched, Slot.content]
  · simp [h, Ne.symm h]

theorem content_onSave (tidy : Tidy s) (uri : String) (version : Option Int) (text : Option String)
    (other : String) :
    (s.onSave uri version text).1.content other =
      (Event.save uri version text).accept other (s.content other) := by
  have hkept : ∀ other, ((s.touch uri version text).1.validateNow uri
      (s.touch uri version text).2).1.content other =
        if other = uri then (((s.slotOf? uri).elim {} (·.2)).touched version text).content
        else s.content other :=
    fun other => (content_validateNow _ _ _ other).trans (content_touch tidy uri version text other)
  simp only [onSave, Event.accept]
  by_cases h : other = uri
  · subst h
    cases hslot : s.slotOf? other with
    | none =>
      have hnone : s.content other = none := by rw [content, hslot, Option.bind_none]
      cases version <;> cases text <;> simp [hkept, hslot, hnone, Slot.touched, Slot.content]
    | some e =>
      obtain ⟨id, slot⟩ := e
      have hcontent : s.content other = slot.content := by rw [content, hslot, Option.bind_some]
      cases hclosed : slot.closed <;> cases version <;> cases text <;>
        simp [hkept, hslot, hcontent, hclosed, Slot.touched, Slot.content]
  · split
    · simp [Ne.symm h]
    · simp [hkept, h, Ne.symm h]

theorem docs_cancelTimer (s : State) (id : Nat) : (s.cancelTimer id).1.docs = s.docs := by
  unfold cancelTimer
  split
  · rfl
  · split <;> rfl

theorem found_cancelTimer (found : s.slot? id = some slot) :
    (s.cancelTimer id).1.slot? id = some { slot with timer := none } := by
  cases htimer : slot.timer with
  | none =>
    rw [cancelTimer_of_none found htimer, found, ← htimer]
  | some t =>
    rw [cancelTimer_of_some found htimer]
    exact slot?_setSlot_self ..

/-- A document that is closed holds nothing, whether or not it stays registered. -/
theorem content_onClose (tidy : Tidy s) (uri : String) (other : String) :
    (s.onClose uri).1.content other = (Event.close uri).accept other (s.content other) := by
  have hform : ((Event.close uri).accept other (s.content other)) =
      if other = uri then none else s.content other := by
    by_cases h : other = uri
    · simp [Event.accept, h]
    · simp [Event.accept, h, Ne.symm h]
  rw [hform]
  -- A document that is not registered holds nothing already.
  cases hslot : s.slotOf? uri with
  | none =>
    have hnone : s.content uri = none := by rw [content, hslot, Option.bind_none]
    simp only [onClose, hslot]
    split
    · next h => rw [h, hnone]
    · rfl
  | some e =>
    obtain ⟨id, slot⟩ := e
    obtain ⟨doc, found⟩ := found_of_slotOf? hslot
    have doc' : Assoc.get? uri (s.cancelTimer id).1.docs = some id := by rwa [docs_cancelTimer]
    have found' := found_cancelTimer found
    simp only [onClose, hslot, found']
    split
    · split
      · next h =>
        subst h
        rw [content_of_found (s := setSlot (s.cancelTimer id).1 id _) doc' (slot?_setSlot_self ..)]
        rfl
      · next h =>
        have hne : Assoc.get? other (s.cancelTimer id).1.docs ≠ some id := by
          rw [docs_cancelTimer]
          exact fun hi => h (tidy.slot_inj other uri id hi doc)
        rw [content, slotOf?_setSlot_of_ne hne]
        exact content_cancelTimer s id other
    · rw [content_makeIdle]
      have hfound : ((s.cancelTimer id).1.unregister uri).slot? id =
          some { slot with timer := none } := found'
      refine (content_setSlot (s := (s.cancelTimer id).1.unregister uri)
        (a := { slot.unmarked with timer := none }) hfound rfl other).trans ?_
      rw [content_unregister, content_cancelTimer]

theorem content_onFired (s : State) (timer : Nat) (uri : String) :
    (s.onFired timer).1.content uri = s.content uri := by
  unfold onFired
  split
  · rfl
  · next entry _ =>
    dsimp only
    cases found : s.slot? entry.slot with
    | none =>
      have hfound : (s.dropTimer timer).slot? entry.slot = none := found
      rw [show ({ s with timers := Assoc.erase timer s.timers } : State) =
        s.dropTimer timer from rfl, hfound]
      rfl
    | some slot =>
      have hfound : (s.dropTimer timer).slot? entry.slot = some slot := found
      have hkept :
          ((s.dropTimer timer).setSlot entry.slot { slot with timer := none }).content uri =
          s.content uri :=
        content_setSlot (a := { slot with timer := none }) hfound rfl uri
      rw [show ({ s with timers := Assoc.erase timer s.timers } : State) =
        s.dropTimer timer from rfl, hfound]
      dsimp only
      split
      · exact (content_startRun _ _ _ uri).trans hkept
      · exact hkept

theorem content_afterRun (s : State) (uri : String) (id : Nat) (other : String) :
    (s.afterRun uri id).1.content other = s.content other := by
  -- What the document moves to after a run keeps its content, whichever of the four it is.
  have hmid : ∀ (t : State) (rerunNow dirty : Bool), t.content other = s.content other →
      (if !t.isCurrent uri id then t.makeIdle id
        else if rerunNow then t.startRun uri id
        else if dirty then t.armTimer uri id
        else t.makeIdle id).1.content other = s.content other := by
    intro t rerunNow dirty ht
    split
    · exact (content_makeIdle t id other).trans ht
    · split
      · exact (content_startRun t uri id other).trans ht
      · split
        · exact (content_armTimer t uri id other).trans ht
        · exact (content_makeIdle t id other).trans ht
  cases found : s.slot? id with
  | none => rw [afterRun, found]
  | some slot =>
    rw [afterRun, found]
    refine hmid _ slot.rerunNow slot.dirty ?_
    split
    · next h =>
      obtain ⟨hclosed, hcurrent⟩ := Bool.and_eq_true_iff.mp h
      refine (content_unregister s uri other).trans ?_
      split
      · next ho =>
        rw [ho, content_of_found (by simpa [isCurrent] using hcurrent) found,
          Slot.content, if_pos hclosed]
      · rfl
    · rfl

theorem content_onEnded (s : State) (r : Nat) (uri : String) :
    (s.onEnded r).1.content uri = s.content uri := by
  cases hr : Assoc.get? r s.runs with
  | none => rw [onEnded_of_none hr]
  | some run =>
    cases found : s.slot? run.slot with
    | none =>
      simp only [onEnded, hr]
      rw [show ({ s with completed := s.completed + 1, runs := Assoc.erase r s.runs } : State).slot?
        run.slot = none from found]
      rfl
    | some slot =>
      rw [onEnded_of_found hr found, content_afterRun]
      exact content_setSlot (s := { s.dropRun r with completed := s.completed + 1 })
        (a := { slot with run := none }) found rfl uri

/-- What a document holds follows what events say about it.  The cases are the events; for all but
the editor's the content is as before. -/
theorem content_step (tidy : Tidy s) (e : Event) (he : e ≠ .stop) (uri : String) :
    (s.step e).1.content uri = e.accept uri (s.content uri) := by
  cases e with
  | change u version text => exact content_onChange tidy u version text uri
  | opened u version text => exact content_onOpen tidy u version text uri
  | save u version text => exact content_onSave tidy u version text uri
  | close u => exact content_onClose tidy u uri
  | fired timer => exact content_onFired s timer uri
  | ended r => exact content_onEnded s r uri
  | dropped r => rfl
  | stop => exact absurd rfl he

end State

end PikeAnalysis.Scheduler
