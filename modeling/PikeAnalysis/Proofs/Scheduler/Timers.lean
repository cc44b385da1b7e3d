import PikeAnalysis.Proofs.Scheduler.Effects

/-!
# What an event does to the timers

The timers that an event starts or cancels are told of as effects, and the timers afterwards are
those that were running and are not cancelled, and the new one (`rearms_step`).  An event cancels
one timer at most and starts one at most, in this order.  The timer that fires is used up without
any effect.

A timer that is cancelled twice, or started and not told of, would leave a task behind or without a
timer.  `Rearms` says of a step which timer it cancels and which it starts, so that the tasks can be
compared with the timers after every effect (`Proofs/Simulation/Attendance.lean`).

It is the timers that the invariants of the scheduler leave open.  They say which timer a document
waits for, and not that a task exists which sleeps for it, and so an account of what is told outside
is needed besides that of the state.
-/

namespace PikeAnalysis.Scheduler

/-- The timers that are to be started. -/
def armedTimers (out : List Effect) : List Nat :=
  out.filterMap fun
    | .armTimer x => some x
    | _ => none

/-- The timers that are to be cancelled. -/
def cancelledTimers (out : List Effect) : List Nat :=
  out.filterMap fun
    | .cancelTimer x => some x
    | _ => none

@[simp] theorem armedTimers_append (out more : List Effect) :
    armedTimers (out ++ more) = armedTimers out ++ armedTimers more :=
  List.filterMap_append

@[simp] theorem cancelledTimers_append (out more : List Effect) :
    cancelledTimers (out ++ more) = cancelledTimers out ++ cancelledTimers more :=
  List.filterMap_append

/-- A step that cancels the timer `gone`, if that is one, and starts the timer `new` under the next
number, if that is one.  The order matters, since the timer that is started may be of the same
slot. -/
structure Rearms (s : State) (gone : Option Nat) (new : Option TimerEntry)
    (p : State × List Effect) :
    Prop where
  known : ∀ x, gone = some x → Assoc.get? x s.timers ≠ none
  timers : p.1.timers =
    gone.elim s.timers (Assoc.erase · s.timers) ++ (new.map fun e => (s.nextTimer, e)).toList
  next : p.1.nextTimer = s.nextTimer + new.toList.length
  armed : armedTimers p.2 = (new.map fun _ => s.nextTimer).toList
  cancelled : cancelledTimers p.2 = gone.toList

variable {s t : State} {uri : String} {id x : Nat} {slot : Slot} {gone : Option Nat}
  {new : Option TimerEntry} {p : State × List Effect} {out : List Effect} {w : Setting}

namespace Rearms

/-- A step that has nothing to do with timers. -/
theorem of_same (timers : p.1.timers = s.timers) (next : p.1.nextTimer = s.nextTimer)
    (armed : armedTimers p.2 = []) (cancelled : cancelledTimers p.2 = []) : Rearms s none none p :=
  ⟨nofun, timers.trans (List.append_nil _).symm, next, armed, cancelled⟩

theorem refl (s : State) : Rearms s none none (s, []) :=
  of_same rfl rfl rfl rfl

/-- A step after one that has nothing to do with timers. -/
theorem after (h : Rearms s none none (t, out)) (k : Rearms t gone new p) :
    Rearms s gone new (p.1, out ++ p.2) := by
  have timers : t.timers = s.timers := h.timers.trans (List.append_nil _)
  have next : t.nextTimer = s.nextTimer := h.next
  have armed : armedTimers out = [] := h.armed
  have cancelled : cancelledTimers out = [] := h.cancelled
  obtain ⟨known', timers', next', armed', cancelled'⟩ := k
  rw [timers] at known'
  rw [timers, next] at timers'
  rw [next] at next' armed'
  exact ⟨known', timers', next', by rw [armedTimers_append, armed, armed', List.nil_append],
    by rw [cancelledTimers_append, cancelled, cancelled', List.nil_append]⟩

/-- A step that cancels no timer, after one that starts none. -/
theorem «then» (h : Rearms s gone none (t, out)) (k : Rearms t none new p) :
    Rearms s gone new (p.1, out ++ p.2) := by
  have timers : t.timers = gone.elim s.timers (Assoc.erase · s.timers) :=
    h.timers.trans (List.append_nil _)
  have next : t.nextTimer = s.nextTimer := h.next
  have armed : armedTimers out = [] := h.armed
  have cancelled : cancelledTimers out = gone.toList := h.cancelled
  obtain ⟨-, timers', next', armed', cancelled'⟩ := k
  rw [timers, next] at timers'
  rw [next] at next' armed'
  refine ⟨h.known, timers', next', ?_, ?_⟩
  · rw [armedTimers_append, armed, armed', List.nil_append]
  · rw [cancelledTimers_append, cancelled, cancelled']
    exact List.append_nil _

theorem next_le (h : Rearms s gone new p) : s.nextTimer ≤ p.1.nextTimer := by
  rw [h.next]
  exact Nat.le_add_right _ _

theorem mem_armed (h : Rearms s gone new p) (hx : x ∈ armedTimers p.2) :
    x = s.nextTimer ∧ x < p.1.nextTimer ∧ Assoc.get? x p.1.timers ≠ none := by
  rw [h.armed] at hx
  cases new with
  | none => cases hx
  | some e =>
    obtain rfl : x = s.nextTimer := by simpa using hx
    refine ⟨rfl, by rw [h.next]; exact Nat.lt_succ_self _, ?_⟩
    rw [h.timers]
    exact Assoc.get?_ne_none_of_mem (List.mem_append_right _ (List.mem_singleton_self _))

theorem nodup_armed (h : Rearms s gone new p) : (armedTimers p.2).Nodup := by
  rw [h.armed]
  cases new <;> simp

/-- Timers that run after a step ran before or have been started. -/
theorem known_or_armed (h : Rearms s gone new p) (hx : Assoc.get? x p.1.timers ≠ none) :
    Assoc.get? x s.timers ≠ none ∨ x ∈ armedTimers p.2 := by
  rw [h.timers, Assoc.get?_append] at hx
  by_cases old : Assoc.get? x (gone.elim s.timers (Assoc.erase · s.timers)) = none
  · rw [old] at hx
    refine .inr ?_
    rw [h.armed]
    cases new with
    | none => exact absurd rfl hx
    | some e =>
      by_cases hk : s.nextTimer = x
      · exact List.mem_singleton.mpr hk.symm
      · exact absurd (by simp [Assoc.get?, hk]) hx
  · refine .inl fun hnone => old ?_
    cases gone with
    | none => exact hnone
    | some y =>
      rw [Option.elim_some, Assoc.get?_erase, hnone, ite_self]

/-- Timers that were running still run or have been cancelled. -/
theorem kept_or_cancelled (h : Rearms s gone new p) (hx : Assoc.get? x s.timers ≠ none) :
    Assoc.get? x p.1.timers ≠ none ∨ x ∈ cancelledTimers p.2 := by
  have kept (old : Assoc.get? x (gone.elim s.timers (Assoc.erase · s.timers)) ≠ none) :
      Assoc.get? x p.1.timers ≠ none := by
    obtain ⟨e, he⟩ := Option.ne_none_iff_exists'.mp old
    rw [h.timers, Assoc.get?_append, he]
    exact nofun
  cases gone with
  | none => exact .inl (kept hx)
  | some y =>
    by_cases hy : x = y
    · refine .inr ?_
      rw [h.cancelled, hy]
      exact List.mem_singleton_self y
    · refine .inl (kept ?_)
      rwa [Option.elim_some, Assoc.get?_erase_of_ne hy]

/-- Timers that have been cancelled do not run. -/
theorem get?_cancelled (h : Rearms s gone new p) (lt : ∀ e ∈ s.timers, e.1 < s.nextTimer)
    (hx : x ∈ cancelledTimers p.2) : Assoc.get? x p.1.timers = none := by
  rw [h.cancelled, Option.mem_toList] at hx
  obtain ⟨e, he⟩ := Option.ne_none_iff_exists'.mp (h.known x hx)
  have hne : s.nextTimer ≠ x := Nat.ne_of_gt (lt _ (Assoc.mem_of_get? he))
  rw [h.timers, hx, Option.elim_some, Assoc.get?_append, Assoc.get?_erase_self]
  cases new with
  | none => rfl
  | some e => simp [Assoc.get?, hne]

end Rearms

/-! ## Operations -/

/-- The timer of a slot, if it has one, is running. -/
def State.Ticks (s : State) (id : Nat) : Prop :=
  ∀ slot x, s.slot? id = some slot → slot.timer = some x → Assoc.get? x s.timers ≠ none

theorem ticks_of_found (found : s.slot? id = some slot)
    (h : ∀ x, slot.timer = some x → Assoc.get? x s.timers ≠ none) : s.Ticks id := by
  intro slot' x hslot timer
  rw [found] at hslot
  exact h x (Option.some.inj hslot ▸ timer)

theorem rearms_setSlot (s : State) (id : Nat) (slot : Slot) :
    Rearms s none none (s.setSlot id slot, []) :=
  .of_same rfl rfl rfl rfl

theorem rearms_touch (s : State) (uri : String) (version : Option Int) (text : Option String) :
    Rearms s none none ((s.touch uri version text).1, []) := by
  unfold State.touch
  cases s.slotOf? uri with
  | none | some => exact .of_same rfl rfl rfl rfl

theorem rearms_cancelTimer (ticks : s.Ticks id) :
    ∃ gone, Rearms s gone none (s.cancelTimer id) := by
  cases found : s.slot? id with
  | none =>
    rw [State.cancelTimer, found]
    exact ⟨none, .refl s⟩
  | some slot =>
    cases timer : slot.timer with
    | none =>
      rw [cancelTimer_of_none found timer]
      exact ⟨none, .refl s⟩
    | some x =>
      rw [cancelTimer_of_some found timer]
      refine ⟨some x, fun y hy => ?_, (List.append_nil _).symm, rfl, rfl, rfl⟩
      exact Option.some.inj hy ▸ ticks slot x found timer

theorem rearms_armTimer (uri : String) (ticks : s.Ticks id) :
    ∃ gone new, Rearms s gone new (s.armTimer uri id) := by
  obtain ⟨gone, h⟩ := rearms_cancelTimer ticks
  unfold State.armTimer
  generalize s.cancelTimer id = p at h
  obtain ⟨t, out⟩ := p
  dsimp only
  split
  · exact ⟨gone, none, h⟩
  · next slot _ =>
    have arms : Rearms t none (some ⟨uri, id⟩) (({ t with
        nextTimer := t.nextTimer + 1,
        timers := t.timers ++ [(t.nextTimer, ⟨uri, id⟩)] } : State).setSlot id
          { slot with phase := .pending, idle := false, timer := some t.nextTimer },
        [.armTimer t.nextTimer]) := ⟨nofun, rfl, rfl, rfl, rfl⟩
    exact ⟨gone, _, h.then arms⟩

theorem rearms_startRun (s : State) (uri : String) (id : Nat) :
    Rearms s none none (s.startRun uri id) := by
  unfold State.startRun
  split
  · exact .refl s
  · exact .of_same rfl rfl rfl rfl

theorem rearms_makeIdle (s : State) (id : Nat) : Rearms s none none (s.makeIdle id) := by
  unfold State.makeIdle
  split
  · exact .refl s
  · next slot _ => cases slot.waiters.isEmpty <;> exact .of_same rfl rfl rfl rfl

theorem rearms_validateNow (uri : String) (ticks : s.Ticks id) :
    ∃ gone, Rearms s gone none (s.validateNow uri id) := by
  unfold State.validateNow
  split
  · exact ⟨none, .refl s⟩
  · split
    · exact ⟨none, rearms_setSlot s id _⟩
    · obtain ⟨gone, h⟩ := rearms_cancelTimer ticks
      exact ⟨gone, h.then (rearms_startRun _ uri id)⟩

/-! ## Events -/

theorem Inv.ticks (h : Inv w s) (registered : s.slotOf? uri = some (id, slot)) : s.Ticks id := by
  obtain ⟨doc, found⟩ := State.found_of_slotOf? registered
  refine ticks_of_found found fun x timer => ?_
  have same {id' : Nat} {slot' : Slot} (doc' : Assoc.get? uri s.docs = some id')
      (found' : s.slot? id' = some slot') : slot'.timer = some x := by
    obtain rfl := Option.some.inj (doc.symm.trans doc')
    rwa [← Option.some.inj (found.symm.trans found')]
  cases h.standing uri with
  | absent doc' =>
    rw [doc] at doc'
    cases doc'
  | resting doc' found' rests =>
    have := same doc' found'
    rw [rests.timer] at this
    cases this
  | running doc' found' hasRun | stranded _ doc' found' hasRun =>
    have := same doc' found'
    rw [hasRun.timer] at this
    cases this
  | @waiting id' _ y doc' found' waits timers =>
    have := same doc' found'
    rw [waits.timer] at this
    obtain rfl := Option.some.inj this
    have mem : (y, (⟨uri, id'⟩ : TimerEntry)) ∈ s.timersOf uri := by
      rw [timers]
      exact List.mem_singleton_self _
    exact Assoc.get?_ne_none_of_mem (State.mem_timersOf.mp mem).1

theorem Inv.ticks_touch (h : Inv w s) (uri : String) (version : Option Int) (text : Option String) :
    (s.touch uri version text).1.Ticks (s.touch uri version text).2 := by
  cases registered : s.slotOf? uri with
  | none =>
    rw [touch_of_unknown registered]
    exact ticks_of_found (State.slot?_setSlot_self ..) nofun
  | some e =>
    obtain ⟨id, slot⟩ := e
    obtain ⟨doc, found⟩ := State.found_of_slotOf? registered
    rw [touch_of_found doc found]
    exact ticks_of_found (State.slot?_setSlot_self ..) fun x timer =>
      h.ticks registered slot x found timer

/-- The state but for the timer that an event uses up. -/
def State.rung (s : State) : Event → State
  | .fired x => s.dropTimer x
  | _ => s

theorem Inv.rearms_touch_validateNow (h : Inv w s) (uri : String) (version : Option Int)
    (text : Option String) : ∃ gone, Rearms s gone none
      ((s.touch uri version text).1.validateNow uri (s.touch uri version text).2) := by
  obtain ⟨gone, k⟩ := rearms_validateNow uri (h.ticks_touch uri version text)
  exact ⟨gone, (rearms_touch s uri version text).after k⟩

theorem Inv.rearms_onChange (h : Inv w s) (uri : String) (version : Int) (text : String) :
    ∃ gone new, Rearms s gone new (s.onChange uri version text) := by
  have touched := rearms_touch s uri (some version) (some text)
  unfold State.onChange
  dsimp only
  split
  · exact ⟨none, none, touched⟩
  · split
    · exact ⟨none, none, touched.after (rearms_setSlot _ _ _)⟩
    · obtain ⟨gone, new, k⟩ := rearms_armTimer uri (h.ticks_touch uri (some version) (some text))
      exact ⟨gone, new, touched.after k⟩

theorem Inv.rearms_onClose (h : Inv w s) (uri : String) :
    ∃ gone, Rearms s gone none (s.onClose uri) := by
  have told (t : State) : Rearms t none none (t, [.closed uri]) := .of_same rfl rfl rfl rfl
  unfold State.onClose
  cases registered : s.slotOf? uri with
  | none => exact ⟨none, told s⟩
  | some e =>
    obtain ⟨id, slot⟩ := e
    obtain ⟨gone, k⟩ := rearms_cancelTimer (h.ticks registered)
    dsimp only
    generalize s.cancelTimer id = p at k
    obtain ⟨t, out⟩ := p
    dsimp only
    split
    · exact ⟨gone, k.then (told t)⟩
    · next slot' _ =>
      split
      · exact ⟨gone, k.then (p := (t.setSlot id _, _)) (.of_same rfl rfl rfl rfl)⟩
      · have left :
            Rearms t none none (({ t with docs := Assoc.erase uri t.docs } : State).setSlot id
            { slot' with dirty := false, rerunNow := false }, []) := .of_same rfl rfl rfl rfl
        exact ⟨gone, (k.then (left.after (rearms_makeIdle _ id))).then (told _)⟩

theorem rearms_onFired (s : State) (x : Nat) : Rearms (s.dropTimer x) none none (s.onFired x) := by
  unfold State.onFired
  cases found : Assoc.get? x s.timers with
  | none => exact .of_same (Assoc.erase_of_get?_eq_none found).symm rfl rfl rfl
  | some entry =>
    have used (slots : List (Nat × Slot)) : Rearms (s.dropTimer x) none none
        ({ s with timers := Assoc.erase x s.timers, slots := slots }, []) :=
          .of_same rfl rfl rfl rfl
    dsimp only
    split
    · exact used _
    · split
      · exact (used _).after (rearms_startRun _ _ _)
      · exact used _

theorem rearms_afterRun (uri : String) (ticks : s.Ticks id) :
    ∃ gone new, Rearms s gone new (s.afterRun uri id) := by
  unfold State.afterRun
  split
  · exact ⟨none, none, .refl s⟩
  · next slot _ =>
    have left : ∃ t, (if slot.closed && s.isCurrent uri id then
        ({ s with docs := Assoc.erase uri s.docs } : State) else s) = t ∧
          Rearms s none none (t, []) ∧
        t.Ticks id := by
      split
      · exact ⟨_, rfl, .of_same rfl rfl rfl rfl, ticks⟩
      · exact ⟨_, rfl, .refl s, ticks⟩
    obtain ⟨t, same, k, ticks'⟩ := left
    dsimp only
    rw [same]
    split
    · exact ⟨none, none, k.after (rearms_makeIdle t id)⟩
    · split
      · exact ⟨none, none, k.after (rearms_startRun t uri id)⟩
      · split
        · obtain ⟨gone, new, arms⟩ := rearms_armTimer uri ticks'
          exact ⟨gone, new, k.after arms⟩
        · exact ⟨none, none, k.after (rearms_makeIdle t id)⟩

theorem Inv.rearms_onEnded (h : Inv w s) (r : Nat) :
    ∃ gone new, Rearms s gone new (s.onEnded r) := by
  cases hr : Assoc.get? r s.runs with
  | none =>
    rw [onEnded_of_none hr]
    exact ⟨none, none, .refl s⟩
  | some run =>
    obtain ⟨slot, -, found, hasRun, -⟩ := h.running_of_run hr
    rw [onEnded_of_found hr found]
    have ended :
        Rearms s none none (({ s.dropRun r with completed := s.completed + 1 } : State).setSlot
        run.slot { slot with run := none }, []) := .of_same rfl rfl rfl rfl
    obtain ⟨gone, new, k⟩ := rearms_afterRun run.uri
      (s := ({ s.dropRun r with completed := s.completed + 1 } : State).setSlot run.slot
        { slot with run := none })
      (ticks_of_found (State.slot?_setSlot_self ..) fun x timer => by
        cases hasRun.timer.symm.trans timer)
    exact ⟨gone, new, ended.after k⟩

/-- What an event does to the timers but for the one that fires. -/
theorem Inv.rearms_step (h : Inv w s) {e : Event} (he : e ≠ .stop) :
    ∃ gone new, Rearms (s.rung e) gone new (s.step e) := by
  cases e with
  | change uri version text => exact h.rearms_onChange uri version text
  | opened uri version text =>
    obtain ⟨gone, k⟩ := h.rearms_touch_validateNow uri (some version) (some text)
    exact ⟨gone, none, k⟩
  | save uri version text =>
    change ∃ gone new, Rearms s gone new (s.onSave uri version text)
    unfold State.onSave
    dsimp only
    split
    · exact ⟨none, none, .refl s⟩
    · obtain ⟨gone, k⟩ := h.rearms_touch_validateNow uri version text
      exact ⟨gone, none, k⟩
  | close uri =>
    obtain ⟨gone, k⟩ := h.rearms_onClose uri
    exact ⟨gone, none, k⟩
  | fired x => exact ⟨none, none, rearms_onFired s x⟩
  | ended r => exact h.rearms_onEnded r
  | dropped r => exact ⟨none, none, .of_same rfl rfl rfl rfl⟩
  | stop => exact absurd rfl he

end PikeAnalysis.Scheduler
