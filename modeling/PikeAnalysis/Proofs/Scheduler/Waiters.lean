import PikeAnalysis.Scheduler.Machine

/-!
# Who waits for slots to become idle

An event of the scheduler lets only those go on who were waiting for a slot, and nobody starts to
wait by it.

A ticket that is raised for somebody who does not wait, or who waits for another document, would let
him go on too early.  So the effects of a step are compared with the tickets in the slots before it:
whoever is told was waiting, and whoever waits after the step did so before.
-/

namespace PikeAnalysis.Scheduler

/-- The holder of a ticket waits for a slot to become idle. -/
def State.Awaits (s : State) (n : Nat) : Prop :=
  ∃ e ∈ s.slots, n ∈ e.2.waiters

/-- Whoever goes on by an effect was waiting. -/
def Effect.WakesOnly (s : State) : Effect → Prop
  | .wake tickets => ∀ n ∈ tickets, s.Awaits n
  | _ => True

/-- A step that lets only those go on who were waiting.  Together with the reverse, that all who
wait are let go on once the document is idle, this says who is woken and when. -/
structure Wakes (s : State) (p : State × List Effect) : Prop where
  waiters : ∀ n, p.1.Awaits n → s.Awaits n
  woken : ∀ x ∈ p.2, x.WakesOnly s

variable {s t : State} {p : State × List Effect} {out : List Effect} {id : Nat} {slot a : Slot}

theorem Wakes.refl (s : State) : Wakes s (s, []) :=
  ⟨fun _ h => h, nofun⟩

theorem Wakes.then (h : Wakes s (t, out)) (k : Wakes t p) : Wakes s (p.1, out ++ p.2) := by
  refine ⟨fun n hn => h.waiters n (k.waiters n hn), fun x hx => ?_⟩
  rcases List.mem_append.mp hx with hx | hx
  · exact h.woken x hx
  · have woken := k.woken x hx
    cases x with
    | wake tickets => exact fun n hn => h.waiters n (woken n hn)
    | armTimer | cancelTimer | startRun | cancelRun | closed => trivial

/-- A step after a change of which nothing is told. -/
theorem Wakes.into (h : Wakes s (t, [])) (k : Wakes t p) : Wakes s p :=
  h.then k

/-- A step that leaves all slots as they are. -/
theorem wakes_of_slots (slots : t.slots = s.slots) (woken : ∀ x ∈ out, x.WakesOnly s) :
    Wakes s (t, out) :=
  ⟨fun n hn => by rwa [State.Awaits, slots] at hn, woken⟩

/-- A step that changes one slot. -/
theorem wakes_of_set (slots : t.slots = Assoc.set id a s.slots) (same : ∀ n ∈ a.waiters, s.Awaits n)
    (woken : ∀ x ∈ out, x.WakesOnly s) : Wakes s (t, out) := by
  refine ⟨fun n ⟨e, he, hn⟩ => ?_, woken⟩
  rw [slots] at he
  rcases Assoc.mem_set he with rfl | he
  · exact same n hn
  · exact ⟨e, he, hn⟩

theorem awaits_of_found (found : s.slot? id = some slot) : ∀ n ∈ slot.waiters, s.Awaits n :=
  fun _ hn => ⟨_, Assoc.mem_of_get? found, hn⟩

/-- A step that changes one slot and leaves those who wait for it alone. -/
theorem wakes_of_found (found : s.slot? id = some slot) (slots : t.slots = Assoc.set id a s.slots)
    (same : a.waiters = slot.waiters) (woken : ∀ x ∈ out, x.WakesOnly s) : Wakes s (t, out) := by
  refine wakes_of_set slots (fun n hn => ?_) woken
  rw [same] at hn
  exact awaits_of_found found n hn

/-! ## Operations -/

theorem wakes_touch (s : State) (uri : String) (version : Option Int) (text : Option String) :
    Wakes s ((s.touch uri version text).1, []) := by
  unfold State.touch
  cases h : s.slotOf? uri with
  | none => exact wakes_of_set rfl nofun nofun
  | some e =>
    obtain ⟨id, -, hslot⟩ := Option.bind_eq_some_iff.mp h
    obtain ⟨slot, found, rfl⟩ := Option.map_eq_some_iff.mp hslot
    exact wakes_of_found found rfl rfl nofun

theorem wakes_cancelTimer (s : State) (id : Nat) : Wakes s (s.cancelTimer id) := by
  unfold State.cancelTimer
  split
  · exact .refl s
  · next slot found =>
    split
    · exact .refl s
    · exact wakes_of_found found rfl rfl (List.forall_mem_singleton.mpr trivial)

theorem wakes_armTimer (s : State) (uri : String) (id : Nat) : Wakes s (s.armTimer uri id) := by
  have cancelled := wakes_cancelTimer s id
  unfold State.armTimer
  dsimp only
  split
  · exact cancelled
  · next slot found =>
    refine cancelled.then (p := (_, _)) ?_
    exact wakes_of_found found rfl rfl (List.forall_mem_singleton.mpr trivial)

theorem wakes_startRun (s : State) (uri : String) (id : Nat) : Wakes s (s.startRun uri id) := by
  unfold State.startRun
  split
  · exact .refl s
  · next slot found =>
    exact wakes_of_found found rfl rfl (List.forall_mem_singleton.mpr trivial)

theorem wakes_makeIdle (s : State) (id : Nat) : Wakes s (s.makeIdle id) := by
  unfold State.makeIdle
  split
  · exact .refl s
  · next slot found =>
    refine wakes_of_set rfl nofun fun x hx => ?_
    split at hx
    · cases hx
    · rw [List.mem_singleton.mp hx]
      exact awaits_of_found found

theorem wakes_validateNow (s : State) (uri : String) (id : Nat) :
    Wakes s (s.validateNow uri id) := by
  unfold State.validateNow
  split
  · exact .refl s
  · next slot found =>
    split
    · exact wakes_of_found found rfl rfl nofun
    · exact (wakes_cancelTimer s id).then (wakes_startRun _ uri id)

/-! ## Events -/

theorem wakes_onChange (s : State) (uri : String) (version : Int) (text : String) :
    Wakes s (s.onChange uri version text) := by
  have touched := wakes_touch s uri (some version) (some text)
  unfold State.onChange
  dsimp only
  split
  · exact touched
  · next slot found =>
    split
    · exact touched.into (wakes_of_found found rfl rfl nofun)
    · exact touched.into (wakes_armTimer _ uri _)

theorem wakes_onSave (s : State) (uri : String) (version : Option Int) (text : Option String) :
    Wakes s (s.onSave uri version text) := by
  unfold State.onSave
  dsimp only
  split
  · exact .refl s
  · exact (wakes_touch s uri version text).into (wakes_validateNow _ uri _)

theorem wakes_onClose (s : State) (uri : String) : Wakes s (s.onClose uri) := by
  have closed (s : State) : Wakes s (s, [.closed uri]) :=
    wakes_of_slots rfl (List.forall_mem_singleton.mpr trivial)
  unfold State.onClose
  split
  · exact closed s
  · next id _ _ =>
    have cancelled := wakes_cancelTimer s id
    dsimp only
    split
    · exact cancelled.then (closed _)
    · next slot found =>
      split
      · refine cancelled.then (p := (_, _)) ?_
        exact wakes_of_found found rfl rfl (List.forall_mem_singleton.mpr trivial)
      · have unregistered : Wakes s ((({ (s.cancelTimer id).1 with
            docs := Assoc.erase uri (s.cancelTimer id).1.docs } : State).setSlot id
              { slot with dirty := false, rerunNow := false }), (s.cancelTimer id).2) := by
          have kept := cancelled.then (wakes_of_found found rfl rfl (List.forall_mem_nil _) : Wakes
            (s.cancelTimer id).1 ((({ (s.cancelTimer id).1 with
              docs := Assoc.erase uri (s.cancelTimer id).1.docs } : State).setSlot id
                { slot with dirty := false, rerunNow := false }), []))
          rwa [List.append_nil] at kept
        exact (unregistered.then (wakes_makeIdle _ id)).then (closed _)

theorem wakes_onFired (s : State) (timer : Nat) : Wakes s (s.onFired timer) := by
  unfold State.onFired
  split
  · exact .refl s
  · next entry _ =>
    dsimp only
    split
    · exact wakes_of_slots rfl nofun
    · next slot found =>
      have used :
          Wakes s (({ s with timers := Assoc.erase timer s.timers } : State).setSlot entry.slot
          { slot with timer := none }, []) := wakes_of_found found rfl rfl nofun
      split
      · exact used.into (wakes_startRun _ _ _)
      · exact used

theorem wakes_afterRun (s : State) (uri : String) (id : Nat) : Wakes s (s.afterRun uri id) := by
  unfold State.afterRun
  split
  · exact .refl s
  · next slot _ =>
    have forgotten : Wakes s
        (if slot.closed && s.isCurrent uri id then { s with docs := Assoc.erase uri s.docs } else s,
          []) := by
      split
      · exact wakes_of_slots rfl nofun
      · exact .refl s
    dsimp only
    generalize (if slot.closed && s.isCurrent uri id then { s with docs := Assoc.erase uri s.docs }
      else s) = t at forgotten ⊢
    split
    · exact forgotten.into (wakes_makeIdle _ id)
    · split
      · exact forgotten.into (wakes_startRun _ uri id)
      · split
        · exact forgotten.into (wakes_armTimer _ uri id)
        · exact forgotten.into (wakes_makeIdle _ id)

theorem wakes_onEnded (s : State) (r : Nat) : Wakes s (s.onEnded r) := by
  unfold State.onEnded
  split
  · exact .refl s
  · next run _ =>
    dsimp only
    split
    · exact wakes_of_slots rfl nofun
    · next slot found =>
      refine Wakes.into ?_ (wakes_afterRun _ run.uri run.slot)
      exact wakes_of_found found rfl rfl nofun

theorem wakes_stopSlot (s : State) (id : Nat) : Wakes s (s.stopSlot id) := by
  have cancelled := wakes_cancelTimer s id
  unfold State.stopSlot
  generalize s.cancelTimer id = p at cancelled ⊢
  obtain ⟨t, out⟩ := p
  dsimp only
  refine Wakes.then ?_ (wakes_makeIdle _ id)
  refine cancelled.then (p := (t, _)) (wakes_of_slots rfl fun x hx => ?_)
  split at hx
  · split at hx
    · rw [List.mem_singleton.mp hx]
      trivial
    · cases hx
  · cases hx

theorem wakes_onStop (s : State) : Wakes s s.onStop := by
  have slots (ids : List Nat) (t : State) (out : List Effect) (h : Wakes s (t, out)) :
      Wakes s
        (ids.foldl (fun p id => ((p.1.stopSlot id).1, p.2 ++ (p.1.stopSlot id).2)) (t, out)) := by
    induction ids generalizing t out with
    | nil => exact h
    | cons id rest ih => exact ih _ _ (h.then (wakes_stopSlot t id))
  exact slots _ _ _ (wakes_of_slots rfl (List.forall_mem_nil _))

/-- An event lets only those go on who were waiting. -/
theorem wakes_step (s : State) (e : Event) : Wakes s (s.step e) := by
  cases e with
  | change uri version text => exact wakes_onChange s uri version text
  | opened uri version text =>
    exact (wakes_touch s uri (some version) (some text)).into (wakes_validateNow _ uri _)
  | save uri version text => exact wakes_onSave s uri version text
  | close uri => exact wakes_onClose s uri
  | fired timer => exact wakes_onFired s timer
  | ended r => exact wakes_onEnded s r
  | dropped r => exact wakes_of_slots rfl nofun
  | stop => exact wakes_onStop s

theorem awaits_awaitIdle {n ticket : Nat} (h : (s.awaitIdle id ticket).Awaits n) :
    s.Awaits n ∨ n = ticket := by
  unfold State.awaitIdle at h
  split at h
  · exact .inl h
  · next slot found =>
    obtain ⟨e, he, hn⟩ := h
    rcases Assoc.mem_set he with rfl | he
    · rcases List.mem_append.mp hn with hn | hn
      · exact .inl (awaits_of_found found n hn)
      · exact .inr (List.mem_singleton.mp hn)
    · exact .inl ⟨e, he, hn⟩

end PikeAnalysis.Scheduler
