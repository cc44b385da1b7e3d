import PikeAnalysis.Proofs.Scheduler.Content
import PikeAnalysis.Proofs.Scheduler.Invariant

/-!
# What an event has done outside

The runs that an event starts are exactly those that it adds to the runs under way, at most one for
each event.  Only the closing of a document is told of as such, and only a stop cancels runs.

Effects and states are two accounts of one step, and what is carried out outside must agree with
what the machine believes.  For runs the agreement is exact: the state has a run more just if the
effects start one, under the next number.  The lemmas are in the order of the machine's operations,
and compose by `Still.then` and its like.

What a step does to the runs is said by `Starts`, which later modules use by its consequences: the
next number does not go down, a run that exists was known or is started, one that is over stays so,
and none is started twice.  That other documents keep their runs is `runs_step`.  At the end the
same is done for what the scheduler holds of a document, which only registering changes.
-/

namespace PikeAnalysis.Scheduler

variable {s t : State} {uri : String} {id : Nat}

/-- The runs that are to be started.  They stand in the order in which they are started. -/
def startedRuns (out : List Effect) : List Nat :=
  out.filterMap fun
    | .startRun r => some r
    | _ => none

/-- Effects that neither cancel a run nor tell of the closing of a document. -/
def Effect.IsPlain : Effect → Prop
  | .cancelRun _ | .closed _ => False
  | _ => True

@[simp] theorem startedRuns_nil : startedRuns [] = [] := rfl

@[simp] theorem startedRuns_append (out more : List Effect) :
    startedRuns (out ++ more) = startedRuns out ++ startedRuns more :=
  List.filterMap_append

/-- What a step does to the runs: it leaves them as they are, or starts one with a new number. -/
inductive Starts (s : State) (p : State × List Effect) : Prop
  | same (runs : p.1.runs = s.runs) (next : p.1.nextRun = s.nextRun)
    (started : startedRuns p.2 = [])
  | one (run : Run) (runs : p.1.runs = s.runs ++ [(s.nextRun, run)])
      (next : p.1.nextRun = s.nextRun + 1) (started : startedRuns p.2 = [s.nextRun])

/-- A step that starts no run.  None of its effects cancels a run or tells of a closing, either, so
it concerns timers and those who wait and not what is validated. -/
structure Still (s : State) (p : State × List Effect) : Prop where
  runs : p.1.runs = s.runs
  next : p.1.nextRun = s.nextRun
  started : startedRuns p.2 = []
  plain : ∀ e ∈ p.2, e.IsPlain

theorem Still.starts {p : State × List Effect} (h : Still s p) : Starts s p :=
  .same h.runs h.next h.started

/-- A step that may start a run of a document, if it is about one, and tells of no closing.  It
joins what is known of runs with what is known of closings. -/
structure Moves (s : State) (about : Option String) (p : State × List Effect) : Prop where
  starts : Starts s p
  plain : ∀ e ∈ p.2, e.IsPlain
  runs : ∀ e ∈ p.1.runs, e ∈ s.runs ∨ about = some e.2.uri

variable {d : Option String}

theorem Still.moves {p : State × List Effect} (h : Still s p) : Moves s d p :=
  ⟨h.starts, h.plain, fun _ he => .inl (h.runs ▸ he)⟩

theorem Still.refl (s : State) : Still s (s, []) :=
  ⟨rfl, rfl, rfl, nofun⟩

/-- A step after one that starts no run. -/
theorem Still.then {out : List Effect} {p : State × List Effect} (h : Still s (t, out))
    (k : Moves t d p) : Moves s d (p.1, out ++ p.2) := by
  refine ⟨?_, fun e he => (List.mem_append.mp he).elim (h.plain e) (k.plain e),
    fun e he => (k.runs e he).imp_left fun ht => h.runs ▸ ht⟩
  cases k.starts with
  | same runs next started =>
    exact .same (runs.trans h.runs) (next.trans h.next) (by simp [h.started, started])
  | one run runs next started =>
    have hnext : t.nextRun = s.nextRun := h.next
    have hruns : t.runs = s.runs := h.runs
    refine .one run ?_ ?_ ?_
    · rw [runs, hruns, hnext]
    · rw [next, hnext]
    · rw [startedRuns_append, h.started, started, hnext, List.nil_append]

theorem Still.then_still {out : List Effect} {p : State × List Effect} (h : Still s (t, out))
    (k : Still t p) : Still s (p.1, out ++ p.2) :=
  ⟨k.runs.trans h.runs, k.next.trans h.next,
    by rw [startedRuns_append, h.started, k.started, List.nil_append],
    fun e he => (List.mem_append.mp he).elim (h.plain e) (k.plain e)⟩

/-- A step after a change of which nothing is told. -/
theorem Still.into {p : State × List Effect} (h : Still s (t, [])) (k : Moves t d p) :
    Moves s d p :=
  h.then k

theorem Still.into_still {p : State × List Effect} (h : Still s (t, [])) (k : Still t p) :
    Still s p :=
  h.then_still k

/-! ## Operations -/

theorem still_setSlot (s : State) (id : Nat) (slot : Slot) : Still s (s.setSlot id slot, []) :=
  ⟨rfl, rfl, rfl, nofun⟩

theorem still_touch (s : State) (uri : String) (version : Option Int) (text : Option String) :
    Still s ((s.touch uri version text).1, []) := by
  unfold State.touch
  cases s.slotOf? uri with
  | none => exact ⟨rfl, rfl, rfl, nofun⟩
  | some e => exact ⟨rfl, rfl, rfl, nofun⟩

theorem still_cancelTimer (s : State) (id : Nat) : Still s (s.cancelTimer id) := by
  unfold State.cancelTimer
  split
  · exact .refl s
  · split
    · exact .refl s
    · exact ⟨rfl, rfl, rfl, by simp [Effect.IsPlain]⟩

theorem still_armTimer (s : State) (uri : String) (id : Nat) : Still s (s.armTimer uri id) := by
  have h := still_cancelTimer s id
  unfold State.armTimer
  dsimp only
  split
  · exact h
  · refine ⟨h.runs, h.next, ?_, fun e he => ?_⟩
    · rw [startedRuns_append, h.started]
      rfl
    · rcases List.mem_append.mp he with he | he
      · exact h.plain e he
      · rw [List.mem_singleton.mp he]
        trivial

theorem still_makeIdle (s : State) (id : Nat) : Still s (s.makeIdle id) := by
  unfold State.makeIdle
  split
  · exact .refl s
  · next slot _ =>
    by_cases hw : slot.waiters.isEmpty = true
    · simp only [hw, if_true]
      exact ⟨rfl, rfl, rfl, nofun⟩
    · simp only [hw]
      exact ⟨rfl, rfl, rfl, by simp [Effect.IsPlain]⟩

theorem moves_startRun (s : State) (uri : String) (id : Nat) :
    Moves s (some uri) (s.startRun uri id) := by
  cases found : s.slot? id with
  | none =>
    rw [State.startRun, found]
    exact (Still.refl s).moves
  | some slot =>
    rw [startRun_of_found found]
    refine ⟨.one _ rfl rfl rfl, by simp [Effect.IsPlain], fun e he => ?_⟩
    rcases List.mem_append.mp he with he | he
    · exact .inl he
    · exact .inr (by rw [List.mem_singleton.mp he, Slot.runFor])

theorem moves_validateNow (s : State) (uri : String) (id : Nat) :
    Moves s (some uri) (s.validateNow uri id) := by
  unfold State.validateNow
  split
  · exact (Still.refl s).moves
  · split
    · exact (still_setSlot s id _).moves
    · exact (still_cancelTimer s id).then (moves_startRun _ uri id)

theorem moves_touch_validateNow (s : State) (uri : String) (version : Option Int)
    (text : Option String) :
    Moves s (some uri)
      ((s.touch uri version text).1.validateNow uri (s.touch uri version text).2) :=
  (still_touch s uri version text).into (moves_validateNow _ uri _)

/-! ## Events -/

theorem still_onChange (s : State) (uri : String) (version : Int) (text : String) :
    Still s (s.onChange uri version text) := by
  have ht := still_touch s uri (some version) (some text)
  unfold State.onChange
  dsimp only
  split
  · exact ht
  · split
    · exact ht.into_still (still_setSlot _ _ _)
    · exact ht.into_still (still_armTimer _ uri _)

theorem moves_onSave (s : State) (uri : String) (version : Option Int) (text : Option String) :
    Moves s (some uri) (s.onSave uri version text) := by
  unfold State.onSave
  dsimp only
  split
  · exact (Still.refl s).moves
  · exact moves_touch_validateNow s uri version text

theorem moves_onFired (s : State) (timer : Nat) :
    Moves s ((Assoc.get? timer s.timers).map (·.uri)) (s.onFired timer) := by
  unfold State.onFired
  cases Assoc.get? timer s.timers with
  | none => exact (Still.refl s).moves
  | some entry =>
    have hstill : ∀ slots, Still s
        ({ s with timers := Assoc.erase timer s.timers, slots := slots }, []) :=
      fun _ => ⟨rfl, rfl, rfl, nofun⟩
    dsimp only
    split
    · exact (hstill _).moves
    · split
      · exact (hstill _).into (moves_startRun _ _ _)
      · exact (hstill _).moves

theorem moves_afterRun (s : State) (uri : String) (id : Nat) :
    Moves s (some uri) (s.afterRun uri id) := by
  have hmid : ∀ (t : State), Still s (t, []) →
      Moves s (some uri) (if !t.isCurrent uri id then t.makeIdle id
        else if ((s.slot? id).getD default).rerunNow then t.startRun uri id
        else if ((s.slot? id).getD default).dirty then t.armTimer uri id
        else t.makeIdle id) := by
    intro t ht
    split
    · exact ht.into (still_makeIdle t id).moves
    · split
      · exact ht.into (moves_startRun t uri id)
      · split
        · exact ht.into (still_armTimer t uri id).moves
        · exact ht.into (still_makeIdle t id).moves
  unfold State.afterRun
  split
  · exact (Still.refl s).moves
  · next slot found =>
    dsimp only
    simp only [found, Option.getD_some] at hmid
    refine hmid _ ?_
    split
    · exact ⟨rfl, rfl, rfl, nofun⟩
    · exact .refl s

theorem moves_onEnded (s : State) (r : Nat) :
    Moves (s.dropRun r) ((Assoc.get? r s.runs).map (·.uri)) (s.onEnded r) := by
  unfold State.onEnded
  cases hr : Assoc.get? r s.runs with
  | none =>
    have hsame : Assoc.erase r s.runs = s.runs := Assoc.erase_of_get?_eq_none hr
    have hstill : Still (s.dropRun r) (s, []) := ⟨hsame.symm, rfl, rfl, nofun⟩
    exact hstill.moves
  | some run =>
    have hstill : ∀ slots, Still (s.dropRun r)
        ({ s.dropRun r with completed := s.completed + 1, slots := slots }, []) :=
      fun _ => ⟨rfl, rfl, rfl, nofun⟩
    dsimp only
    split
    · exact (hstill _).moves
    · exact (hstill _).into (moves_afterRun _ _ _)

/-- Closing a document starts no run and is told of. -/
theorem still_onClose (s : State) (uri : String) :
    ((s.onClose uri).1.runs = s.runs ∧ (s.onClose uri).1.nextRun = s.nextRun ∧
      startedRuns (s.onClose uri).2 = []) ∧
    ∀ x ∈ (s.onClose uri).2, x.IsPlain ∨ x = .closed uri := by
  have hclosed : startedRuns [Effect.closed uri] = [] := rfl
  have htold : ∀ {out : List Effect}, (∀ x ∈ out, x.IsPlain) →
      ∀ x ∈ out ++ [Effect.closed uri], x.IsPlain ∨ x = .closed uri := by
    intro out hout x hx
    rcases List.mem_append.mp hx with hx | hx
    · exact .inl (hout x hx)
    · exact .inr (List.mem_singleton.mp hx)
  unfold State.onClose
  split
  · exact ⟨⟨rfl, rfl, rfl⟩, fun x hx => .inr (List.mem_singleton.mp hx)⟩
  · next id _ _ =>
    have h := still_cancelTimer s id
    dsimp only
    split
    · exact ⟨⟨h.runs, h.next, by simp [h.started, hclosed]⟩, htold h.plain⟩
    · split
      · exact ⟨⟨h.runs, h.next, by simp [h.started, hclosed]⟩, htold h.plain⟩
      · next slot _ _ =>
        have k : Still s (State.setSlot { (s.cancelTimer id).1 with
            docs := Assoc.erase uri (s.cancelTimer id).1.docs } id
            { slot with dirty := false, rerunNow := false }, (s.cancelTimer id).2) :=
          ⟨h.runs, h.next, h.started, h.plain⟩
        have m := k.then_still (still_makeIdle _ id)
        refine ⟨⟨m.runs, m.next, ?_⟩, htold m.plain⟩
        rw [startedRuns_append, m.started, hclosed, List.nil_append]

theorem closed_mem_onClose (s : State) (uri : String) : .closed uri ∈ (s.onClose uri).2 := by
  unfold State.onClose
  split
  · exact List.mem_singleton_self _
  · dsimp only
    split
    · exact List.mem_append_right _ (List.mem_singleton_self _)
    · split <;> exact List.mem_append_right _ (List.mem_singleton_self _)

/-- The state but for the run that an event ends. -/
def State.before (s : State) : Event → State
  | .ended r | .dropped r => s.dropRun r
  | _ => s

theorem nextRun_before (s : State) (e : Event) : (s.before e).nextRun = s.nextRun := by
  cases e <;> rfl

theorem starts_step (s : State) {e : Event} (he : e ≠ .stop) : Starts (s.before e) (s.step e) := by
  cases e with
  | change uri version text => exact (still_onChange s uri version text).starts
  | opened uri version text => exact (moves_touch_validateNow s uri _ _).starts
  | save uri version text => exact (moves_onSave s uri version text).starts
  | close uri =>
    obtain ⟨⟨runs, next, started⟩, -⟩ := still_onClose s uri
    exact .same runs next started
  | fired timer => exact (moves_onFired s timer).starts
  | ended r => exact (moves_onEnded s r).starts
  | dropped r => exact .same rfl rfl rfl
  | stop => exact absurd rfl he

theorem plain_step (s : State) {e : Event} (he : e ≠ .stop) :
    ∀ x ∈ (s.step e).2, x.IsPlain ∨ ∃ uri, e = .close uri ∧ x = .closed uri := by
  cases e with
  | change uri version text =>
    exact fun x hx => .inl ((still_onChange s uri version text).plain x hx)
  | opened uri version text =>
    exact fun x hx => .inl ((moves_touch_validateNow s uri _ _).plain x hx)
  | save uri version text => exact fun x hx => .inl ((moves_onSave s uri version text).plain x hx)
  | close uri => exact fun x hx => ((still_onClose s uri).2 x hx).imp_right fun hc => ⟨uri, rfl, hc⟩
  | fired timer => exact fun x hx => .inl ((moves_onFired s timer).plain x hx)
  | ended r => exact fun x hx => .inl ((moves_onEnded s r).plain x hx)
  | dropped r => exact nofun
  | stop => exact absurd rfl he

/-- The document that an event is about.  The end of a run and the firing of a timer are about the
document that these are for, if they are known. -/
def Event.document (s : State) : Event → Option String
  | .change uri .. | .opened uri .. | .save uri .. | .close uri => some uri
  | .fired timer => (Assoc.get? timer s.timers).map (·.uri)
  | .ended r | .dropped r => (Assoc.get? r s.runs).map (·.uri)
  | .stop => none

/-- An event starts runs of the document that it is about only.  All other runs are as they were,
but for the one that the event ends. -/
theorem runs_step (s : State) {e : Event} (he : e ≠ .stop) :
    ∀ x ∈ (s.step e).1.runs, x ∈ (s.before e).runs ∨ e.document s = some x.2.uri := by
  cases e with
  | change uri version text => exact (still_onChange s uri version text).moves.runs
  | opened uri version text => exact (moves_touch_validateNow s uri _ _).runs
  | save uri version text => exact (moves_onSave s uri version text).runs
  | close uri => exact fun x hx => .inl ((still_onClose s uri).1.1 ▸ hx)
  | fired timer => exact (moves_onFired s timer).runs
  | ended r => exact (moves_onEnded s r).runs
  | dropped r => exact fun x hx => .inl hx
  | stop => exact absurd rfl he

/-! ## Runs before and after -/

variable {p : State × List Effect} {r : Nat} {run : Run}

theorem Starts.next_le (h : Starts s p) : s.nextRun ≤ p.1.nextRun := by
  cases h with
  | same _ next _ => exact Nat.le_of_eq next.symm
  | one _ _ next _ => exact next ▸ Nat.le_succ _

theorem Starts.get?_of (h : Starts s p) (hr : Assoc.get? r s.runs = some run) :
    Assoc.get? r p.1.runs = some run := by
  cases h with
  | same runs _ _ => rw [runs, hr]
  | one _ runs _ _ =>
    rw [runs, Assoc.get?_append, hr]
    rfl

theorem Starts.known_or_started (h : Starts s p) (hr : Assoc.get? r p.1.runs = some run) :
    Assoc.get? r s.runs = some run ∨ r ∈ startedRuns p.2 := by
  cases h with
  | same runs _ _ => exact .inl (by rwa [← runs])
  | one new runs _ started =>
    rw [runs, Assoc.get?_append] at hr
    cases hold : Assoc.get? r s.runs with
    | some old =>
      rw [hold] at hr
      exact .inl hr
    | none =>
      rw [hold] at hr
      by_cases hk : s.nextRun = r
      · exact .inr (by rw [started, hk, List.mem_singleton])
      · simp [Assoc.get?, hk] at hr

theorem Starts.started (h : Starts s p) (hr : r ∈ startedRuns p.2) :
    s.nextRun ≤ r ∧ r < p.1.nextRun ∧ Assoc.get? r p.1.runs ≠ none := by
  cases h with
  | same _ _ started =>
    rw [started] at hr
    cases hr
  | one new runs next started =>
    rw [started, List.mem_singleton] at hr
    subst hr
    refine ⟨Nat.le_refl _, by omega, ?_⟩
    rw [runs]
    have hmem : (s.nextRun, new) ∈ s.runs ++ [(s.nextRun, new)] := by simp
    exact Assoc.get?_ne_none_of_mem hmem

theorem Starts.nodup (h : Starts s p) : (startedRuns p.2).Nodup := by
  cases h with
  | same _ _ started => simp [started]
  | one _ _ _ started => simp [started]

/-- A run that is over stays over. -/
theorem Starts.over (h : Starts s p) (hlt : r < s.nextRun) (hr : Assoc.get? r s.runs = none) :
    Assoc.get? r p.1.runs = none := by
  cases h with
  | same runs _ _ => rw [runs, hr]
  | one new runs _ _ =>
    rw [runs, Assoc.get?_append, hr]
    simp [Assoc.get?, Nat.ne_of_gt hlt]

end PikeAnalysis.Scheduler

/-!
## Closed documents and the scheduler

A document that is not open gets no new run, and only an event that registers it opens it.  Runs
that are under way when it is closed go on, so these two are what the closing of a document means to
the scheduler.
-/

namespace PikeAnalysis.Scheduler

open State

variable {w : Setting} {s : State} {e : Event} {uri : String}

/-- An event that registers a document that was not open.  A save does so only if it brings both a
version and a text. -/
def Event.Registers (uri : String) : Event → Prop
  | .change u .. | .opened u .. => u = uri
  | .save u version text => u = uri ∧ version ≠ none ∧ text ≠ none
  | _ => False

theorem Event.accept_of_not_registers (h : ¬ e.Registers uri) : e.accept uri none = none := by
  cases e with
  | change u version text => exact if_neg h
  | opened u version text => exact if_neg h
  | save u version text =>
    by_cases hu : u = uri
    · cases version <;> cases text <;> simp_all [Event.accept, Event.Registers]
    · exact if_neg hu
  | close u => simp [Event.accept]
  | fired | ended | dropped | stop => rfl

/-- A document that is not open stays so until it is registered. -/
theorem content_of_not_registers (tidy : Tidy s) (he : e ≠ .stop) (h : ¬ e.Registers uri)
    (closed : s.content uri = none) : (s.step e).1.content uri = none := by
  rw [content_step tidy e he, closed, Event.accept_of_not_registers h]

theorem content_onSave_self (tidy : Tidy s) (uri : String) (version : Option Int)
    (text : Option String) :
    (s.onSave uri version text).1 = s ∨ (s.onSave uri version text).1.content uri ≠ none := by
  unfold State.onSave
  dsimp only
  split
  · exact .inl rfl
  · right
    rw [content_validateNow, content_touch tidy, if_pos rfl]
    simp [Slot.content, Slot.touched]

theorem runs_onEnded_of_closed {r : Nat} {run : Run} {slot : Slot}
    (hr : Assoc.get? r s.runs = some run) (doc : Assoc.get? run.uri s.docs = some run.slot)
    (found : s.slot? run.slot = some slot) (closed : slot.closed = true) :
    (s.onEnded r).1.runs = (s.dropRun r).runs := by
  have hafter := afterRun_of_closed (s := ({ s.dropRun r with completed := s.completed + 1 } :
    State).setSlot run.slot { slot with run := none }) doc (slot?_setSlot_self ..) closed
  rw [onEnded_of_found hr found, hafter]
  exact (still_makeIdle _ _).runs

/-- No run is started of a document that is not open after the event. -/
theorem Inv.runs_of_closed (h : Inv w s) (he : e ≠ .stop) (closed : (s.step e).1.content uri = none)
    {x : Nat × Run} (hx : x ∈ (s.step e).1.runs) (huri : x.2.uri = uri) : x ∈ s.runs := by
  have hbefore : x ∈ (s.before e).runs → x ∈ s.runs := by
    intro hm
    cases e with
    | ended r | dropped r => exact (Assoc.mem_erase.mp hm).1
    | change | opened | save | close | fired | stop => exact hm
  -- A run that is new is due to an event after which its document is open, which it is not.
  rcases runs_step s he x hx with hm | hd
  · exact hbefore hm
  · rw [huri] at hd
    have hcontent := content_step h.tidy e he uri
    cases e with
    | change u version text | opened u version text =>
      obtain rfl : u = uri := Option.some.inj hd
      rw [closed, Event.accept, if_pos rfl] at hcontent
      cases hcontent
    | save u version text =>
      obtain rfl : u = uri := Option.some.inj hd
      rcases content_onSave_self h.tidy u version text with hs | hs
      · rwa [State.step, hs] at hx
      · exact absurd closed hs
    | close u => exact (still_onClose s u).1.1 ▸ hx
    | fired timer =>
      obtain ⟨entry, ht, rfl⟩ := Option.map_eq_some_iff.mp hd
      obtain ⟨slot, doc, found, waits, -, -⟩ := h.waiting_of_timer ht
      have hopen : s.content entry.uri = none := hcontent.symm.trans closed
      rw [content_of_found doc found, Slot.content, waits.closed] at hopen
      cases hopen
    | ended r =>
      obtain ⟨run, hr, rfl⟩ := Option.map_eq_some_iff.mp hd
      obtain ⟨slot, doc, found, hasRun, -, -, -⟩ := h.running_of_run hr
      have hopen : s.content run.uri = none := hcontent.symm.trans closed
      rw [content_of_found doc found, Slot.content] at hopen
      by_cases hclosed : slot.closed = true
      · rw [State.step, runs_onEnded_of_closed hr doc found hclosed] at hx
        exact (Assoc.mem_erase.mp hx).1
      · rw [if_neg hclosed] at hopen
        cases hopen
    | dropped r => exact (Assoc.mem_erase.mp hx).1
    | stop => exact absurd rfl he

end PikeAnalysis.Scheduler
