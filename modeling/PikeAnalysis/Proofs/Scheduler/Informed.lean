import PikeAnalysis.Proofs.Scheduler.Reopening

/-!
# What runs hold

A run is started of what its document holds once the event that starts it has been taken note of
(`Kempt.content_of_started`).  So whatever the scheduler is told of documents, in whatever order and
with whatever closings and stops between, runs are of nothing but what it was told
(`Informed.step`).

A run carries a version and a text, and it has to be shown that they were said together.  The slot
is the only place from which a run takes them, and what a slot holds is what was accepted
(`Proofs/Scheduler/Content.lean`), so the invariant is about slots and runs.  The relation `told`
is open: it may be what was said up to now, or what was said in one course.
-/

namespace PikeAnalysis.Scheduler

open State

variable {s t u : State} {uri : String} {id : Nat} {r : Nat}

/-! ## Runs that are started -/

/-- Any run that is there after a change and was not before is of what its document holds, if that
is open. -/
def Faithful (s t : State) : Prop :=
  ∀ e ∈ t.runs, e ∈ s.runs ∨ ∀ c, t.content e.2.uri = some c → c = (e.2.version, e.2.text)

theorem Faithful.of_runs (runs : t.runs = s.runs) : Faithful s t :=
  fun _ he => .inl (runs ▸ he)

theorem Faithful.after (h : Faithful t u) (runs : ∀ e ∈ t.runs, e ∈ s.runs) : Faithful s u :=
  fun e he => (h e he).imp_left (runs e)

theorem faithful_startRun (doc : Assoc.get? uri s.docs = some id) :
    Faithful s (s.startRun uri id).1 := by
  cases found : s.slot? id with
  | none =>
    rw [State.startRun, found]
    exact .of_runs rfl
  | some slot =>
    intro e he
    have kept := content_startRun s uri id uri
    rw [startRun_of_found found] at he kept ⊢
    rcases List.mem_append.mp he with he | he
    · exact .inl he
    · obtain rfl := List.mem_singleton.mp he
      refine .inr fun c hc => ?_
      have content : slot.content = some c :=
        (content_of_found doc found).symm.trans (kept.symm.trans hc)
      unfold Slot.content at content
      split at content
      · cases content
      · exact (Option.some.inj content).symm

theorem faithful_validateNow (doc : Assoc.get? uri s.docs = some id) :
    Faithful s (s.validateNow uri id).1 := by
  unfold State.validateNow
  split
  · exact .of_runs rfl
  · split
    · exact .of_runs rfl
    · have started := faithful_startRun (s := (s.cancelTimer id).1)
        ((docs_cancelTimer s id).symm ▸ doc)
      exact started.after fun _ he => (still_cancelTimer s id).runs ▸ he

theorem Kempt.faithful_touch (h : Kempt s) (uri : String) (version : Option Int)
    (text : Option String) :
    Faithful s ((s.touch uri version text).1.validateNow uri (s.touch uri version text).2).1 :=
  (faithful_validateNow (h.touch uri version text).2.1).after fun _ he =>
    (still_touch s uri version text).runs ▸ he

theorem faithful_onFired (s : State) (timer : Nat) : Faithful s (s.onFired timer).1 := by
  unfold State.onFired
  split
  · exact .of_runs rfl
  · dsimp only
    split
    · exact .of_runs rfl
    · split
      · next current =>
        exact (faithful_startRun (beq_iff_eq.mp current)).after fun _ he => he
      · exact .of_runs rfl

theorem faithful_afterRun (s : State) (uri : String) (id : Nat) :
    Faithful s (s.afterRun uri id).1 := by
  have decided (t : State) (rerunNow dirty : Bool) (runs : t.runs = s.runs) :
      Faithful s (if !t.isCurrent uri id then t.makeIdle id
        else if rerunNow then t.startRun uri id
        else if dirty then t.armTimer uri id
        else t.makeIdle id).1 := by
    split
    · exact .of_runs ((still_makeIdle t id).runs.trans runs)
    · next current =>
      have doc : Assoc.get? uri t.docs = some id := by simpa [State.isCurrent] using current
      split
      · exact (faithful_startRun doc).after fun e he => runs ▸ he
      · split
        · exact .of_runs ((still_armTimer t uri id).runs.trans runs)
        · exact .of_runs ((still_makeIdle t id).runs.trans runs)
  unfold State.afterRun
  split
  · exact .of_runs rfl
  · refine decided _ _ _ ?_
    split <;> rfl

theorem faithful_onEnded (s : State) (r : Nat) : Faithful s (s.onEnded r).1 := by
  unfold State.onEnded
  split
  · exact .of_runs rfl
  · have left : ∀ e ∈ Assoc.erase r s.runs, e ∈ s.runs := fun _ he => (Assoc.mem_erase.mp he).1
    dsimp only
    split
    · exact fun e he => .inl (left e he)
    · exact (faithful_afterRun _ _ _).after left

theorem Kempt.faithful_step (h : Kempt s) (e : Event) : Faithful s (s.step e).1 := by
  cases e with
  | change u version text => exact .of_runs (still_onChange s u version text).runs
  | opened u version text => exact h.faithful_touch u (some version) (some text)
  | save u version text =>
    unfold State.step State.onSave
    dsimp only
    split
    · exact .of_runs rfl
    · exact h.faithful_touch u version text
  | close u => exact .of_runs (still_onClose s u).1.1
  | fired timer => exact faithful_onFired s timer
  | ended r => exact faithful_onEnded s r
  | dropped r => exact fun e he => .inl (Assoc.mem_erase.mp he).1
  | stop => exact .of_runs h.onStop.runs

/-- A run is started of what its document holds after the event. -/
theorem Kempt.content_of_started (h : Kempt s) (e : Event) (hr : r ∈ startedRuns (s.step e).2) :
    ∃ run, Assoc.get? r (s.step e).1.runs = some run ∧
      (s.step e).1.content run.uri = some (run.version, run.text) := by
  obtain ⟨run, hrun, isOpen⟩ := h.open_of_started e hr
  obtain ⟨c, hc⟩ := Option.ne_none_iff_exists'.mp isOpen
  refine ⟨run, hrun, ?_⟩
  rcases h.faithful_step e _ (Assoc.mem_of_get? hrun) with old | same
  · -- It is none of the old runs: its number had not been given before the event.
    have lt := h.tidy.run_lt _ old
    by_cases he : e = .stop
    · subst he
      have none : startedRuns (s.step .stop).2 = [] := h.onStop.started
      rw [none] at hr
      cases hr
    · have ge := ((starts_step s he).started hr).1
      rw [nextRun_before] at ge
      exact absurd lt (Nat.not_lt.mpr ge)
  · rw [hc, same c hc]

/-! ## What the scheduler is told -/

variable {told : String → Int → String → Prop}

/-- What an event says of a document is told, if what was known of the document is. -/
def Event.Within (told : String → Int → String → Prop) (e : Event) : Prop :=
  ∀ uri known, (∀ c ∈ known, told uri c.1 c.2) → ∀ c ∈ e.accept uri known, told uri c.1 c.2

/-- An event that says nothing new of documents. -/
theorem Event.within_of_quiet {e : Event}
    (quiet : ∀ uri known, ∀ c ∈ e.accept uri known, c ∈ known) :
    e.Within told :=
  fun uri known held c hc => held c (quiet uri known c hc)

theorem Event.within_close (uri : String) : (Event.close uri).Within told := by
  refine within_of_quiet fun u known c hc => ?_
  rw [Event.accept] at hc
  split at hc
  · cases hc
  · exact hc

/-- An event that says all of a document. -/
theorem Event.within_of_told {e : Event} {uri : String} {version : Int} {text : String}
    (whole : ∀ u known, e.accept u known = if uri = u then some (version, text) else known)
    (h : told uri version text) : e.Within told := by
  intro u known held c hc
  rw [whole] at hc
  split at hc
  · next same =>
    obtain rfl := Option.some.inj hc
    exact same ▸ h
  · exact held c hc

theorem Event.within_save {uri : String} {version : Int} {text : String}
    (h : told uri version text) :
    (Event.save uri (some version) (some text)).Within told := by
  refine within_of_told (fun u known => ?_) h
  cases known <;> simp only [Event.accept, Option.getD_some, Option.bind_some, Option.map_some]

/-- What documents hold has been told, and so has what runs are of.  It is about documents that
are open; a closed one holds nothing. -/
structure Informed (told : String → Int → String → Prop) (s : State) : Prop where
  kempt : Kempt s
  documents : ∀ uri, ∀ c ∈ s.content uri, told uri c.1 c.2
  runs : ∀ e ∈ s.runs, told e.2.uri e.2.version e.2.text

theorem Informed.start (debounce : Int) : Informed told (State.start debounce) where
  kempt := kempt_after debounce []
  documents := nofun
  runs := nofun

theorem Informed.step (h : Informed told s) {e : Event} (within : e.Within told) :
    Informed told (s.step e).1 := by
  have kempt := h.kempt.step e
  have documents (uri : String) : ∀ c ∈ (s.step e).1.content uri, told uri c.1 c.2 := by
    intro c hc
    by_cases he : e = .stop
    · rw [content_of_closes h.kempt (by rw [he]; trivial)] at hc
      cases hc
    · rw [content_step h.kempt.tidy e he] at hc
      exact within uri _ (h.documents uri) c hc
  refine ⟨kempt, documents, fun x hx => ?_⟩
  by_cases he : e = .stop
  · subst he
    exact h.runs x (h.kempt.onStop.runs ▸ hx)
  rcases (starts_step s he).known_or_started
    (Assoc.get?_of_mem kempt.tidy.run_inj hx) with known | started
  · refine h.runs x ?_
    have known := Assoc.mem_of_get? known
    cases e with
    | ended | dropped => exact (Assoc.mem_erase.mp known).1
    | change | opened | save | close | fired | stop => exact known
  · obtain ⟨run, hrun, content⟩ := h.kempt.content_of_started e started
    obtain rfl := Option.some.inj (hrun.symm.trans (Assoc.get?_of_mem kempt.tidy.run_inj hx))
    exact documents _ _ content

/-- Who waits for a document to become idle tells nothing of it. -/
theorem Informed.awaitIdle (h : Informed told s) (id ticket : Nat) :
    Informed told (s.awaitIdle id ticket) := by
  cases found : s.slot? id with
  | none =>
    rw [State.awaitIdle, found]
    exact h
  | some slot =>
    have added : s.awaitIdle id ticket =
        s.setSlot id { slot with waiters := slot.waiters ++ [ticket] } := by
      rw [State.awaitIdle, found]
    have content :=
      content_setSlot (a := { slot with waiters := slot.waiters ++ [ticket] }) found rfl
    rw [added]
    refine ⟨h.kempt.setSlot found rfl fun opened _ => opened, fun uri c hc => ?_, h.runs⟩
    rw [content uri] at hc
    exact h.documents uri c hc

end PikeAnalysis.Scheduler
