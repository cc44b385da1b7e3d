import PikeAnalysis.Proofs.Engine.Aside
import PikeAnalysis.Proofs.Scheduler.Effects
import PikeAnalysis.Proofs.Validation.Stores

/-!
# The closing of a document

What the engine respects once a document has been closed a number of times: nothing is stored of it
or published any more.  A validation that began before is void then, because it knows how often the
document had been closed when it began.  A run whose task has not begun by then does not, so
`Spares` asks of the tasks that are about to start that they are not of the document.  `Sound` is
kept by whatever the engine does aside, by all that the scheduler is told, and by the commitment of
drafts.

The scheduler is told of a closing like of any other event, and decides to forget the document;
between the decision and its effects there are others.  The lemmas about effects say that all but
the closing leave documents alone (`apart_carryOut`), and that among the effects of a closing there
is one after which nothing is stored (`documents_carryOutAll`).

That a draft is void is a comparison of two counts, that of its target and that of the stores.  So
what has to be known of a validation that is under way is only with which count it began, and this
is part of the draft.
-/

namespace PikeAnalysis.Engine

open PikeAnalysis.Concurrency
open PikeAnalysis.Scheduler (Effect Event Inv Setting startedRuns)

/-- Jobs that come of what is done with documents.  All other tasks leave what is stored and
scheduled of documents alone. -/
def Job.OfDocuments : Job → Prop
  | .timer _ | .run _ => True
  | job => job.IsAside

theorem Job.IsAside.ofDocuments {job : Job} (h : job.IsAside) : job.OfDocuments := by
  cases job <;> trivial

/-- The diagnostics of a document that have been published. -/
def State.publishedOf (s : State) (uri : String) : List (String × List Diagnostic) :=
  s.published.filter fun p => decide (p.1 = uri)

namespace Closing

/-- Runs may be dropped, and it does not matter what was validated.  That is the weakest setting,
and all that is needed where only closing is in question. -/
def setting : Setting where
  lossy := True
  validated _ _ _ := True

theorem allowed (s : Scheduler.State) {e : Event} (he : e ≠ .stop) : e.Allowed setting s := by
  cases e with
  | ended r => exact fun _ _ => trivial
  | dropped r => exact fun _ => trivial
  | stop => exact absurd rfl he
  | change | opened | save | close | fired => trivial

/-! ## What holds -/

variable (uri : String) (n : Nat)

/-- The document has been closed as often as is in question.  `n` is the number that it had just
after the closing that is spoken of; more closings may have come since. -/
def Shut (s : State) : Prop :=
  n ≤ s.stores.closingsOf uri

/-- The run of a number, if there is one, is not of the document.  Its end then concerns another
document. -/
def Clear (r : Nat) (s : State) : Prop :=
  ∀ run, Assoc.get? r s.scheduler.machine.runs = some run → run.uri ≠ uri

/-- A task is not that of a run of the document.  A run that has begun is judged by its draft and
not by this. -/
def Spares (t : Nat) (s : State) : Prop :=
  ∀ r, s.loop.jobOf t = some (.run r) → Clear uri r s

/-- Nothing more is known of the document, and nothing more was published.  A program may still go,
since a document that is stored later can push it out of the budget; it cannot come, and an entry
that has been dropped stays so. -/
structure Unchanged (s s' : State) : Prop where
  documents : s.stores.documents.get? uri = none → s'.stores.documents.get? uri = none
  programs : s'.stores.programs.get? uri = s.stores.programs.get? uri ∨
    s'.stores.programs.get? uri = none
  published : s'.publishedOf uri = s.publishedOf uri

/-- What holds between two turns.  The last two fields are about a document after its closing: the
scheduler holds nothing of it, and no run of it is waiting for its first turn. -/
structure Sound (s : State) : Prop where
  fresh : s.loop.Fresh
  machine : Inv setting s.scheduler.machine
  jobs : ∀ t job, s.loop.jobOf t = some job → job.OfDocuments
  closed : Shut uri n s → s.scheduler.machine.content uri = none
  starts : Shut uri n s → ∀ t, .start t ∈ s.loop.ready → Spares uri t s

/-- What a change respects.  Tasks that are not of the document may do what they like with
others. -/
structure Goes (s s' : State) : Prop where
  sound : Sound uri n s'
  evolves : Loop.Evolves s.loop s'.loop
  closings : s.stores.closingsOf uri ≤ s'.stores.closingsOf uri
  spares : Shut uri n s → ∀ t, Spares uri t s → Spares uri t s'
  unchanged : Shut uri n s → Unchanged uri s s'

variable {uri n} {s s' s'' : State} {t : Nat}

theorem Unchanged.refl (s : State) : Unchanged uri s s :=
  ⟨id, .inl rfl, rfl⟩

theorem Unchanged.trans (h : Unchanged uri s s') (k : Unchanged uri s' s'') :
    Unchanged uri s s'' := by
  refine ⟨fun hs => k.documents (h.documents hs), ?_, k.published.trans h.published⟩
  rcases k.programs with hk | hk
  · rw [hk]
    exact h.programs
  · exact .inr hk

theorem Goes.refl (h : Sound uri n s) : Goes uri n s s :=
  ⟨h, .refl _, Nat.le_refl _, fun _ _ ht => ht, fun _ => .refl s⟩

theorem Goes.shut (h : Goes uri n s s') (hs : Shut uri n s) : Shut uri n s' :=
  Nat.le_trans hs h.closings

theorem Goes.trans (h : Goes uri n s s') (k : Goes uri n s' s'') : Goes uri n s s'' where
  sound := k.sound
  evolves := h.evolves.trans k.evolves
  closings := Nat.le_trans h.closings k.closings
  spares hs t ht := k.spares (h.shut hs) t (h.spares hs t ht)
  unchanged hs := (h.unchanged hs).trans (k.unchanged (h.shut hs))

/-! ## What is done apart -/

theorem closingsOf_apart {kind : Job → Prop} (a : Apart kind s s') (uri : String) :
    s'.stores.closingsOf uri = s.stores.closingsOf uri :=
  Stores.closingsOf_congr a.closings uri

/-- What leaves documents alone is respectful if the tasks that it begins are. -/
theorem Sound.apart {kind : Job → Prop} (h : Sound uri n s) (a : Apart kind s s')
    (documents : ∀ job, kind job → job.OfDocuments)
    (clear : Shut uri n s → ∀ r, kind (.run r) → Clear uri r s) : Goes uri n s s' := by
  have hclosings := closingsOf_apart a uri
  have hshut : Shut uri n s' → Shut uri n s := fun hs => by rwa [Shut, ← hclosings]
  have hclear : ∀ r, Clear uri r s → Clear uri r s' := fun r hr run hrun =>
    hr run (by rwa [← a.machine])
  have hspares : Shut uri n s → ∀ t, Spares uri t s → Spares uri t s' := by
    intro hs t ht r hr
    rcases a.loop.jobs t _ hr with hr | hk
    · exact hclear r (ht r hr)
    · exact hclear r (clear hs r hk)
  refine
    { sound :=
        { fresh := a.loop.evolves.fresh h.fresh
          machine := by rw [a.machine]; exact h.machine
          jobs := fun t job hj => (a.loop.jobs t job hj).elim (h.jobs t job) (documents job)
          closed := fun hs => by rw [a.machine]; exact h.closed (hshut hs)
          starts := fun hs t ht => ?_ }
      evolves := a.loop.evolves
      closings := Nat.le_of_eq hclosings.symm
      spares := hspares
      unchanged := fun _ => ?_ }
  · rcases a.loop.starts h.fresh t ht with ht | hk
    · exact hspares (hshut hs) t (h.starts (hshut hs) t ht)
    · exact fun r hr => hclear r (clear (hshut hs) r (hk _ hr))
  · exact ⟨by rw [a.documents]; exact id, .inl (by rw [a.programs]),
      by rw [State.publishedOf, a.published, State.publishedOf]⟩

theorem Sound.aside (h : Sound uri n s) (a : Aside s s') : Goes uri n s s' :=
  h.apart a (fun _ hj => hj.ofDocuments) fun _ _ hr => hr.elim

/-! ## Effects of the scheduler -/

/-- The kind of the tasks that an effect of the scheduler begins. -/
def kindOf : Effect → Job → Prop
  | .armTimer id, job => job = .timer id
  | .startRun r, job => job = .run r
  | _, _ => False

theorem apart_cancelTask {kind : Job → Prop} (s : State) (task : Option Nat) :
    Apart kind s (Scheduler.cancelTask s task) := by
  cases task with
  | none => exact .refl s
  | some t => exact apart_loop (Loop.SameJobs.cancel (.refl _) t)

/-- All effects but the closing of a document leave documents alone. -/
theorem apart_carryOut (s : State) {x : Effect} (hx : ∀ u, x ≠ .closed u) :
    Apart (kindOf x) s (Scheduler.carryOut s x) := by
  cases x with
  | armTimer id =>
    have hcreate : Loop.Gains (kindOf (.armTimer id)) s.loop (s.loop.create (.timer id)).1 :=
      Loop.gains_create _ rfl
    exact ⟨rfl, rfl, rfl, rfl, rfl, rfl, hcreate⟩
  | startRun r =>
    have hcreate : Loop.Gains (kindOf (.startRun r)) s.loop (s.loop.create (.run r)).1 :=
      Loop.gains_create _ rfl
    have hfollow := hcreate.trans (Loop.SameJobs.follow (.refl _)
      (.ended (s.loop.create (.run r)).2) (.hook (.runOver r))).gains
    exact ⟨rfl, rfl, rfl, rfl, rfl, rfl, hfollow⟩
  | cancelTimer id => exact apart_cancelTask s _
  | cancelRun r => exact apart_cancelTask s _
  | wake tickets =>
    refine apart_foldl (fun s m => ?_) tickets s
    exact apart_loop (Loop.SameJobs.raise (.refl _) _ _)
  | closed u => exact absurd rfl (hx u)

theorem ofDocuments_kindOf {x : Effect} {job : Job} (h : kindOf x job) : job.OfDocuments := by
  cases x with
  | armTimer | startRun => rw [h]; trivial
  | cancelTimer | cancelRun | wake | closed => exact h.elim

theorem machine_carryOut (s : State) (x : Effect) :
    (Scheduler.carryOut s x).scheduler.machine = s.scheduler.machine := by
  by_cases hx : ∀ u, x ≠ .closed u
  · exact (apart_carryOut s hx).machine
  · obtain ⟨u, rfl⟩ := not_forall_not.mp hx
    rfl

theorem closings_carryOut (uri : String) (s : State) (x : Effect) :
    s.stores.closingsOf uri ≤ (Scheduler.carryOut s x).stores.closingsOf uri ∧
      (x ≠ .closed uri →
        (Scheduler.carryOut s x).stores.closingsOf uri = s.stores.closingsOf uri) := by
  by_cases hx : ∀ u, x ≠ .closed u
  · have hsame := closingsOf_apart (apart_carryOut s hx) uri
    exact ⟨Nat.le_of_eq hsame.symm, fun _ => hsame⟩
  · obtain ⟨u, rfl⟩ := not_forall_not.mp hx
    have hget := Stores.closingsOf_closed s.stores u uri
    have hstores : (Scheduler.carryOut s (.closed u)).stores = s.stores.closed u := rfl
    rw [hstores, hget]
    refine ⟨Nat.le_add_right _ _, fun hne => ?_⟩
    have hu : uri ≠ u := fun hu => hne (congrArg Effect.closed hu.symm)
    rw [if_neg hu, Nat.add_zero]

theorem closings_carryOutAll (uri : String) (out : List Effect) (s : State) :
    s.stores.closingsOf uri ≤ (out.foldl Scheduler.carryOut s).stores.closingsOf uri ∧
      (.closed uri ∉ out →
        (out.foldl Scheduler.carryOut s).stores.closingsOf uri = s.stores.closingsOf uri) := by
  induction out generalizing s with
  | nil => exact ⟨Nat.le_refl _, fun _ => rfl⟩
  | cons x rest ih =>
    obtain ⟨hle, heq⟩ := closings_carryOut uri s x
    obtain ⟨hle', heq'⟩ := ih (Scheduler.carryOut s x)
    refine ⟨Nat.le_trans hle hle', fun hne => ?_⟩
    rw [List.mem_cons, not_or] at hne
    exact (heq' hne.2).trans (heq (Ne.symm hne.1))

theorem closings_lt_carryOutAll {out : List Effect} (hmem : .closed uri ∈ out) (s : State) :
    s.stores.closingsOf uri < (out.foldl Scheduler.carryOut s).stores.closingsOf uri := by
  induction out generalizing s with
  | nil => cases hmem
  | cons x rest ih =>
    rcases List.mem_cons.mp hmem with rfl | hmem
    · have hget := Stores.closingsOf_closed s.stores uri uri
      rw [if_pos rfl] at hget
      have hrest := (closings_carryOutAll uri rest (Scheduler.carryOut s (.closed uri))).1
      exact Nat.lt_of_lt_of_le (Nat.lt_of_lt_of_eq (Nat.lt_succ_self _) hget.symm) hrest
    · exact Nat.lt_of_le_of_lt (closings_carryOut uri s x).1 (ih hmem _)

theorem documents_carryOut (uri : String) (s : State) (x : Effect) :
    (s.stores.documents.get? uri = none →
      (Scheduler.carryOut s x).stores.documents.get? uri = none) ∧
    (x = .closed uri → (Scheduler.carryOut s x).stores.documents.get? uri = none) := by
  by_cases hx : ∀ u, x ≠ .closed u
  · refine ⟨fun hnone => ?_, fun h => absurd h (hx uri)⟩
    rw [(apart_carryOut s hx).documents, hnone]
  · obtain ⟨u, rfl⟩ := not_forall_not.mp hx
    have hget := DocumentCache.get?_delete s.stores.documents u uri
    refine ⟨fun hnone => hget.trans ?_, fun h => hget.trans (if_pos (Effect.closed.inj h).symm)⟩
    rw [hnone, ite_self]

/-- Among effects that close a document there is one after which nothing is stored of it. -/
theorem documents_carryOutAll {out : List Effect} (s : State)
    (h : s.stores.documents.get? uri = none ∨ .closed uri ∈ out) :
    (out.foldl Scheduler.carryOut s).stores.documents.get? uri = none := by
  induction out generalizing s with
  | nil => exact h.resolve_right List.not_mem_nil
  | cons x rest ih =>
    refine ih (Scheduler.carryOut s x) ?_
    obtain ⟨hkept, hclosed⟩ := documents_carryOut uri s x
    rcases h with hnone | hmem
    · exact .inl (hkept hnone)
    · exact (List.mem_cons.mp hmem).imp (fun hx => hclosed hx.symm) id

/-- The closing of a document is respectful if it is not the one that is in question. -/
theorem Sound.close (h : Sound uri n s) (u : String)
    (late : Shut uri n (Scheduler.carryOut s (.closed u)) → Shut uri n s) :
    Goes uri n s (Scheduler.carryOut s (.closed u)) where
  sound :=
    { fresh := h.fresh
      machine := h.machine
      jobs := h.jobs
      closed := fun hs => h.closed (late hs)
      starts := fun hs t ht => h.starts (late hs) t ht }
  evolves := .refl _
  closings := (closings_carryOut uri s _).1
  spares _ _ ht := ht
  unchanged _ := by
    refine ⟨fun hnone => ?_, .inl rfl, rfl⟩
    refine (DocumentCache.get?_delete s.stores.documents u uri).trans ?_
    rw [hnone, ite_self]

theorem Sound.carryOut (h : Sound uri n s) (x : Effect)
    (clear : Shut uri n s → ∀ r, x = .startRun r → Clear uri r s)
    (late : Shut uri n (Scheduler.carryOut s x) → Shut uri n s) :
    Goes uri n s (Scheduler.carryOut s x) := by
  by_cases hx : ∀ u, x ≠ .closed u
  · refine h.apart (apart_carryOut s hx) (fun _ => ofDocuments_kindOf) fun hs r hr => ?_
    cases x with
    | startRun r' => exact clear hs r (by rw [Job.run.inj hr])
    | armTimer id => cases hr
    | cancelTimer | cancelRun | wake | closed => exact hr.elim
  · obtain ⟨u, rfl⟩ := not_forall_not.mp hx
    exact h.close u late

theorem Sound.carryOutAll (out : List Effect) (h : Sound uri n s)
    (clear : Shut uri n s → ∀ r ∈ startedRuns out, Clear uri r s)
    (late : Shut uri n (out.foldl Scheduler.carryOut s) → Shut uri n s) :
    Goes uri n s (out.foldl Scheduler.carryOut s) := by
  induction out generalizing s with
  | nil => exact .refl h
  | cons x rest ih =>
    have hrest := (closings_carryOutAll uri rest (Scheduler.carryOut s x)).1
    have hback : Shut uri n (Scheduler.carryOut s x) → Shut uri n s :=
      fun hs => late (Nat.le_trans hs hrest)
    have hx : Goes uri n s (Scheduler.carryOut s x) := by
      refine h.carryOut x (fun hs r hr => clear hs r ?_) hback
      rw [hr]
      exact List.mem_cons_self
    refine hx.trans (ih hx.sound (fun hs r hr => ?_) fun hs => hx.shut (late hs))
    have hr' : r ∈ startedRuns (x :: rest) := by
      rw [startedRuns, List.filterMap_cons]
      split
      · exact hr
      · exact List.mem_cons_of_mem _ hr
    intro run hrun
    rw [machine_carryOut] at hrun
    exact clear (hback hs) r hr' run hrun

/-! ## Events of the scheduler -/

/-- The state in which an event has been decided and nothing of it carried out. -/
def decided (s : State) (e : Event) : State :=
  { s with scheduler := { s.scheduler with machine := (s.scheduler.machine.step e).1 } }

/-- What closed documents have no part in: a run that is there after an event was there before. -/
theorem Sound.run_of_decided (h : Sound uri n s) {e : Event} (he : e ≠ .stop)
    (closed : (s.scheduler.machine.step e).1.content uri = none) {r : Nat} {run : Scheduler.Run}
    (hr : Assoc.get? r (s.scheduler.machine.step e).1.runs = some run) (huri : run.uri = uri) :
    Assoc.get? r s.scheduler.machine.runs = some run := by
  have hmem := h.machine.runs_of_closed he closed (Assoc.mem_of_get? hr) huri
  exact Assoc.get?_of_mem h.machine.tidy.run_inj hmem

theorem Sound.decide (h : Sound uri n s) {e : Event} (he : e ≠ .stop)
    (quiet : Shut uri n s → ¬ e.Registers uri) : Goes uri n s (decided s e) := by
  have hcontent : Shut uri n s → (s.scheduler.machine.step e).1.content uri = none := fun hs =>
    Scheduler.content_of_not_registers h.machine.tidy he (quiet hs) (h.closed hs)
  have hspares : Shut uri n s → ∀ t, Spares uri t s → Spares uri t (decided s e) := by
    intro hs t ht r hr run hrun huri
    exact ht r hr run (h.run_of_decided he (hcontent hs) hrun huri) huri
  exact
    { sound :=
        { fresh := h.fresh
          machine := h.machine.step (allowed _ he)
          jobs := h.jobs
          closed := hcontent
          starts := fun hs t ht => hspares hs t (h.starts hs t ht) }
      evolves := .refl _
      closings := Nat.le_refl _
      spares := hspares
      unchanged := fun _ => ⟨id, .inl rfl, rfl⟩ }

/-- The runs that an event starts while the document is closed are not of it. -/
theorem Sound.clear_started (h : Sound uri n s) {e : Event} (he : e ≠ .stop)
    (quiet : Shut uri n s → ¬ e.Registers uri) (hs : Shut uri n s) :
    ∀ r ∈ startedRuns (s.scheduler.machine.step e).2, Clear uri r (decided s e) := by
  intro r hr run hrun huri
  have hcontent := Scheduler.content_of_not_registers h.machine.tidy he (quiet hs) (h.closed hs)
  have hold := h.run_of_decided he hcontent hrun huri
  obtain ⟨hle, -⟩ := (Scheduler.starts_step s.scheduler.machine he).started hr
  rw [Scheduler.nextRun_before] at hle
  exact absurd (h.machine.tidy.run_lt _ (Assoc.mem_of_get? hold)) (Nat.not_lt.mpr hle)

/-- Whatever the scheduler is told is respectful, but for a registration of the document once it is
shut and for the closing that shuts it. -/
theorem Sound.tell (h : Sound uri n s) {e : Event} (he : e ≠ .stop)
    (quiet : Shut uri n s → ¬ e.Registers uri)
    (late : Shut uri n (Scheduler.tell s e) → Shut uri n s) :
    Goes uri n s (Scheduler.tell s e) := by
  have hdecided := h.decide he quiet
  refine hdecided.trans (hdecided.sound.carryOutAll _ (h.clear_started he quiet) late)

theorem closings_tell (s : State) {e : Event} (he : e ≠ .stop) (hclose : e ≠ .close uri) :
    (Scheduler.tell s e).stores.closingsOf uri = s.stores.closingsOf uri := by
  refine (closings_carryOutAll uri _ (decided s e)).2 fun hmem => ?_
  rcases Scheduler.plain_step s.scheduler.machine he _ hmem with hplain | ⟨u, rfl, hu⟩
  · exact hplain
  · exact hclose (congrArg Event.close (Effect.closed.inj hu).symm)

theorem closings_lt_tell (s : State) (uri : String) :
    s.stores.closingsOf uri < (Scheduler.tell s (.close uri)).stores.closingsOf uri :=
  closings_lt_carryOutAll (Scheduler.closed_mem_onClose s.scheduler.machine uri)
    (decided s (.close uri))

theorem machine_tell (s : State) (e : Event) :
    (Scheduler.tell s e).scheduler.machine = (s.scheduler.machine.step e).1 := by
  have hfold : ∀ (out : List Effect) (u : State),
      (out.foldl Scheduler.carryOut u).scheduler.machine = u.scheduler.machine := by
    intro out
    induction out with
    | nil => exact fun _ => rfl
    | cons x rest ih => exact fun u => (ih _).trans (machine_carryOut u x)
  exact hfold _ (decided s e)

/-- A document that has just been closed is not open. -/
theorem Sound.content_closed (h : Sound uri n s) :
    (Scheduler.tell s (.close uri)).scheduler.machine.content uri = none := by
  rw [machine_tell, Scheduler.State.content_step h.machine.tidy (.close uri) nofun]
  exact if_pos rfl

theorem documents_tell_close (s : State) (uri : String) :
    (Scheduler.tell s (.close uri)).stores.documents.get? uri = none :=
  documents_carryOutAll (decided s (.close uri))
    (.inr (Scheduler.closed_mem_onClose s.scheduler.machine uri))

/-! ## Drafts -/

theorem publishedOf_hand_of_ne {other : String} (hne : uri ≠ other)
    (ds : List Diagnostic) (s : State) :
    (hand other ds s).1.publishedOf uri = s.publishedOf uri := by
  have happend : (s.published ++ [(other, ds)]).filter (fun p => decide (p.1 = uri)) =
      s.published.filter fun p => decide (p.1 = uri) := by
    rw [List.filter_append, List.filter_cons_of_neg (by simpa using Ne.symm hne), List.filter_nil,
      List.append_nil]
  unfold hand
  cases s.sink with
  | absent => rfl
  | accepts | fails | slow => exact happend

theorem publishedOf_hand_self (heard : s.sink ≠ .absent) (uri : String) (ds : List Diagnostic) :
    (hand uri ds s).1.publishedOf uri = s.publishedOf uri ++ [(uri, ds)] := by
  have happend : (s.published ++ [(uri, ds)]).filter (fun p => decide (p.1 = uri)) =
      (s.published.filter fun p => decide (p.1 = uri)) ++ [(uri, ds)] := by
    rw [List.filter_append, List.filter_cons_of_pos (by simp), List.filter_nil]
  unfold hand
  cases hsink : s.sink with
  | absent => exact absurd hsink heard
  | accepts | fails | slow => exact happend

theorem hand_eq (uri : String) (ds : List Diagnostic) (s : State) :
    (hand uri ds s).1.loop = s.loop ∧ (hand uri ds s).1.scheduler = s.scheduler ∧
      (hand uri ds s).1.stores = s.stores := by
  unfold hand
  cases s.sink <;> exact ⟨rfl, rfl, rfl⟩

/-- What a change is worth that leaves the tasks, the scheduler and the closings alone. -/
theorem Sound.still (h : Sound uri n s) (loop : s'.loop = s.loop)
    (scheduler : s'.scheduler = s.scheduler) (closings : s'.stores.closings = s.stores.closings)
    (unchanged : Shut uri n s → Unchanged uri s s') : Goes uri n s s' := by
  have hclosings := Stores.closingsOf_congr closings uri
  have hshut : Shut uri n s' → Shut uri n s := fun hs => by rwa [Shut, ← hclosings]
  have hspares : ∀ t, Spares uri t s → Spares uri t s' := by
    intro t ht r hr run hrun
    rw [loop] at hr
    rw [scheduler] at hrun
    exact ht r hr run hrun
  refine
    { sound :=
        { fresh := by rw [loop]; exact h.fresh
          machine := by rw [scheduler]; exact h.machine
          jobs := fun t job hj => h.jobs t job (by rwa [← loop])
          closed := fun hs => by rw [scheduler]; exact h.closed (hshut hs)
          starts := fun hs t ht => hspares t (h.starts (hshut hs) t (by rwa [← loop])) }
      evolves := by rw [loop]; exact .refl _
      closings := Nat.le_of_eq hclosings.symm
      spares := fun _ => hspares
      unchanged := unchanged }

/-- A draft of the document is void once it is shut.  Its commitment compares the number of closings
and stores nothing. -/
def Void (uri : String) (n : Nat) (target : Validation.Target) : Prop :=
  target.uri = uri → target.closings < n

theorem closings_commit (d : Validation.Draft) (positions : PositionIndex) (s : State) :
    (commit d positions s).1.stores.closings = s.stores.closings := by
  unfold commit
  split
  · rfl
  · next stores log hstored => exact Validation.closings_commit hstored

theorem commit_eq (d : Validation.Draft) (positions : PositionIndex) (s : State) :
    (commit d positions s).1.loop = s.loop ∧ (commit d positions s).1.scheduler = s.scheduler ∧
      (commit d positions s).1.published = s.published := by
  unfold commit
  split <;> exact ⟨rfl, rfl, rfl⟩

/-- A validation that began before its document was closed commits nothing. -/
theorem commit_of_void {d : Validation.Draft} (void : Void uri n d.target) (hs : Shut uri n s)
    (huri : d.target.uri = uri) (positions : PositionIndex) : commit d positions s = (s, none) := by
  have hne : s.stores.closingsOf d.target.uri ≠ d.target.closings := by
    have hlt := void huri
    rw [huri]
    exact Nat.ne_of_gt (Nat.lt_of_lt_of_le hlt hs)
  rw [commit, Validation.commit_of_closed hne]

/-- What has been committed is not of the document, unless that is not shut. -/
theorem not_shut_of_commit {d : Validation.Draft} (void : Void uri n d.target)
    {positions : PositionIndex}
    {ds : List Diagnostic} (committed : (commit d positions s).2 = some ds)
    (huri : d.target.uri = uri) :
    ¬ Shut uri n (commit d positions s).1 := by
  intro hs
  have hclosings := Stores.closingsOf_congr (closings_commit d positions s) uri
  rw [Shut, hclosings] at hs
  rw [commit_of_void void hs huri] at committed
  cases committed

/-- What another document's validation commits does not concern the document. -/
theorem unchanged_commit_of_ne {d : Validation.Draft} (huri : uri ≠ d.target.uri)
    (positions : PositionIndex) (s : State) : Unchanged uri s (commit d positions s).1 := by
  unfold commit
  split
  · exact .refl s
  · next stores log hstored =>
    obtain ⟨hdocuments, hprograms⟩ := Validation.commit_of_ne huri hstored
    exact ⟨fun hnone => hdocuments.trans hnone, hprograms, rfl⟩

theorem Sound.commit (h : Sound uri n s) {d : Validation.Draft} (void : Void uri n d.target)
    (positions : PositionIndex) : Goes uri n s (commit d positions s).1 := by
  obtain ⟨hloop, hscheduler, -⟩ := commit_eq d positions s
  refine h.still hloop hscheduler (closings_commit d positions s) fun hs => ?_
  by_cases huri : d.target.uri = uri
  · rw [commit_of_void void hs huri]
    exact .refl s
  · exact unchanged_commit_of_ne (Ne.symm huri) positions s

/-- Diagnostics are handed to the sink that are not of the document, or are while it is not shut. -/
theorem Sound.hand (h : Sound uri n s) {other : String} (unshut : other = uri → ¬ Shut uri n s)
    (ds : List Diagnostic) : Goes uri n s (hand other ds s).1 := by
  obtain ⟨hloop, hscheduler, hstores⟩ := hand_eq other ds s
  refine h.still hloop hscheduler (by rw [hstores]) fun hs => ⟨?_, .inl ?_, ?_⟩
  · rw [hstores]
    exact id
  · rw [hstores]
  · exact publishedOf_hand_of_ne (fun he => unshut he.symm hs) ds s

theorem Sound.complete (h : Sound uri n s) :
    Goes uri n s { s with stores := Validation.complete s.stores } :=
  h.still rfl rfl rfl fun _ => ⟨id, .inl rfl, rfl⟩

end Closing

end PikeAnalysis.Engine
