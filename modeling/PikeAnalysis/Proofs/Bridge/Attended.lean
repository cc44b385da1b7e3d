import PikeAnalysis.Proofs.Bridge.Correlation
import PikeAnalysis.Proofs.Bridge.Turns

/-!
# No request is orphaned

A worker that is gone is noticed in several ways, the request that has to wait for a new worker is
numbered long after it began, and a request that is numbered may still have to wait for its turn to
be written.  In whatever order this happens, every request without an answer was numbered for the
worker in use, and a request that was numbered for a worker no longer in use has been closed
(`no_request_is_orphaned`).

What makes it so is the order at the start lock: a worker is put to use only while there is none,
and then nothing is without an answer.  The write lock has no part in it.  Who waits for it, or for
a pipe that is full, has been numbered before, and can only close his own request, and only while it
is open.

`Guarded` is stated of a moment within a step, with the lock that the thread has in hand.  Each
operation of the machine has a lemma that takes it from the state before the operation to the state
after it, for all that is decided in between, so that the proof about a step follows the definition
of the step.  Two facts do the work: a request is closed in the same step in which it stops being
without an answer (`Kept.closeOne`, `Kept.close`), and a worker is put to use only by a thread that
has the start lock and finds none in use (`Guarded.launched`).

What is not claimed is that a caller who gives up is told anything: his request stays without an
answer until it is answered or its worker goes.
-/

namespace PikeAnalysis.Bridge

/-! ## Requests that are closed -/

/-- What closes a request of a method: what its worker has said to it, or that the worker or the
bridge went away before. -/
def Closes (method : String) : Except BridgeFailure Json → Prop
  | .ok _ | .error (.fatalOutput _) => True
  | .error (.rejected m _ _) | .error (.malformed m _) | .error (.stopped m) => m = method
  | .error (.exited _ m) => m = some method
  | .error (.spawn _) => False

/-- A request has been closed: it was settled, or its thread has ended because it was not
written. -/
def Closed (out : List Effect) (id : Nat) (method : String) : Prop :=
  ∃ answer, Closes method answer ∧
    (.settle id answer ∈ out ∨ ∃ t why, answer = .error why ∧ .ends t (.unwritten id why) ∈ out)

/-- A request to a worker has been closed, or is without an answer still.  In between there is
nothing: what is not closed is kept under its number. -/
def Served (out : List Effect) (pending : List (Nat × Pending)) (w : Nat) (r : Request) : Prop :=
  ∃ id : Nat, r.id = (id : Int) ∧
    (Assoc.get? id pending = some { method := r.method, worker := w } ∨ Closed out id r.method)

/-- What is known of the requests without an answer: `out` is all that was to be done so far.  They
are for the worker in use, under numbers that have been given, and every other request has been
closed. -/
structure Kept (out : List Effect) (s : State) : Prop where
  inUse : ∀ e ∈ s.pending, s.current = some e.2.worker
  numbered : ∀ e ∈ s.pending, e.1 ≤ s.nextId
  served : ∀ t w r, .register t w r ∈ out → Served out s.pending w r

variable {out more : List Effect} {s s' : State} {method : String}

theorem closes_answerOf (method : String) (payload : Json) :
    Closes method (State.answerOf method payload) := by
  unfold State.answerOf
  split
  · rfl
  · split
    · rfl
    · trivial

theorem Closed.append {id : Nat} (h : Closed out id method) (more : List Effect) :
    Closed (out ++ more) id method := by
  obtain ⟨answer, hcloses, hhow⟩ := h
  refine ⟨answer, hcloses, hhow.imp (List.mem_append_left _) ?_⟩
  rintro ⟨t, why, hanswer, hends⟩
  exact ⟨t, why, hanswer, List.mem_append_left _ hends⟩

theorem Closed.mem_settledIds {id : Nat} (h : Closed out id method) : id ∈ settledIds out := by
  obtain ⟨answer, -, hhow⟩ := h
  refine Bridge.mem_settledIds.mpr (hhow.imp (fun hsettle => ⟨answer, hsettle⟩) ?_)
  rintro ⟨t, why, -, hends⟩
  exact ⟨t, why, hends⟩

/-- Without a worker no request is without an answer. -/
theorem Kept.idle (h : Kept out s) (hnone : s.current = none) : s.pending = [] := by
  refine List.eq_nil_iff_forall_not_mem.mpr fun e he => ?_
  have hsome := h.inUse e he
  rw [hnone] at hsome
  cases hsome

/-- A change by which no request is numbered or closed.  The worker in use is the same one, and
numbers may have been passed over. -/
theorem Kept.keep (h : Kept out s) (pending : s'.pending = s.pending)
    (current : s'.current = s.current)
    (nextId : s.nextId ≤ s'.nextId) (unnumbered : ∀ t w r, .register t w r ∉ more) :
    Kept (out ++ more) s' where
  inUse e he := by
    rw [current]
    exact h.inUse e (pending ▸ he)
  numbered e he := Nat.le_trans (h.numbered e (pending ▸ he)) nextId
  served t w r hregister := by
    have hearlier := (List.mem_append.mp hregister).resolve_right (unnumbered t w r)
    obtain ⟨id, hid, hserved⟩ := h.served t w r hearlier
    rw [pending]
    exact ⟨id, hid, hserved.imp_right (·.append more)⟩

/-- Every request without an answer is closed; what worker is in use then does not matter. -/
theorem Kept.close (h : Kept out s) (pending : s'.pending = [])
    (closed : ∀ e ∈ s.pending, Closed more e.1 e.2.method)
    (unnumbered : ∀ t w r, .register t w r ∉ more) : Kept (out ++ more) s' where
  inUse := by rw [pending]; nofun
  numbered := by rw [pending]; nofun
  served t w r hregister := by
    have hearlier := (List.mem_append.mp hregister).resolve_right (unnumbered t w r)
    obtain ⟨id, hid, hserved⟩ := h.served t w r hearlier
    refine ⟨id, hid, .inr ?_⟩
    rcases hserved with hfound | hclosed
    · obtain ⟨answer, hcloses, hhow⟩ := closed _ (Assoc.mem_of_get? hfound)
      refine ⟨answer, hcloses, hhow.imp (List.mem_append_right _) ?_⟩
      rintro ⟨u, why, hanswer, hends⟩
      exact ⟨u, why, hanswer, List.mem_append_right _ hends⟩
    · exact hclosed.append more

/-- One request is closed.  It was pending, and is erased together with the effect that says so. -/
theorem Kept.closeOne (h : Kept out s) {id : Nat} {entry : Pending} {x : Effect}
    (found : Assoc.get? id s.pending = some entry) (closed : Closed [x] id entry.method)
    (unnumbered : x.registers = none) (pending : s'.pending = Assoc.erase id s.pending)
    (current : s'.current = s.current) (nextId : s'.nextId = s.nextId) : Kept (out ++ [x]) s' where
  inUse e he := by
    rw [current]
    exact h.inUse e (Assoc.mem_erase.mp (pending ▸ he)).1
  numbered e he := by
    rw [nextId]
    exact h.numbered e (Assoc.mem_erase.mp (pending ▸ he)).1
  served t w r hregister := by
    have hearlier := (List.mem_append.mp hregister).resolve_right fun hmem => by
      rw [← List.mem_singleton.mp hmem] at unnumbered
      cases unnumbered
    obtain ⟨other, hid, hserved⟩ := h.served t w r hearlier
    refine ⟨other, hid, ?_⟩
    rw [pending]
    rcases hserved with hfound | hclosed
    · by_cases hsame : other = id
      · subst hsame
        obtain rfl := Option.some.inj (found.symm.trans hfound)
        obtain ⟨answer, hcloses, hhow⟩ := closed
        refine .inr ⟨answer, hcloses, hhow.imp (List.mem_append_right _) ?_⟩
        rintro ⟨u, why, hanswer, hends⟩
        exact ⟨u, why, hanswer, List.mem_append_right _ hends⟩
      · exact .inl ((Assoc.get?_erase_of_ne hsame _).trans hfound)
    · exact .inr (hclosed.append _)

/-- A request to the worker in use is given a new number.  It is pending from then on, for that
worker. -/
theorem Kept.register (h : Kept out s) {w : Nat} (inUse : s.current = some w)
    (t : Nat) (method : String)
    (params : List (String × Json)) (current : s'.current = s.current)
    (nextId : s'.nextId = s.nextId + 1)
    (pending : s'.pending = Assoc.set (s.nextId + 1) { method, worker := w } s.pending) :
    Kept (out ++ [.register t w { id := (s.nextId + 1 : Nat), method, params }]) s' where
  inUse e he := by
    rw [current]
    rcases Assoc.mem_set (pending ▸ he) with rfl | he
    · exact inUse
    · exact h.inUse e he
  numbered e he := by
    rw [nextId]
    rcases Assoc.mem_set (pending ▸ he) with rfl | he
    · exact Nat.le_refl _
    · exact Nat.le_succ_of_le (h.numbered e he)
  served u v r hregister := by
    rw [pending]
    rcases List.mem_append.mp hregister with hearlier | hnew
    · obtain ⟨id, hid, hserved⟩ := h.served u v r hearlier
      refine ⟨id, hid, hserved.imp (fun hfound => ?_) (·.append _)⟩
      have hle := h.numbered _ (Assoc.mem_of_get? hfound)
      rw [Assoc.get?_set_of_ne (by omega), hfound]
    · obtain ⟨rfl, rfl, rfl⟩ := Effect.register.inj (List.mem_singleton.mp hnew)
      exact ⟨s.nextId + 1, rfl, .inl (Assoc.get?_set_self _ _ _)⟩

/-! ## Within a step -/

/-- What a step begins with.  Neither part is in the state: the tickets are looked up in it, but
what became of one that has gone is known from the past alone, and so is what was told before the
step. -/
structure Outset where
  /-- What has become of the tickets. -/
  turns : Turns
  /-- What was to be done before. -/
  earlier : List Effect

/-- What holds within a step of the thread `own` when `out` is to be done.  It joins what is known
of the locks with what is known of the requests. -/
structure Guarded (c : Outset) (own : Option Nat) (hand : Option Gate)
    (out : List Effect) (s : State) :
    Prop where
  orderly : Orderly (c.turns.after out) own hand s
  kept : Kept (c.earlier ++ out) s

/-- A step after which it holds. -/
abbrev Guarded.After (c : Outset) (own : Option Nat) (hand : Option Gate) (out : List Effect)
    (p : State.Step) : Prop :=
  Guarded c own hand (out ++ p.2) p.1

/-- Effects that neither number a request nor give anybody the turn.  Such effects change neither
what has become of the tickets nor which requests are open. -/
def Effect.IsPlain : Effect → Prop
  | .register .. | .grant _ => False
  | _ => True

variable {c : Outset} {own own' : Option Nat} {hand hand' : Option Gate} {g : Gate} {t id w : Nat}
  {job : Job} {p : State.Step} {params : List (String × Json)}

theorem Guarded.thenDo {f : State → State.Step} (h : Guarded.After c own hand out p)
    (next : ∀ out, Guarded c own hand out p.1 → Guarded.After c own' hand' out (f p.1)) :
    Guarded.After c own' hand' out (State.thenDo p f) := by
  have hnext := next _ h
  rw [Guarded.After, List.append_assoc] at hnext
  exact hnext

theorem Guarded.of_after (orderly : Orderly ((c.turns.after out).after more) own hand s)
    (kept : Kept ((c.earlier ++ out) ++ more) s) : Guarded c own hand (out ++ more) s where
  orderly := by rwa [Turns.after_append]
  kept := by rwa [← List.append_assoc]

/-- Something plain is done, and neither concerns requests nor, but for the threads, the locks. -/
theorem Guarded.plain (h : Guarded c own hand out s) (plain : ∀ x ∈ more, x.IsPlain)
    (orderly : Orderly (c.turns.after out) own hand s → Orderly (c.turns.after out) own' hand' s')
    (pending : s'.pending = s.pending) (current : s'.current = s.current)
    (nextId : s.nextId ≤ s'.nextId) : Guarded c own' hand' (out ++ more) s' := by
  refine .of_after ?_ (h.kept.keep pending current nextId fun t w r hmem => plain _ hmem)
  rw [Turns.after_of_no_grant _ fun n hmem => plain _ hmem]
  exact orderly h.orderly

/-- Two states with the same threads, locks, tickets, requests and worker in use.  Nothing that
decides whose turn it is, or whether a request is attended to, differs between them, so a step that
leads from the one to the other needs no further argument. -/
structure Alike (s s' : State) : Prop where
  threads : s'.threads = s.threads
  startLock : s'.startLock = s.startLock
  writeLock : s'.writeLock = s.writeLock
  nextTicket : s'.nextTicket = s.nextTicket
  pending : s'.pending = s.pending
  current : s'.current = s.current
  nextId : s'.nextId = s.nextId

theorem Alike.refl (s : State) : Alike s s :=
  ⟨rfl, rfl, rfl, rfl, rfl, rfl, rfl⟩

theorem Alike.lock (h : Alike s s') (g : Gate) : s'.lock g = s.lock g := by
  cases g
  · exact h.startLock
  · exact h.writeLock

/-- A change that concerns neither requests nor threads nor the locks. -/
theorem Guarded.aside (h : Guarded c own hand out s) (plain : ∀ x ∈ more, x.IsPlain)
    (alike : Alike s s') : Guarded c own hand (out ++ more) s' :=
  h.plain plain
    (fun ho => ho.calm alike.threads alike.lock alike.nextTicket (.inr (.inr alike.current)))
    alike.pending alike.current (Nat.le_of_eq alike.nextId.symm)

/-- A change that concerns none of these, and nothing is done. -/
theorem Guarded.quiet (h : Guarded c own hand out s) (alike : Alike s s') :
    Guarded.After c own hand out (s', []) :=
  h.aside (List.forall_mem_nil _) alike

/-- A change of which nothing is told. -/
theorem Guarded.silent (h : Guarded c own hand out s)
    (orderly : Orderly (c.turns.after out) own hand s → Orderly (c.turns.after out) own' hand' s')
    (pending : s'.pending = s.pending) (current : s'.current = s.current)
    (nextId : s.nextId ≤ s'.nextId) : Guarded c own' hand' out s' := by
  have hplain : Guarded c own' hand' (out ++ []) s' :=
    h.plain (List.forall_mem_nil _) orderly pending current nextId
  rwa [List.append_nil] at hplain

theorem Guarded.finish (h : Guarded c (some t) hand out s) (outcome : Outcome) :
    Guarded.After c none none out (s.finish t outcome) :=
  h.plain (List.forall_mem_singleton.mpr trivial)
    (fun ho => ho.finish rfl (fun _ => rfl) rfl rfl) rfl rfl
    (Nat.le_refl _)

/-- A thread starts to wait for something else than its turn. -/
theorem Guarded.wait (h : Guarded c (some t) hand out s) (job : Job) {stage : Stage} (on : Wait)
    (holds : ∀ g, stage.holds = some g → hand = some g)
    (starts : stage.starts = true → s.current = none) (unqueued : stage.ticket? = none) :
    Guarded.After c none none out (s.wait t job stage on) :=
  h.plain (List.forall_mem_singleton.mpr trivial)
    (fun ho => ho.wait holds starts (fun g n hn => by rw [unqueued] at hn; cases hn) rfl
      (fun _ => rfl) rfl
      rfl) rfl rfl (Nat.le_refl _)

/-! ## The locks -/

theorem pending_setLock (s : State) (g : Gate) (l : Lock) :
    (s.setLock g l).pending = s.pending := by
  cases g <;> rfl

theorem nextId_setLock (s : State) (g : Gate) (l : Lock) : (s.setLock g l).nextId = s.nextId := by
  cases g <;> rfl

/-- A change of a lock concerns no request. -/
theorem Guarded.setLock (h : Guarded c own hand out s) (l : Lock)
    (orderly : Orderly (c.turns.after out) own hand s →
      Orderly (c.turns.after out) own' hand' (s.setLock g l)) :
    Guarded c own' hand' out (s.setLock g l) :=
  h.silent orderly (pending_setLock s g l) (current_setLock s g l)
    (Nat.le_of_eq (nextId_setLock s g l).symm)

/-- The first in a queue is given its turn while nobody has the lock. -/
theorem Guarded.wakeFirst (h : Guarded c own hand out s) (free : (s.lock g).held = false) :
    Guarded.After c own hand out (s.wakeFirst g) := by
  refine .of_after (h.orderly.wake free) (h.kept.keep rfl rfl (Nat.le_refl _) fun t w r hmem => ?_)
  obtain ⟨n, -, hn⟩ := List.mem_map.mp hmem
  cases hn

/-- A thread that leaves the queue passes the turn on. -/
theorem Guarded.passOn (h : Guarded c own hand out s) (g : Gate) :
    Guarded.After c own hand out (if (s.lock g).held then (s, []) else s.wakeFirst g) := by
  split
  · exact h.quiet (.refl s)
  · next hfree => exact h.wakeFirst (Bool.eq_false_iff.mpr hfree)

theorem Guarded.release (h : Guarded c own (some g) out s) :
    Guarded.After c own none out (s.release g) := by
  refine .of_after h.orderly.release (h.kept.keep (pending_setLock s g _) (current_setLock s g _)
    (Nat.le_of_eq (nextId_setLock s g _).symm) fun t w r hmem => ?_)
  obtain ⟨n, -, hn⟩ := List.mem_map.mp hmem
  cases hn

/-- A thread that has a lock ends and gives it back. -/
theorem Guarded.giveUp (h : Guarded c (some t) (some g) out s) :
    Guarded.After c none none out (s.giveUp g t) :=
  Guarded.thenDo h.release fun _ hs => hs.finish _

/-- A thread takes a lock only while nobody has been given the turn, and else queues with a ticket
of its own. -/
theorem Guarded.acquire (h : Guarded c (some t) none out s) (env : Outside) (g : Gate)
    (knows : ∀ n, env.abandoned n = true → c.turns n = some .givenUp) (job : Job)
    {stage : Nat → Stage}
    (ticket : ∀ n, (stage n).ticket? = some (g, n)) (keeps : ∀ n, (stage n).holds = none)
    (waits : ∀ n, (stage n).starts = false) {go : State → State.Step}
    (next : Guarded c (some t) (some g) out (s.take g) →
      Guarded.After c none none out (go (s.take g))) :
    Guarded.After c none none out (s.acquire env g t job stage go) := by
  unfold State.acquire
  split
  · next hfree =>
    simp only [State.isFree, Bool.and_eq_true, Bool.not_eq_true', List.all_eq_true] at hfree
    obtain ⟨hunlocked, habandoned⟩ := hfree
    have hnobody : ∀ n ∈ (s.lock g).queue, c.turns.after out n ≠ some .given := by
      intro n hn hgiven
      rw [Turns.after_of_eq_some (knows n (habandoned n hn))] at hgiven
      cases hgiven
    exact next (h.setLock _ fun ho => ho.take hunlocked hnobody)
  · obtain ⟨hqueued, hmem, hown⟩ := h.orderly.draw g
    refine h.plain (List.forall_mem_singleton.mpr trivial) (fun _ => ?_)
      (by cases g <;> rfl) (by cases g <;> rfl) (Nat.le_of_eq (by cases g <;> rfl))
    refine hqueued.wait (fun g' hg' => ?_) (fun hstarts => ?_) (fun g' n hn => ?_) rfl
      (fun _ => rfl) rfl rfl
    · rw [keeps] at hg'
      cases hg'
    · rw [waits] at hstarts
      cases hstarts
    · obtain ⟨rfl, rfl⟩ := Prod.mk.inj (Option.some.inj ((ticket s.nextTicket).symm.trans hn))
      exact ⟨hmem, hown g⟩

/-- A thread goes on with a lock when it has its turn, and else leaves the queue and passes the turn
on. -/
theorem Guarded.enter (h : Guarded c none none out s) {stage : Stage} (how : Resume) {n : Nat}
    (hstage : s.stageOf none t = some stage) (ticket : stage.ticket? = some (g, n))
    (due : how = .cancelled ∨ c.turns.after out n = some .given) {go : State → State.Step}
    (next : Guarded c (some t) (some g) out ((s.leaveQueue g n).take g) →
      Guarded.After c none none out (go ((s.leaveQueue g n).take g))) :
    Guarded.After c none none out (s.enter g t n how go) := by
  unfold State.enter
  dsimp only
  split
  · have hleft : Guarded c (some t) none out (s.leaveQueue g n) :=
      h.setLock _ fun ho => ho.leave hstage ticket
    exact Guarded.thenDo (hleft.passOn g) fun _ hs => hs.finish _
  · next hgoes =>
    refine next (h.silent (fun ho => ho.enter hstage ticket (due.resolve_left hgoes)) ?_ ?_ ?_)
    · exact (pending_setLock _ g _).trans (pending_setLock s g _)
    · exact (current_setLock _ g _).trans (current_setLock s g _)
    · exact Nat.le_of_eq ((nextId_setLock _ g _).trans (nextId_setLock s g _)).symm

/-! ## Giving a worker up -/

/-- The worker in use is given up, and every request without an answer is closed. -/
theorem Guarded.rejectAll (h : Guarded c own hand out s) (notes : List Effect)
    (plain : ∀ x ∈ notes, x.IsPlain) {why : String → BridgeFailure}
    (closes : ∀ method, Closes method (.error (why method))) :
    Guarded.After c own hand out
      (State.thenDo (s.detach, notes) fun s => s.rejectPending why) := by
  refine .of_after ?_ (h.kept.close rfl (fun e he => ?_) fun t w r hregister => ?_)
  · rw [Turns.after_of_no_grant]
    · exact h.orderly.calm rfl (fun g => by cases g <;> rfl) rfl (.inr (.inl rfl))
    · intro n hgrant
      rcases List.mem_append.mp hgrant with hnote | hsettle
      · exact plain _ hnote
      · obtain ⟨e, -, he⟩ := List.mem_map.mp hsettle
        cases he
  · exact ⟨.error (why e.2.method), closes _,
      .inl (List.mem_append_right _ (List.mem_map.mpr ⟨e, he, rfl⟩))⟩
  · rcases List.mem_append.mp hregister with hnote | hsettle
    · exact plain _ hnote
    · obtain ⟨e, -, he⟩ := List.mem_map.mp hsettle
      cases he

theorem Guarded.crash (h : Guarded c own hand out s) (w : Nat) {why : String → BridgeFailure}
    (closes : ∀ method, Closes method (.error (why method))) :
    Guarded.After c own hand out (s.crash w why) := by
  unfold State.crash
  split
  · exact h.rejectAll [.log ⟨.warning, "bridge_crashed"⟩]
      (List.forall_mem_singleton.mpr trivial) closes
  · exact h.quiet (.refl s)

theorem current_crash {w : Nat} (h : s.current = some w) (why : String → BridgeFailure) :
    (s.crash w why).1.current = none := by
  rw [State.crash, if_pos h]
  rfl

/-! ## Requests -/

/-- A request without an answer is of the method that its thread asks for. -/
abbrev State.OfMethod (s : State) (id : Nat) (job : Job) : Prop :=
  ∀ method params, job = .request method params →
    ∀ entry, Assoc.get? id s.pending = some entry → entry.method = method

/-- A request that could not be written is closed by its thread, unless somebody has closed it. -/
theorem Guarded.unwritten (h : Guarded c (some t) hand out s) (w : Nat)
    (same : ∀ entry, Assoc.get? id s.pending = some entry → entry.method = method) :
    Guarded.After c none none out (s.unwritten t id w method) := by
  unfold State.unwritten
  split
  · next hopen =>
    obtain ⟨entry, hentry⟩ := Option.isSome_iff_exists.mp hopen
    have hcloses : Closes entry.method (.error (.exited (s.exitCode? w) (some method))) := by
      rw [same entry hentry]
      rfl
    refine .of_after ?_
      (h.kept.closeOne hentry ⟨_, hcloses, .inr ⟨t, _, rfl, by simp⟩⟩ rfl rfl rfl rfl)
    rw [Turns.after_of_no_grant]
    swap
    · intro n hn
      cases List.mem_singleton.mp hn
    exact h.orderly.finish rfl (fun g => by cases g <;> rfl) rfl rfl
  · exact h.finish _

theorem Guarded.written (h : Guarded c (some t) (some .write) out s) (job : Job) (id : Nat) :
    Guarded.After c none none out (s.written t job id) :=
  Guarded.thenDo h.release fun _ hs => hs.wait job _ nofun nofun rfl

/-- A request is written, or its thread waits for the pipe with the lock, or it is not written. -/
theorem Guarded.write (h : Guarded c (some t) (some .write) out s) (env : Outside) (w : Nat)
    (same : s.OfMethod id job) : Guarded.After c none none out (s.write env t job id w) := by
  unfold State.write
  split
  · next method params =>
    have hsent : Guarded.After c (some t) (some .write) out (s, [.send w { id, method, params }]) :=
      h.aside (List.forall_mem_singleton.mpr trivial) (.refl s)
    split
    · exact hsent.thenDo fun _ hs => hs.written _ _
    · exact hsent.thenDo fun _ hs => hs.wait _ _ (fun _ hg => hg) nofun rfl
    · exact Guarded.thenDo h.release fun _ hs => hs.unwritten w (same method params rfl)
  · exact Guarded.thenDo h.release fun _ hs => hs.finish _

theorem Guarded.pipeOver (h : Guarded c (some t) (some .write) out s) (w : Nat) (how : Resume)
    (same : s.OfMethod id job) : Guarded.After c none none out (s.pipeOver t job id w how) := by
  unfold State.pipeOver
  split
  · exact h.giveUp
  · next method params => exact Guarded.thenDo h.release fun _ hs => hs.unwritten w (same _ _ rfl)
  · exact h.written _ _

/-- A request to the worker in use is given a new number, and written unless others write. -/
theorem Guarded.ask (h : Guarded c (some t) none out s) (env : Outside)
    (knows : ∀ n, env.abandoned n = true → c.turns n = some .givenUp) (job : Job) (method : String)
    (params : List (String × Json)) (hjob : job = .request method params) :
    Guarded.After c none none out (s.ask env t job method params) := by
  unfold State.ask
  split
  · exact h.finish _
  · next w hcurrent =>
    refine Guarded.thenDo (?_ : Guarded.After c (some t) none out _) fun _ hs =>
      hs.acquire env .write knows job (fun _ => rfl)
      (fun _ => rfl) (fun _ => rfl) fun hlocked => hlocked.write env w ?_
    · refine .of_after ?_ (h.kept.register hcurrent t method params rfl rfl rfl)
      rw [Turns.after_of_no_grant _ (by simp)]
      exact h.orderly.calm rfl (fun g => by cases g <;> rfl) rfl (.inr (.inr rfl))
    · intro method' params' hjob' entry hentry
      obtain ⟨rfl, -⟩ := Job.request.inj (hjob.symm.trans hjob')
      have hnew : Assoc.get? (s.nextId + 1)
          (Assoc.set (s.nextId + 1) { method, worker := w } s.pending) = some entry := hentry
      rw [Assoc.get?_set_self] at hnew
      rw [← Option.some.inj hnew]

theorem Guarded.started (h : Guarded c (some t) none out s) (env : Outside)
    (knows : ∀ n, env.abandoned n = true → c.turns n = some .givenUp) (job : Job) :
    Guarded.After c none none out (s.started env t job) := by
  unfold State.started
  split
  · exact h.ask env knows _ _ _ rfl
  · exact h.finish _

/-! ## Starting -/

theorem Guarded.spawnFailed (h : Guarded c (some t) (some .start) out s) (why : SpawnFailure) :
    Guarded.After c none none out (s.spawnFailed t why) := by
  refine Guarded.thenDo (Guarded.thenDo ?_ fun _ hs => hs.release) fun _ hs => hs.finish _
  refine h.aside (fun x hx => ?_) ⟨rfl, rfl, rfl, rfl, rfl, rfl, rfl⟩
  split at hx
  · cases hx
  · rw [List.mem_singleton.mp hx]
    trivial

/-- A worker is put to use while there is none.  The launch may have failed as well, and then there
is still none. -/
theorem Guarded.launched (h : Guarded c (some t) (some .start) out s) (env : Outside)
    (knows : ∀ n, env.abandoned n = true → c.turns n = some .givenUp) (job : Job)
    (idle : s.current = none) (command : List String) (outcome : Launch) :
    Guarded.After c none none out (s.launched env t job command outcome) := by
  cases outcome with
  | notFound | refused => exact h.spawnFailed _
  | started pid =>
    refine Guarded.thenDo
      (Guarded.thenDo (?_ : Guarded.After c (some t) (some .start) out _) fun _ hs =>
      hs.release) fun _ hs => hs.started env knows job
    have hpending := h.kept.idle idle
    refine .of_after ?_ (h.kept.close hpending (fun e he => ?_) (by simp))
    · rw [Turns.after_of_no_grant _ (by simp)]
      exact h.orderly.calm rfl (fun g => by cases g <;> rfl) rfl (.inl rfl)
    · rw [hpending] at he
      cases he

theorem Guarded.spawn (h : Guarded c (some t) (some .start) out s) (env : Outside)
    (knows : ∀ n, env.abandoned n = true → c.turns n = some .givenUp) (job : Job)
    (idle : s.current = none) : Guarded.After c none none out (s.spawn env t job) := by
  unfold State.spawn
  split
  · exact h.spawnFailed _
  · refine Guarded.thenDo (h.aside (List.forall_mem_singleton.mpr trivial) (.refl s)) fun _ hs => ?_
    dsimp only
    split
    · exact hs.wait job _ (fun _ hg => hg) (fun _ => idle) rfl
    · exact hs.launched env knows job idle _ _

theorem Guarded.startLocked (h : Guarded c (some t) (some .start) out s) (env : Outside)
    (knows : ∀ n, env.abandoned n = true → c.turns n = some .givenUp) (job : Job) :
    Guarded.After c none none out (s.startLocked env t job) := by
  unfold State.startLocked
  split
  · exact Guarded.thenDo h.release fun _ hs => hs.started env knows job
  · split
    · next hnone => exact h.spawn env knows job hnone
    · next w hcurrent =>
      have hidle := current_crash hcurrent fun method => .exited (s.exitCode? w) (some method)
      refine Guarded.thenDo (h.crash w fun method => rfl) fun _ hs => ?_
      split
      · exact hs.spawn env knows job hidle
      · refine Guarded.thenDo ?_ fun _ hs => hs.wait job _ (fun _ hg => hg) (fun _ => hidle) rfl
        exact hs.aside (List.forall_mem_singleton.mpr trivial) ⟨rfl, rfl, rfl, rfl, rfl, rfl, rfl⟩

/-! ## Stopping -/

theorem Guarded.stopped (h : Guarded c (some t) (some .start) out s) :
    Guarded.After c none none out (s.stopped t) :=
  Guarded.thenDo h.release fun _ hs => hs.finish _

theorem Guarded.drain (h : Guarded c (some t) (some .start) out s) :
    Guarded.After c none none out (s.drain t) := by
  unfold State.drain
  split
  · exact h.stopped
  · refine Guarded.thenDo ?_ fun _ hs => hs.wait .stop _ (fun _ hg => hg) nofun rfl
    exact h.aside (List.forall_mem_singleton.mpr trivial) ⟨rfl, rfl, rfl, rfl, rfl, rfl, rfl⟩

theorem Guarded.stopLocked (h : Guarded c (some t) (some .start) out s) :
    Guarded.After c none none out (s.stopLocked t) := by
  unfold State.stopLocked
  split
  · exact h.stopped
  · have hgiven : Guarded.After c (some t) (some .start) out (s.detach.rejectPending .stopped) :=
      h.rejectAll [] (List.forall_mem_nil _) fun method => rfl
    refine Guarded.thenDo hgiven fun _ hs => ?_
    split
    · refine Guarded.thenDo ?_ fun _ hs => hs.wait .stop _ (fun _ hg => hg) nofun rfl
      exact hs.aside (List.forall_mem_singleton.mpr trivial) (.refl _)
    · exact hs.drain

/-! ## Threads -/

theorem Guarded.haveLock (h : Guarded c (some t) (some .start) out s) (env : Outside)
    (knows : ∀ n, env.abandoned n = true → c.turns n = some .givenUp) (job : Job) :
    Guarded.After c none none out (s.haveLock env t job) := by
  cases job with
  | stop => exact h.stopLocked
  | request | start => exact h.startLocked env knows _

theorem Guarded.startOrStop (h : Guarded c (some t) none out s) (env : Outside)
    (knows : ∀ n, env.abandoned n = true → c.turns n = some .givenUp) (job : Job) :
    Guarded.After c none none out (s.startOrStop env t job) :=
  h.acquire env .start knows job (fun _ => rfl) (fun _ => rfl) (fun _ => rfl) fun hs =>
    hs.haveLock env knows job

theorem Guarded.begin (h : Guarded c none none out s) (env : Outside)
    (knows : ∀ n, env.abandoned n = true → c.turns n = some .givenUp) (t : Nat) (job : Job) :
    Guarded.After c none none out (s.begin env t job) := by
  have hown : Guarded c (some t) none out s :=
    h.silent (fun ho => ho.begin t) rfl rfl (Nat.le_refl _)
  cases job with
  | start | stop => exact hown.startOrStop env knows _
  | request method params =>
    unfold State.begin
    dsimp only
    split
    · exact hown.ask env knows _ _ _ rfl
    · split
      · exact hown.finish _
      · exact hown.startOrStop env knows _

/-- The number of the request for which a thread waits, be it for its turn, for the pipe or for the
answer. -/
def Stage.request? : Stage → Option Nat
  | .lined id _ _ | .writing id _ | .answering id => some id
  | .queued _ | .reaping | .launching .. | .terminating _ | .killing _ | .draining => none

/-- A thread goes on when its wait is over; one that has its turn finds the lock free. -/
theorem Guarded.resume (h : Guarded c none none out s) (env : Outside)
    (knows : ∀ n, env.abandoned n = true → c.turns n = some .givenUp) (how : Resume)
    (due : (Event.resume t how).Due (c.turns.after out) s)
    (same : ∀ thread id, Assoc.get? t s.threads = some thread → thread.stage.request? = some id →
      s.OfMethod id thread.job) :
    Guarded.After c none none out (s.resume env t how) := by
  unfold State.resume
  split
  · exact h.quiet (.refl s)
  · next thread hthread =>
    have hstage : s.stageOf none t = some thread.stage := by
      rw [stageOf_none, hthread]
      rfl
    -- A thread that goes on has in hand the lock that its stage keeps.
    have hturn : Guarded c (some t) thread.stage.holds out s :=
      h.silent (fun ho => ho.turn hstage) rfl rfl (Nat.le_refl _)
    have hsame := same thread
    have hdue := due thread
    obtain ⟨job, stage⟩ := thread
    dsimp only at hstage hturn hsame hdue ⊢
    cases stage with
    | queued n =>
      exact h.enter how hstage rfl (hdue .start n hthread rfl) fun hs => hs.haveLock env knows job
    | reaping =>
      dsimp only
      split
      · exact hturn.giveUp
      · exact hturn.spawn env knows job (h.orderly.idle t _ hstage rfl)
    | launching command outcome =>
      dsimp only
      split
      · exact hturn.giveUp
      · exact hturn.launched env knows job (h.orderly.idle t _ hstage rfl) command outcome
    | lined id w n =>
      refine h.enter how hstage rfl (hdue .write n hthread rfl) fun hs => hs.write env w ?_
      exact hsame id hthread rfl
    | writing id w => exact hturn.pipeOver w how (hsame id hthread rfl)
    | answering id => exact hturn.finish _
    | terminating w =>
      cases how with
      | cancelled => exact hturn.giveUp
      | timedOut =>
        refine Guarded.thenDo ?_ fun _ hs => hs.wait job _ (fun _ hg => hg) nofun rfl
        refine hturn.aside (fun x hx => ?_) (.refl s)
        rcases List.mem_pair.mp hx with rfl | rfl <;> trivial
      | done | failed => exact hturn.drain
    | killing w =>
      dsimp only
      split
      · exact hturn.giveUp
      · exact hturn.drain
    | draining =>
      dsimp only
      split
      · exact hturn.giveUp
      · exact hturn.stopped

/-! ## Lines -/

theorem Guarded.stdoutLine (h : Guarded c none none out s) (line : String) :
    Guarded.After c none none out (s.stdoutLine line) := by
  unfold State.stdoutLine
  split
  · exact h.quiet (.refl s)
  · next id entry payload hanswered =>
    have hfound := (answered?_eq_some hanswered).2
    refine .of_after ?_
      (h.kept.closeOne hfound ⟨_, closes_answerOf _ payload, .inl (by simp)⟩ rfl rfl rfl rfl)
    rw [Turns.after_of_no_grant _ (by simp)]
    exact h.orderly.calm rfl (fun g => by cases g <;> rfl) rfl (.inr (.inr rfl))

theorem Guarded.stderrLine (h : Guarded c none none out s) (w : Nat) (line : String) :
    Guarded.After c none none out (s.stderrLine w line) := by
  have hremember : ∀ {s : State}, Guarded c none none out s →
    Guarded c none none out (s.remember line) :=
    fun hs =>
      hs.silent (fun ho => ho.calm rfl (fun g => by cases g <;> rfl) rfl (.inr (.inr rfl))) rfl rfl
      (Nat.le_refl _)
  have hnoted : Guarded c none none out
      (if Text.containsLowered "error" line.toList then s.remember line else s) := by
    split
    · exact hremember h
    · exact h
  unfold State.stderrLine
  dsimp only
  generalize (if Text.containsLowered "error" line.toList then s.remember line else s) =
    noted at hnoted ⊢
  split
  · refine Guarded.thenDo ?_ fun _ hs => hs.crash w fun method => trivial
    refine (hremember hnoted).aside (fun x hx => ?_) (.refl _)
    dsimp only at hx
    split at hx
    · rw [List.mem_singleton.mp hx]
      trivial
    · cases hx
  · exact hnoted.quiet (.refl _)

theorem Guarded.exited (h : Guarded c none none out s) (w : Nat) (code : Int) :
    Guarded.After c none none out (s.exited w code, []) := by
  unfold State.exited
  split
  · exact h.quiet (.refl s)
  · exact h.quiet ⟨rfl, rfl, rfl, rfl, rfl, rfl, rfl⟩

/-! ## Steps and courses -/

theorem Guarded.step (h : Guarded c none none [] s) (env : Outside)
    (knows : ∀ n, env.abandoned n = true → c.turns n = some .givenUp) (e : Event)
    (due : e.Due (c.turns.after []) s)
    (same : ∀ t thread id, Assoc.get? t s.threads = some thread → thread.stage.request? = some id →
      s.OfMethod id thread.job) :
    Guarded.After c none none [] (s.step env e) := by
  cases e with
  | begin t job => exact h.begin env knows t job
  | join key t => exact h.quiet ⟨rfl, rfl, rfl, rfl, rfl, rfl, rfl⟩
  | resume t how => exact h.resume env knows how due (same t)
  | forget key t =>
    unfold State.step
    dsimp only
    split
    · exact h.quiet ⟨rfl, rfl, rfl, rfl, rfl, rfl, rfl⟩
    · exact h.quiet (.refl s)
  | stdoutLine w line => exact h.stdoutLine line
  | stderrLine w line => exact h.stderrLine w line
  | stdoutEnded w => exact h.crash w fun method => rfl
  | exited w code => exact h.exited w code

variable {past : List Occurrence} {turns : Turns}

theorem Turns.after_nil (turns : Turns) : turns.after [] = turns :=
  Turns.after_of_no_grant turns nofun

theorem Stage.Fits.asks {stage : Stage} (h : stage.Fits out t job)
    (request : stage.request? = some id) :
    ∃ w, Asks out t job id w := by
  cases stage with
  | lined | writing =>
    obtain rfl := Option.some.inj request
    exact ⟨_, h⟩
  | answering =>
    obtain rfl := Option.some.inj request
    exact h
  | _ => cases request

/-- Who waits for a request that is without an answer asked for its method. -/
theorem ofMethod_of_settled (h : Settled past s) {thread : Thread}
    (hthread : Assoc.get? t s.threads = some thread) (request : thread.stage.request? = some id) :
    s.OfMethod id thread.job := by
  intro method params hjob entry hentry
  have hbooks := h.books
  obtain ⟨w, method', params', hjob', hregister⟩ :=
    (h.threads t thread nofun hthread).2.asks request
  obtain ⟨rfl, rfl⟩ := Job.request.inj (hjob.symm.trans hjob')
  obtain ⟨u, params'', hregister'⟩ := hbooks.registered _ (Assoc.mem_of_get? hentry)
  have hsame := (hbooks.registration hregister' hregister rfl).2.2
  exact (Request.mk.inj hsame).2.1

/-- What holds between two steps of a course.  What was said in the steps before is all in the past,
so nothing has been said yet in this one. -/
theorem guarded_of_course (h : Course past turns s) :
    Guarded { turns, earlier := told past } none none [] s := by
  -- Along the course, each step by the lemma about its event; nothing is known at the start since
  -- nothing has happened.
  induction h with
  | start recentMax =>
    exact
      { orderly :=
          { held := nofun
            inHand := nofun
            single := nofun
            idle := nofun
            queued := nofun
            holder := nofun
            given := fun g n hn => by cases g <;> cases hn
            known := fun n hn => by
              rcases hn with ⟨g, hqueue⟩ | hturn
              · cases g <;> cases hqueue
              · exact absurd (by rw [Turns.after_nil]) hturn
            apart := fun g g' n hn => by cases g <;> cases hn }
        kept :=
          { inUse := nofun
            numbered := nofun
            served := nofun } }
  | @occurs past turns s hcourse env e knows due ih =>
    obtain ⟨horderly, hkept⟩ :=
      ih.step env knows e (by rwa [Turns.after_nil]) fun t thread id hthread =>
      ofMethod_of_settled (settled_of_history hcourse.history) hthread
    constructor
    · rw [Turns.after_nil]
      exact horderly
    · dsimp only
      rw [List.append_nil, told_append]
      exact hkept
  | @givesUp past turns s _ n waits ih =>
    refine ⟨?_, ih.kept⟩
    have horderly := ih.orderly
    rw [Turns.after_nil] at horderly ⊢
    exact horderly.giveUp waits

/-! ## No request is orphaned -/

/-- No request is orphaned: whoever waits for an answer waits for the worker in use or has been
told. -/
structure Attended (past : List Occurrence) (s : State) : Prop where
  /-- Every request without an answer was numbered for the worker in use. -/
  inUse : ∀ e ∈ s.pending, s.current = some e.2.worker ∧
    ∃ t params, .register t e.2.worker { id := e.1, method := e.2.method, params } ∈ told past
  /-- Without a worker there is no such request. -/
  idle : s.current = none → s.pending = []
  /-- Every request that was numbered for a worker no longer in use has been closed. -/
  gone : ∀ t w r, .register t w r ∈ told past → s.current ≠ some w →
    ∃ id : Nat, r.id = (id : Int) ∧ Closed (told past) id r.method
  /-- What was written to a worker is among these requests. -/
  written : ∀ w r, .send w r ∈ told past → ∃ t, .register t w r ∈ told past
  /-- A thread that waits for its turn to write, for the pipe or for an answer waits for a request
  that the worker in use can answer, or that has been closed. -/
  waiting : ∀ t thread id, Assoc.get? t s.threads = some thread → thread.stage.request? = some id →
    id ∈ settledIds (told past) ∨
      ∃ entry, Assoc.get? id s.pending = some entry ∧ s.current = some entry.worker

/-- In whatever order threads begin, go on and give up, lines arrive and workers start, end and are
found gone, no request is orphaned.  Every order is meant: the four ways in which a worker is found
gone, calls that queue for the start lock, and readers that are still to be ended. -/
theorem no_request_is_orphaned (h : Course past turns s) : Attended past s := by
  have hguarded := guarded_of_course h
  have hkept := hguarded.kept
  have hsettled := settled_of_history h.history
  have hbooks := hsettled.books
  dsimp only at hkept hbooks
  rw [List.append_nil] at hkept hbooks
  refine
    { inUse := fun e he => ⟨hkept.inUse e he, hbooks.registered e he⟩
      idle := hkept.idle
      gone := fun t w r hregister hgone => ?_
      written := hbooks.written
      waiting := fun t thread id hthread hstage => ?_ }
  · obtain ⟨id, hid, hserved⟩ := hkept.served t w r hregister
    refine ⟨id, hid, hserved.resolve_left fun hfound => ?_⟩
    exact hgone (hkept.inUse _ (Assoc.mem_of_get? hfound))
  · obtain ⟨w, method, params, -, hregister⟩ :=
      (hsettled.threads t thread nofun hthread).2.asks hstage
    dsimp only at hregister
    rw [List.append_nil] at hregister
    obtain ⟨id', hid, hserved⟩ := hkept.served t w _ hregister
    obtain rfl : id = id' := Int.ofNat.inj hid
    rcases hserved with hfound | hclosed
    · exact .inr ⟨_, hfound, hkept.inUse _ (Assoc.mem_of_get? hfound)⟩
    · exact .inl hclosed.mem_settledIds

/-- A worker has ended without anybody noticing when two more requests begin: the first of them
finds it gone and waits for its readers, the other queues until a new worker is in use.  The old
worker's request is closed, and the new ones wait for the new worker, also when the old one's output
ends at last. -/
theorem unnoticed_end_is_attended :
    ∃ past turns s, Course past turns s ∧ s.pending.map (·.1) = [2, 3] ∧ s.current = some 1 ∧
      settledIds (told past) = [1] ∧ Attended past s := by
  have asked := (Course.start 5).occurs willing (.begin 0 (.request "parse" [])) nofun trivial
  have ended := asked.occurs willing (.exited 0 (-9)) nofun trivial
  have found := ended.occurs willing (.begin 1 (.request "parse" [])) nofun trivial
  have queued := found.occurs willing (.begin 2 (.request "tokenize" [])) nofun trivial
  have reaped := queued.occurs willing (.resume 1 .done) nofun
    fun thread g n hthread ticket => by cases hthread; cases ticket
  have turned := reaped.occurs willing (.resume 2 .done) nofun
    fun thread g n hthread ticket => .inr (by cases hthread; cases ticket; rfl)
  have noticed := turned.occurs willing (.stdoutEnded 0) nofun trivial
  exact ⟨_, _, _, noticed, by decide +kernel, by decide +kernel, by decide +kernel,
    no_request_is_orphaned noticed⟩

end PikeAnalysis.Bridge
