import PikeAnalysis.Proofs.Bridge.Attended

/-!
# Spawn failures latch

A worker that could not be started is recorded, and a request that begins while this is so fails
with what is recorded and starts nothing.  The record is read before a request queues for the lock
and not again after, so a request that was in the queue when the attempt failed tries once more when
its turn comes (`waiting_request_tries_again`).  Nobody else does but an explicit start: until one
of these goes on, no attempt is made (`spawn_failure_latches`).

An attempt that takes time is made when the process is told to start, and its outcome may put a
worker to use later.  So an attempt of an explicit start can be under way while the record stands,
and that it goes on counts as trying again; a request's attempt cannot, for a request that begins
looks at the record first.

The record is one field, but that it stands says little by itself: what is claimed is that nothing
is tried while it stands.  So the proof follows everybody who could still try.  `Dormant` says that
while the record stands no thread is on its way to a start, those in the queue aside, and `Latched`
that from some state on those in the queue are the same ones, or fewer.  A step that is none of the
retries keeps both (`Latched.step`).

The last part shows that the exception is real: a request that was in the queue tries again, and
`queued_request_tries_again` is a course in which one does.
-/

namespace PikeAnalysis.Bridge

variable {past more : List Occurrence} {turns : Turns} {s s' : State} {p : State.Step}
  {f : State → State.Step} {t : Nat} {why : SpawnFailure}

/-- A thread waits for the readers of a worker that is gone, to start a new one. -/
def State.Reaps (s : State) (t : Nat) : Prop :=
  s.stageOf none t = some .reaping

theorem reaps_of_threads (threads : s'.threads = s.threads) {u : Nat} (h : s'.Reaps u) :
    s.Reaps u := by
  rwa [State.Reaps, stageOf_of_threads threads] at h

theorem reaps_of_erase (threads : s'.threads = Assoc.erase t s.threads) {u : Nat} (h : s'.Reaps u) :
    u ≠ t ∧ s.Reaps u :=
  stageOf_none_of_stageOf_some ((stageOf_of_erase threads u).symm.trans h)

theorem reaps_of_set {job : Job} {stage : Stage}
    (threads : s'.threads = Assoc.set t { job, stage } s.threads)
    (other : stage ≠ .reaping) {u : Nat} (h : s'.Reaps u) : s.Reaps u := by
  rw [State.Reaps, stageOf_of_set threads] at h
  split at h
  · exact absurd (Option.some.inj h) other
  · exact (stageOf_none_of_stageOf_some h).2

/-! ## What a step does about the record -/

/-- A change that leaves the record alone, puts no worker to use, and after which no further thread
waits to start one. -/
structure Mild (s s' : State) : Prop where
  spawnError : s'.spawnError = s.spawnError
  current : s'.current = s.current ∨ s'.current = none
  reaps : ∀ u, s'.Reaps u → s.Reaps u

theorem Mild.of_same (spawnError : s'.spawnError = s.spawnError) (current : s'.current = s.current)
    (threads : s'.threads = s.threads) : Mild s s' :=
  ⟨spawnError, .inl current, fun _ => reaps_of_threads threads⟩

theorem Mild.refl (s : State) : Mild s s :=
  .of_same rfl rfl rfl

theorem Mild.trans {s'' : State} (h : Mild s s') (next : Mild s' s'') : Mild s s'' where
  spawnError := next.spawnError.trans h.spawnError
  current := by
    rcases next.current with same | idle
    · exact h.current.imp same.trans same.trans
    · exact .inr idle
  reaps u hu := h.reaps u (next.reaps u hu)

theorem Mild.thenDo (h : Mild s p.1) (next : ∀ u, Mild u (f u).1) : Mild s (State.thenDo p f).1 :=
  h.trans (next p.1)

theorem mild_finish (s : State) (t : Nat) (outcome : Outcome) : Mild s (s.finish t outcome).1 :=
  ⟨rfl, .inl rfl, fun _ hu => (reaps_of_erase rfl hu).2⟩

theorem mild_wait (s : State) (t : Nat) (job : Job) {stage : Stage} (on : Wait)
    (other : stage ≠ .reaping) :
    Mild s (s.wait t job stage on).1 :=
  ⟨rfl, .inl rfl, fun _ => reaps_of_set rfl other⟩

theorem mild_setLock (s : State) (g : Gate) (l : Lock) : Mild s (s.setLock g l) := by
  cases g <;> exact .of_same rfl rfl rfl

theorem mild_release (s : State) (g : Gate) : Mild s (s.release g).1 :=
  mild_setLock s g _

/-- A thread that has a lock ends and gives it back. -/
theorem mild_leave (s : State) (g : Gate) (t : Nat) (outcome : Outcome) :
    Mild s (State.thenDo (s.release g) fun s => s.finish t outcome).1 :=
  (mild_release s g).thenDo fun u => mild_finish u t outcome

theorem mild_draw (s : State) (g : Gate) : Mild s (s.draw g) := by
  cases g <;> exact .of_same rfl rfl rfl

/-- A thread takes a lock and does something mild, or waits for its turn. -/
theorem mild_acquire (s : State) (env : Outside) (g : Gate) (t : Nat) (job : Job)
    {stage : Nat → Stage}
    (other : ∀ n, stage n ≠ .reaping) {go : State → State.Step} (next : ∀ u, Mild u (go u).1) :
    Mild s (s.acquire env g t job stage go).1 := by
  unfold State.acquire
  split
  · exact (mild_setLock s g _).trans (next _)
  · exact (mild_draw s g).trans (mild_wait _ t job _ (other _))

/-- A thread leaves the queue and gives up, or does something mild with the lock. -/
theorem mild_enter (s : State) (g : Gate) (t n : Nat) (how : Resume) {go : State → State.Step}
    (next : how ≠ .cancelled → Mild s (go ((s.leaveQueue g n).take g)).1) :
    Mild s (s.enter g t n how go).1 := by
  unfold State.enter
  dsimp only
  split
  · refine Mild.thenDo ?_ fun u => mild_finish u t _
    split <;> exact mild_setLock s g _
  · next goes => exact next goes

theorem mild_detach (s : State) : Mild s s.detach :=
  ⟨rfl, .inr rfl, fun _ => reaps_of_threads rfl⟩

theorem mild_rejectPending (s : State) (why : String → BridgeFailure) :
    Mild s (s.rejectPending why).1 :=
  .of_same rfl rfl rfl

theorem mild_crash (s : State) (w : Nat) (why : String → BridgeFailure) :
    Mild s (s.crash w why).1 := by
  unfold State.crash
  split
  · exact Mild.thenDo (p := (s.detach, _)) (mild_detach s) fun u => mild_rejectPending u why
  · exact .refl s

theorem mild_unwritten (s : State) (t id w : Nat) (method : String) :
    Mild s (s.unwritten t id w method).1 := by
  unfold State.unwritten
  split
  · have erased : Mild s { s with pending := Assoc.erase id s.pending } := .of_same rfl rfl rfl
    exact erased.trans (mild_finish _ t _)
  · exact mild_finish s t _

theorem mild_written (s : State) (t : Nat) (job : Job) (id : Nat) : Mild s (s.written t job id).1 :=
  (mild_release s .write).thenDo fun u => mild_wait u t job _ nofun

theorem mild_write (s : State) (env : Outside) (t : Nat) (job : Job) (id w : Nat) :
    Mild s (s.write env t job id w).1 := by
  unfold State.write
  split
  · split
    · exact Mild.thenDo (.of_same rfl rfl rfl) fun u => mild_written u t _ id
    · exact Mild.thenDo (.of_same rfl rfl rfl) fun u => mild_wait u t _ _ nofun
    · exact (mild_release s .write).thenDo fun u => mild_unwritten u t id w _
  · exact mild_leave s .write t _

theorem mild_pipeOver (s : State) (t : Nat) (job : Job) (id w : Nat) (how : Resume) :
    Mild s (s.pipeOver t job id w how).1 := by
  unfold State.pipeOver
  split
  · exact mild_leave s .write t _
  · exact (mild_release s .write).thenDo fun u => mild_unwritten u t id w _
  · exact mild_written s t _ id

theorem mild_ask (s : State) (env : Outside) (t : Nat) (job : Job) (method : String)
    (params : List (String × Json)) : Mild s (s.ask env t job method params).1 := by
  unfold State.ask
  split
  · exact mild_finish s t _
  · exact Mild.thenDo (.of_same rfl rfl rfl) fun u =>
      mild_acquire u env .write t job (fun _ => by nofun) fun v => mild_write v env t job _ _

theorem mild_started (s : State) (env : Outside) (t : Nat) (job : Job) :
    Mild s (s.started env t job).1 := by
  cases job with
  | request method params => exact mild_ask s env t _ method params
  | start | stop => exact mild_finish s t _

theorem mild_drain (s : State) (t : Nat) : Mild s (s.drain t).1 := by
  unfold State.drain
  split
  · exact mild_leave s .start t .finished
  · exact Mild.thenDo (.of_same rfl rfl rfl) fun u => mild_wait u t _ _ nofun

theorem mild_stopLocked (s : State) (t : Nat) : Mild s (s.stopLocked t).1 := by
  unfold State.stopLocked
  split
  · exact mild_leave s .start t .finished
  · refine Mild.thenDo ((mild_detach s).trans (mild_rejectPending _ _)) fun u => ?_
    split
    · exact Mild.thenDo (.of_same rfl rfl rfl) fun u => mild_wait u t _ _ nofun
    · exact mild_drain u t

theorem mild_stdoutLine (s : State) (line : String) : Mild s (s.stdoutLine line).1 := by
  unfold State.stdoutLine
  split
  · exact .refl s
  · exact .of_same rfl rfl rfl

theorem mild_stderrLine (s : State) (w : Nat) (line : String) : Mild s (s.stderrLine w line).1 := by
  have noted :
      Mild s (if Text.containsLowered "error" line.toList then s.remember line else s) := by
    split
    · exact .of_same rfl rfl rfl
    · exact .refl s
  unfold State.stderrLine
  dsimp only
  generalize (if Text.containsLowered "error" line.toList then s.remember line else s) =
    u at noted ⊢
  split
  · have remembered : Mild u (u.remember line) := .of_same rfl rfl rfl
    exact Mild.thenDo (noted.trans remembered) fun v => mild_crash v w _
  · exact noted

theorem mild_exited (s : State) (w : Nat) (code : Int) : Mild s (s.exited w code) := by
  unfold State.exited
  split
  · exact .refl s
  · exact .of_same rfl rfl rfl

/-- What a step of a thread does about the record.  Nothing, or that a worker could not be started,
or that one could and the record is wiped. -/
inductive Records (s : State) (t : Nat) (s' : State) : Prop
  /-- Nothing, and a thread that then waits to start a worker has given one up. -/
  | keeps (spawnError : s'.spawnError = s.spawnError)
    (current : s'.current = s.current ∨ s'.current = none)
      (reaps : ∀ u, s'.Reaps u → s.Reaps u ∨ s.current ≠ none)
  /-- It records that no worker can be started, and the thread has ended. -/
  | records (idle : s'.current = none) (reaps : ∀ u, s'.Reaps u → u ≠ t ∧ s.Reaps u)
  /-- A worker was started. -/
  | clears (spawnError : s'.spawnError = none)

theorem Mild.keeps (h : Mild s s') (t : Nat) : Records s t s' :=
  .keeps h.spawnError h.current fun u hu => .inl (h.reaps u hu)

theorem Records.after {s₁ : State} (h : Records s₁ t s') (before : Mild s s₁) : Records s t s' := by
  have had (some : s₁.current ≠ none) : s.current ≠ none := by
    rcases before.current with same | idle
    · rwa [same] at some
    · exact absurd idle some
  cases h with
  | keeps record now reaps =>
    refine .keeps (record.trans before.spawnError) ?_ fun u hu =>
      (reaps u hu).imp (before.reaps u) had
    rcases now with same | idle
    · exact before.current.imp same.trans same.trans
    · exact .inr idle
  | records idle reaps => exact .records idle fun u hu => (reaps u hu).imp_right (before.reaps u)
  | clears cleared => exact .clears cleared

theorem records_spawnFailed (idle : s.current = none) (t : Nat) (why : SpawnFailure) :
    Records s t (s.spawnFailed t why).1 :=
  .records idle fun _ hu => reaps_of_erase rfl hu

theorem records_launched (idle : s.current = none) (env : Outside) (t : Nat) (job : Job)
    (command : List String) (outcome : Launch) :
    Records s t (s.launched env t job command outcome).1 := by
  cases outcome with
  | notFound | refused => exact records_spawnFailed idle t _
  | started pid => exact .clears (mild_started _ env t job).spawnError

theorem records_spawn (idle : s.current = none) (env : Outside) (t : Nat) (job : Job) :
    Records s t (s.spawn env t job).1 := by
  unfold State.spawn
  split
  · exact records_spawnFailed idle t _
  · dsimp only [State.thenDo]
    split
    · exact (mild_wait s t job _ (by nofun)).keeps t
    · exact records_launched idle env t job _ _

theorem records_startLocked (s : State) (env : Outside) (t : Nat) (job : Job) :
    Records s t (s.startLocked env t job).1 := by
  unfold State.startLocked
  split
  · exact ((mild_release s .start).thenDo fun u => mild_started u env t job).keeps t
  · split
    · next idle => exact records_spawn idle env t job
    · next w before =>
      have crash := mild_crash s w fun method => .exited (s.exitCode? w) (some method)
      have idle := current_crash before fun method => .exited (s.exitCode? w) (some method)
      dsimp only [State.thenDo]
      split
      · exact (records_spawn idle env t job).after crash
      · exact .keeps crash.spawnError crash.current fun u hu => .inr (by simp [before])

theorem records_haveLock (s : State) (env : Outside) (t : Nat) (job : Job) :
    Records s t (s.haveLock env t job).1 := by
  cases job with
  | stop => exact (mild_stopLocked s t).keeps t
  | request | start => exact records_startLocked s env t _

/-! ## The record along a course -/

/-- While it is recorded that no worker can be started, none is in use, and no thread waits to start
one. -/
structure Dormant (s : State) : Prop where
  idle : s.spawnError ≠ none → s.current = none
  unreaped : s.spawnError ≠ none → ∀ u, ¬ s.Reaps u

theorem Dormant.mild (h : Dormant s) (step : Mild s s') : Dormant s' where
  idle recorded := step.current.elim (·.trans (h.idle (step.spawnError ▸ recorded))) id
  unreaped recorded u hu := h.unreaped (step.spawnError ▸ recorded) u (step.reaps u hu)

/-- The thread that finds that no worker can be started is the only one that could wait to start
one. -/
theorem Dormant.records (h : Dormant s) (step : Records s t s') (alone : ∀ u, s.Reaps u → u = t) :
    Dormant s' := by
  cases step with
  | keeps spawnError current reaps =>
    refine ⟨fun recorded => ?_, fun recorded u hu => ?_⟩ <;> rw [spawnError] at recorded
    · exact current.elim (·.trans (h.idle recorded)) id
    · exact (reaps u hu).elim (h.unreaped recorded u) fun had => had (h.idle recorded)
  | records idle reaps =>
    exact ⟨fun _ => idle, fun _ u hu => (reaps u hu).1 (alone u (reaps u hu).2)⟩
  | clears cleared =>
    exact ⟨fun recorded => absurd cleared recorded, fun recorded => absurd cleared recorded⟩

/-- The start lock is taken while nobody has it, so nobody waits to start a worker. -/
theorem Dormant.haveLock (h : Dormant s) (orderly : Orderly turns none none s)
    (free : s.startLock.held = false) (env : Outside) (t : Nat) (job : Job) {u : State}
    (mild : Mild s u) : Dormant (u.haveLock env t job).1 := by
  refine h.records ((records_haveLock u env t job).after mild) fun v hv => ?_
  exact absurd rfl (orderly.not_holds (g := .start) (.inr free) hv)

theorem Dormant.startOrStop (h : Dormant s) (orderly : Orderly turns none none s) (env : Outside)
    (t : Nat) (job : Job) : Dormant (s.startOrStop env t job).1 := by
  unfold State.startOrStop State.acquire
  split
  · next free =>
    have unlocked : (s.lock .start).held = false := by simpa using (Bool.and_eq_true_iff.mp free).1
    exact h.haveLock orderly unlocked env t job (mild_setLock s .start _)
  · exact h.mild ((mild_draw s .start).trans (mild_wait _ t job _ nofun))

theorem Dormant.begin (h : Dormant s) (orderly : Orderly turns none none s)
    (env : Outside) (t : Nat) (job : Job) : Dormant (s.begin env t job).1 := by
  cases job with
  | start | stop => exact h.startOrStop orderly env t _
  | request method params =>
    rw [State.begin]
    split
    · exact h.mild (mild_ask s env t _ method params)
    · split
      · exact h.mild (mild_finish s t _)
      · exact h.startOrStop orderly env t _

theorem Dormant.resume (h : Dormant s) (orderly : Orderly turns none none s)
    (env : Outside) (how : Resume)
    (due : (Event.resume t how).Due turns s) : Dormant (s.resume env t how).1 := by
  unfold State.resume
  split
  · exact h
  · next thread hthread =>
    have hstage : s.stageOf none t = some thread.stage := by
      rw [stageOf_none, hthread]
      rfl
    have hdue := due thread
    obtain ⟨job, stage⟩ := thread
    dsimp only at hstage hdue ⊢
    -- who has the start lock is the only one that could wait to start a worker
    have alone (holds : stage.holds = some .start) (u : Nat) (hu : s.Reaps u) : u = t :=
      orderly.single u t _ _ .start hu hstage rfl holds
    cases stage with
    | queued n =>
      dsimp only
      unfold State.enter
      dsimp only
      split
      · refine h.mild (Mild.thenDo ?_ fun u => mild_finish u t _)
        split <;> exact mild_setLock s .start _
      · next goes =>
        have given := (hdue .start n hthread rfl).resolve_left goes
        have unlocked := (orderly.given .start n (orderly.queued t _ .start n hstage rfl) given).1
        exact h.haveLock orderly unlocked env t job
          ((mild_setLock s .start _).trans (mild_setLock _ .start _))
    | reaping =>
      dsimp only
      split
      · exact h.mild (mild_leave s .start t _)
      · exact h.records (records_spawn (orderly.idle t _ hstage rfl) env t job) (alone rfl)
    | launching command outcome =>
      dsimp only
      split
      · exact h.mild (mild_leave s .start t _)
      · exact h.records (records_launched (orderly.idle t _ hstage rfl) env t job command outcome)
          (alone rfl)
    | lined id w n =>
      refine h.mild (mild_enter s .write t n how fun _ => ?_)
      exact ((mild_setLock s .write _).trans (mild_setLock _ .write _)).trans
        (mild_write _ env t job id w)
    | writing id w => exact h.mild (mild_pipeOver s t job id w how)
    | answering id => exact h.mild (mild_finish s t _)
    | terminating w =>
      cases how with
      | cancelled => exact h.mild (mild_leave s .start t _)
      | timedOut =>
        exact h.mild
          (Mild.thenDo (.of_same rfl rfl rfl) fun u => mild_wait u t job _ fun h => by cases h)
      | done | failed => exact h.mild (mild_drain s t)
    | killing w =>
      dsimp only
      split
      · exact h.mild (mild_leave s .start t _)
      · exact h.mild (mild_drain s t)
    | draining =>
      dsimp only
      split
      · exact h.mild (mild_leave s .start t _)
      · exact h.mild (mild_leave s .start t _)

theorem Dormant.step (h : Dormant s) (orderly : Orderly turns none none s)
    (env : Outside) (e : Event) (due : e.Due turns s) : Dormant (s.step env e).1 := by
  cases e with
  | begin t job => exact h.begin orderly env t job
  | join key t => exact h.mild (.of_same rfl rfl rfl)
  | resume t how => exact h.resume orderly env how due
  | forget key t =>
    unfold State.step
    dsimp only
    split
    · exact h.mild (.of_same rfl rfl rfl)
    · exact h
  | stdoutLine w line => exact h.mild (mild_stdoutLine s line)
  | stderrLine w line => exact h.mild (mild_stderrLine s w line)
  | stdoutEnded w => exact h.mild (mild_crash s w _)
  | exited w code => exact h.mild (mild_exited s w code)

theorem dormant_of_course (h : Course past turns s) : Dormant s := by
  induction h with
  | start recentMax => exact ⟨nofun, nofun⟩
  | occurs h env e _ due ih =>
    have orderly := (guarded_of_course h).orderly
    rw [Turns.after_nil] at orderly
    exact ih.step orderly env e due
  | givesUp _ _ _ ih => exact ih

/-! ## While it is recorded that no worker can be started -/

/-- What can happen from a state on.  It is a history that begins where another one has ended, with
the same freedom: every event is possible at every point. -/
inductive Onward (s : State) : List Occurrence → State → Prop
  | refl : Onward s [] s
  | occurs {more : List Occurrence} {s' : State} (h : Onward s more s')
    (env : Outside) (e : Event) :
    Onward s (more ++ [⟨e, (s'.step env e).2⟩]) (s'.step env e).1

/-- An explicit start begins, or somebody goes on who already queued to start a worker, or whose
attempt was under way. -/
def Event.Retries (s : State) : Event → Prop
  | .begin _ .start => True
  | .resume t how => how ≠ .cancelled ∧
    ((∃ job n, job ≠ .stop ∧ Assoc.get? t s.threads = some { job, stage := .queued n }) ∨
      ∃ job command outcome,
        Assoc.get? t s.threads = some { job, stage := .launching command outcome })
  | _ => False

/-- The record stands, there is no worker, and whoever will start one queued for that at first, or
had begun to.  Whoever is in the queue to start a worker was there in the first state with the same
ticket. -/
structure Latched (first : State) (why : SpawnFailure) (s : State) : Prop where
  recorded : s.spawnError = some why
  idle : s.current = none
  unreaped : ∀ t job, Assoc.get? t s.threads ≠ some { job, stage := .reaping }
  queued : ∀ t job n, Assoc.get? t s.threads = some { job, stage := .queued n } → job ≠ .stop →
    Assoc.get? t first.threads = some { job, stage := .queued n }
  launching : ∀ t job command outcome,
    Assoc.get? t s.threads = some { job, stage := .launching command outcome } →
    Assoc.get? t first.threads = some { job, stage := .launching command outcome }

variable {first : State} {out : List Effect}

theorem Dormant.latched (h : Dormant s) (recorded : s.spawnError = some why) : Latched s why s where
  recorded := recorded
  idle := h.idle (by simp [recorded])
  unreaped t job hthread := h.unreaped (by simp [recorded]) t
    (by rw [State.Reaps, stageOf_none, hthread]; rfl)
  queued _ _ _ hthread _ := hthread
  launching _ _ _ _ hthread := hthread

/-- A step that leaves the record alone and starts nothing.  The operations of a step are shown to
be such steps one by one, and a step that does not retry is put together from them. -/
structure Latched.Keeps (first : State) (why : SpawnFailure) (p : State.Step) : Prop where
  latched : Latched first why p.1
  unlaunched : .launched ∉ p.2

theorem Latched.keeps (h : Latched first why s) : Latched.Keeps first why (s, []) :=
  ⟨h, List.not_mem_nil⟩

theorem Latched.Keeps.thenDo (h : Latched.Keeps first why p)
    (next : ∀ u, Latched first why u → Latched.Keeps first why (f u)) :
    Latched.Keeps first why (State.thenDo p f) where
  latched := (next p.1 h.latched).latched
  unlaunched hmem := (List.mem_append.mp hmem).elim h.unlaunched (next p.1 h.latched).unlaunched

/-- A change by which no thread comes to wait for its turn or for readers. -/
theorem Latched.aside (h : Latched first why s) (spawnError : s'.spawnError = s.spawnError)
    (current : s'.current = s.current) (threads : s'.threads = s.threads) :
    Latched first why s' where
  recorded := spawnError.trans h.recorded
  idle := current.trans h.idle
  unreaped := by rw [threads]; exact h.unreaped
  queued := by rw [threads]; exact h.queued
  launching := by rw [threads]; exact h.launching

theorem Latched.tells (h : Latched first why s) (spawnError : s'.spawnError = s.spawnError)
    (current : s'.current = s.current) (threads : s'.threads = s.threads)
    (unlaunched : .launched ∉ out) :
    Latched.Keeps first why (s', out) :=
  ⟨h.aside spawnError current threads, unlaunched⟩

theorem Latched.finish (h : Latched first why s) (t : Nat) (outcome : Outcome) :
    Latched.Keeps first why (s.finish t outcome) where
  latched :=
    { h with
      unreaped := fun u job hu => h.unreaped u job (Assoc.of_get?_erase hu).2
      queued := fun u job n hu => h.queued u job n (Assoc.of_get?_erase hu).2
      launching := fun u job command outcome hu =>
        h.launching u job command outcome (Assoc.of_get?_erase hu).2 }
  unlaunched := by simp [State.finish]

theorem Latched.wait (h : Latched first why s) (t : Nat) (job : Job) (stage : Stage) (on : Wait)
    (unreaped : stage.starts = false) (queued : ∀ n, stage = .queued n → job = .stop) :
    Latched.Keeps first why (s.wait t job stage on) where
  latched :=
    { h with
      unreaped := fun u job' hu => by
        dsimp only [State.wait] at hu
        rw [Assoc.get?_set] at hu
        split at hu
        · obtain ⟨-, rfl⟩ := Thread.mk.inj (Option.some.inj hu)
          cases unreaped
        · exact h.unreaped u job' hu
      queued := fun u job' n hu other => by
        dsimp only [State.wait] at hu
        rw [Assoc.get?_set] at hu
        split at hu
        · obtain ⟨rfl, same⟩ := Thread.mk.inj (Option.some.inj hu)
          exact absurd (queued n same) other
        · exact h.queued u job' n hu other
      launching := fun u job' command outcome hu => by
        dsimp only [State.wait] at hu
        rw [Assoc.get?_set] at hu
        split at hu
        · obtain ⟨-, rfl⟩ := Thread.mk.inj (Option.some.inj hu)
          cases unreaped
        · exact h.launching u job' command outcome hu }
  unlaunched := by simp [State.wait]

theorem Latched.setLock (h : Latched first why s) (g : Gate) (l : Lock) :
    Latched first why (s.setLock g l) := by
  cases g <;> exact h.aside rfl rfl rfl

theorem Latched.wakeFirst (h : Latched first why s) (g : Gate) :
    Latched.Keeps first why (s.wakeFirst g) := by
  refine h.tells rfl rfl rfl fun hmem => ?_
  obtain ⟨n, -, hn⟩ := List.mem_map.mp hmem
  cases hn

theorem Latched.release (h : Latched first why s) (g : Gate) :
    Latched.Keeps first why (s.release g) :=
  (h.setLock g _).wakeFirst g

theorem Latched.leave (h : Latched first why s) (g : Gate) (t : Nat) (outcome : Outcome) :
    Latched.Keeps first why (State.thenDo (s.release g) fun s => s.finish t outcome) :=
  (h.release g).thenDo fun _ hs => hs.finish t outcome

/-- A thread leaves the queue and gives up, or goes on with the lock. -/
theorem Latched.enter (h : Latched first why s) (g : Gate) (t n : Nat) (how : Resume)
    {go : State → State.Step}
    (next : how ≠ .cancelled → ∀ u, Latched first why u → Latched.Keeps first why (go u)) :
    Latched.Keeps first why (s.enter g t n how go) := by
  have left : Latched first why (s.leaveQueue g n) := h.setLock g _
  unfold State.enter
  dsimp only
  split
  · refine Latched.Keeps.thenDo ?_ fun _ hs => hs.finish t _
    split
    · exact left.keeps
    · exact left.wakeFirst g
  · next goes => exact next goes _ (left.setLock g _)

/-! Requests that were numbered before the worker went may still be written, or found not to be. -/

theorem Latched.unwritten (h : Latched first why s) (t id w : Nat) (method : String) :
    Latched.Keeps first why (s.unwritten t id w method) := by
  unfold State.unwritten
  split
  · have erased : Latched first why { s with pending := Assoc.erase id s.pending } :=
      h.aside rfl rfl rfl
    exact erased.finish t _
  · exact h.finish t _

theorem Latched.written (h : Latched first why s) (t : Nat) (job : Job) (id : Nat) :
    Latched.Keeps first why (s.written t job id) :=
  (h.release .write).thenDo fun _ hs => hs.wait t job _ _ rfl nofun

theorem Latched.write (h : Latched first why s) (env : Outside) (t : Nat) (job : Job) (id w : Nat) :
    Latched.Keeps first why (s.write env t job id w) := by
  unfold State.write
  split
  · next method params =>
    have sent : Latched.Keeps first why (s, [.send w { id, method, params }]) :=
      h.tells rfl rfl rfl (by simp)
    split
    · exact sent.thenDo fun _ hs => hs.written t _ id
    · exact sent.thenDo fun _ hs => hs.wait t _ _ _ rfl nofun
    · exact (h.release .write).thenDo fun _ hs => hs.unwritten t id w method
  · exact h.leave .write t _

theorem Latched.pipeOver (h : Latched first why s) (t : Nat) (job : Job)
    (id w : Nat) (how : Resume) :
    Latched.Keeps first why (s.pipeOver t job id w how) := by
  unfold State.pipeOver
  split
  · exact h.leave .write t _
  · exact (h.release .write).thenDo fun _ hs => hs.unwritten t id w _
  · exact h.written t _ id

theorem Latched.drain (h : Latched first why s) (t : Nat) :
    Latched.Keeps first why (s.drain t) := by
  unfold State.drain
  split
  · exact h.leave .start t .finished
  · next r _ =>
    have told : Latched.Keeps first why ({ s with readers := none }, [.stopReaders r]) :=
      h.tells rfl rfl rfl (by simp)
    exact told.thenDo fun _ hs => hs.wait t _ _ _ rfl nofun

/-- There is no worker that could be given up. -/
theorem Latched.crash (h : Latched first why s) (w : Nat) (reason : String → BridgeFailure) :
    Latched.Keeps first why (s.crash w reason) := by
  have other : s.current ≠ some w := by simp [h.idle]
  rw [State.crash, if_neg other]
  exact h.keeps

/-- A stop finds no worker. -/
theorem Latched.stopLocked (h : Latched first why s) (t : Nat) :
    Latched.Keeps first why (s.stopLocked t) := by
  rw [State.stopLocked, h.idle]
  exact h.leave .start t .finished

theorem Latched.startOrStop (h : Latched first why s) (env : Outside) (t : Nat) :
    Latched.Keeps first why (s.startOrStop env t .stop) := by
  unfold State.startOrStop State.acquire
  split
  · exact Latched.stopLocked (h.setLock .start _) t
  · have queued : Latched first why (s.draw .start) := h.aside rfl rfl rfl
    exact queued.wait t _ _ _ rfl fun _ _ => rfl

/-- A request fails at once with what is recorded. -/
theorem Latched.request (h : Latched first why s) (env : Outside) (t : Nat) (method : String)
    (params : List (String × Json)) :
    s.begin env t (.request method params) = s.finish t (.failed (.spawn why)) := by
  have stopped : s.isRunning = false := by simp [State.isRunning, h.idle]
  simp [State.begin, stopped, h.recorded]

theorem Latched.resume (h : Latched first why s) (env : Outside) (t : Nat) (how : Resume)
    (waits : ¬ (Event.resume t how).Retries first) :
    Latched.Keeps first why (s.resume env t how) := by
  unfold State.resume
  split
  · exact h.keeps
  · next thread hthread =>
    obtain ⟨job, stage⟩ := thread
    cases stage with
    | queued n =>
      refine h.enter .start t n how fun goes u hu => ?_
      -- One that queued to start a worker would try it again.  Only a stop may go on here.
      have stop : job = .stop := by
        by_contra other
        exact waits ⟨goes, .inl ⟨job, n, other, h.queued t job n hthread other⟩⟩
      rw [stop]
      exact hu.stopLocked t
    | reaping => exact absurd hthread (h.unreaped t job)
    | launching command outcome =>
      dsimp only
      split
      · exact h.leave .start t _
      · next goes =>
        exact absurd
          ⟨goes, .inr ⟨job, command, outcome, h.launching t job command outcome hthread⟩⟩ waits
    | lined id w n => exact h.enter .write t n how fun _ u hu => hu.write env t job id w
    | writing id w => exact h.pipeOver t job id w how
    | answering id => exact h.finish t _
    | terminating w =>
      cases how with
      | cancelled => exact h.leave .start t _
      | timedOut =>
        have told :
            Latched.Keeps first why (s, [.log ⟨.warning, "worker_kill_after_grace"⟩, .kill w]) :=
          h.tells rfl rfl rfl (by simp)
        exact told.thenDo fun _ hs => hs.wait t job _ _ rfl nofun
      | done | failed => exact h.drain t
    | killing w =>
      dsimp only
      split
      · exact h.leave .start t _
      · exact h.drain t
    | draining =>
      dsimp only
      split
      · exact h.leave .start t _
      · exact h.leave .start t _

theorem Latched.stderrLine (h : Latched first why s) (w : Nat) (line : String) :
    Latched.Keeps first why (s.stderrLine w line) := by
  have noted : Latched first why
      (if Text.containsLowered "error" line.toList then s.remember line else s) := by
    split
    · exact h.aside rfl rfl rfl
    · exact h
  unfold State.stderrLine
  dsimp only
  generalize (if Text.containsLowered "error" line.toList then s.remember line else s) =
    u at noted ⊢
  split
  · refine Latched.Keeps.thenDo (noted.tells rfl rfl rfl ?_) fun _ hs => hs.crash w _
    split <;> simp
  · exact noted.keeps

/-- Whatever happens but an explicit start, and the turn of somebody who queued to start a
worker. -/
theorem Latched.step (h : Latched first why s) (env : Outside) (e : Event)
    (other : ¬ e.Retries first) :
    Latched.Keeps first why (s.step env e) := by
  cases e with
  | begin t job =>
    cases job with
    | request method params =>
      -- The failure is on record, so a request ends with it at once.
      rw [State.step, h.request]
      exact h.finish t _
    | start => exact absurd trivial other
    | stop => exact h.startOrStop env t
  | join key t => exact h.tells rfl rfl rfl List.not_mem_nil
  | resume t how => exact h.resume env t how other
  | forget key t =>
    unfold State.step
    dsimp only
    split
    · exact h.tells rfl rfl rfl List.not_mem_nil
    · exact h.keeps
  | stdoutLine w line =>
    unfold State.step State.stdoutLine
    dsimp only
    split
    · exact h.keeps
    · exact h.tells rfl rfl rfl (by simp)
  | stderrLine w line => exact h.stderrLine w line
  | stdoutEnded w => exact h.crash w _
  | exited w code =>
    refine Latched.keeps (s := s.exited w code) ?_
    unfold State.exited
    split
    · exact h
    · exact h.aside rfl rfl rfl

/-- What is so from when it was recorded that no worker can be started until somebody tries again.
The record is as it was, so every caller is told of the same failure. -/
structure Refusing (why : SpawnFailure) (more : List Occurrence) (s' : State) : Prop where
  recorded : s'.spawnError = some why
  unavailable : s'.isAvailable = false
  /-- No process was to be started. -/
  unlaunched : .launched ∉ told more
  /-- Every request failed at once with what is recorded. -/
  refused : ∀ o ∈ more, ∀ t method params, o.event = .begin t (.request method params) →
    o.effects = [.ends t (.failed (.spawn why))]

/-- Once it is recorded that no worker can be started, none is tried again, whatever happens, until
an explicit start begins or somebody goes on who queued for the lock before.  Whoever is in the
queue when the record is made does not look at it again: he begins an attempt of his own when the
lock is free, and that may succeed, so `others` leaves such turns out. -/
theorem spawn_failure_latches (h : Course past turns s) (recorded : s.spawnError = some why)
    (onward : Onward s more s') (others : ∀ o ∈ more, ¬ o.event.Retries s) :
    Refusing why more s' := by
  have kept : Latched s why s' ∧ .launched ∉ told more ∧
      ∀ o ∈ more, ∀ t method params, o.event = .begin t (.request method params) →
        o.effects = [.ends t (.failed (.spawn why))] := by
    -- Along what happens after the record was made, none of which is a retry.
    induction onward with
    | refl => exact ⟨(dormant_of_course h).latched recorded, List.not_mem_nil, nofun⟩
    | @occurs more s' _ env e ih =>
      obtain ⟨latched, unlaunched, refused⟩ := ih fun o ho => others o (List.mem_append_left _ ho)
      have step := latched.step env e (others ⟨e, (s'.step env e).2⟩ (by simp))
      refine ⟨step.latched, fun hmem => ?_, fun o ho t method params begins => ?_⟩
      · rw [told_append] at hmem
        exact (List.mem_append.mp hmem).elim unlaunched step.unlaunched
      · rcases List.mem_append.mp ho with earlier | last
        · exact refused o earlier t method params begins
        · rw [List.mem_singleton.mp last] at begins ⊢
          dsimp only at begins ⊢
          rw [begins, State.step, latched.request]
          rfl
  obtain ⟨latched, unlaunched, refused⟩ := kept
  have unavailable : s'.isAvailable = false := by
    simp [State.isAvailable, State.isRunning, latched.idle, latched.recorded]
  exact ⟨latched.recorded, unavailable, unlaunched, refused⟩

/-- The outside has no worker to start.  Looking for the executable succeeds, and starting it does
not. -/
def unable : Outside :=
  { willing with launch := .notFound }

/-- A request finds that there is no worker to start; the next one, a stop and one more request try
nothing, although by then a worker could be started. -/
theorem missing_worker_latches :
    ∃ past turns s more s', Course past turns s ∧ s.spawnError = some (.executableMissing "pike") ∧
      Onward s more s' ∧ more.length = 3 ∧ Refusing (.executableMissing "pike") more s' := by
  have failed := (Course.start 5).occurs unable (.begin 0 (.request "parse" [])) nofun trivial
  have recorded : (State.step unable {} (.begin 0 (.request "parse" []))).1.spawnError =
      some (.executableMissing "pike") := by decide +kernel
  have refused :=
    Onward.refl.occurs (s := (State.step unable {} (.begin 0 (.request "parse" []))).1) willing
    (.begin 1 (.request "parse" []))
  have stopped := refused.occurs willing (.begin 2 .stop)
  have again := stopped.occurs willing (.begin 3 (.request "tokenize" []))
  refine ⟨_, _, _, _, _, failed, recorded, again, rfl, ?_⟩
  exact spawn_failure_latches failed recorded again (by simp [Event.Retries])

/-- A request that queued for the lock does not look at the record again: with its turn it tries to
start another worker. -/
theorem waiting_request_tries_again (h : Course past turns s) (recorded : s.spawnError = some why)
    {method : String} {params : List (String × Json)} {n : Nat}
    (queued : Assoc.get? t s.threads = some { job := .request method params, stage := .queued n })
    {env : Outside} {command : List String} (runnable : env.command = .ok command) :
    .launched ∈ (s.step env (.resume t .done)).2 := by
  have idle : s.current = none := (dormant_of_course h).idle (by simp [recorded])
  have idle' : ((s.leaveQueue .start n).take .start).current = none := idle
  simp only [State.step, State.resume, queued, State.enter, reduceCtorEq, if_false, State.haveLock,
    State.startLocked, State.isRunning, idle', Option.any_none, Bool.false_eq_true,
      State.spawn, runnable]
  exact List.mem_append_left _ (List.mem_singleton.mpr rfl)

/-- A worker has ended without anybody noticing when two requests begin.  The first of them fails to
start another one, which is recorded, and the second tries once more. -/
theorem queued_request_tries_again :
    ∃ past turns s t, Course past turns s ∧ s.spawnError = some (.executableMissing "pike") ∧
      (Event.resume t .done).Due turns s ∧ .launched ∈ (s.step willing (.resume t .done)).2 := by
  have asked := (Course.start 5).occurs willing (.begin 0 (.request "parse" [])) nofun trivial
  have ended := asked.occurs willing (.exited 0 (-9)) nofun trivial
  have found := ended.occurs willing (.begin 1 (.request "parse" [])) nofun trivial
  have queued := found.occurs willing (.begin 2 (.request "tokenize" [])) nofun trivial
  have failed := queued.occurs unable (.resume 1 .done) nofun
    fun thread g n hthread ticket => by cases hthread; cases ticket
  have recorded := Eq.refl (some (SpawnFailure.executableMissing "pike"))
  exact ⟨_, _, _, 2, failed, recorded,
    fun thread g n hthread ticket => .inr (by cases hthread; cases ticket; rfl),
    waiting_request_tries_again failed recorded rfl rfl⟩

end PikeAnalysis.Bridge
