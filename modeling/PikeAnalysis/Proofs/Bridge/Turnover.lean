import PikeAnalysis.Proofs.Bridge.Attended

/-!
# Workers that come and go

A worker that is gone is reported by its error stream, by the end of its output, by whoever stops it
and by whoever finds it gone, in any order and also when its successor is in use already.
`Turnover` says what a step does about the worker in use: it may give that one up, and it may put a
new one to use where there is none.  So the workers that were started are those that have gone and
the one in use, and each of them is counted once, when it goes (`generation_counts_departures`).

A process whose start takes time is not in use and not counted until the start is over.  Whoever
waits for it has the start lock, so there is no worker in use by then that it could replace; and if
he is cancelled before, the process never counts.

The statement is an equation between three numbers: the workers that were started are those that
went and the one in use.  It is kept by every step because a step gives up at most one worker,
counts when it does, and starts one only while there is none (`turnover_step`).  That a worker is
not counted twice, although several parties report its end, is because each of them names the worker
it means and a worker that is no longer in use is left alone (`turnover_crash`).
-/

namespace PikeAnalysis.Bridge

/-- The workers that were put to use.  Readers are started together with the process, once for each
worker. -/
def startedWorkers (out : List Effect) : List Nat :=
  out.filterMap fun
    | .startReaders w => some w
    | _ => none

@[simp] theorem startedWorkers_append (out more : List Effect) :
    startedWorkers (out ++ more) = startedWorkers out ++ startedWorkers more :=
  List.filterMap_append

/-! ## What a step does about the worker in use -/

/-- A step that gives the worker in use up, or not, and puts a new one to use, or not.  If it does
both, the old worker goes before the new one comes. -/
structure Turnover (s : State) (gone new : Bool) (p : State.Step) : Prop where
  had : gone = true → s.current ≠ none
  free : new = true → gone = true ∨ s.current = none
  current : p.1.current =
    if new then some s.workers.length else if gone then none else s.current
  generation : p.1.generation = s.generation + gone.toNat
  spawns : p.1.spawns = s.spawns + new.toNat
  workers : p.1.workers.length = s.workers.length + new.toNat
  started : startedWorkers p.2 = if new then [s.workers.length] else []

/-- A step that leaves the worker in use alone. -/
abbrev Calm (s : State) (p : State.Step) : Prop :=
  Turnover s false false p

variable {s s' : State} {p : State.Step} {f : State → State.Step} {out : List Effect}
  {gone gone' new : Bool} {t : Nat} {job : Job}

theorem calm_of_same (current : s'.current = s.current) (generation : s'.generation = s.generation)
    (spawns : s'.spawns = s.spawns) (workers : s'.workers.length = s.workers.length)
    (started : startedWorkers out = []) : Calm s (s', out) :=
  ⟨nofun, nofun, current, generation, spawns, workers, started⟩

theorem Turnover.refl (s : State) : Turnover s false false (s, []) :=
  calm_of_same rfl rfl rfl rfl rfl

/-- A worker is not given up twice: there is none any more.  What comes after is looked at from the
state that the first leaves. -/
theorem Turnover.thenDo (h : Turnover s gone false p) (next : Turnover p.1 gone' new (f p.1)) :
    Turnover s (gone || gone') new (State.thenDo p f) := by
  have current : p.1.current = if gone then none else s.current := h.current
  have workers : p.1.workers.length = s.workers.length := h.workers
  have spawns : p.1.spawns = s.spawns := h.spawns
  have started : startedWorkers p.2 = [] := h.started
  refine
    { had := fun hgone => ?_
      free := fun hnew => ?_
      current := ?_
      generation := ?_
      spawns := next.spawns.trans (by rw [spawns])
      workers := next.workers.trans (by rw [workers])
      started := ?_ }
  · cases gone with
    | true => exact h.had rfl
    | false => exact fun none => next.had hgone (current.trans none)
  · cases gone with
    | true => exact .inl rfl
    | false => exact (next.free hnew).imp_right fun none => current.symm.trans none
  · refine next.current.trans ?_
    rw [workers, current]
    cases gone <;> simp
  · have generation : (f p.1).1.generation = s.generation + gone.toNat + gone'.toNat := by
      rw [next.generation, h.generation]
    refine generation.trans ?_
    cases gone with
    | false => simp
    | true =>
      -- Without a worker in use there is none to be given up.
      have none : gone' = false := by
        by_contra hgone
        exact next.had (by simpa using hgone) current
      simp [none]
  · change startedWorkers (p.2 ++ (f p.1).2) = _
    rw [startedWorkers_append, started, next.started, workers, List.nil_append]

/-- Where the worker in use has been given up or left alone, a new one may be put to use. -/
theorem Turnover.thenNew (h : Turnover s gone false p)
    (next : ∃ new, Turnover p.1 false new (f p.1)) :
    ∃ new, Turnover s gone new (State.thenDo p f) := by
  obtain ⟨new, step⟩ := next
  refine ⟨new, ?_⟩
  have both := h.thenDo step
  rwa [Bool.or_false] at both

/-- Nothing more is done about the worker in use. -/
theorem Turnover.thenCalm (h : Turnover s gone new p) (next : ∀ u, Calm u (f u)) :
    Turnover s gone new (State.thenDo p f) := by
  have calm := next p.1
  have started : startedWorkers (f p.1).2 = [] := calm.started
  refine
    { h with
      current := calm.current.trans h.current
      generation := calm.generation.trans h.generation
      spawns := calm.spawns.trans h.spawns
      workers := calm.workers.trans h.workers
      started := ?_ }
  change startedWorkers (p.2 ++ (f p.1).2) = _
  rw [startedWorkers_append, started, h.started, List.append_nil]

/-! ## Operations that leave the worker in use alone -/

theorem calm_wait (s : State) (t : Nat) (job : Job) (stage : Stage) (on : Wait) :
    Calm s (s.wait t job stage on) :=
  calm_of_same rfl rfl rfl rfl rfl

theorem calm_finish (s : State) (t : Nat) (outcome : Outcome) : Calm s (s.finish t outcome) :=
  calm_of_same rfl rfl rfl rfl rfl

theorem calm_wakeFirst (s : State) (g : Gate) : Calm s (s.wakeFirst g) := by
  refine calm_of_same rfl rfl rfl rfl (List.filterMap_eq_nil_iff.mpr fun x hx => ?_)
  obtain ⟨n, -, rfl⟩ := List.mem_map.mp hx
  rfl

/-- A change of a lock is none of the workers. -/
theorem Turnover.of_setLock {g : Gate} {l : Lock} (h : Turnover (s.setLock g l) gone new p) :
    Turnover s gone new p := by
  cases g <;> exact ⟨h.had, h.free, h.current, h.generation, h.spawns, h.workers, h.started⟩

theorem calm_release (s : State) (g : Gate) : Calm s (s.release g) :=
  (calm_wakeFirst _ g).of_setLock

theorem calm_rejectPending (s : State) (why : String → BridgeFailure) :
    Calm s (s.rejectPending why) := by
  refine calm_of_same rfl rfl rfl rfl (List.filterMap_eq_nil_iff.mpr fun x hx => ?_)
  obtain ⟨e, -, rfl⟩ := List.mem_map.mp hx
  rfl

/-- A thread that has a lock ends and gives it back. -/
theorem calm_leave (s : State) (g : Gate) (t : Nat) (outcome : Outcome) :
    Calm s (State.thenDo (s.release g) fun s => s.finish t outcome) :=
  (calm_release s g).thenCalm fun u => calm_finish u t outcome

/-- A thread takes a lock, or waits for its turn. -/
theorem turnover_acquire (s : State) (env : Outside) (g : Gate) (t : Nat) (job : Job)
    (stage : Nat → Stage) {go : State → State.Step}
    (next : ∃ gone new, Turnover (s.take g) gone new (go (s.take g))) :
    ∃ gone new, Turnover s gone new (s.acquire env g t job stage go) := by
  unfold State.acquire
  split
  · obtain ⟨gone, new, step⟩ := next
    exact ⟨gone, new, step.of_setLock⟩
  · refine ⟨false, false, ?_⟩
    cases g <;> exact calm_of_same rfl rfl rfl rfl rfl

theorem calm_acquire (s : State) (env : Outside) (g : Gate) (t : Nat) (job : Job)
    (stage : Nat → Stage) {go : State → State.Step} (next : ∀ u, Calm u (go u)) :
    Calm s (s.acquire env g t job stage go) := by
  unfold State.acquire
  split
  · exact (next _).of_setLock
  · cases g <;> exact calm_of_same rfl rfl rfl rfl rfl

theorem calm_giveTurn (s : State) (g : Gate) (n : Nat) :
    Calm s (if ((s.leaveQueue g n).lock g).held then (s.leaveQueue g n, [])
      else (s.leaveQueue g n).wakeFirst g) := by
  split
  · exact (Turnover.refl _).of_setLock
  · exact (calm_wakeFirst _ g).of_setLock

/-- A thread goes on with the lock for which it has waited, or leaves the queue. -/
theorem turnover_enter (s : State) (g : Gate) (t n : Nat) (how : Resume) {go : State → State.Step}
    (next : ∀ u, ∃ gone new, Turnover u gone new (go u)) :
    ∃ gone new, Turnover s gone new (s.enter g t n how go) := by
  unfold State.enter
  dsimp only
  split
  · exact ⟨false, false, (calm_giveTurn s g n).thenCalm fun u => calm_finish u t _⟩
  · obtain ⟨gone, new, step⟩ := next ((s.leaveQueue g n).take g)
    exact ⟨gone, new, Turnover.of_setLock (s := s) step.of_setLock⟩

theorem calm_unwritten (s : State) (t id w : Nat) (method : String) :
    Calm s (s.unwritten t id w method) := by
  unfold State.unwritten
  split
  · exact calm_of_same rfl rfl rfl rfl rfl
  · exact calm_finish s t _

theorem calm_written (s : State) (t : Nat) (job : Job) (id : Nat) : Calm s (s.written t job id) :=
  (calm_release s .write).thenCalm fun u => calm_wait u t job _ _

theorem calm_write (s : State) (env : Outside) (t : Nat) (job : Job) (id w : Nat) :
    Calm s (s.write env t job id w) := by
  unfold State.write
  split
  · split
    · exact Turnover.thenCalm (calm_of_same rfl rfl rfl rfl rfl) fun u => calm_written u t _ id
    · exact Turnover.thenCalm (calm_of_same rfl rfl rfl rfl rfl) fun u => calm_wait u t _ _ _
    · exact (calm_release s .write).thenCalm fun u => calm_unwritten u t id w _
  · exact calm_leave s .write t _

theorem calm_pipeOver (s : State) (t : Nat) (job : Job) (id w : Nat) (how : Resume) :
    Calm s (s.pipeOver t job id w how) := by
  unfold State.pipeOver
  split
  · exact calm_leave s .write t _
  · exact (calm_release s .write).thenCalm fun u => calm_unwritten u t id w _
  · exact calm_written s t _ id

theorem calm_ask (s : State) (env : Outside) (t : Nat) (job : Job) (method : String)
    (params : List (String × Json)) : Calm s (s.ask env t job method params) := by
  unfold State.ask
  split
  · exact calm_finish s t _
  · exact Turnover.thenCalm (calm_of_same rfl rfl rfl rfl rfl) fun u =>
      calm_acquire u env .write t job _ fun v => calm_write v env t job _ _

theorem calm_started (s : State) (env : Outside) (t : Nat) (job : Job) :
    Calm s (s.started env t job) := by
  cases job with
  | request method params => exact calm_ask s env t _ method params
  | start | stop => exact calm_finish s t _

theorem calm_spawnFailed (s : State) (t : Nat) (why : SpawnFailure) :
    Calm s (s.spawnFailed t why) := by
  refine Turnover.thenCalm (Turnover.thenCalm ?_ fun u => calm_release u .start) fun u =>
    calm_finish u t _
  refine calm_of_same rfl rfl rfl rfl ?_
  split <;> rfl

theorem calm_drain (s : State) (t : Nat) : Calm s (s.drain t) := by
  unfold State.drain
  split
  · exact calm_leave s .start t .finished
  · exact Turnover.thenCalm (calm_of_same rfl rfl rfl rfl rfl) fun u => calm_wait u t _ _ _

theorem calm_stdoutLine (s : State) (line : String) : Calm s (s.stdoutLine line) := by
  unfold State.stdoutLine
  split
  · exact .refl s
  · exact calm_of_same rfl rfl rfl rfl rfl

theorem calm_exited (s : State) (w : Nat) (code : Int) : Calm s (s.exited w code, []) := by
  unfold State.exited
  split
  · exact .refl s
  · exact calm_of_same rfl rfl rfl List.length_set rfl

/-! ## Giving up and starting -/

/-- The worker in use is given up. -/
theorem turnover_detach {w : Nat} (before : s.current = some w)
    (started : startedWorkers out = []) :
    Turnover s true false (s.detach, out) :=
  ⟨fun _ => by simp [before], nofun, rfl, rfl, rfl, rfl, started⟩

/-- A worker that is reported gone is given up only if it is the one in use. -/
theorem turnover_crash (s : State) (w : Nat) (why : String → BridgeFailure) :
    Turnover s (decide (s.current = some w)) false (s.crash w why) := by
  unfold State.crash
  split
  · next before =>
    rw [decide_eq_true before]
    exact (turnover_detach before rfl).thenCalm fun u => calm_rejectPending u why
  · next other =>
    rw [decide_eq_false other]
    exact .refl s

/-- A worker is put to use where there is none, unless it could not be started. -/
theorem turnover_launched (before : s.current = none) (env : Outside) (t : Nat) (job : Job)
    (command : List String) (outcome : Launch) :
    ∃ new, Turnover s false new (s.launched env t job command outcome) := by
  cases outcome with
  | notFound | refused => exact ⟨false, calm_spawnFailed s t _⟩
  | started pid =>
    refine ⟨true, Turnover.thenCalm (Turnover.thenCalm ?_ fun u => calm_release u .start) fun u =>
      calm_started u env t job⟩
    exact ⟨nofun, fun _ => .inr before, rfl, rfl, rfl, List.length_append, rfl⟩

/-- A worker is put to use where there is none, unless it cannot be started or that takes time. -/
theorem turnover_spawn (before : s.current = none) (env : Outside) (t : Nat) (job : Job) :
    ∃ new, Turnover s false new (s.spawn env t job) := by
  have launched : Calm s (s, [.launched]) := calm_of_same rfl rfl rfl rfl rfl
  unfold State.spawn
  split
  · exact ⟨false, calm_spawnFailed s t _⟩
  · refine launched.thenNew ?_
    dsimp only
    split
    · exact ⟨false, calm_wait s t job _ _⟩
    · exact turnover_launched before env t job _ _

/-- A worker that has ended without anybody noticing is given up, and its successor put to use. -/
theorem turnover_startLocked (s : State) (env : Outside) (t : Nat) (job : Job) :
    ∃ gone new, Turnover s gone new (s.startLocked env t job) := by
  unfold State.startLocked
  split
  · exact ⟨false, false, (calm_release s .start).thenCalm fun u => calm_started u env t job⟩
  · split
    · next before => exact ⟨false, turnover_spawn before env t job⟩
    · next w before =>
      have crash := turnover_crash s w fun method => .exited (s.exitCode? w) (some method)
      have idle := current_crash before fun method => .exited (s.exitCode? w) (some method)
      refine ⟨_, crash.thenNew ?_⟩
      split
      · exact turnover_spawn idle env t job
      · exact ⟨false, Turnover.thenCalm (calm_of_same rfl rfl rfl rfl rfl) fun u =>
          calm_wait u t job _ _⟩

theorem turnover_stopLocked (s : State) (t : Nat) :
    ∃ gone, Turnover s gone false (s.stopLocked t) := by
  unfold State.stopLocked
  split
  · exact ⟨false, calm_leave s .start t .finished⟩
  · next w before =>
    have detached : Turnover s true false (s.detach, []) := turnover_detach before rfl
    have rejected : Turnover s true false (s.detach.rejectPending .stopped) :=
      detached.thenCalm fun u => calm_rejectPending u .stopped
    refine ⟨true, rejected.thenCalm fun u => ?_⟩
    split
    · exact Turnover.thenCalm (calm_of_same rfl rfl rfl rfl rfl) fun u => calm_wait u t _ _ _
    · exact calm_drain _ t

/-! ## Threads -/

theorem turnover_haveLock (s : State) (env : Outside) (t : Nat) (job : Job) :
    ∃ gone new, Turnover s gone new (s.haveLock env t job) := by
  cases job with
  | stop =>
    obtain ⟨gone, stopped⟩ := turnover_stopLocked s t
    exact ⟨gone, false, stopped⟩
  | request | start => exact turnover_startLocked s env t _

theorem turnover_startOrStop (s : State) (env : Outside) (t : Nat) (job : Job) :
    ∃ gone new, Turnover s gone new (s.startOrStop env t job) :=
  turnover_acquire s env .start t job .queued (turnover_haveLock _ env t job)

theorem turnover_begin (s : State) (env : Outside) (t : Nat) (job : Job) :
    ∃ gone new, Turnover s gone new (s.begin env t job) := by
  cases job with
  | start | stop => exact turnover_startOrStop s env t _
  | request method params =>
    rw [State.begin]
    split
    · exact ⟨false, false, calm_ask s env t _ method params⟩
    · split
      · exact ⟨false, false, calm_finish s t _⟩
      · exact turnover_startOrStop s env t _

/-- While a thread waits for the readers of a worker that is gone, or for a process that is being
started, there is no worker in use, so the one that it starts replaces none. -/
theorem turnover_resume (s : State) (env : Outside) (t : Nat) (how : Resume)
    (idle : ∀ stage, s.stageOf none t = some stage → stage.starts = true → s.current = none) :
    ∃ gone new, Turnover s gone new (s.resume env t how) := by
  unfold State.resume
  split
  · exact ⟨false, false, .refl s⟩
  · next thread hthread =>
    have idle : thread.stage.starts = true → s.current = none :=
      idle thread.stage (by rw [stageOf_none, hthread]; rfl)
    obtain ⟨job, stage⟩ := thread
    dsimp only at idle ⊢
    -- A worker is found gone, or a new one is had, in the three stages of a start alone.
    cases stage with
    | queued n => exact turnover_enter s .start t n how fun u => turnover_haveLock u env t job
    | reaping =>
      dsimp only
      split
      · exact ⟨false, false, calm_leave s .start t _⟩
      · exact ⟨false, turnover_spawn (idle rfl) env t job⟩
    | launching command outcome =>
      dsimp only
      split
      · exact ⟨false, false, calm_leave s .start t _⟩
      · exact ⟨false, turnover_launched (idle rfl) env t job command outcome⟩
    | lined id w n =>
      exact turnover_enter s .write t n how fun u => ⟨false, false, calm_write u env t job id w⟩
    | writing id w => exact ⟨false, false, calm_pipeOver s t job id w how⟩
    | answering id => exact ⟨false, false, calm_finish s t _⟩
    | terminating w =>
      cases how with
      | cancelled => exact ⟨false, false, calm_leave s .start t _⟩
      | timedOut =>
        exact ⟨false, false, Turnover.thenCalm (calm_of_same rfl rfl rfl rfl rfl) fun u =>
          calm_wait u t job _ _⟩
      | done | failed => exact ⟨false, false, calm_drain s t⟩
    | killing w =>
      dsimp only
      split
      · exact ⟨false, false, calm_leave s .start t _⟩
      · exact ⟨false, false, calm_drain s t⟩
    | draining =>
      dsimp only
      split
      · exact ⟨false, false, calm_leave s .start t _⟩
      · exact ⟨false, false, calm_leave s .start t .finished⟩

/-- A line that announces the end of a worker gives it up only if it is the one in use. -/
theorem turnover_stderrLine (s : State) (w : Nat) (line : String) :
    ∃ gone, Turnover s gone false (s.stderrLine w line) := by
  have noted :
      Calm s ((if Text.containsLowered "error" line.toList then s.remember line else s), []) := by
    split
    · exact calm_of_same rfl rfl rfl rfl rfl
    · exact .refl s
  unfold State.stderrLine
  dsimp only
  generalize (if Text.containsLowered "error" line.toList then s.remember line else s) =
    u at noted ⊢
  split
  · have told :
        Calm u (u.remember line, if (u.remember line).isAlive w then [.kill w] else []) := by
      refine calm_of_same rfl rfl rfl rfl ?_
      split <;> rfl
    have crash := told.thenDo (f := fun v => v.crash w fun _ => .fatalOutput line)
      (turnover_crash (u.remember line) w fun _ => .fatalOutput line)
    exact ⟨_, noted.thenDo (f := fun v => _) crash⟩
  · exact ⟨false, noted⟩

/-- Whatever happens to the bridge, at most one worker is given up, and one put to use where there
is none. -/
theorem turnover_step (s : State) (env : Outside) (e : Event)
    (idle : ∀ t stage, s.stageOf none t = some stage → stage.starts = true → s.current = none) :
    ∃ gone new, Turnover s gone new (s.step env e) := by
  cases e with
  | begin t job => exact turnover_begin s env t job
  | join key t => exact ⟨false, false, calm_of_same rfl rfl rfl rfl rfl⟩
  | resume t how => exact turnover_resume s env t how (idle t)
  | forget key t =>
    unfold State.step
    dsimp only
    split
    · exact ⟨false, false, calm_of_same rfl rfl rfl rfl rfl⟩
    · exact ⟨false, false, .refl s⟩
  | stdoutLine w line => exact ⟨false, false, calm_stdoutLine s line⟩
  | stderrLine w line =>
    obtain ⟨gone, told⟩ := turnover_stderrLine s w line
    exact ⟨gone, false, told⟩
  | stdoutEnded w => exact ⟨_, false, turnover_crash s w _⟩
  | exited w code => exact ⟨false, false, calm_exited s w code⟩

/-! ## The books -/

variable {past : List Occurrence} {turns : Turns}

/-- The workers are numbered as they were put to use, and all but the one in use have gone.  The
balance counts every start once, on the side of the workers that have gone or on that of the one in
use; that the newest worker is the one in use is what makes the next number free. -/
structure Booked (past : List Occurrence) (s : State) : Prop where
  started : startedWorkers (told past) = List.range s.workers.length
  spawns : s.spawns = s.workers.length
  balance : s.spawns = s.generation + s.current.toList.length
  newest : ∀ w, s.current = some w → w + 1 = s.workers.length

theorem Booked.turn (h : Booked past s) (step : Turnover s gone new p) (e : Event) :
    Booked (past ++ [⟨e, p.2⟩]) p.1 := by
  have balance := h.balance
  have hgeneration := step.generation
  have hspawns := step.spawns
  refine
    { started := ?_
      spawns := by rw [hspawns, step.workers, h.spawns]
      balance := ?_
      newest := fun w hw => ?_ }
  · rw [told_append, startedWorkers_append, h.started, step.started, step.workers]
    cases new <;> simp [List.range_succ]
  · have current := step.current
    have had := step.had
    have free := step.free
    cases new <;> cases gone <;> cases hbefore : s.current <;>
      simp_all
  · have current := step.current
    rw [hw] at current
    rw [step.workers]
    cases new with
    | true => simpa using current
    | false =>
      cases gone with
      | true => cases current
      | false => exact h.newest w current.symm

theorem booked_of_course (h : Course past turns s) : Booked past s := by
  induction h with
  | start recentMax => exact ⟨rfl, rfl, rfl, nofun⟩
  | @occurs past turns s h env e _ _ ih =>
    obtain ⟨gone, new, step⟩ := turnover_step s env e (guarded_of_course h).orderly.idle
    exact ih.turn step e
  | givesUp _ _ _ ih => exact ih

/-- How the workers that were started, those that have gone and the one in use add up.  The count of
departures is also the generation that callers compare to tell an old answer from a new one. -/
structure Accounted (past : List Occurrence) (s : State) : Prop where
  /-- A worker was put to use for each successful start, and each of them once. -/
  started : startedWorkers (told past) = List.range s.spawns
  /-- Whoever was started has been counted as gone or is in use. -/
  balance : s.spawns = s.generation + if s.current.isSome then 1 else 0
  /-- What was counted are the workers that were started and are not in use. -/
  gone : ((startedWorkers (told past)).filter fun w => s.current ≠ some w).length = s.generation
  /-- The count grows by one with what happens next if the worker in use goes, and else not at
  all. -/
  grows : ∀ env e, (s.step env e).1.generation =
    s.generation + if s.current ≠ none ∧ (s.step env e).1.current ≠ s.current then 1 else 0
  /-- A worker that has gone is never put to use again. -/
  final : ∀ env e, ∀ w < s.spawns, s.current ≠ some w → (s.step env e).1.current ≠ some w

/-- In whatever order threads begin, go on and give up, starts fail and succeed, lines arrive and
workers end and are found gone, each worker that goes is counted once.  It grows by one with each,
and never goes back.  `Accounted` has the balance of starts and departures, the growth in each step,
and that a worker which has gone is never in use again. -/
theorem generation_counts_departures (h : Course past turns s) : Accounted past s := by
  have booked := booked_of_course h
  have idle := (guarded_of_course h).orderly.idle
  have started : startedWorkers (told past) = List.range s.spawns := by
    rw [booked.started, booked.spawns]
  have balance := booked.balance
  refine
    { started
      balance := ?_
      gone := ?_
      grows := fun env e => ?_
      final := fun env e w hw other => ?_ }
  · cases hcurrent : s.current <;> simpa [hcurrent] using balance
  · rw [started]
    cases hcurrent : s.current with
    | none => simpa [hcurrent] using balance
    | some w =>
      -- The worker in use is the newest one, so all before it have gone.
      have newest := booked.newest w hcurrent
      have last : s.spawns = w + 1 := by rw [booked.spawns, newest]
      have kept : (List.range w).filter (fun v => some w ≠ some v) = List.range w := by
        refine List.filter_eq_self.mpr fun v hv => ?_
        have hlt := List.mem_range.mp hv
        simpa using Nat.ne_of_gt hlt
      rw [last, List.range_succ, List.filter_append, kept]
      simp only [hcurrent, Option.toList_some, List.length_singleton] at balance
      simp
      omega
  · obtain ⟨gone, new, step⟩ := turnover_step s env e idle
    have generation := step.generation
    have current := step.current
    have had := step.had
    have free := step.free
    have fresh : some s.workers.length ≠ s.current := fun he => by
      have := booked.newest _ he.symm
      omega
    cases new <;> cases gone <;> cases hbefore : s.current <;> simp_all
  · obtain ⟨gone, new, step⟩ := turnover_step s env e idle
    rw [step.current]
    have fresh : s.workers.length ≠ w := by
      rw [← booked.spawns]
      exact Nat.ne_of_gt hw
    cases new with
    | true => simpa using fresh
    | false =>
      cases gone with
      | true => simp
      | false => exact other

/-- A worker announces its end, and then its output ends and it is found to have exited, while a
request has put a second one to use and that one is stopped: two workers were started, both have
gone, and each is counted once. -/
theorem departures_of_two_workers :
    ∃ past turns s, Course past turns s ∧ s.spawns = 2 ∧ s.generation = 2 ∧ s.current = none ∧
      Accounted past s := by
  have asked := (Course.start 5).occurs willing (.begin 0 (.request "parse" [])) nofun trivial
  have fatal := asked.occurs willing (.stderrLine 0 "Fatal error") nofun trivial
  have again := fatal.occurs willing (.begin 1 (.request "parse" [])) nofun trivial
  have exited := again.occurs willing (.exited 0 (-9)) nofun trivial
  have ended := exited.occurs willing (.stdoutEnded 0) nofun trivial
  have stopped := ended.occurs willing (.begin 2 .stop) nofun trivial
  have late := stopped.occurs willing (.stderrLine 1 "Fatal error") nofun trivial
  have gone := late.occurs willing (.stdoutEnded 1) nofun trivial
  exact ⟨_, _, _, gone, by decide +kernel, by decide +kernel, by decide +kernel,
    generation_counts_departures gone⟩

end PikeAnalysis.Bridge
