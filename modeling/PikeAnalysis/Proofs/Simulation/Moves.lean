import PikeAnalysis.Proofs.Simulation.Tracks

/-!
# Moves

The task of a timer sleeps and then tells that the timer has fired; the task of a run takes down
that its validation begins, sleeps if that takes time, takes down the end and tells of it.  So
whatever is ready in a rehearsal is done by moving the track of one document, as `Next` says, or
none (`Holds.turn`).  Each time there is less left to do, so no more than so many things are done
until time has to pass.

There is one lemma for each turn that a task of a rehearsal can have: the task of a timer begins,
wakes or gives up; that of a run begins a validation that takes time, or one that takes none, or
goes on after it.  What the routine does in such a turn is computed first (`runRoutine_timer`,
`runRoutine_run_of_some`), so that the lemmas about tracks need not open it.

A turn of a task is about one document, and in the middle of it that document is in between: its
task is as good as over and what follows has not been begun.  `Holds` has a parameter for this, and
`Holds.during`, `Holds.moves` and `Holds.finish` take a document into that state and out of it
again.
-/

namespace PikeAnalysis.Simulation.Scheduling

open PikeAnalysis.Concurrency
open PikeAnalysis.Scheduler (Doc Effect Event Inv Setting Shows Does Elsewhere Run Sequel)
open Function (update)

/-! ## What tasks do in their turns -/

section

variable {choice : Choice} {s : State} {x r id : Nat} {run : Run} {d : Duration}

theorem runRoutine_timerRest (x id : Nat) (s : State) :
    Machine.runRoutine (timerRest x id (.value ())) s =
      (Scheduler.tell (stopped id s) (.fired x), .ended (.value ())) := rfl

theorem runRoutine_timerRest_of_cancelled (x id : Nat) (s : State) :
    Machine.runRoutine (timerRest x id .cancelled) s = (stopped id s, .ended (.value ())) := rfl

theorem runRoutine_runRest (b : Behaviour) (r : Nat) (run : Run) (id : Nat) (s : State) :
    Machine.runRoutine (runRest b r run id (.value ())) s =
      (validated b r run (stopped id s), .ended (.value ())) := rfl

theorem runRoutine_wait {signal : Signal} (h : s.loop.ending? signal = none)
    (k : Rest State Unit Unit Job) :
    Machine.runRoutine (.wait signal k) s = (s, .waits signal k) := by
  have unraised : (HasLoop.loop s).ending? signal = none := h
  rw [Machine.runRoutine, unraised]

/-- The task of a timer goes to sleep. -/
theorem runRoutine_timer (fresh : s.loop.ending? (.ticket s.loop.nextTicket) = none) (x : Nat) :
    Machine.runRoutine (bodyBy choice (.timer x)) s =
      ({ s with loop := lying s.loop (Duration.milliseconds s.machine.debounce) },
        .waits (.ticket s.loop.nextTicket) (timerRest x s.loop.nextTimer)) := by
  have sleeps : Machine.runRoutine (bodyBy choice (.timer x)) s =
      Machine.runRoutine (.wait (.ticket s.loop.nextTicket) (timerRest x s.loop.nextTimer))
        { s with loop := lying s.loop (Duration.milliseconds s.machine.debounce) } := by
    have body : bodyBy choice (.timer x) = .get fun s =>
        (Routine.sleep (Duration.milliseconds s.machine.debounce) : Act Unit).onEnd
          (timerEnd x) := by
      change Routine.get _ = _
      congr 1
      funext s
      change Routine.onEnd _ _ = _
      congr 1
      funext ending
      cases ending <;> rfl
    rw [body]
    rfl
  rw [sleeps]
  exact runRoutine_wait (s := { s with loop := lying s.loop _ }) fresh _

theorem runRoutine_read {α : Type} (f : State → α) (k : α → Act Unit) (s : State) :
    Machine.runRoutine ((Routine.read f : Act α) >>= k) s = Machine.runRoutine (k (f s)) s := rfl

theorem bodyBy_run (found : Assoc.get? r s.machine.runs = some run) :
    Machine.runRoutine (bodyBy choice (.run r)) s =
      Machine.runRoutine ((perform run (behaves choice run s)).always fun s =>
        Scheduler.forgetTimers (Scheduler.tell s (.ended r))) (started choice run s) := by
  change Machine.runRoutine (Scheduler.runBody (validateBy choice) r) s = _
  rw [Scheduler.runBody, runRoutine_read, show Assoc.get? r (Scheduler.machineIn s).runs =
    some run from found]
  rfl

/-- The task of a run begins its validation, and sleeps if that takes time. -/
theorem runRoutine_run_of_some (found : Assoc.get? r s.machine.runs = some run)
    (length : (behaves choice run s).length = some d)
    (fresh : s.loop.ending? (.ticket s.loop.nextTicket) = none) :
    Machine.runRoutine (bodyBy choice (.run r)) s =
      ({ started choice run s with loop := lying s.loop d },
        .waits (.ticket s.loop.nextTicket)
          (runRest (behaves choice run s) r run s.loop.nextTimer)) := by
  have sleeps : Machine.runRoutine ((perform run (behaves choice run s)).always fun s =>
        Scheduler.forgetTimers (Scheduler.tell s (.ended r))) (started choice run s) =
      Machine.runRoutine
        (.wait (.ticket s.loop.nextTicket) (runRest (behaves choice run s) r run s.loop.nextTimer))
        { started choice run s with loop := lying s.loop d } := by
    rw [perform, length]
    rfl
  rw [bodyBy_run found, sleeps]
  exact runRoutine_wait (s := { started choice run s with loop := lying s.loop d }) fresh _

/-- A validation that takes no time ends in the turn in which it begins. -/
theorem runRoutine_run_of_none (found : Assoc.get? r s.machine.runs = some run)
    (length : (behaves choice run s).length = none) :
    Machine.runRoutine (bodyBy choice (.run r)) s =
      (validated (behaves choice run s) r run (started choice run s), .ended (.value ())) := by
  rw [bodyBy_run found, perform, length]
  rfl

variable {m : Rehearsal} {t : Nat} {routine : Act Unit} {s' : State}

/-- A routine ends, and the task with it. -/
theorem proceed_of_ended (choice : Choice) {e : Ending Unit Unit}
    (run : Machine.runRoutine routine (Machine.turnOf t m.state) = (s', .ended e)) :
    ∃ e', m.proceed (rulesBy choice) t routine =
      ⟨{ s' with loop := s'.loop.finish t e' }, m.suspended⟩ := by
  obtain ⟨e', concluded⟩ := Loop.conclude_eq_finish s'.loop t e
  refine ⟨e', ?_⟩
  rw [Machine.proceed_eq _ m t routine run, ← concluded]
  rfl

/-- A routine waits, and the task with it. -/
theorem proceed_of_waits {signal : Signal} {rest : Rest State Unit Unit Job}
    (run : Machine.runRoutine routine (Machine.turnOf t m.state) = (s', .waits signal rest)) :
    m.proceed (rulesBy choice) t routine =
      ⟨{ s' with loop := Machine.suspend s'.loop t signal }, (t, rest) :: m.suspended⟩ := by
  rw [Machine.proceed_eq _ m t routine run]
  rfl

theorem proceed_timer (fresh : m.state.loop.ending? (.ticket m.state.loop.nextTicket) = none) :
    m.proceed (rulesBy choice) t (bodyBy choice (.timer x)) =
      ⟨{ m.state with
        loop := napping m.state.loop t (Duration.milliseconds m.state.machine.debounce) },
        (t, timerRest x m.state.loop.nextTimer) :: m.suspended⟩ :=
  proceed_of_waits (runRoutine_timer (s := Machine.turnOf t m.state) fresh x)

theorem proceed_run_of_some (found : Assoc.get? r m.state.machine.runs = some run)
    (length : (behaves choice run m.state).length = some d)
    (fresh : m.state.loop.ending? (.ticket m.state.loop.nextTicket) = none) :
    m.proceed (rulesBy choice) t (bodyBy choice (.run r)) =
      ⟨{ started choice run m.state with loop := napping m.state.loop t d },
        (t, runRest (behaves choice run m.state) r run m.state.loop.nextTimer) :: m.suspended⟩ :=
  proceed_of_waits (runRoutine_run_of_some (s := Machine.turnOf t m.state) found length fresh)

theorem proceed_run_of_none (choice : Choice) (found : Assoc.get? r m.state.machine.runs = some run)
    (length : (behaves choice run m.state).length = none) :
    ∃ e s',
      s' = validated (behaves choice run m.state) r run
        (started choice run (Machine.turnOf t m.state)) ∧
      m.proceed (rulesBy choice) t (bodyBy choice (.run r)) =
        ⟨{ s' with loop := s'.loop.finish t e }, m.suspended⟩ := by
  obtain ⟨e, proceed⟩ := proceed_of_ended (m := m) choice
    (runRoutine_run_of_none (s := Machine.turnOf t m.state) found length)
  exact ⟨e, _, rfl, proceed⟩

end

variable {choice : Choice} {quiet : Duration} {but : Option String}
  {items items' : List (Ready Nat)}
  {s s' : State} {rests rests' : Rests} {A A' : Agenda} {B B' : Stages} {D : String → Doc Nat}
  {T : String → Track} {uri other : String} {d : Doc Nat} {errand : Errand} {t : Nat} {l : Tasks}
  {version : Int} {text : String} {subject : Int × String} {sequel : Sequel} {x r : Nat} {run : Run}

/-! ## Ends of sleeps -/

/-- What is to be done when a timer fires or a run ends is done. -/
theorem Holds.moves {e : Event} (h : Holds quiet (some uri) items s rests A D T)
    (allowed : e.Allowed anyhow s.machine)
    (does : Does s.machine uri d d.begun (s.machine.step e)) :
    ∃ A' new, Holds quiet none (items ++ new) (Scheduler.tell s e) rests A' (update D uri d)
        (update T uri ⟨anew quiet s.loop.now d, s.marksOf uri⟩) ∧
      Adds s (Scheduler.tell s e) new ∧ weigh new = 4 * d.begun.length ∧
        ∀ t, A t ≠ none → A' t = A t := by
  have decided := h.decide allowed does (fun _ _ => rfl) (h.marks uri) (fun hb => absurd rfl hb)
    fun _ _ hb => absurd rfl hb
  obtain ⟨A', new, holds, adds, weighs, kept⟩ := decided.begun
  rw [Function.update_self] at holds adds weighs
  have told : Scheduler.tell s e = d.begun.foldl Scheduler.carryOut (Scheduling.decided s e) := by
    change (s.machine.step e).2.foldl Scheduler.carryOut (Scheduling.decided s e) = _
    rw [does.effects]
  rw [told]
  exact ⟨A', new, holds, ⟨adds.ready, adds.timers, adds.now⟩, weighs, kept⟩

/-- A timer fires. -/
theorem Holds.fires (h : Holds quiet (some uri) items s rests A D T)
    (hd : D uri = .waiting version text x) :
    ∃ A' new d, Holds quiet none (items ++ new) (Scheduler.tell s (.fired x)) rests A'
      (update D uri d)
        (update T uri ⟨.begin version text .ahead, s.marksOf uri⟩) ∧
      Adds s (Scheduler.tell s (.fired x)) new ∧ weigh new + 4 * d.credit ≤ 4 ∧
      ∀ t, A t ≠ none → A' t = A t := by
  have shows := h.shows uri
  rw [hd] at shows
  obtain ⟨A', new, holds, adds, weighs, kept⟩ :=
    h.moves (e := .fired x) trivial (Scheduler.does_fired h.inv.tidy shows)
  exact ⟨A', new, _, holds, adds, Nat.le_of_eq weighs, kept⟩

theorem anew_ended (quiet : Duration) (now : Instant) (x r r' : Nat) (stage : Stage) :
    anew quiet now ((Doc.running version text subject sequel r').ended x r) =
      (Doc.running version text subject sequel stage).ended (.until (now.after quiet)) .ahead := by
  cases sequel <;> rfl

theorem outlay_ended (x r r' : Nat) :
    ((Doc.running version text subject sequel r').ended x r).begun.length +
        ((Doc.running version text subject sequel r').ended x r).credit ≤
      (Doc.running version text subject sequel r').credit := by
  cases sequel <;> exact Nat.le_of_ble_eq_true rfl

/-- A run ends. -/
theorem Holds.ends (h : Holds quiet (some uri) items s rests A D T) (stage : Stage)
    (hd : D uri = .running version text subject sequel r) :
    ∃ A' new d, Holds quiet none (items ++ new) (Scheduler.tell s (.ended r)) rests A'
      (update D uri d)
        (update T uri ⟨(Doc.running version text subject sequel stage).ended
          (.until (s.loop.now.after quiet)) .ahead, s.marksOf uri⟩) ∧
      Adds s (Scheduler.tell s (.ended r)) new ∧ weigh new + 4 * d.credit ≤ 4 * (D uri).credit ∧
      ∀ t, A t ≠ none → A' t = A t := by
  have shows := h.shows uri
  rw [hd] at shows
  obtain ⟨A', new, holds, adds, weighs, kept⟩ := h.moves (e := .ended r) (fun _ _ => trivial)
    (Scheduler.does_ended h.inv.tidy h.nobody shows)
  rw [anew_ended quiet s.loop.now _ _ _ stage] at holds
  refine ⟨A', new, _, holds, adds, ?_, kept⟩
  have outlay : ((Doc.running version text subject sequel r).ended s.machine.nextTimer
      s.machine.nextRun).begun.length + _ ≤ _ := outlay_ended ..
  rw [weighs, hd]
  omega

/-! ## Books of tasks -/

/-- The numbers of tasks are of account only where documents have tasks. -/
theorem Holds.retask (h : Holds quiet but items s rests A D T) (machine : s'.machine = s.machine)
    (happenings : s'.happenings = s.happenings) (loop : s'.loop = s.loop)
    (task : ∀ uri, taskFor? s' (D uri) = taskFor? s (D uri)) :
    Holds quiet but items s' rests A D T := by
  have purpose {uri : String} {errand : Errand} {d : Doc Nat} (hfor : For s uri errand d) :
      For s' uri errand d := hfor.congr fun _ _ hr _ => by rwa [machine]
  exact
    { inv := machine ▸ h.inv
      nobody := machine ▸ h.nobody
      debounce := machine ▸ h.debounce
      shows := fun uri => machine ▸ h.shows uri
      agrees := by
        rw [loop]
        exact h.agrees.mono fun r hr => by rwa [State.Over, machine]
      tied := fun uri hb => by
        rw [loop]
        exact (h.tied uri hb).congr (task uri) (fun _ => purpose) fun _ _ => rfl
      owned := fun t errand stage hB => by
        rw [loop] at hB
        obtain ⟨uri, hb, htask, hfor⟩ := h.owned t errand stage hB
        exact ⟨uri, hb, (task uri).trans htask, purpose hfor⟩
      marks := fun uri => by
        rw [State.marksOf, happenings]
        exact h.marks uri }

/-- The tasks of timers that are over are forgotten. -/
theorem Holds.forget (h : Holds quiet but items s rests A D T) :
    Holds quiet but items (Scheduler.forgetTimers s) rests A D T := by
  refine h.retask rfl rfl rfl fun uri => ?_
  have shows := h.shows uri
  cases hd : D uri with
  | waiting version text x =>
    rw [hd] at shows
    obtain ⟨slot, found⟩ := shows.found_timer h.inv.tidy
    have kept : Assoc.has x s.machine.timers = true := by rw [Assoc.has, found]; rfl
    exact (Assoc.get?_filter (fun id => Assoc.has id s.machine.timers) x
      s.scheduler.timerTasks).trans
      (if_pos kept)
  | absent | resting | running => rfl

/-- The hook of a run that is over forgets its task.  The loop is not touched by it. -/
theorem Holds.hook (h : Holds quiet but items s rests A D T) (past : s.Over r) :
    Holds quiet but items (Scheduler.afterRunTask r s) rests A D T ∧
      (Scheduler.afterRunTask r s).loop = s.loop := by
  have machine : (s.machine.step (.dropped r)).1 = s.machine := by
    change ({ s.machine with runs := Assoc.erase r s.machine.runs } : Scheduler.State) = _
    rw [Assoc.erase_of_get?_eq_none past.2]
  refine ⟨h.retask machine rfl rfl fun uri => ?_, rfl⟩
  have shows := h.shows uri
  cases hd : D uri with
  | running version text subject sequel r' =>
    rw [hd] at shows
    obtain ⟨run, found, -⟩ := shows.found_run h.inv.tidy
    refine Assoc.get?_erase_of_ne ?_ _
    rintro rfl
    rw [past.2] at found
    cases found
  | absent | resting | waiting => rfl

/-! ## Ends of tasks -/

/-- A task ends whose document has been decided on. -/
theorem Holds.finish {marked : Bool} (h : Holds quiet none items s rests A D T)
    (hA : A t = some (errand, .acting marked))
    (past : ∀ r subject, errand = .run r subject → s.Over r) (e : Ending Unit Unit) :
    Holds quiet none (items ++ errand.left t) { s with loop := s.loop.finish t e } rests
        (update A t none) D T ∧
      Adds s { s with loop := s.loop.finish t e } (errand.left t) := by
  obtain ⟨agrees, ready⟩ := h.agrees.finish hA past e
  have now : (s.loop.finish t e).now = s.loop.now := Loop.now_raise ..
  refine ⟨h.alter _ rfl agrees ?_ (fun _ => rfl) h.marks, ready, Loop.timers_raise .., now⟩
  change Agenda.stages quiet (s.loop.finish t e).now _ = _
  rw [now, stages_update]
  refine Function.update_eq_self_iff.mpr ?_
  rw [stages_of quiet s.loop.now hA]
  rfl

/-! ## Turns -/

/-- How much is still to be done at most without any time passing, but for what documents begin. -/
def backlog (items : List (Ready Nat)) (l : Tasks) : Nat :=
  weigh items + 3 * l.timers.elements.card

/-- What doing one thing that is ready comes to: one document has moved on as `Next` says, or none
has.  How much is left to do is part of it, so that what is done within an instant can be
bounded. -/
structure Turned (choice : Choice) (quiet : Duration) (queue : List (Ready Nat)) (m : Rehearsal)
    (i : Ready Nat) (m' : Rehearsal) (D : String → Doc Nat) (T : String → Track)
    (A' : Agenda) (uri : String) (d : Doc Nat) (k : Track) : Prop where
  holds : Holds quiet none (queue ++ m'.state.loop.ready) m'.state m'.suspended A' (update D uri d)
    (update T uri k)
  now : m'.state.loop.now = m.state.loop.now
  moves : k = T uri ∨ Next (lengthsBy choice uri) quiet m.state.loop.now (T uri) k
  less : backlog (queue ++ m'.state.loop.ready) m'.state.loop + 4 * d.credit <
    backlog (i :: (queue ++ m.state.loop.ready)) m.state.loop + 4 * (D uri).credit

variable {queue new : List (Ready Nat)} {m m' : Rehearsal} {i : Ready Nat} {id : Nat}

/-- One document has moved on. -/
theorem turned_of_next {k : Track} (h : Holds quiet none (queue ++ m'.state.loop.ready) m'.state
    m'.suspended A' (update D uri d) (update T uri k)) (now : m'.state.loop.now = m.state.loop.now)
    (next : Next (lengthsBy choice uri) quiet m.state.loop.now (T uri) k)
    (less : backlog (queue ++ m'.state.loop.ready) m'.state.loop + 4 * d.credit <
      backlog (i :: (queue ++ m.state.loop.ready)) m.state.loop + 4 * (D uri).credit) :
    ∃ A' uri d k, Turned choice quiet queue m i m' D T A' uri d k :=
  ⟨A', uri, d, k, h, now, .inr next, less⟩

/-- One document has moved on and has begun what is to be done next. -/
theorem turned_of_moved {k : Track}
    (h : Holds quiet none (queue ++ m.state.loop.ready ++ new) m'.state
    m'.suspended A' (update D uri d) (update T uri k)) (adds : Adds m.state m'.state new)
    (next : Next (lengthsBy choice uri) quiet m.state.loop.now (T uri) k)
    (less : weigh new + 4 * d.credit < weight i + 4 * (D uri).credit) :
    ∃ A' uri d k, Turned choice quiet queue m i m' D T A' uri d k := by
  rw [List.append_assoc, ← adds.ready] at h
  refine turned_of_next h adds.now next ?_
  rw [backlog, backlog, adds.ready, adds.timers, ← List.append_assoc, weigh_append, weigh_cons]
  omega

/-- No document has moved on. -/
theorem turned_of_still
    (h : Holds quiet none (queue ++ m'.state.loop.ready) m'.state m'.suspended A' D T)
    (now : m'.state.loop.now = m.state.loop.now)
    (less : backlog (queue ++ m'.state.loop.ready) m'.state.loop <
      backlog (i :: (queue ++ m.state.loop.ready)) m.state.loop) :
    ∃ A' uri d k, Turned choice quiet queue m i m' D T A' uri d k := by
  refine ⟨A', "", D "", T "", ?_, now, .inl rfl, Nat.add_lt_add_right less _⟩
  rw [Function.update_eq_self, Function.update_eq_self]
  exact h

theorem turned_of_adds
    (h : Holds quiet none (queue ++ m.state.loop.ready ++ new) m'.state m'.suspended A'
    D T) (adds : Adds m.state m'.state new) (less : weigh new < weight i) :
    ∃ A' uri d k, Turned choice quiet queue m i m' D T A' uri d k := by
  have holds : Holds quiet none (queue ++ m'.state.loop.ready) m'.state m'.suspended A' D T := by
    rw [adds.ready, ← List.append_assoc]
    exact h
  refine turned_of_still holds adds.now ?_
  rw [backlog, backlog, adds.ready, adds.timers, ← List.append_assoc, weigh_append, weigh_cons]
  omega

theorem Holds.turn_timer
    (h : Holds quiet none (.timer id :: (queue ++ m.state.loop.ready)) m.state m.suspended A D T) :
    ∃ A' uri d k, Turned choice quiet queue m (.timer id)
      (m.runReady (rulesBy choice) (.timer id)) D T A'
      uri d k := by
  obtain ⟨A', new, agrees, ready, hnew⟩ := h.agrees.fire
  obtain ⟨timers, now⟩ := Loop.clock_fireTimer m.state.loop () id
  have adds : Adds m.state { m.state with loop := Machine.fireTimer m.state.loop () id } new :=
    ⟨ready, timers, now⟩
  have stages : A'.stages quiet (Machine.fireTimer m.state.loop () id).now =
      A.stages quiet m.state.loop.now := by
    rw [now]
    rcases hnew with ⟨rfl, -⟩ | ⟨t, errand, nap, hA, rfl, -⟩
    · rfl
    · exact stages_update_of hA rfl
  refine turned_of_adds (h.alter _ rfl agrees stages (fun _ => rfl) h.marks) adds ?_
  rcases hnew with ⟨-, rfl⟩ | ⟨t, errand, nap, -, -, rfl⟩
  · exact Nat.le_of_ble_eq_true rfl
  · exact Nat.le_of_ble_eq_true rfl

theorem Holds.turn_hook {signal : Signal}
    (h : Holds quiet none (.follow (.hook r) signal :: (queue ++ m.state.loop.ready)) m.state
      m.suspended
      A D T) :
    ∃ A' uri d k, Turned choice quiet queue m (.follow (.hook r) signal)
      (m.runReady (rulesBy choice) (.follow (.hook r) signal)) D T A' uri d k := by
  have past : m.state.Over r := by
    rcases (h.agrees.suits _ List.mem_cons_self).2 rfl with ⟨id, hid, -⟩ | ⟨r', s, hs, past⟩
    · cases hid
    · obtain ⟨hr, -⟩ := Ready.follow.inj hs
      exact Follower.hook.inj hr ▸ past
  have rest := h.alter _ rfl h.agrees.dropHook rfl (fun _ => rfl) h.marks
  obtain ⟨holds, loop⟩ := rest.hook past
  have adds : Adds m.state (Scheduler.afterRunTask r m.state) [] :=
    ⟨by rw [loop, List.append_nil], by rw [loop], by rw [loop]⟩
  exact turned_of_adds (by rwa [List.append_nil]) adds (Nat.le_of_ble_eq_true rfl)

/-! ## Turns of tasks -/

/-- The state in which it is a task's turn. -/
theorem turnOf_eq (t : Nat) (s : State) :
    Machine.turnOf t s = { s with loop := { s.loop with current := t } } := rfl

/-- The task of a timer that has fired ends. -/
theorem Holds.rung {marked : Bool} (h : Holds quiet (some uri) items s rests A D T)
    (hA : A t = some (.timer x, .acting marked)) (hd : D uri = .waiting version text x)
    (e : Ending Unit Unit) :
    let s' := Scheduler.tell s (.fired x)
    ∃ A' new d, Holds quiet none (items ++ new) { s' with loop := s'.loop.finish t e } rests A'
        (update D uri d) (update T uri ⟨.begin version text .ahead, s.marksOf uri⟩) ∧
      Adds s { s' with loop := s'.loop.finish t e } new ∧ weigh new + 4 * d.credit ≤ 4 := by
  obtain ⟨A', new, d, holds, adds, less, kept⟩ := h.fires hd
  rw [← kept t (by simp [hA])] at hA
  obtain ⟨holds', adds'⟩ := holds.finish hA nofun e
  refine ⟨_, _, d, by rwa [List.append_assoc] at holds', adds.trans adds', ?_⟩
  rw [weigh_append]
  exact less

theorem marksOf_finishing (run : Run) (b : Behaviour) (s : State) (uri : String) :
    (finishing run b s).marksOf uri =
      s.marksOf uri ++ if run.uri = uri then [.ended s.loop.now run.version] else [] := by
  have ended : (s.note (.ended s.loop.now run.uri run.version)).marksOf uri =
      s.marksOf uri ++ if run.uri = uri then [.ended s.loop.now run.version] else [] := by
    rw [marksOf_note, Happening.mark?]
    split <;> rfl
  rw [finishing]
  split
  · rw [marksOf_note, ended]
    exact List.append_nil _
  · exact ended

theorem adds_finishing (run : Run) (b : Behaviour) (s : State) : Adds s (finishing run b s) [] := by
  rw [finishing]
  split <;> exact ⟨(List.append_nil _).symm, rfl, rfl⟩

theorem scheduler_finishing (run : Run) (b : Behaviour) (s : State) :
    (finishing run b s).scheduler = s.scheduler ∧ (finishing run b s).loop = s.loop := by
  rw [finishing]
  split <;> exact ⟨rfl, rfl⟩

/-- Something is taken down of a document.  Only the marks of that document change, so the tracks of
others stay. -/
theorem Holds.noted (h : Holds quiet but items s rests A D T) (s' : State) (uri : String)
    (scheduler : s'.scheduler = s.scheduler) (loop : s'.loop = s.loop)
    (marks : ∀ other, other ≠ uri → s'.marksOf other = s.marksOf other) :
    Holds quiet but items s' rests A D (update T uri ⟨(T uri).doc, s'.marksOf uri⟩) := by
  refine h.alter _ scheduler (loop ▸ h.agrees) (by rw [loop]) (fun other => ?_) fun other => ?_
  · by_cases ho : other = uri
    · subst ho
      rw [Function.update_self]
    · rw [Function.update_of_ne ho]
  · by_cases ho : other = uri
    · subst ho
      rw [Function.update_self]
    · rw [Function.update_of_ne ho, marks other ho]
      exact h.marks other

/-- The task of a run whose validation is over ends. -/
theorem Holds.ran {marked : Bool} (h : Holds quiet (some uri) items s rests A D T)
    (hA : A t = some (.run r run, .acting marked)) (stage : Stage)
    (hd : D uri = .running version text subject sequel r) (purpose : For s uri (.run r run) (D uri))
    (b : Behaviour) (e : Ending Unit Unit) :
    let s' := validated b r run s
    ∃ A' new d, Holds quiet none (items ++ new) { s' with loop := s'.loop.finish t e } rests A'
        (update D uri d) (update T uri
          ⟨(Doc.running version text subject sequel stage).ended
            (.until (s.loop.now.after quiet)) .ahead,
            s.marksOf uri ++ [.ended s.loop.now run.version]⟩) ∧
      Adds s { s' with loop := s'.loop.finish t e } new ∧
        weigh new + 4 * d.credit ≤ 1 + 4 * (D uri).credit := by
  obtain ⟨found, about⟩ : Assoc.get? r s.machine.runs = some run ∧ run.uri = uri := by
    generalize D uri = d at purpose
    cases purpose with
    | run found about => exact ⟨found, about⟩
  have finished := marksOf_finishing run b s
  obtain ⟨scheduler, loop⟩ := scheduler_finishing run b s
  have adds₁ := adds_finishing run b s
  generalize hfinishing : finishing run b s = s₁ at *
  have noted := h.noted _ uri scheduler loop fun other ho => by
    rw [finished, if_neg (about ▸ Ne.symm ho), List.append_nil]
  obtain ⟨A', new, d, holds, adds₂, less, kept⟩ := noted.ends stage hd
  -- The run is over as soon as the scheduler has been told, so that its task may end.
  have past : (Scheduler.forgetTimers (Scheduler.tell s₁ (.ended r))).Over r := by
    have lt : r < s₁.machine.nextRun := by
      rw [State.machine, scheduler]
      exact h.inv.tidy.run_lt _ (Assoc.mem_of_get? found)
    have starts := Scheduler.starts_step s₁.machine (e := .ended r) nofun
    change (Scheduler.tell s₁ (.ended r)).Over r
    rw [State.Over, machine_tell]
    exact ⟨Nat.lt_of_lt_of_le lt starts.next_le, starts.over lt (Assoc.get?_erase_self r _)⟩
  rw [← kept t (by simp [hA])] at hA
  obtain ⟨holds', adds₃⟩ := holds.forget.finish hA (fun r' _ hr => by cases hr; exact past) e
  rw [Function.update_idem, finished, if_pos about, loop, List.append_assoc] at holds'
  have adds := (adds₁.trans adds₂).trans ⟨adds₃.ready, adds₃.timers, adds₃.now⟩
  rw [validated, hfinishing]
  refine ⟨_, _, d, holds', adds, ?_⟩
  have left : weigh ((Errand.run r run).left t) = 1 := rfl
  rw [weigh_append, left]
  omega

/-- The task of a timer begins, and goes to sleep. -/
theorem Holds.turn_timer_begins
    (h : Holds quiet none (.start t :: (queue ++ m.state.loop.ready)) m.state m.suspended A D T)
    (hA : A t = some (.timer x, .fresh))
    (agrees : Agrees goesOn m.state.Over (queue ++ m.state.loop.ready) m.state.loop m.suspended
      (update A t (some (.timer x, .acting false)))) :
    ∃ A' uri d k, Turned choice quiet queue m (.start t)
      (m.proceed (rulesBy choice) t (bodyBy choice (.timer x))) D T A' uri d k := by
  rw [proceed_timer agrees.unraised]
  obtain ⟨agrees', ready⟩ := agrees.sleep (Function.update_self ..)
    (Duration.milliseconds m.state.machine.debounce) (timerRest x m.state.loop.nextTimer) rfl
  rw [Function.update_idem] at agrees'
  have now := now_napping m.state.loop t (Duration.milliseconds m.state.machine.debounce)
  have elements := elements_napping agrees.ordered t
    (Duration.milliseconds m.state.machine.debounce)
  let plan :
      Plan := .asleep ⟨m.state.loop.nextTicket, m.state.loop.nextTimer, m.state.loop.now.after
    (Duration.milliseconds m.state.machine.debounce)⟩
  have stages : Agenda.stages quiet m.state.loop.now (update A t (some (.timer x, plan))) =
      A.stages quiet m.state.loop.now := stages_update_of hA (by rw [← h.debounce]; rfl)
  generalize napping m.state.loop t (Duration.milliseconds m.state.machine.debounce) = l at *
  have holds := h.alter { m.state with loop := l } rfl agrees'
    ((congrArg (Agenda.stages quiet · _) now).trans stages) (fun _ => rfl) h.marks
  rw [← ready] at holds
  refine turned_of_still holds now ?_
  dsimp only
  rw [backlog, backlog, ready, elements, Multiset.card_cons, weigh_cons,
    show weight (.start t) = 4 from rfl]
  omega

theorem For.of_run (h : For s uri (.run r run) d) :
    Assoc.get? r s.machine.runs = some run ∧ run.uri = uri ∧
      ∃ version text sequel, d = .running version text (run.version, run.text) sequel r := by
  cases h with
  | run found about => exact ⟨found, about, _, _, _, rfl⟩

/-- What is known of the document of a run whose task has come to some stage.  The four places at
which something is said of the run are tied together by its number: the machine, the loop, the
documents as they are shown, and their tracks. -/
structure Runs (s : State) (D : String → Doc Nat) (T : String → Track) (t r : Nat)
    (run : Run) (stage : Stage) (version : Int) (text : String) (sequel : Sequel) : Prop where
  found : Assoc.get? r s.machine.runs = some run
  task : taskFor? s (D run.uri) = some t
  doc : D run.uri = .running version text (run.version, run.text) sequel r
  track :
    T run.uri = ⟨.running version text (run.version, run.text) sequel stage, s.marksOf run.uri⟩

theorem Holds.runs {plan : Plan} {stage : Stage} (h : Holds quiet none items s rests A D T)
    (hA : A t = some (.run r run, plan)) (staged : plan.stage? .ahead = some stage) :
    ∃ version text sequel, Runs s D T t r run stage version text sequel := by
  have hB : A.stages quiet s.loop.now t = some (.run r run, stage) := by
    rw [stages_of quiet s.loop.now hA, Errand.start, staged]
    rfl
  obtain ⟨uri, -, task, purpose⟩ := h.owned t _ stage hB
  obtain ⟨found, rfl, version, text, sequel, doc⟩ := purpose.of_run
  refine ⟨version, text, sequel, found, task, doc, ?_⟩
  have tied := (h.tied run.uri nofun).of_purpose task hB
  rw [doc] at tied
  rw [← h.marks run.uri]
  exact congrArg (Track.mk · _) tied

theorem Runs.purpose {stage : Stage} (h : Runs s D T t r run stage version text sequel) :
    For s run.uri (.run r run) (D run.uri) :=
  h.doc ▸ .run h.found rfl

theorem marksOf_started (run : Run) (s : State) (uri : String) :
    (started choice run s).marksOf uri =
      s.marksOf uri ++ if run.uri = uri then [.began s.loop.now run.version run.text] else [] := by
  rw [started, marksOf_note, Happening.mark?]
  split <;> rfl

/-- The task of a run begins its validation, and sleeps. -/
theorem Holds.turn_run_begins {length : Duration}
    (h : Holds quiet none (.start t :: (queue ++ m.state.loop.ready)) m.state m.suspended A D T)
    (hA : A t = some (.run r run, .fresh))
    (agrees : Agrees goesOn m.state.Over (queue ++ m.state.loop.ready) m.state.loop m.suspended
      (update A t (some (.run r run, .acting false))))
    (takes : (behaves choice run m.state).length = some length) :
    ∃ A' uri d k, Turned choice quiet queue m (.start t)
      (m.proceed (rulesBy choice) t (bodyBy choice (.run r))) D T A' uri d k := by
  obtain ⟨version, text, sequel, runs⟩ := h.runs hA rfl
  rw [proceed_run_of_some runs.found takes agrees.unraised]
  obtain ⟨agrees', ready⟩ := agrees.sleep (Function.update_self ..) length
    (runRest (behaves choice run m.state) r run m.state.loop.nextTimer) ⟨_, rfl⟩
  rw [Function.update_idem] at agrees'
  have now := now_napping m.state.loop t length
  have elements := elements_napping agrees.ordered t length
  generalize napping m.state.loop t length = l at *
  have holds := h.restage { started choice run m.state with loop := l }
    (.until (m.state.loop.now.after length)) rfl agrees' runs.task runs.purpose
    (by
      rw [stages_update]
      dsimp only
      rw [now]
      rfl)
    fun other ho => by
      change (started choice run m.state).marksOf other = _
      rw [marksOf_started, if_neg ho.symm, List.append_nil]
  have marks : ({ started choice run m.state with loop := l } : State).marksOf run.uri =
      m.state.marksOf run.uri ++ [.began m.state.loop.now run.version run.text] := by
    change (started choice run m.state).marksOf run.uri = _
    rw [marksOf_started, if_pos rfl]
  rw [← ready, marks, runs.doc] at holds
  -- In the track a validation begins, and it ends when its length has passed.
  have next : Next (lengthsBy choice run.uri) quiet m.state.loop.now (T run.uri)
      ⟨.running version text (run.version, run.text) sequel
        (.until (m.state.loop.now.after length)),
        m.state.marksOf run.uri ++ [.began m.state.loop.now run.version run.text]⟩ := by
    rw [runs.track]
    exact .begins ⟨_, takes⟩
  rw [← Function.update_eq_self run.uri D] at holds
  refine turned_of_next holds now next ?_
  dsimp only
  rw [backlog, backlog, ready, elements, Multiset.card_cons, weigh_cons,
    show weight (.start t) = 4 from rfl]
  omega

/-- In the turn of a document's task the document is in between. -/
theorem Holds.during {marked : Bool} (h : Holds quiet none items s rests A D T)
    (agrees : Agrees goesOn s.Over items' l rests' (update A t (some (errand, .acting marked))))
    (now : l.now = s.loop.now) (task : taskFor? s (D uri) = some t) :
    Holds quiet (some uri) items' { s with loop := { l with current := t } } rests'
      (update A t (some (errand, .acting marked))) D T := by
  refine h.release (agrees.aside l.ready t) task ?_
  rw [stages_update]
  dsimp only
  rw [now]
  rfl

/-- The task of a run begins its validation, which takes no time. -/
theorem Holds.turn_run_passes
    (h : Holds quiet none (.start t :: (queue ++ m.state.loop.ready)) m.state m.suspended A D T)
    (hA : A t = some (.run r run, .fresh))
    (agrees : Agrees goesOn m.state.Over (queue ++ m.state.loop.ready) m.state.loop m.suspended
      (update A t (some (.run r run, .acting false))))
    (passes : (behaves choice run m.state).length = none) :
    ∃ A' uri d k, Turned choice quiet queue m (.start t)
      (m.proceed (rulesBy choice) t (bodyBy choice (.run r))) D T A' uri d k := by
  obtain ⟨version, text, sequel, runs⟩ := h.runs hA rfl
  obtain ⟨e, s', hs', proceed⟩ := proceed_run_of_none (m := m) (t := t) choice runs.found passes
  rw [proceed]
  have during := h.during agrees rfl runs.task
  rw [← turnOf_eq] at during
  have began := during.noted (started choice run (Machine.turnOf t m.state)) run.uri rfl rfl
    fun other ho => by rw [marksOf_started, if_neg ho.symm, List.append_nil]
  obtain ⟨A', new, d, holds, adds, less⟩ := began.ran (Function.update_self ..) .ahead runs.doc
    (runs.purpose.congr fun _ _ found _ => found) (behaves choice run m.state) e
  rw [← hs', Function.update_idem, marksOf_started, if_pos rfl] at holds
  rw [← hs'] at adds
  have next : Next (lengthsBy choice run.uri) quiet m.state.loop.now (T run.uri)
      ⟨(Doc.running version text (run.version, run.text) sequel .ahead).ended
          (.until (m.state.loop.now.after quiet)) .ahead,
        m.state.marksOf run.uri ++ [.began m.state.loop.now run.version run.text] ++
          [.ended m.state.loop.now run.version]⟩ := by
    rw [runs.track]
    exact .passes ⟨_, passes⟩
  refine turned_of_moved holds ⟨adds.ready, adds.timers, adds.now⟩ next ?_
  rw [show weight (.start t) = 4 from rfl]
  omega

/-- A task of a timer that has been cancelled ends. -/
theorem Holds.gaveUp {marked : Bool} (h : Holds quiet none items s rests A D T)
    (agrees : Agrees goesOn s.Over items' l rests' (update A t (some (.timer x, .acting marked))))
    (unstaged : A.stages quiet s.loop.now t = none) (now : l.now = s.loop.now)
    (e : Ending Unit Unit) :
    Holds quiet none items' { s with loop := l.finish t e } rests'
        (update (update A t (some (.timer x, .acting marked))) t none) D T ∧
      (l.finish t e).ready = l.ready ∧ (l.finish t e).timers = l.timers ∧
        (l.finish t e).now = l.now := by
  have stages : Agenda.stages quiet l.now (update A t (some (.timer x, .acting marked))) =
      A.stages quiet s.loop.now := by
    rw [stages_update, now]
    exact Function.update_eq_self_iff.mpr unstaged.symm
  have acting := h.alter { s with loop := l } rfl agrees stages (fun _ => rfl) h.marks
  obtain ⟨holds, adds⟩ := acting.finish (Function.update_self ..) nofun e
  rw [show (Errand.timer x).left t = [] from rfl, List.append_nil] at holds
  refine ⟨holds, ?_, adds.timers, adds.now⟩
  exact adds.ready.trans (List.append_nil _)

/-- It is the turn of a task that is to begin.  It does begin, or ends because it was cancelled
before. -/
theorem Holds.turn_start
    (h : Holds quiet none (.start t :: (queue ++ m.state.loop.ready)) m.state m.suspended A D T) :
    ∃ A' uri d k, Turned choice quiet queue m (.start t)
      (m.runReady (rulesBy choice) (.start t)) D T A'
      uri d k := by
  obtain ⟨errand, marked, hA, agrees⟩ := h.agrees.begin
  have stands := h.agrees.stands t errand _ hA
  obtain ⟨mustCancel, cancels, hmark, task⟩ := stands.task
  -- A task that was cancelled before its first turn ends in it, and does nothing else.
  cases marked with
  | true =>
    obtain rfl : mustCancel = true := hmark
    obtain ⟨x, rfl⟩ := stands.kind _ rfl
    have ends : m.runReady (rulesBy choice) (.start t) =
        ⟨{ m.state with loop := m.state.loop.finish t .cancelled }, m.suspended⟩ := by
      change Machine.startTask _ m t = _
      rw [Machine.startTask, show (Machine.loop m).task? t = _ from task]
      rfl
    obtain ⟨holds, ready, timers, now⟩ :=
      h.gaveUp agrees (by rw [stages_of quiet _ hA]; rfl) rfl .cancelled
    have adds : Adds m.state { m.state with loop := m.state.loop.finish t .cancelled } [] :=
      ⟨by rw [List.append_nil]; exact ready, timers, now⟩
    rw [ends]
    exact turned_of_adds (by rwa [List.append_nil]) adds (Nat.le_of_ble_eq_true rfl)
  | false =>
    obtain rfl : mustCancel = false := hmark
    have begins : m.runReady (rulesBy choice) (.start t) =
        m.proceed (rulesBy choice) t (bodyBy choice errand.job) := by
      change Machine.startTask _ m t = _
      rw [Machine.startTask, show (Machine.loop m).task? t = _ from task]
      rfl
    rw [begins]
    cases errand with
    | timer x => exact h.turn_timer_begins hA agrees
    | run r run =>
      cases takes : (behaves choice run m.state).length with
      | some length => exact h.turn_run_begins hA agrees takes
      | none => exact h.turn_run_passes hA agrees takes

/-! ## Turns after sleeps -/

variable {signal : Signal} {nap : Nap} {cancelled : Bool} {st : TaskState Job} {gone : Nat → Prop}
  {rest : Rest State Unit Unit Job}

/-- A rehearsal in which a task goes on.  What it waited for is over, and its turn has begun. -/
def facing (m : Rehearsal) (t : Nat) (st : TaskState Job) : Rehearsal where
  state :=
    { m.state with loop := m.state.loop.setTask t { st with waiting := none, mustCancel := false } }
  suspended := Assoc.erase t m.suspended

/-- A task that goes on after its sleep ends in that turn. -/
theorem Resumes.ends {e : Ending Unit Unit}
    (k : Resumes goesOn gone items m.state.loop m.suspended A t signal errand nap cancelled st rest)
    (run : Machine.runRoutine (rest (if cancelled then .cancelled else .value ()))
      (Machine.turnOf t (facing m t st).state) = (s', .ended e)) :
    ∃ e', m.runReady (rulesBy choice) (.follow (.resume t) signal) =
      ⟨{ s' with loop := s'.loop.finish t e' }, Assoc.erase t m.suspended⟩ := by
  obtain ⟨e', proceed⟩ := proceed_of_ended choice run
  refine ⟨e', ?_⟩
  change _ = Machine.mk _ (facing m t st).suspended
  rw [← proceed, ← k.ending]
  change Machine.resumeTask _ m t signal = _
  rw [Machine.resumeTask, show (Machine.loop m).task? t = _ from k.task, k.kept]
  rfl

theorem stopped_facing (m : Rehearsal) (t : Nat) (st : TaskState Job) (id : Nat) :
    stopped id (Machine.turnOf t (facing m t st).state) =
      { m.state with loop := { roused m.state.loop t st id with current := t } } := rfl

/-- The task of a timer goes on after its sleep. -/
theorem Holds.turn_timer_wakes
    (h : Holds quiet none (.follow (.resume t) signal :: (queue ++ m.state.loop.ready)) m.state
      m.suspended A D T)
    (k : Resumes goesOn m.state.Over (queue ++ m.state.loop.ready) m.state.loop
      m.suspended A t signal
      (.timer x) nap false st rest) :
    ∃ A' uri d k, Turned choice quiet queue m (.follow (.resume t) signal)
      (m.runReady (rulesBy choice) (.follow (.resume t) signal)) D T A' uri d k := by
  have hB : A.stages quiet m.state.loop.now t = some (.timer x, .until nap.due) := by
    rw [stages_of quiet _ k.plan]
    rfl
  obtain ⟨uri, -, task, purpose⟩ := h.owned t _ _ hB
  obtain ⟨version, text, hd⟩ : ∃ version text, D uri = .waiting version text x := by
    generalize D uri = d at purpose
    cases purpose with
    | timer => exact ⟨_, _, rfl⟩
  obtain rfl : rest = timerRest x nap.timer := k.sequel
  obtain ⟨e, ends⟩ := k.ends (runRoutine_timerRest x nap.timer _)
  rw [ends, stopped_facing]
  obtain ⟨A', new, d, holds, adds, less⟩ :=
    (h.during k.agrees rfl task).rung (Function.update_self ..) hd e
  generalize Scheduler.tell
    { m.state with loop := { roused m.state.loop t st nap.timer with current := t } }
    (.fired x) = s' at *
  -- In the track the quiet time has passed, so a validation is to begin.
  have next : Next (lengthsBy choice uri) quiet m.state.loop.now (T uri)
      ⟨.begin version text .ahead, m.state.marksOf uri⟩ := by
    have tied := (h.tied uri nofun).of_purpose task hB
    have track : T uri = ⟨.waiting version text (.until nap.due), m.state.marksOf uri⟩ := by
      rw [← h.marks uri]
      rw [hd] at tied
      exact congrArg (Track.mk · _) tied
    rw [track]
    exact .fires (k.reached rfl)
  refine turned_of_moved holds ⟨adds.ready, adds.timers, adds.now⟩ next ?_
  rw [hd, show weight (.follow (.resume t) signal) = 2 from rfl,
    show (Doc.waiting version text x).credit = 1 from rfl]
  omega

/-- The task of a run goes on after its sleep. -/
theorem Holds.turn_run_wakes
    (h : Holds quiet none (.follow (.resume t) signal :: (queue ++ m.state.loop.ready)) m.state
      m.suspended A D T)
    (k : Resumes goesOn m.state.Over (queue ++ m.state.loop.ready) m.state.loop
      m.suspended A t signal
      (.run r run) nap false st rest) :
    ∃ A' uri d k, Turned choice quiet queue m (.follow (.resume t) signal)
      (m.runReady (rulesBy choice) (.follow (.resume t) signal)) D T A' uri d k := by
  obtain ⟨version, text, sequel, runs⟩ := h.runs k.plan rfl
  obtain ⟨b, rfl⟩ : ∃ b, rest = runRest b r run nap.timer := k.sequel
  obtain ⟨e, ends⟩ := k.ends (runRoutine_runRest b r run nap.timer _)
  rw [ends, stopped_facing]
  obtain ⟨A', new, d, holds, adds, less⟩ :=
    (h.during k.agrees rfl runs.task).ran (Function.update_self ..) (.until nap.due) runs.doc
      (runs.purpose.congr fun _ _ found _ => found) b e
  generalize validated b r run
    { m.state with loop := { roused m.state.loop t st nap.timer with current := t } } = s' at *
  have next : Next (lengthsBy choice run.uri) quiet m.state.loop.now (T run.uri)
      ⟨(Doc.running version text (run.version, run.text) sequel (.until nap.due)).ended
          (.until (m.state.loop.now.after quiet)) .ahead,
        m.state.marksOf run.uri ++ [.ended m.state.loop.now run.version]⟩ := by
    rw [runs.track]
    exact .ends (k.reached rfl)
  refine turned_of_moved holds ⟨adds.ready, adds.timers, adds.now⟩ next ?_
  rw [show weight (.follow (.resume t) signal) = 2 from rfl]
  omega

/-- It is the turn of a task that was asleep.  Its sleep is over, or it was cancelled in it. -/
theorem Holds.turn_resume
    (h : Holds quiet none (.follow (.resume t) signal :: (queue ++ m.state.loop.ready)) m.state
      m.suspended A D T) :
    ∃ A' uri d k, Turned choice quiet queue m (.follow (.resume t) signal)
      (m.runReady (rulesBy choice) (.follow (.resume t) signal)) D T A' uri d k := by
  obtain ⟨errand, nap, cancelled, st, rest, k⟩ := h.agrees.wake
  cases cancelled with
  | false =>
    cases errand with
    | timer x => exact h.turn_timer_wakes k
    | run r run => exact h.turn_run_wakes k
  | true =>
    obtain ⟨x, rfl⟩ := k.kind rfl
    obtain rfl : rest = timerRest x nap.timer := k.sequel
    obtain ⟨e, ends⟩ := k.ends (runRoutine_timerRest_of_cancelled x nap.timer _)
    obtain ⟨holds, ready, timers, now⟩ :=
      h.gaveUp (k.agrees.aside (roused m.state.loop t st nap.timer).ready t)
      (by rw [stages_of quiet _ k.plan]; rfl) rfl e
    rw [ends, stopped_facing]
    refine turned_of_adds (by rwa [List.append_nil]) (?_ : Adds _ _ []) (Nat.le_of_ble_eq_true rfl)
    exact ⟨by rw [List.append_nil]; exact ready, timers, now⟩

/-- Whatever is ready is the turn of one document or of none.  The cases are those of `Ready`; a
follower is a task that goes on or the hook of a run. -/
theorem Holds.turn
    (h : Holds quiet none (i :: (queue ++ m.state.loop.ready)) m.state m.suspended A D T)
    (choice : Choice) :
    ∃ A' uri d k, Turned choice quiet queue m i (m.runReady (rulesBy choice) i) D T A' uri d k := by
  have other := (h.agrees.suits i List.mem_cons_self).2
  cases i with
  | start t => exact h.turn_start
  | timer id => exact h.turn_timer
  | follow f signal =>
    cases f with
    | resume t => exact h.turn_resume
    | hook r => exact h.turn_hook
    | relay | part =>
      rcases other rfl with ⟨_, he, -⟩ | ⟨_, _, he, -⟩ <;> cases he

end PikeAnalysis.Simulation.Scheduling
