import PikeAnalysis.Proofs.Concurrency.Conduct

/-!
# The operations of a loop in good order

Raising tickets, cancelling tasks that may be cancelled and keeping timers are gentle.  Tasks that
begin, wait, go on and end, and what is passed on to a ticket, change more; a sane loop stays sane
by each of them, and tickets stay bound.

The order is that of the loop's own definition: raising signals, cancelling, timers, followers, new
tasks, turns, waits, ends, and what is passed on.  For each operation there is one lemma that says
how strong the change is, in the terms of the module before; where an operation can break what a
ticket is bound to, or the loop's being guarded or sane, the three are shown one by one
(`Bound.setTask`, `Guarded.setTask`, `Sane.wake` and the like).

Suspending is the delicate one.  A task that was marked while it ran cancels what it starts to wait
for, at once, and that may be the end of another task; a firm task is never marked, and whoever else
waits for the same thing waits with a ticket of his own (`soft_suspend`).
-/

namespace PikeAnalysis.Concurrency

namespace Loop

variable {κ η ε ν : Type} {c : Custom κ η} {l m : Loop κ η ε ν} {Q : Multiset (Ready η)}
  {own : Option Nat} {t : Nat} {job : κ} {C : Nat → Prop} {A : Signal → Prop} {i : Ready η}

/-! ## Gentle operations -/

theorem expected_of_parts (signals : m.signals = l.signals) {ids : List Nat}
    (ready : m.ready = l.ready ++ ids.map .timer) (i : Ready η) (hi : ∀ id, i ≠ .timer id) :
    m.expected i = l.expected i := by
  classical
  have hzero : (ids.map (Ready.timer (η := η))).count i = 0 := by
    refine List.count_eq_zero.mpr fun hmem => ?_
    obtain ⟨id, -, rfl⟩ := List.mem_map.mp hmem
    exact hi id rfl
  simp only [expected, signalState, signals, ready, List.count_append]
  rw [show List.count i (ids.map (Ready.timer (η := η))) = 0 by convert hzero]
  rw [Nat.add_zero]

/-- A change of the books of timers and tickets only.  It is enough to compare the fields of the two
loops, one by one. -/
theorem gentle_of_parts (ids : List Nat) (tasks : m.tasks = l.tasks)
    (next : m.nextTask = l.nextTask)
    (current : m.current = l.current) (signals : m.signals = l.signals)
    (nextTicket : l.nextTicket ≤ m.nextTicket) (ready : m.ready = l.ready ++ ids.map .timer)
    (missing : ∀ n, Assoc.get? n m.missing ≠ none →
      Assoc.get? n l.missing ≠ none ∨ l.nextTicket ≤ n ∧ n < m.nextTicket)
    (live : ∀ x ∈ m.live, x ∈ l.live ∨ (∃ t, x.2 = .expire t ∧ l.Exposed c t) ∨
      ∃ n, x.2 = .raise (.ticket n) ∧ l.nextTicket ≤ n ∧ n < m.nextTicket) : Gentle c C A l m := by
  have htask (t : Nat) : m.task? t = l.task? t := by rw [task?, task?, tasks]
  have hending (s : Signal) : m.ending? s = l.ending? s := by
    rw [ending?, ending?, signalState, signalState, signals]
  exact
    { jobs := fun t => by rw [jobOf, jobOf, htask]
      waiting := fun t => by rw [waitingOn, waitingOn, htask]
      next
      starts := fun t => expected_of_parts signals ready _ fun _ h => by cases h
      follows := fun f s => expected_of_parts signals ready _ fun _ h => by cases h
      ready := fun f s hs => by
        rw [ready] at hs
        exact .inl ((List.mem_append.mp hs).resolve_right (by simp))
      stays := fun s e he => by rwa [hending]
      ends := fun t e he => by rwa [← hending]
      current
      nextTicket
      raises := fun s e he => .inl (by rwa [← hending])
      marks := fun t st hst _ hm => ⟨st, by rwa [← htask], rfl, hm⟩
      missing
      live
      counts := fun t s _ _ => .of_same (htask t) (hending s) }

theorem nextTicket_raise (l : Loop κ η ε ν) (s : Signal) (e : Ending ε ν) :
    (l.raise s e).nextTicket = l.nextTicket := by
  cases hending : (l.signalState s).ending with
  | some e' => rw [raise_of_ended hending]
  | none => rw [raise_of_open hending, enqueue]

theorem missing_raise (l : Loop κ η ε ν) (s : Signal) (e : Ending ε ν) :
    (l.raise s e).missing = l.missing := by
  cases hending : (l.signalState s).ending with
  | some e' => rw [raise_of_ended hending]
  | none => rw [raise_of_open hending, enqueue]

theorem current_raise (l : Loop κ η ε ν) (s : Signal) (e : Ending ε ν) :
    (l.raise s e).current = l.current := by
  cases hending : (l.signalState s).ending with
  | some e' => rw [raise_of_ended hending]
  | none => rw [raise_of_open hending, enqueue]

theorem soft_raise (l : Loop κ η ε ν) {s : Signal} {e : Ending ε ν}
    (may : MayRaise c C A l l.nextTicket s e) : Soft c C A l (l.raise s e) := by
  have mild := mild_raise l s e
  have same : SameTasks l (l.raise s e) := .raise (.refl l) s e
  refine
    { mild.still ?_ with
      current := current_raise l s e
      nextTicket := mild.nextTicket
      raises := fun s' e' hs => (mild.raises s' e' hs).imp_right ?_
      marks := fun t st hst _ hm => ⟨st, by rwa [← same.task?], rfl, hm⟩
      missing := fun n hn => .inl (by rwa [missing_raise] at hn)
      live := fun x hx => .inl (by rwa [live_raise] at hx) }
  · rintro s' e' ⟨rfl, -⟩ t rfl
    exact may.2
  · rintro ⟨rfl, rfl⟩
    rwa [nextTicket_raise]

/-- Raising a signal is noticed by those who wait for it.  A cancellation that is raised counts for
those who wait for the signal, and for nobody else. -/
theorem counts_raise (l : Loop κ η ε ν) {s s' : Signal} {e : Ending ε ν}
    (other : s' ≠ s ∨ e ≠ .cancelled) (t : Nat) : Counts l (l.raise s e) t s' := by
  have same : SameTasks l (l.raise s e) := .raise (.refl l) s e
  refine ⟨by rw [cancelCount, cancelCount, same.task?], fun warned => .inl ?_⟩
  rw [Warned, same.task?, ending?_raise] at warned
  refine warned.imp_right fun raised => ?_
  split at raised
  · next here =>
    rcases other with other | other
    · exact absurd here.1 other
    · exact absurd (Option.some.inj raised) other
  · exact raised

theorem gentle_raise (l : Loop κ η ε ν) {s : Signal} {e : Ending ε ν}
    (may : MayRaise c C A l l.nextTicket s e) (mild : e ≠ .cancelled) :
    Gentle c C A l (l.raise s e) :=
  { soft_raise l may with counts := fun t _ _ _ => counts_raise l (.inr mild) t }

theorem gentle_newTicket (l : Loop κ η ε ν) : Gentle c C A l l.newTicket.1 :=
  gentle_of_parts [] rfl rfl rfl rfl (Nat.le_succ _) (List.append_nil _).symm (fun _ h => .inl h)
    fun _ h => .inl h

/-- What is noted of a task that is not firm.  Its job and its wait stay as they are; marks of
cancellation may change. -/
theorem soft_setTask {st st' : TaskState κ} (hst : l.task? t = some st) (loose : ¬ c.firm t st.job)
    (job : st'.job = st.job) (waiting : st'.waiting = st.waiting) :
    Soft c C A l (l.setTask t st') := by
  have mild : Mild (fun _ _ => False) l (l.setTask t st') := mild_setTask hst job waiting
  exact
    { mild.still fun _ _ h => h.elim with
      current := rfl
      nextTicket := Nat.le_refl _
      raises := fun s e hs => .inl hs
      marks := fun u w hw firm hm => by
        rw [task?_setTask] at hw
        split at hw
        · next hu =>
          cases hw
          exact absurd (job ▸ hu ▸ firm) loose
        · exact ⟨w, hw, rfl, hm⟩
      missing := fun _ h => .inl h
      live := fun _ h => .inl h }

/-- What is noted of a task that is not firm does not take back a cancellation while it waits, and
none is noted that is not counted. -/
theorem gentle_setTask {st st' : TaskState κ} (hst : l.task? t = some st)
    (loose : ¬ c.firm t st.job) (job : st'.job = st.job) (waiting : st'.waiting = st.waiting)
    (counted : st.waiting ≠ none → st.cancels < st'.cancels ∨
      st.cancels = st'.cancels ∧ st.mustCancel = st'.mustCancel) :
    Gentle c C A l (l.setTask t st') :=
  { soft_setTask hst loose job waiting with
    counts := fun u s _ hs => by
      by_cases hu : u = t
      · subst hu
        rw [waitingOn_of_task? hst] at hs
        have hst' : (l.setTask u st').task? u = some st' := by rw [task?_setTask, if_pos rfl]
        rcases counted (by simp [hs]) with more | ⟨same, marks⟩
        · exact ⟨by simp [cancelCount, hst, hst', Nat.le_of_lt more],
            fun _ => .inr (by simpa [cancelCount, hst, hst'] using more)⟩
        · refine ⟨by simp [cancelCount, hst, hst', same], fun warned => .inl ?_⟩
          refine warned.imp_left ?_
          rintro ⟨w, hw, hm⟩
          exact ⟨st, hst, marks.trans (Option.some.inj (hst'.symm.trans hw) ▸ hm)⟩
      · exact .of_same (by rw [task?_setTask, if_neg hu]) rfl }

/-- Cancelling a task that may be cancelled cancels no firm one.  The induction is on the fuel:
cancelling a task that waits for a task cancels that one, and it may be cancelled as well, since the
loop is guarded. -/
theorem gentle_cancelTask (fuel : Nat) (g : Guarded c l) (exposed : l.Exposed c t) :
    Gentle c C A l (cancelTask fuel l t).1 := by
  induction fuel generalizing l t with
  | zero => exact .refl l
  | succ fuel ih =>
    unfold cancelTask
    split
    · exact .refl l
    · next st hst =>
      have loose : ¬ c.firm t st.job := exposed.2 _ (jobOf_of_task? hst)
      have counted : Gentle c C A l (l.setTask t { st with cancels := st.cancels + 1 }) :=
        gentle_setTask hst loose rfl rfl fun _ => .inl (Nat.lt_succ_self _)
      have marked : Gentle c C A l ((l.setTask t { st with cancels := st.cancels + 1 }).setTask t
          { st with cancels := st.cancels + 1, mustCancel := true }) := by
        simp only [setTask, Assoc.set_set]
        exact gentle_setTask hst loose rfl rfl fun _ => .inl (Nat.lt_succ_self _)
      have hwaiting : l.waitingOn t = st.waiting := waitingOn_of_task? hst
      dsimp only
      split
      · exact marked
      · next other hother =>
        split
        · have target := g.targets t other (hwaiting.trans hother)
          exact counted.andThen (ih (counted.guarded g) (counted.exposed target))
        · exact marked
      · next s hne hs =>
        split
        · exact marked
        · have waits := hwaiting.trans hs
          have given := g.waits t s waits
          have borne : Borne c (l.setTask t { st with cancels := st.cancels + 1 }) s :=
            ⟨t, by rw [counted.waiting, waits], counted.exposed exposed⟩
          have raised : Soft c C A (l.setTask t { st with cancels := st.cancels + 1 }) _ :=
            soft_raise (s := s) (e := .cancelled) _ ⟨fun _ => borne, by
              cases s with
              | ended u => exact absurd rfl (hne u)
              | turn n | answer id => exact .inr rfl
              | joint n | outside n => exact given
              | ticket n => exact ⟨given, .inr (.inl rfl)⟩⟩
          refine { counted.toSoft.andThen raised with counts := fun u s' hs' hu => ?_ }
          · by_cases same : s' = s
            · subst same
              -- Nobody else waits for what is for one task alone.
              obtain rfl := g.alone u t s' hs' hu waits
              have task :
                  ((l.setTask u { st with cancels := st.cancels + 1 }).raise s' .cancelled).task?
                    u =
                  some { st with cancels := st.cancels + 1 } := by
                rw [(SameTasks.raise (.refl _) s' .cancelled).task?, task?_setTask, if_pos rfl]
              have more :
                  l.cancelCount u < ((l.setTask u { st with cancels := st.cancels + 1 }).raise s'
                  .cancelled).cancelCount u := by
                simp [cancelCount, hst, task]
              exact ⟨Nat.le_of_lt more, fun _ => .inr more⟩
            · exact (counted.counts u s' hs' hu).trans (counts_raise _ (.inl same) u)

theorem gentle_cancel (g : Guarded c l) (exposed : l.Exposed c t) : Gentle c C A l (l.cancel t).1 :=
  gentle_cancelTask _ g exposed

/-! ## Timers -/

theorem gentle_stopTimer (l : Loop κ η ε ν) (id : Nat) : Gentle c C A l (l.stopTimer id) :=
  gentle_of_parts [] rfl rfl rfl rfl (Nat.le_refl _) (List.append_nil _).symm (fun _ h => .inl h)
    fun _ h => .inl (Assoc.mem_erase.mp h).1

/-- A timer for a new ticket. -/
theorem gentle_sleep (l : Loop κ η ε ν) (d : Duration) :
    Gentle c C A l (l.newTicket.1.startTimer d (.raise (.ticket l.nextTicket))).1 := by
  refine gentle_of_parts [] rfl rfl rfl rfl (Nat.le_succ _) (List.append_nil _).symm
    (fun _ h => .inl h) fun x hx => ?_
  rcases List.mem_cons.mp hx with rfl | hx
  · exact .inr (.inr ⟨l.nextTicket, rfl, Nat.le_refl _, Nat.lt_succ_self _⟩)
  · exact .inl hx

/-- A time limit for a task that may be cancelled.  A limit cancels the task whose turn it is, so
that one has to be exposed. -/
theorem gentle_startLimit (exposed : l.Exposed c l.current) (d : Duration) :
    Gentle c C A l (l.startLimit d).1 := by
  have limit : ∀ x ∈ (l.nextTimer, TimerAction.expire l.current) :: l.live, x ∈ l.live ∨
      (∃ t, x.2 = .expire t ∧ l.Exposed c t) ∨
      ∃ n, x.2 = .raise (.ticket n) ∧ l.nextTicket ≤ n ∧ n < l.nextTicket := by
    intro x hx
    rcases List.mem_cons.mp hx with rfl | hx
    · exact .inr (.inl ⟨l.current, rfl, exposed⟩)
    · exact .inl hx
  have started (d : Duration) : Gentle c C A l (l.startTimer d (.expire l.current)).1 :=
    gentle_of_parts [] rfl rfl rfl rfl (Nat.le_refl _) (List.append_nil _).symm (fun _ h => .inl h)
      limit
  unfold startLimit
  split
  · dsimp only
    split
    · exact gentle_of_parts [l.nextTimer] rfl rfl rfl rfl (Nat.le_refl _) rfl (fun _ h => .inl h)
        limit
    · exact started _
  · exact started _

/-- The end of a time limit of a task that may be cancelled, in the turn of which it is. -/
theorem gentle_stopLimit (exposed : l.Exposed c l.current) (awake : l.waitingOn l.current = none)
    (id : Nat) :
    Gentle c C A l (l.stopLimit id).1 := by
  unfold stopLimit
  split
  · have expired : Gentle c C A l { l with expired := l.expired.filter (· != id) } :=
      gentle_of_parts [] rfl rfl rfl rfl (Nat.le_refl _) (List.append_nil _).symm
        (fun _ h => .inl h) fun _ h => .inl h
    dsimp only
    split
    · next st hst =>
      have loose : ¬ c.firm l.current st.job := exposed.2 _ (jobOf_of_task? (l := l) hst)
      refine expired.andThen (gentle_setTask hst loose rfl rfl fun waits => absurd ?_ waits)
      rw [← waitingOn_of_task? hst]
      exact awake
    · exact expired
  · exact gentle_stopTimer l id

theorem gentle_dropCancelled (fuel : Nat) (l : Loop κ η ε ν) :
    Gentle c C A l (dropCancelled fuel l) := by
  induction fuel generalizing l with
  | zero => exact .refl l
  | succ fuel ih =>
    unfold dropCancelled
    split
    · split
      · exact .refl l
      · have popped : Gentle c C A l { l with timers := l.timers.pop } :=
          gentle_of_parts [] rfl rfl rfl rfl (Nat.le_refl _) (List.append_nil _).symm
            (fun _ h => .inl h) fun _ h => .inl h
        exact popped.andThen (ih _)
    · exact .refl l

theorem gentle_takeDue (fuel : Nat) (l : Loop κ η ε ν) : Gentle c C A l (takeDue fuel l) := by
  induction fuel generalizing l with
  | zero => exact .refl l
  | succ fuel ih =>
    unfold takeDue
    split
    · next timer _ =>
      split
      · have taken : Gentle c C A l ({ l with timers := l.timers.pop }.enqueue [.timer timer.id]) :=
          gentle_of_parts [timer.id] rfl rfl rfl rfl (Nat.le_refl _) rfl (fun _ h => .inl h)
            fun _ h => .inl h
        exact taken.andThen (ih _)
      · exact .refl l
    · exact .refl l

theorem gentle_due (l : Loop κ η ε ν) :
    Gentle c C A l (takeDue (dropCancelled l.timers.size l).timers.size
      (dropCancelled l.timers.size l)) :=
  (gentle_dropCancelled _ l).andThen (gentle_takeDue _ _)

/-- A ticket is raised for which a purpose was noted that is no longer.  Such a purpose is noted for
what was to be raised by a timer or with the last of several parts. -/
theorem gentle_redeem (h : Gentle c C A l m) {n : Nat} (promised : l.Promised n)
    (known : n < m.nextTicket) (v : ν) : Gentle c C A l (m.raise (.ticket n) (.value v)) := by
  have redeemed : Gentle c (fun x => C x ∨ x = n) A m (m.raise (.ticket n) (.value v)) :=
    gentle_raise m ⟨nofun, known, .inr (.inr (.inr (.inr rfl)))⟩ nofun
  refine h.trans redeemed ?_
  rintro x (hx | rfl)
  · exact .inl hx
  · exact .inr (.inl promised)

theorem gentle_fireTimer (g : Guarded c l) (unit : ν) (id : Nat) :
    Gentle c C A l (Machine.fireTimer l unit id) := by
  unfold Machine.fireTimer
  split
  · exact .refl l
  · next action haction =>
    have hmem := Assoc.mem_of_get? haction
    have stopped : Gentle c C A l (l.stopTimer id) := gentle_stopTimer l id
    cases action with
    | raise s =>
      obtain ⟨n, rfl⟩ := g.alarms id s hmem
      have promised : l.Promised n := ⟨id, hmem⟩
      exact gentle_redeem stopped promised (g.promised n promised) _
    | expire t =>
      have expired : Gentle c C A l { l.stopTimer id with expired := id :: l.expired } :=
        stopped.andThen (gentle_of_parts [] rfl rfl rfl rfl (Nat.le_refl _)
          (List.append_nil _).symm (fun _ h => .inl h) fun _ h => .inl h)
      exact expired.andThen
        (gentle_cancel (expired.guarded g) (expired.exposed (g.limits id t hmem)))

theorem gentle_countPart (g : Guarded c l) (v : ν) (n : Nat) :
    Gentle c C A l (l.countPart v n) := by
  unfold countPart
  split
  · exact .refl l
  · next left hleft =>
    split
    · have erased : Gentle c C A l { l with missing := Assoc.erase n l.missing } :=
        gentle_of_parts [] rfl rfl rfl rfl (Nat.le_refl _) (List.append_nil _).symm
          (fun x hx => .inl fun hnone => hx (by
            dsimp only
            rw [Assoc.get?_erase, hnone, ite_self])) fun _ h => .inl h
      exact erased.andThen (gentle_raise _ ⟨nofun, g.missing n (by simp [hleft])⟩ nofun)
    · refine gentle_of_parts [] rfl rfl rfl rfl (Nat.le_refl _) (List.append_nil _).symm
        (fun x hx => .inl ?_) fun _ h => .inl h
      dsimp only at hx
      rw [Assoc.get?_set] at hx
      split at hx
      · next he => simp [he, hleft]
      · exact hx

/-! ## Followers -/

theorem missing_follow (l : Loop κ η ε ν) (s : Signal) (f : Follower η) :
    (l.follow s f).missing = l.missing := by
  cases hending : (l.signalState s).ending with
  | some e' => rw [follow_of_ended hending, enqueue]
  | none => rw [follow_of_open hending]

theorem current_follow (l : Loop κ η ε ν) (s : Signal) (f : Follower η) :
    (l.follow s f).current = l.current := by
  cases hending : (l.signalState s).ending with
  | some e' => rw [follow_of_ended hending, enqueue]
  | none => rw [follow_of_open hending]

/-- What makes a loop guarded is not about followers, nor about how tickets have been raised. -/
theorem Guarded.congr (g : Guarded c l) (same : SameTasks l m) (live : m.live = l.live)
    (missing : m.missing = l.missing) (nextTicket : m.nextTicket = l.nextTicket)
    (endings : ∀ s, m.ending? s = l.ending? s ∨ ∃ n, s = .ticket n ∧ n < l.nextTicket) :
    Guarded c m where
  fresh := same.evolves.fresh g.fresh
  marks t st := by
    rw [same.task?]
    exact g.marks t st
  targets t u ht := by
    rw [waitingOn_of_sameTasks same] at ht
    exact (g.targets t u ht).evolve same.evolves
  askers t id ht := by
    rw [waitingOn_of_sameTasks same] at ht
    rw [same.sameJobs.jobs t]
    exact g.askers t id ht
  limits id t ht := (g.limits id t (live ▸ ht)).evolve same.evolves
  alarms id s hs := g.alarms id s (live ▸ hs)
  missing n hn := by
    rw [missing] at hn
    rw [nextTicket]
    exact g.missing n hn
  promised n hn := by
    rw [Promised, live] at hn
    rw [nextTicket]
    exact g.promised n hn
  raised s hs := by
    rw [nextTicket]
    rcases endings s with same | ⟨n, rfl, hn⟩
    · exact g.raised s (same ▸ hs)
    · exact hn
  waits t s ht := by
    rw [waitingOn_of_sameTasks same] at ht
    rw [nextTicket]
    exact g.waits t s ht
  alone t u s alone ht hu := by
    rw [waitingOn_of_sameTasks same] at ht hu
    exact g.alone t u s alone ht hu
  -- A ticket is not a signal on which a firm task waits alone, so the second case does not occur.
  steady s lone firmly := by
    obtain ⟨t, job, ht, hjob, firm⟩ := firmly
    rw [waitingOn_of_sameTasks same] at ht
    rw [same.sameJobs.jobs t] at hjob
    rcases endings s with still | ⟨n, rfl, -⟩
    · rw [still]
      exact g.steady s lone ⟨t, job, ht, hjob, firm⟩
    · exact lone.elim
  answers id := by
    rcases endings (.answer id) with still | ⟨n, he, -⟩
    · rw [still]
      exact g.answers id
    · cases he

theorem Guarded.follow (g : Guarded c l) (s : Signal) (f : Follower η) : Guarded c (l.follow s f) :=
  g.congr (.follow (.refl l) s f) (live_follow l s f) (missing_follow l s f)
    (nextTicket_follow l s f)
    fun s' => .inl (ending?_follow l s s' f)

theorem sameFirm_follow (l : Loop κ η ε ν) (s : Signal) (f : Follower η) :
    SameFirm c A l (l.follow s f) := by
  have same : SameTasks l (l.follow s f) := .follow (.refl l) s f
  exact .of_endings same.evolves (Nat.le_of_eq (nextTicket_follow l s f).symm)
    (fun t job _ => by rw [same.sameJobs.jobs t]) (fun id => ending?_follow l s _ f)
      fun t s' ht => by
      rwa [waitingOn_of_sameTasks same] at ht

theorem sameTurn_follow (l : Loop κ η ε ν) (s : Signal) (f : Follower η) :
    SameTurn l (l.follow s f) := by
  have same : SameTasks l (l.follow s f) := .follow (.refl l) s f
  refine ⟨current_follow l s f, Nat.le_of_eq same.next.symm, fun t job hj => ?_,
    waitingOn_of_sameTasks same, fun t _ => ?_, fun t s' _ _ =>
      .of_same (same.task? t) (ending?_follow l s s' f)⟩
  · rwa [same.sameJobs.jobs t]
  · rw [expected_follow, if_neg nofun, Nat.add_zero]

variable {n : Nat} {s s' : Signal} {f : Follower η}

/-- A ticket stays bound when something else follows.  A second relay to it is what could break
that. -/
theorem Bound.follow (b : Bound c C Q l n s) (s' : Signal) (hf : f ≠ .relay (.ticket n)) :
    Bound c C Q (l.follow s' f) n s where
  given := by
    rw [nextTicket_follow]
    exact b.given
  free := by
    rw [Promised, live_follow]
    exact b.free
  unclaimed := b.unclaimed
  only s'' hs := by
    rw [pending_follow, if_neg fun he => hf (Ready.follow.inj he).1.symm] at hs
    exact b.only s'' hs
  raised e he := by
    have same : SameTasks l (l.follow s' f) := .follow (.refl l) s' f
    rw [ending?_follow] at he ⊢
    refine (b.raised e he).imp_left (.imp_right fun loose ⟨t, job, ht, hjob, firm⟩ => loose ?_)
    exact ⟨t, job, by rwa [← waitingOn_of_sameTasks same], by rwa [← same.sameJobs.jobs t], firm⟩

/-- What fits may follow, if it does not pass anything on.  Waits of tasks and what is passed on
have lemmas of their own. -/
theorem calm_follow (l : Loop κ η ε ν) {s : Signal} (fits : f.Fits c s)
    (resume : ∀ t, f ≠ .resume t)
    (relay : ∀ s', f ≠ .relay s') : Calm c A C C l (l.follow s f) := by
  refine fun g => ⟨g.follow s f, sameFirm_follow l s f, sameTurn_follow l s f, fun own Q _ k =>
    ⟨{ k.toPunctual.follow s resume with
      fits := fun f' s' hs => ?_
      claimed := fun n hn => ?_
      relays := fun n s' hs => ?_ }, fun n s' b => b.follow s (relay _)⟩⟩
  · by_cases he : Ready.follow f' s' = .follow f s
    · obtain ⟨rfl, rfl⟩ := Ready.follow.inj he
      exact fits
    · rw [pending_follow, if_neg he] at hs
      exact k.fits f' s' hs
  · rw [nextTicket_follow]
    exact k.claimed n hn
  · rw [pending_follow, if_neg fun he => relay _ (Ready.follow.inj he).1.symm] at hs
    exact (k.relays n s' hs).follow s (relay _)

theorem calm_joinAll (parts : List Signal) (l : Loop κ η ε ν) :
    Calm c A C C l (l.joinAll parts).1 := by
  have follows (n : Nat) (m : Loop κ η ε ν) :
      Calm c A C C m (parts.foldl (fun l s => l.follow s (.part n)) m) := by
    induction parts generalizing m with
    | nil => exact .refl m
    | cons s rest ih => exact (calm_follow (f := .part n) m trivial nofun nofun).trans (ih _)
  unfold joinAll
  split
  · exact .refl l
  · have noted : Gentle c C A l
        { l.newTicket.1 with missing := Assoc.set l.nextTicket parts.length l.missing } := by
      refine gentle_of_parts [] rfl rfl rfl rfl (Nat.le_succ _) (List.append_nil _).symm
        (fun n hn => ?_) fun _ h => .inl h
      dsimp only at hn
      rw [Assoc.get?_set] at hn
      split at hn
      · next he =>
        rw [he]
        exact .inr ⟨Nat.le_refl _, Nat.lt_succ_self _⟩
      · exact .inl hn
    exact noted.calm.trans (follows _ _)

/-- The number under which several signals count as one is a new one, and nothing is raised. -/
theorem joint_joinAll {parts : List Signal} {n : Nat} (h : (l.joinAll parts).2 = some n) :
    n = l.nextTicket ∧ n < (l.joinAll parts).1.nextTicket ∧
      ∀ s, (l.joinAll parts).1.ending? s = l.ending? s := by
  have follows (m : Loop κ η ε ν) (x : Nat) :
      (parts.foldl (fun l s => l.follow s (.part x)) m).nextTicket = m.nextTicket ∧
        ∀ s, (parts.foldl (fun l s => l.follow s (.part x)) m).ending? s = m.ending? s := by
    clear h
    induction parts generalizing m with
    | nil => exact ⟨rfl, fun _ => rfl⟩
    | cons s rest ih =>
      obtain ⟨tickets, endings⟩ := ih (m.follow s (.part x))
      exact ⟨tickets.trans (nextTicket_follow m s _),
        fun s' => (endings s').trans (ending?_follow m s s' _)⟩
  unfold joinAll at h ⊢
  split at h
  · cases h
  · next parted =>
    obtain rfl := Option.some.inj h
    rw [if_neg parted]
    obtain ⟨tickets, endings⟩ := follows { l.newTicket.1 with
      missing := Assoc.set l.nextTicket parts.length l.newTicket.1.missing } l.nextTicket
    exact ⟨rfl, Nat.lt_of_lt_of_eq (Nat.lt_succ_self _) tickets.symm, endings⟩

/-- The end of a task is passed on to a new ticket.  This is how one waits for a task without
cancelling it when one is cancelled: only the ticket is. -/
theorem calm_shield (l : Loop κ η ε ν) (t : Nat) :
    Calm c A C C l (l.newTicket.1.follow (.ended t) (.relay (.ticket l.nextTicket))) := by
  intro g
  obtain ⟨g', same, turn, sane⟩ := (gentle_newTicket (c := c) (C := C) (A := A) l).calm g
  refine ⟨g'.follow _ _, same.trans (sameFirm_follow _ _ _), turn.trans (sameTurn_follow _ _ _),
    fun own Q hown k => ?_⟩
  obtain ⟨k', bound⟩ := sane own Q hown k
  have old (n : Nat) (hn : n < l.nextTicket) :
      (Follower.relay (.ticket l.nextTicket) : Follower η) ≠ .relay (.ticket n) := by
    intro he
    obtain rfl := Signal.ticket.inj (Follower.relay.inj he)
    exact Nat.lt_irrefl _ hn
  refine ⟨{ k'.toPunctual.follow (f := .relay (.ticket l.nextTicket)) (.ended t) nofun with
    fits := fun f s hs => ?_
    claimed := fun n hn => ?_
    relays := fun n s hs => ?_ }, fun n s b => (bound n s b).follow _ (old n b.given)⟩
  · by_cases he : Ready.follow f s = .follow (.relay (.ticket l.nextTicket)) (.ended t)
    · obtain ⟨rfl, rfl⟩ := Ready.follow.inj he
      exact ⟨_, t, rfl, rfl⟩
    · rw [pending_follow, if_neg he] at hs
      exact k'.fits f s hs
  · rw [nextTicket_follow]
    exact k'.claimed n hn
  · by_cases hn : n < l.nextTicket
    · rw [pending_follow, if_neg fun he => old n hn (Ready.follow.inj he).1.symm] at hs
      exact (bound n s (k.relays n s hs)).follow _ (old n hn)
    · -- Nothing is known yet of the new ticket.
      have unheard (s' : Signal) :
          ¬ 0 < pending Q l.newTicket.1 (.follow (.relay (.ticket n)) s') :=
        fun hs' => hn (k.relays n s' hs').given
      have same : Ready.follow (.relay (.ticket n)) s =
          (.follow (.relay (.ticket l.nextTicket)) (.ended t) : Ready η) := by
        by_contra he
        rw [pending_follow, if_neg he] at hs
        exact unheard s hs
      obtain ⟨hrelay, rfl⟩ := Ready.follow.inj same
      obtain rfl := Signal.ticket.inj (Follower.relay.inj hrelay)
      exact
        { given := by
            rw [nextTicket_follow]
            exact Nat.lt_succ_self _
          free := by
            rw [Promised, live_follow]
            exact fun hp => Nat.lt_irrefl _ (g.promised _ hp)
          unclaimed := fun hc => Nat.lt_irrefl _ (k.claimed _ hc)
          only := fun s' hs' => by
            by_contra he
            rw [pending_follow, if_neg fun heq => he (Ready.follow.inj heq).2] at hs'
            exact unheard s' hs'
          raised := fun e he => by
            rw [ending?_follow] at he
            have hraised : l.ending? (.ticket l.nextTicket) ≠ none := by
              rw [show l.ending? (.ticket l.nextTicket) = some e from he]
              simp
            exact absurd (g.raised _ hraised) (Nat.lt_irrefl _) }

/-- A new ticket may be claimed.  It is new, so nobody relies on it yet. -/
theorem calm_claim (l : Loop κ η ε ν) {C' : Nat → Prop}
    (claims : ∀ n, C' n → C n ∨ n = l.nextTicket) :
    Calm c A C C' l l.newTicket.1 := by
  intro g
  obtain ⟨g', same, turn, sane⟩ := (gentle_newTicket (c := c) (C := C) (A := A) l).calm g
  refine ⟨g', same, turn, fun own Q hown k => ?_⟩
  obtain ⟨k', bound⟩ := sane own Q hown k
  have claim (n : Nat) (s : Signal) (b : Bound c C Q l n s) : Bound c C' Q l.newTicket.1 n s :=
    { bound n s b with
      unclaimed := fun hn => by
        rcases claims n hn with hn | rfl
        · exact b.unclaimed hn
        · exact Nat.lt_irrefl _ b.given }
  refine ⟨{ k' with
    claimed := fun n hn => ?_
    relays := fun n s hs => claim n s (k.relays n s hs) }, claim⟩
  rcases claims n hn with hn | rfl
  · exact k'.claimed n hn
  · exact Nat.lt_succ_self _

/-! ## Tasks that begin -/

theorem Firmly.of_create (h : l.Fresh) {job : κ} (firmly : (l.create job).1.Firmly c s) :
    l.Firmly c s := by
  obtain ⟨t, j, ht, hj, firm⟩ := firmly
  rw [waitingOn_create h] at ht
  obtain ⟨st, hst, -⟩ := Option.bind_eq_some_iff.mp ht
  rw [jobOf_create, jobOf_of_task? hst, Option.some_or] at hj
  exact ⟨t, j, ht, (jobOf_of_task? hst).trans hj, firm⟩

theorem Guarded.create (g : Guarded c l) (job : κ) : Guarded c (l.create job).1 where
  fresh := (evolves_create l job).fresh g.fresh
  marks t st hst firm := by
    rw [task?_create l job g.fresh.task?_next] at hst
    split at hst
    · cases hst
      rfl
    · exact g.marks t st hst firm
  targets t u ht := by
    rw [waitingOn_create g.fresh] at ht
    exact (g.targets t u ht).evolve (evolves_create l job)
  askers t id ht := by
    rw [waitingOn_create g.fresh] at ht
    obtain ⟨j, hj, firm⟩ := g.askers t id ht
    exact ⟨j, by rw [jobOf_create, hj, Option.some_or], firm⟩
  limits id t ht := (g.limits id t ht).evolve (evolves_create l job)
  alarms := g.alarms
  missing := g.missing
  promised := g.promised
  raised := g.raised
  waits t s ht := by
    rw [waitingOn_create g.fresh] at ht
    exact g.waits t s ht
  alone t u s alone ht hu := by
    rw [waitingOn_create g.fresh] at ht hu
    exact g.alone t u s alone ht hu
  steady s lone firmly := g.steady s lone (firmly.of_create g.fresh)
  answers := g.answers

theorem Bound.create (b : Bound c C Q l n s) (h : l.Fresh) (job : κ) :
    Bound c C Q (l.create job).1 n s where
  given := b.given
  free := b.free
  unclaimed := b.unclaimed
  only s' hs := by
    rw [pending_create, if_neg nofun] at hs
    exact b.only s' hs
  raised e he :=
    (b.raised e he).imp_left (.imp_right fun loose firmly => loose (firmly.of_create h))

theorem Sane.create (k : Sane c C own Q l) (h : l.Fresh) (job : κ) (hown : own ≠ some l.nextTask) :
    Sane c C own Q (l.create job).1 :=
  { k.toPunctual.create job hown with
    fits := fun f s hs => by
      rw [pending_create, if_neg nofun] at hs
      exact k.fits f s hs
    claimed := k.claimed
    relays := fun n s hs => by
      rw [pending_create, if_neg nofun] at hs
      exact (k.relays n s hs).create h job }

theorem sameTurn_create (h : l.Fresh) (job : κ) : SameTurn l (l.create job).1 := by
  refine ⟨rfl, (evolves_create l job).next, fun t j hj => ?_,
    waitingOn_create h job, fun t ht => ?_, fun t s _ ht => .of_same ?_ rfl⟩
  · rw [jobOf_create, hj, Option.some_or]
  · rw [expected_create, if_neg fun he => Nat.ne_of_lt ht (Ready.start.inj he), Nat.add_zero]
  · obtain ⟨st, hst, -⟩ := Option.bind_eq_some_iff.mp ht
    rw [task?_create l job h.task?_next, if_neg fun he => ?_]
    rw [he, h.task?_next] at hst
    cases hst

/-- A task may begin that is not firm. -/
theorem calm_create {k : κ} (l : Loop κ η ε ν) (loose : ¬ c.firm l.nextTask k) :
    Calm c A C C l (l.create k).1 := by
  refine fun g => ⟨g.create k, .of_endings (evolves_create l k) (Nat.le_refl _) (fun t j firm => ?_)
    (fun _ => rfl) fun t s ht => ?_, sameTurn_create g.fresh k, fun own Q hown sane =>
      ⟨sane.create g.fresh k fun he => ?_, fun n s b => b.create g.fresh k⟩⟩
  · rw [g.fresh.jobOf_create]
    split
    · next ht =>
      rw [ht, jobOf, g.fresh.task?_next, Option.map_none]
      refine ⟨fun he => absurd firm ?_, fun h => by cases h⟩
      rwa [← Option.some.inj he, ht]
    · exact Iff.rfl
  · rwa [waitingOn_create g.fresh] at ht
  · exact Nat.lt_irrefl _ (hown _ he)

/-! ## Turns -/

theorem Bound.drop (b : Bound c C (i ::ₘ Q) l n s) : Bound c C Q l n s :=
  { b with
    only := fun s' hs => b.only s' (Nat.lt_of_lt_of_le hs (by
      rw [pending_cons]
      omega)) }

theorem Sane.drop (k : Sane c C own (i ::ₘ Q) l) : Sane c C own Q l := by
  have le (j : Ready η) : pending Q l j ≤ pending (i ::ₘ Q) l j := by
    rw [pending_cons]
    omega
  exact
    { k.toPunctual.drop with
      fits := fun f s hs => k.fits f s (Nat.lt_of_lt_of_le hs (le _))
      claimed := k.claimed
      relays := fun n s hs => (k.relays n s (Nat.lt_of_lt_of_le hs (le _))).drop }

theorem Bound.gather (b : Bound c C Q l n s) :
    Bound c C (Q + (l.ready : Multiset (Ready η))) { l with ready := [] } n s :=
  { b with
    only := fun s' hs => by
      rw [pending_gather] at hs
      exact b.only s' hs }

theorem Sane.gather (k : Sane c C own Q l) :
    Sane c C own (Q + (l.ready : Multiset (Ready η))) { l with ready := [] } :=
  { k.toPunctual.gather with
    fits := fun f s hs => by
      rw [pending_gather] at hs
      exact k.fits f s hs
    claimed := k.claimed
    relays := fun n s hs => by
      rw [pending_gather] at hs
      exact (k.relays n s hs).gather }

theorem Guarded.gather (g : Guarded c l) : Guarded c { l with ready := [] } :=
  { g with }

theorem Sane.begin (k : Sane c C none (.start t ::ₘ Q) l) : Sane c C (some t) Q l :=
  { k.drop with toPunctual := k.toPunctual.begin }

/-- It becomes the turn of a task. -/
theorem Guarded.turnTo (g : Guarded c l) (t : Nat) : Guarded c { l with current := t } :=
  { g with }

theorem Bound.turnTo (b : Bound c C Q l n s) (t : Nat) : Bound c C Q { l with current := t } n s :=
  { b with }

theorem Sane.turnTo (k : Sane c C own Q l) (t : Nat) : Sane c C own Q { l with current := t } :=
  { k with relays := fun n s hs => (k.relays n s hs).turnTo t }

/-- Only a firm task that starts to wait makes a wait firm. -/
theorem Firmly.of_setTask {st : TaskState κ} (firmly : (l.setTask t st).Firmly c s) :
    l.Firmly c s ∨ st.waiting = some s ∧ c.firm t st.job := by
  obtain ⟨u, j, hu, hj, firm⟩ := firmly
  rw [waitingOn_setTask] at hu
  rw [jobOf, task?_setTask] at hj
  split at hu
  · next he =>
    rw [if_pos he] at hj
    obtain rfl := Option.some.inj hj
    exact .inr ⟨hu, he ▸ firm⟩
  · next hne =>
    rw [if_neg hne] at hj
    exact .inl ⟨u, j, hu, hj, firm⟩

theorem Bound.setTask (b : Bound c C Q l n s) {st : TaskState κ}
    (unraised : st.waiting = some (.ticket n) → c.firm t st.job → l.ending? (.ticket n) = none) :
    Bound c C Q (l.setTask t st) n s :=
  { b with
    only := fun s' hs => by
      rw [pending_setTask] at hs
      exact b.only s' hs
    raised := fun e he => by
      refine (b.raised e he).imp_left (.imp_right fun loose firmly => ?_)
      rcases firmly.of_setTask with firmly | ⟨waiting, firm⟩
      · exact loose firmly
      · cases (unraised waiting firm).symm.trans he }

theorem sameFirm_setTask {st st' : TaskState κ} (hst : l.task? t = some st) (job : st'.job = st.job)
    (waits : ∀ n, st'.waiting = some (.turn n) → A (.turn n)) :
    SameFirm c A l (l.setTask t st') := by
  have hjob : l.jobOf t = some st'.job := job ▸ jobOf_of_task? hst
  have same : SameJobs l (l.setTask t st') := (SameJobs.refl l).setTask hjob
  exact
    { evolves := same.evolves
      tickets := Nat.le_refl _
      jobs := fun u j _ => by rw [same.jobs u]
      stays := fun _ _ he => he
      answers := fun _ hid => .inl hid
      turns := fun _ hn => .inl hn
      waits := fun u n hu => by
        rw [waitingOn_setTask] at hu
        split at hu
        · exact .inr (waits _ hu)
        · exact .inl hu }

/-- What a task with a job may wait for: only a firm one for an answer, and no two for the same of
what is for one alone.  A wait for the same signal by two tasks would make a cancellation of the one
reach the other. -/
def MayWait (c : Custom κ η) (l : Loop κ η ε ν) (t : Nat) (job : κ) (s : Signal) : Prop :=
  match s with
  | .ended u => l.Exposed c u
  | .answer _ => c.firm t job
  | s => s.Given l.nextTicket ∧ ∀ u, l.waitingOn u ≠ some s

theorem MayWait.given (h : l.MayWait c t job s) : s.Given l.nextTicket := by
  cases s with
  | ended | answer => trivial
  | ticket | joint | outside | turn => exact h.1

theorem MayWait.unclaimed (h : l.MayWait c t job s) (alone : s.Private) (u : Nat) :
    l.waitingOn u ≠ some s := by
  cases s with
  | ended | answer => exact alone.elim
  | ticket | joint | outside | turn => exact h.2 u

/-- A task may wait for what it may wait for, without a mark, or for nothing.  What others wait for
is unchanged, so the conditions are about this task alone. -/
theorem Guarded.setTask (g : Guarded c l) {st st' : TaskState κ} (hst : l.task? t = some st)
    (job : st'.job = st.job) (mark : st'.mustCancel = false)
    (waiting : ∀ s, st'.waiting = some s → l.MayWait c t st.job s ∧
      (c.firm t st.job → l.ending? s = none)) : Guarded c (l.setTask t st') := by
  have evolves : Evolves l (l.setTask t st') :=
    ((SameJobs.refl l).setTask (job ▸ jobOf_of_task? hst)).evolves
  -- Whoever waits for something waited for it before, or is the task.
  have waits (u : Nat) (s : Signal) (hu : (l.setTask t st').waitingOn u = some s) :
      l.waitingOn u = some s ∨ u = t ∧ l.MayWait c t st.job s := by
    rw [waitingOn_setTask] at hu
    split at hu
    · next he => exact .inr ⟨he, (waiting s hu).1⟩
    · exact .inl hu
  exact
    { fresh := evolves.fresh g.fresh
      marks := fun u w hw firm => by
        rw [task?_setTask] at hw
        split at hw
        · cases hw
          exact mark
        · exact g.marks u w hw firm
      targets := fun u v hu => by
        refine Exposed.evolve ?_ evolves
        rcases waits u _ hu with hu | ⟨-, hu⟩
        · exact g.targets u v hu
        · exact hu
      askers := fun u id hu => by
        rw [jobOf, task?_setTask]
        rcases waits u _ hu with hu | ⟨rfl, hfirm⟩
        · obtain ⟨j, hj, firm⟩ := g.askers u id hu
          split
          · next he =>
            rw [he, jobOf_of_task? hst] at hj
            obtain rfl := Option.some.inj hj
            exact ⟨st'.job, rfl, job ▸ firm⟩
          · exact ⟨j, hj, firm⟩
        · rw [if_pos rfl]
          exact ⟨st'.job, rfl, by rwa [job]⟩
      limits := fun id u hu => (g.limits id u hu).evolve evolves
      alarms := g.alarms
      missing := g.missing
      promised := g.promised
      raised := g.raised
      waits := fun u s hu => by
        rcases waits u _ hu with hu | ⟨-, hu⟩
        · exact g.waits u s hu
        · exact hu.given
      alone := fun u v s alone hu hv => by
        rcases waits u _ hu with hu | ⟨hut, may⟩ <;> rcases waits v _ hv with hv | ⟨hvt, may'⟩
        · exact g.alone u v s alone hu hv
        · exact absurd hu (may'.unclaimed alone u)
        · exact absurd hv (may.unclaimed alone v)
        · exact hut.trans hvt.symm
      steady := fun s lone firmly => by
        rcases firmly.of_setTask with firmly | ⟨hs, firm⟩
        · exact g.steady s lone firmly
        · rw [show (l.setTask t st').ending? s = none from (waiting s hs).2 (job ▸ firm)]
          exact (Option.some_ne_none _).symm
      answers := g.answers }

theorem Guarded.wake (g : Guarded c l) {st : TaskState κ} (hst : l.task? t = some st) :
    Guarded c (l.setTask t { st with waiting := none, mustCancel := false }) :=
  g.setTask hst rfl rfl nofun

theorem Sane.wake {st : TaskState κ} (k : Sane c C none (.follow (.resume t) s ::ₘ Q) l)
    (hst : l.task? t = some st) : l.waitingOn t = some s ∧
      Sane c C (some t) Q (l.setTask t { st with waiting := none, mustCancel := false }) := by
  obtain ⟨hwaiting, hpunctual⟩ := k.toPunctual.wake hst
  refine ⟨hwaiting, { hpunctual with
    fits := fun f s hs => ?_
    claimed := k.claimed
    relays := fun n s hs => ?_ }⟩
  · rw [pending_setTask] at hs
    exact k.drop.fits f s hs
  · rw [pending_setTask] at hs
    exact (k.drop.relays n s hs).setTask nofun

/-! ## Waits -/

section Waits

variable {st : TaskState κ}

theorem Bound.asleep {s' : Signal} (b : Bound c C Q l n s')
    (unraised : c.firm t st.job → l.ending? s = none) : Bound c C Q (l.asleep t st s) n s' :=
  have asleep : Bound c C Q (l.setTask t { st with waiting := some s, mustCancel := false }) n s' :=
    b.setTask fun hs firm => by
      rw [← Option.some.inj hs]
      exact unraised firm
  asleep.follow s nofun

variable (hst : l.task? t = some st)
include hst

theorem Guarded.asleep (g : Guarded c l) (may : l.MayWait c t st.job s)
    (unraised : c.firm t st.job → l.ending? s = none) : Guarded c (l.asleep t st s) := by
  have g' : Guarded c (l.setTask t { st with waiting := some s, mustCancel := false }) :=
    g.setTask hst rfl rfl fun s' hs => Option.some.inj hs ▸ ⟨may, unraised⟩
  exact g'.follow s (.resume t)

theorem sameFirm_asleep (waits : ∀ n, s = .turn n → A s) : SameFirm c A l (l.asleep t st s) :=
  have asleep : SameFirm c A l (l.setTask t { st with waiting := some s, mustCancel := false }) :=
    sameFirm_setTask hst rfl fun n hs => by
      obtain rfl := Option.some.inj hs
      exact waits n rfl
  asleep.trans (sameFirm_follow _ _ _)

theorem Sane.asleep (k : Sane c C (some t) Q l) (unraised : c.firm t st.job → l.ending? s = none) :
    Sane c C none Q (l.asleep t st s) :=
  { k.toPunctual.asleep hst s with
    fits := fun f s' hs => by
      by_cases he : Ready.follow f s' = .follow (.resume t) s
      · obtain ⟨rfl, rfl⟩ := Ready.follow.inj he
        trivial
      · rw [pending_asleep, if_neg he] at hs
        exact k.fits f s' hs
    claimed := fun n hn => by
      rw [nextTicket_asleep]
      exact k.claimed n hn
    relays := fun n s' hs => by
      rw [pending_asleep, if_neg nofun] at hs
      exact (k.relays n s' hs).asleep unraised }

/-- A task that is to be cancelled cancels what it starts to wait for.  Of this no other task hears
without its being counted.  A mark that is acted upon here was counted when it was made. -/
theorem soft_suspend (g : Guarded c l) (may : l.MayWait c t st.job s)
    (unraised : c.firm t st.job → l.ending? s = none) :
    Soft c C A (l.asleep t st s) (Machine.suspend l t s) ∧ ∀ u s', u ≠ t → s'.Private →
      (l.asleep t st s).waitingOn u = some s' →
        Counts (l.asleep t st s) (Machine.suspend l t s) u s' := by
  have g' := g.asleep hst may unraised
  rw [Machine.suspend, hst]
  dsimp only
  split
  · next marked =>
    -- A firm task is never marked, so this one may be cancelled.
    have loose : ¬ c.firm t st.job := fun firm => by
      rw [g.marks t st hst firm] at marked
      cases marked
    split
    · next other =>
      have cancelled : Gentle c C A (l.asleep t st (.ended other)) _ :=
        gentle_cancel g' (may.evolve (sameJobs_asleep hst (.ended other)).evolves)
      exact ⟨cancelled.toSoft, fun u s' _ => cancelled.counts u s'⟩
    · next hne =>
      have given := may.given
      have waits : (l.asleep t st s).waitingOn t = some s := by rw [waitingOn_asleep, if_pos rfl]
      have borne : (l.asleep t st s).Borne c s := by
        refine ⟨t, waits, ?_⟩
        exact (g.exposed (jobOf_of_task? hst) loose).evolve (sameJobs_asleep hst s).evolves
      rw [← nextTicket_asleep l t st s] at given
      refine ⟨soft_raise (l.asleep t st s) ⟨fun _ => borne, ?_⟩, fun u s' hu hs' hwaits =>
        counts_raise _ (.inl fun same => ?_) u⟩
      · cases s with
        | ended u => exact absurd rfl (hne u)
        | turn n | answer id => exact .inr rfl
        | joint n | outside n => exact given
        | ticket n => exact ⟨given, .inr (.inl rfl)⟩
      · subst same
        exact hu (g'.alone u t s' hs' hwaits waits)
  · exact ⟨.refl (l.asleep t st s), fun u s' _ _ _ => .refl _ u s'⟩

theorem Guarded.suspend (g : Guarded c l) (may : l.MayWait c t st.job s)
    (unraised : c.firm t st.job → l.ending? s = none) (waits : ∀ n, s = .turn n → A s) :
    Guarded c (Machine.suspend l t s) ∧ SameFirm c A l (Machine.suspend l t s) := by
  obtain ⟨soft, -⟩ := soft_suspend (C := fun _ => False) (A := A) hst g may unraised
  have g' := g.asleep hst may unraised
  exact ⟨soft.guarded g', (sameFirm_asleep hst waits).trans (soft.sameFirm g')⟩

theorem Sane.suspend (g : Guarded c l) (k : Sane c C (some t) Q l) (may : l.MayWait c t st.job s)
    (unraised : c.firm t st.job → l.ending? s = none) :
    Sane c C none Q (Machine.suspend l t s) ∧
      (∀ n s', Bound c C Q l n s' → Bound c C Q (Machine.suspend l t s) n s') ∧
        ∀ u s', u ≠ t → s'.Private → l.waitingOn u = some s' →
          Counts l (Machine.suspend l t s) u s' := by
  obtain ⟨soft, counts⟩ := soft_suspend (C := C) (A := fun _ => False) hst g may unraised
  have g' := g.asleep hst may unraised
  refine ⟨soft.sane g' (k.asleep hst unraised), fun n s' b => soft.bound g' (b.asleep unraised),
    fun u s' hu hs' hwaits => ?_⟩
  have slept : Counts l (l.asleep t st s) u s' := by
    refine .of_same ?_ (ending?_follow _ _ _ _)
    rw [Loop.asleep, (SameTasks.follow (.refl _) s (.resume t)).task?, task?_setTask, if_neg hu]
  exact slept.trans (counts u s' hu hs' (by rw [waitingOn_asleep, if_neg hu, hwaits]))

end Waits

/-! ## Ends -/

theorem ending?_finish (l : Loop κ η ε ν) (t : Nat) (e : Ending ε ν) {s : Signal}
    (hs : s ≠ .ended t) :
    (l.finish t e).ending? s = l.ending? s := by
  rw [finish, ending?_raise, if_neg fun h => hs h.1]
  rfl

/-- What has been raised stays so at the end of a task. -/
theorem stays_finish (l : Loop κ η ε ν) (t : Nat) (e : Ending ε ν) (s : Signal) (e' : Ending ε ν)
    (h : l.ending? s = some e') : (l.finish t e).ending? s = some e' :=
  (mild_raise { l with tasks := Assoc.erase t l.tasks } (.ended t) e).stays s e' h

theorem nextTicket_finish (l : Loop κ η ε ν) (t : Nat) (e : Ending ε ν) :
    (l.finish t e).nextTicket = l.nextTicket :=
  nextTicket_raise _ _ _

theorem waitingOn_finish (l : Loop κ η ε ν) (t u : Nat) (e : Ending ε ν) :
    (l.finish t e).waitingOn u = if u = t then none else l.waitingOn u := by
  rw [waitingOn, task?_finish]
  split <;> rfl

theorem Firmly.of_finish {e : Ending ε ν} (firmly : (l.finish t e).Firmly c s) : l.Firmly c s := by
  obtain ⟨u, j, hu, hj, firm⟩ := firmly
  rw [waitingOn_finish] at hu
  rw [jobOf_finish] at hj
  split at hu
  · cases hu
  · next hne =>
    rw [if_neg hne] at hj
    exact ⟨u, j, hu, hj, firm⟩

theorem Guarded.finish (g : Guarded c l) (t : Nat) (e : Ending ε ν) : Guarded c (l.finish t e) := by
  have evolves := evolves_finish l t e
  have hnext := nextTicket_finish l t e
  have hlive : (l.finish t e).live = l.live := live_raise _ _ _
  have hmissing : (l.finish t e).missing = l.missing := missing_raise _ _ _
  -- The task itself waits for nothing any more, and the others for what they waited for.
  have waits (u : Nat) (s : Signal) (hu : (l.finish t e).waitingOn u = some s) :
      u ≠ t ∧ l.waitingOn u = some s := by
    rw [waitingOn_finish] at hu
    split at hu
    · cases hu
    · next hne => exact ⟨hne, hu⟩
  exact
    { fresh := evolves.fresh g.fresh
      marks := fun u st hst => by
        rw [task?_finish] at hst
        split at hst
        · cases hst
        · exact g.marks u st hst
      targets := fun u v hu => (g.targets u v (waits u _ hu).2).evolve evolves
      askers := fun u id hu => by
        obtain ⟨hne, hu⟩ := waits u _ hu
        rw [jobOf_finish, if_neg hne]
        exact g.askers u id hu
      limits := fun id u hu => (g.limits id u (hlive ▸ hu)).evolve evolves
      alarms := fun id s hs => g.alarms id s (hlive ▸ hs)
      missing := fun n hn => by
        rw [hmissing] at hn
        rw [hnext]
        exact g.missing n hn
      promised := fun n hn => by
        rw [Promised, hlive] at hn
        rw [hnext]
        exact g.promised n hn
      raised := fun s hs => by
        rw [hnext]
        by_cases he : s = .ended t
        · subst he
          trivial
        · rw [ending?_finish l t e he] at hs
          exact g.raised s hs
      waits := fun u s hu => by
        rw [hnext]
        exact g.waits u s (waits u _ hu).2
      alone := fun u v s alone hu hv => g.alone u v s alone (waits u _ hu).2 (waits v _ hv).2
      steady := fun s lone firmly => by
        rw [ending?_finish l t e (by
          rintro rfl
          exact lone.elim)]
        exact g.steady s lone firmly.of_finish
      answers := fun id => by
        rw [ending?_finish l t e (s := .answer id) nofun]
        exact g.answers id }

/-- Where a task ends that is not firm the firm tasks are the same. -/
theorem sameFirm_finish (loose : ∀ job, l.jobOf t = some job → ¬ c.firm t job) (e : Ending ε ν) :
    SameFirm c A l (l.finish t e) := by
  refine
    { evolves := evolves_finish l t e
      tickets := Nat.le_of_eq (nextTicket_finish l t e).symm
      jobs := fun u job firm => ?_
      stays := stays_finish l t e
      answers := fun id hid => .inl ?_
      turns := fun n hn => .inl ?_
      waits := fun u n hu => .inl ?_ }
  · rw [jobOf_finish]
    split
    · next hu =>
        exact ⟨fun h => (by cases h), fun hjob => absurd (hu ▸ firm) (loose job (hu ▸ hjob))⟩
    · exact Iff.rfl
  · rwa [ending?_finish l t e (s := .answer id) fun h => by cases h] at hid
  · rwa [ending?_finish l t e (s := .turn n) fun h => by cases h] at hn
  · rw [waitingOn_finish] at hu
    split at hu
    · cases hu
    · exact hu

theorem pending_finish (l : Loop κ η ε ν) (t : Nat) (e : Ending ε ν) (i : Ready η) :
    pending Q (l.finish t e) i = pending Q l i :=
  pending_congr (fun i => expected_raise _ _ _ i) i

theorem Bound.finish (b : Bound c C Q l n s) (t : Nat) (e : Ending ε ν) :
    Bound c C Q (l.finish t e) n s where
  given := by
    rw [nextTicket_finish]
    exact b.given
  free := by
    rw [Promised, show (l.finish t e).live = l.live from live_raise _ _ _]
    exact b.free
  unclaimed := b.unclaimed
  only s' hs := by
    rw [pending_finish] at hs
    exact b.only s' hs
  raised e' he := by
    rw [ending?_finish l t e (s := .ticket n) nofun] at he
    exact (b.raised e' he).imp (.imp_right fun loose firmly => loose firmly.of_finish)
      (stays_finish l t e s e')

theorem Sane.finish (k : Sane c C own Q l) (hlt : t < l.nextTask) (hwaiting : l.waitingOn t = none)
    (e : Ending ε ν) : Sane c C none Q (l.finish t e) :=
  { k.toPunctual.finish hlt hwaiting e with
    fits := fun f s hs => by
      rw [pending_finish] at hs
      exact k.fits f s hs
    claimed := fun n hn => by
      rw [nextTicket_finish]
      exact k.claimed n hn
    relays := fun n s hs => by
      rw [pending_finish] at hs
      exact (k.relays n s hs).finish t e }

/-! ## What is passed on -/

/-- A ticket that has been given out may be raised in any way, as far as what is guarded is
concerned. -/
theorem Guarded.raise_ticket (g : Guarded c l) (given : n < l.nextTicket) (e : Ending ε ν) :
    Guarded c (l.raise (.ticket n) e) := by
  refine g.congr (.raise (.refl l) _ e) (live_raise l _ e) (missing_raise l _ e)
    (nextTicket_raise l _ e)
    fun s => ?_
  rw [ending?_raise]
  split
  · next h => exact .inr ⟨n, h.1, given⟩
  · exact .inl rfl

theorem sameFirm_raise_ticket (l : Loop κ η ε ν) (n : Nat) (e : Ending ε ν) :
    SameFirm c A l (l.raise (.ticket n) e) := by
  have same : SameTasks l (l.raise (.ticket n) e) := .raise (.refl l) _ e
  have mild := mild_raise l (.ticket n) e
  have other {s : Signal} (hs : s ≠ .ticket n) :
      (l.raise (.ticket n) e).ending? s = l.ending? s := by
    rw [ending?_raise, if_neg fun h => hs h.1]
  exact
    { evolves := same.evolves
      tickets := mild.nextTicket
      jobs := fun u j _ => by rw [same.sameJobs.jobs u]
      stays := mild.stays
      answers := fun id hid => .inl (by rwa [other (s := .answer id) nofun] at hid)
      turns := fun x hx => .inl (by rwa [other (s := .turn x) nofun] at hx)
      waits := fun u x hu => .inl (by rwa [waitingOn_of_sameTasks same] at hu) }

/-- A ticket that is bound to a signal is raised as that was; other tickets stay bound. -/
theorem Bound.relay {x : Nat} {e : Ending ε ν} (b : Bound c C Q l n s)
    (source : n = x → l.ending? s = some e) : Bound c C Q (l.raise (.ticket x) e) n s where
  given := by
    rw [nextTicket_raise]
    exact b.given
  free := by
    rw [Promised, live_raise]
    exact b.free
  unclaimed := b.unclaimed
  only s₁ hs₁ := by
    rw [pending_congr (expected_raise l _ _)] at hs₁
    exact b.only s₁ hs₁
  raised e' he' := by
    have same : SameTasks l (l.raise (.ticket x) e) := .raise (.refl l) _ e
    have stays := (mild_raise l (.ticket x) e).stays s e'
    rw [ending?_raise] at he'
    split at he'
    · next h =>
      rw [← Option.some.inj he'] at stays ⊢
      exact .inr (stays (source (Signal.ticket.inj h.1)))
    · refine (b.raised e' he').imp (.imp_right fun loose ⟨t, job, ht, hjob, firm⟩ => loose ?_) stays
      exact ⟨t, job, by rwa [← waitingOn_of_sameTasks same], by rwa [← same.sameJobs.jobs t], firm⟩

/-- The end of a task is passed on to the ticket that is bound to it.  The ticket is raised as the
signal was, and that is the purpose for which it was given. -/
theorem Sane.relay (g : Guarded c l) (k : Sane c C none (.follow (.relay s') s ::ₘ Q) l) :
    let m := l.raise s' ((l.ending? s).getD .cancelled)
    Guarded c m ∧ SameFirm c A l m ∧ Sane c C none Q m ∧
      ∀ n s'', Bound c C (.follow (.relay s') s ::ₘ Q) l n s'' → Bound c C Q m n s'' := by
  have here : 0 < pending (.follow (.relay s') s ::ₘ Q) l (.follow (.relay s') s) := by
    rw [pending_cons, if_pos rfl]
    exact Nat.succ_pos _
  obtain ⟨x, t, rfl, rfl⟩ := k.fits _ _ here
  have given := (k.relays x _ here).given
  obtain ⟨e, he⟩ := Option.ne_none_iff_exists'.1 (k.raised _ _ (.inl (Multiset.mem_cons_self _ _)))
  rw [he, Option.getD_some]
  -- The ticket that is raised is bound to the signal that is passed on; what binds the others is
  -- not touched.
  have bound (y : Nat) (s'' : Signal)
      (hy : Bound c C (.follow (.relay (.ticket x)) (.ended t) ::ₘ Q) l y s'') :
      Bound c C Q (l.raise (.ticket x) e) y s'' := by
    refine hy.drop.relay fun hyx => ?_
    subst hyx
    obtain rfl := hy.only _ here
    exact he
  have still : Still l (l.raise (.ticket x) e) := by
    refine (mild_raise l (.ticket x) e).still ?_
    rintro s₁ e₁ ⟨rfl, -⟩ u h
    cases h
  refine ⟨g.raise_ticket given e, sameFirm_raise_ticket l x e, ?_, bound⟩
  exact
    { k.toPunctual.drop.still still with
      fits := fun f s hs => by
        rw [pending_congr (expected_raise l _ _)] at hs
        exact k.drop.fits f s hs
      claimed := fun n hn => by
        rw [nextTicket_raise]
        exact k.claimed n hn
      relays := fun n s hs => by
        rw [pending_congr (expected_raise l _ _)] at hs
        refine bound n s (k.relays n s (Nat.lt_of_lt_of_le hs ?_))
        rw [pending_cons]
        omega }

/-! ## The first loop -/

theorem Guarded.empty : Guarded c ({} : Loop κ η ε ν) where
  fresh _ ht := absurd rfl ht
  marks := nofun
  targets := nofun
  askers := nofun
  limits := nofun
  alarms := nofun
  missing _ hn := absurd rfl hn
  promised := nofun
  raised _ hs := absurd rfl hs
  waits := nofun
  alone := nofun
  steady := nofun
  answers := nofun

theorem Sane.empty (unclaimed : ∀ n, ¬ C n) : Sane c C none 0 ({} : Loop κ η ε ν) := by
  have none_pending (i : Ready η) : ¬ 0 < pending 0 ({} : Loop κ η ε ν) i := by
    cases i <;> simp [pending, expected, signalState, Assoc.get?]
  exact
    { Punctual.empty with
      fits := fun f s hs => absurd hs (none_pending _)
      claimed := fun n hn => absurd hn (unclaimed n)
      relays := fun n s hs => absurd hs (none_pending _) }

end Loop

end PikeAnalysis.Concurrency
