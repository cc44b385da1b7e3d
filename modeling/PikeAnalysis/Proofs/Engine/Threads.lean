import PikeAnalysis.Proofs.Engine.Sharing

/-!
# The threads of requests

A request is a thread of the bridge in a task of its own, and so are the starting and the stopping
of the worker.  What a step of the bridge leaves of the thread whose step it is (`Left`) says what
its task does next: it ends, or waits for what the thread waits for.

A thread leaves its stage for a later one whenever it goes on, so a task never waits more often than
it may (`heeds_runThread`).  Nobody cancels the task of a request, which therefore goes on from
every wait with what it waits for done, and does not end as cancelled (`heeds_requestBody`).  The
other tasks may be cancelled in any of their waits, and have no request to lose
(`suits_bridgeThread`).

The fuel with which a task drives its thread is not a limit of the program: a thread has finitely
many stages and never goes back, so that a task which goes on with it waits no more often than there
are stages ahead.  `Left` carries the bound, and `heeds_runThread` uses it at the end of the fuel,
where a thread that still waits would have a stage of rank zero, which there is not.

For the task of a request the charter then gives more than for others.  Each of its waits is over
because what was waited for is done, never because the task was cancelled, so the bridge is never
told that it gave up.
-/

namespace PikeAnalysis.Engine.Sharing

open PikeAnalysis.Concurrency
open PikeAnalysis.Concurrency.Loop (Calm)

variable {spared : Nat → Prop} {s s' : State} {t limit : Nat} {may : Prop}
  {job : Job} {bjob : Bridge.Job} {e : Bridge.Event}

/-! ## Steps of a thread -/

/-- A turn at a lock for which a task may wait: it has been given out to nobody else, and is still
to come.  Whoever waits for it is then the only one who does. -/
structure Awaitable (s : State) (n : Nat) : Prop where
  given : GivenTurn s n
  unraised : s.loop.ending? (.turn n) = none
  unclaimed : ∀ v, s.loop.waitingOn v ≠ some (.turn n)

/-- What is left of a thread after a step of it.  It ends, or waits at a stage of no higher rank
than the limit. -/
inductive Left (t : Nat) (bjob : Bridge.Job) (limit : Nat) (may : Prop) (s : State) :
    Option Next → Prop
  | nothing (gone : Gone t s) : Left t bjob limit may s none
  | ends (outcome : Bridge.Outcome) (gone : Gone t s)
      (asked : ∀ id, outcome = .answered id → bjob.IsRequest)
      (cancelled : outcome = .cancelled → may) :
    Left t bjob limit may s (some (.ends outcome))
  | waits (on : Bridge.Wait) (thread : Bridge.Thread)
    (has : Assoc.get? t s.bridge.threads = some thread)
      (same : thread.job = bjob ∨ ¬ bjob.IsRequest ∧ ¬ thread.job.IsRequest)
      (proper : thread.Proper)
      (fits : on.Fits thread.stage) (turn : ∀ n, on = .turn n → Awaitable s n)
      (rank : thread.stage.rank ≤ limit) :
    Left t bjob limit may s (some (.waits on))

theorem Left.mono {limit' : Nat} {may' : Prop} {next : Option Next}
    (h : Left t bjob limit may s next)
    (le : limit ≤ limit') (imp : may → may') : Left t bjob limit' may' s next := by
  cases h with
  | nothing gone => exact .nothing gone
  | ends outcome gone asked cancelled => exact .ends outcome gone asked fun hc => imp (cancelled hc)
  | waits on thread has same proper fits turn rank =>
    exact .waits on thread has same proper fits turn (Nat.le_trans rank le)

theorem nextOf_append {mine : Option (Nat × String)} {out : List Bridge.Effect}
    {b b' : Bridge.State}
    (h : Bridge.Within b mine out b') (more : List Bridge.Effect) :
    nextOf (out ++ more) = nextOf more := by
  have silent : nextOf out = none := by
    refine List.findSome?_eq_none_iff.mpr fun x hx => ?_
    cases x with
    | waits u on => exact absurd hx ((h.running u).1 on)
    | ends u outcome => exact absurd hx ((h.running u).2 outcome)
    | register | settle | grant | send | launched | startReaders | stopReaders | terminate | kill
    | log => rfl
  rw [nextOf, List.findSome?_append, ← nextOf, silent, Option.none_or, nextOf]

/-- What a step of the bridge does with tasks, whatever it is for. -/
theorem deals_bridgeStep (h : Tame spared (claims s) s) (e : Bridge.Event) :
    Calm (custom spared) (Raised (s.bridge.step (outside s) e).2) (claims s)
      (claims (bridgeStep e s).1) s.loop
        (bridgeStep e s).1.loop ∧
      Tame spared (claims (bridgeStep e s).1) (bridgeStep e s).1 ∧
        (bridgeStep e s).1.bridge = (s.bridge.step (outside s) e).1 := by
  have tame : Tame spared (claims s) { s with bridge := (s.bridge.step (outside s) e).1 } :=
    ⟨h.guarded, h.held, h.claimed⟩
  have deals : Deals spared (Raised (s.bridge.step (outside s) e).2)
      (claims { s with bridge := (s.bridge.step (outside s) e).1 }) (claims (bridgeStep e s).1)
      { s with bridge := (s.bridge.step (outside s) e).1 } (bridgeStep e s).1 :=
    deals_effects tame fun _ raised => raised
  exact ⟨deals.calm, deals.tame, deals.bridge⟩

/-- A step of the bridge in the turn of the task whose thread it is. -/
theorem steps_of_moves (amid : (charter spared).Amid t job s)
    (moves : Moves (some t) (s.bridge.step (outside s) e).2 s.bridge
      (s.bridge.step (outside s) e).1)
    (fits : ∀ thread, Assoc.get? t (s.bridge.step (outside s) e).1.threads = some thread →
      thread.Proper ∧ ∀ method params, thread.job = .request method params →
        s.loop.jobOf t = some (.request (Bridge.requestKey method params) method params)) :
    (charter spared).Steps t job s (bridgeStep e s).1 := by
  obtain ⟨calm, tame, bridge⟩ := deals_bridgeStep (tame_amid amid) e
  obtain ⟨-, same, turn, -⟩ := calm amid.guarded
  rw [← bridge] at moves fits
  have shared : Shared spared (bridgeStep e s).1 := by
    refine moves.shared amid.inv same tame fun u thread hu hthread => ?_
    obtain rfl := Option.some.inj hu
    obtain ⟨proper, request⟩ := fits thread hthread
    exact
      { known := Nat.lt_of_lt_of_le amid.lt_next turn.next
        proper := proper
        request := fun method params hjob => turn.stays t _ (request method params hjob) }
  exact ⟨amid_of_calm amid shared calm, respects amid.guarded calm moves.threads⟩

/-- A turn that a thread has drawn in a step is nobody else's, and not yet given. -/
theorem awaitable_of_draws (amid : (charter spared).Amid t job s) {n : Nat}
    (fresh : s.bridge.nextTicket ≤ n) (given : n < (s.bridge.step (outside s) e).1.nextTicket)
    (ungranted : .grant n ∉ (s.bridge.step (outside s) e).2)
    (steps : (charter spared).Steps t job s (bridgeStep e s).1) :
    Awaitable (bridgeStep e s).1 n := by
  obtain ⟨calm, -, bridge⟩ := deals_bridgeStep (tame_amid amid) e
  obtain ⟨-, same, -, -⟩ := calm amid.guarded
  have unclaimed (v : Nat) : s.loop.waitingOn v ≠ some (.turn n) :=
    fun hv => Nat.not_lt.mpr fresh (amid.inv.queued v n hv)
  refine ⟨by rw [GivenTurn, bridge]; exact given, ?_, fun v => ?_⟩
  · by_contra raised
    rcases same.turns n raised with old | granted | ⟨v, hv⟩
    · exact Nat.not_lt.mpr fresh (amid.inv.granted n old)
    · exact ungranted granted
    · exact unclaimed v hv
  · by_cases hv : v = t
    · have awake : (bridgeStep e s).1.loop.waitingOn t = none := steps.amid.awake
      rw [hv, awake]
      exact nofun
    · have waiting : (bridgeStep e s).1.loop.waitingOn v = s.loop.waitingOn v :=
        steps.respects.waiting v fun h => hv (Option.some.inj h).symm
      rw [waiting]
      exact unclaimed v

/-- A step of a thread in the turn of its task. -/
theorem left_bridgeStep (amid : (charter spared).Amid t job s)
    (leaves : Bridge.Leaves s.bridge t bjob limit may (s.bridge.step (outside s) e))
    (kept : ∀ thread id, Assoc.get? t s.bridge.threads = some thread →
      thread.stage.request? = some id →
      thread.job = bjob)
    (request : ∀ method params, bjob = .request method params →
      s.loop.jobOf t = some (.request (Bridge.requestKey method params) method params)) :
    (charter spared).Steps t job s (bridgeStep e s).1 ∧
      Left t bjob limit may (bridgeStep e s).1 (bridgeStep e s).2 := by
  have steps : (charter spared).Steps t job s (bridgeStep e s).1 := by
    refine steps_of_moves amid (.of_leaves leaves kept) fun thread hthread => ?_
    generalize s.bridge.step (outside s) e = p at leaves hthread
    cases leaves with
    | ends within free outcome closed asked cancelled =>
      rw [Assoc.get?_erase_self] at hthread
      cases hthread
    | waits within free waiting on same proper fits turn request' named rank =>
      rw [Assoc.get?_set_self] at hthread
      obtain rfl := Option.some.inj hthread
      refine ⟨proper, fun method params hjob => ?_⟩
      rcases same with same | ⟨-, other⟩
      · exact request method params (same.symm.trans hjob)
      · rw [hjob] at other
        exact absurd trivial other
  refine ⟨steps, ?_⟩
  -- A turn that the thread waits for was drawn in this step, so nobody else waits for it.
  have draws := fun n fresh given ungranted =>
    awaitable_of_draws (n := n) (e := e) amid fresh given ungranted steps
  obtain ⟨-, -, bridge⟩ := deals_bridgeStep (tame_amid amid) e
  have next : (bridgeStep e s).2 = nextOf (s.bridge.step (outside s) e).2 := rfl
  rw [next]
  generalize s.bridge.step (outside s) e = p at leaves bridge draws
  cases leaves with
  | @ends mine out u within free outcome closed asked cancelled =>
    rw [nextOf_append within]
    refine .ends outcome ?_ (fun id hid => ?_) cancelled
    · rw [Gone, bridge]
      exact Assoc.get?_erase_self _ _
    · obtain ⟨held, none⟩ := asked id hid
      subst none
      obtain ⟨thread, hthread, has⟩ := Option.bind_eq_some_iff.mp held
      exact kept thread id hthread has ▸ (amid.inv.threads t thread hthread).proper.asks id has
  | @waits mine out u within free thread on same proper fits turn request' named rank =>
    rw [nextOf_append within]
    refine .waits on thread ?_ same proper fits (fun n hn => ?_) rank
    · rw [bridge]
      exact Assoc.get?_set_self _ _ _
    · obtain ⟨fresh, given, ungranted⟩ := turn n hn
      refine draws n fresh given fun granted => ungranted ?_
      exact (List.mem_append.mp granted).resolve_right fun h => by simp at h

/-! ## Waits -/

open Routine

/-- The outside is given time. -/
theorem steps_delay (amid : (charter spared).Amid t job s) :
    (charter spared).Steps t job s (delay s).1 := by
  refine Deals.steps (deals_claim (tame_amid amid) rfl rfl (fun _ ht => ht) fun n hn => ?_) amid
  rcases hn with hn | hn | hn
  · exact .inl (.inl hn)
  · exact .inl (.inr (.inl hn))
  · rcases List.mem_append.mp hn with hn | hn
    · exact .inl (.inr (.inr hn))
    · exact .inr (List.mem_singleton.mp hn)

theorem suits_delayed {α : Type} {f : Ending Trouble Value → Act α}
    (next : ∀ ending, (f ending).Suits (charter spared)) :
    ((Routine.act delay).andThen fun n => .wait (.outside n) f : Act α).Suits (charter spared) :=
  suits_fresh Signal.outside (fun _ _ _ _ amid => steps_delay amid) (fun _ => Nat.lt_irrefl _)
    (fun _ => Nat.lt_succ_self _) fun _ => next

theorem suits_awaitExit (w : Nat) : (awaitExit w).Suits (charter spared) := by
  intro t job s loose amid
  unfold awaitExit
  by_cases ended : (s.bridge.exitCode? w).isSome = true
  · refine Charter.heeds_act_andThen ?_ ?_ <;> simp only [ended, if_true]
    · exact .refl amid
    · exact ⟨amid, trivial⟩
  · have asked : (charter spared).Steps t job s (({ s with loop := s.loop.newTicket.1 }).setPipes w
        { s.pipesOf w with exitWaiters := (s.pipesOf w).exitWaiters ++ [s.loop.nextTicket] }) := by
      refine Deals.steps (deals_ask (tame_amid amid) w _ rfl fun n hn => ?_) amid
      rcases List.mem_append.mp hn with hn | hn
      · exact .inl (List.mem_append_left _ hn)
      · rcases List.mem_append.mp hn with hn | hn
        · exact .inl (List.mem_append_right _ hn)
        · exact .inr (List.mem_singleton.mp hn)
    refine Charter.heeds_act_andThen ?_ ?_ <;> simp only [ended, Bool.false_eq_true, if_false]
    · exact asked
    · refine heeds_wait loose asked.amid (fun _ => ?_) fun e => ?_
      · exact Charter.may_fresh amid asked (Nat.lt_irrefl _) (Nat.lt_succ_self _)
      · exact (suits_ofEnding e).andThen fun _ => suits_done ()

/-- What a thread that is not a request's waits for.  It is no answer, as only requests wait for
those. -/
theorem heeds_waitFor_of_loose (loose : ¬ (custom spared).firm t job)
    (amid : (charter spared).Amid t job s)
    {on : Bridge.Wait} (other : ∀ id, on ≠ .answer id) (turn : ∀ n, on = .turn n → Awaitable s n) :
    (charter spared).Heeds t job (fun _ _ => True) (waitFor on) s := by
  cases on with
  | turn n =>
    obtain ⟨given, -, unclaimed⟩ := turn n rfl
    refine heeds_wait loose amid (fun _ => ⟨⟨trivial, unclaimed⟩, fun m hm => ?_⟩) fun e =>
      suits_done _
    exact Signal.turn.inj hm ▸ given
  | answer id => exact absurd rfl (other id)
  | launch | pipe => exact suits_delayed (fun _ => suits_done _) t job s loose amid
  | readers w =>
    refine ((suits_read _).andThen fun readers => (suits_awaitAll _).onEnd fun ending => ?_) t job s
      loose amid
    cases ending with
    | value | error | cancelled => exact suits_done _
  | exit w graced =>
    refine ((suits_read _).andThen fun grace => ?_) t job s loose amid
    have waits : (if graced then (awaitExit w).within grace .timedOut else awaitExit w).Suits
        (charter spared) := by
      split
      · exact suits_within _ _ (suits_awaitExit w)
      · exact suits_awaitExit w
    refine waits.onEnd fun ending => ?_
    cases ending with
    | value | error | cancelled => exact suits_done _

/-! ## Threads of other tasks -/

theorem other_of_loose (amid : (charter spared).Amid t job s) (loose : ¬ job.IsRequest)
    {thread : Bridge.Thread} (hthread : Assoc.get? t s.bridge.threads = some thread) :
    ¬ thread.job.IsRequest := by
  intro request
  cases hjob : thread.job with
  | request method params =>
    have known := (amid.inv.threads t thread hthread).request method params hjob
    rw [show s.loop.jobOf t = some job from amid.job] at known
    rw [Option.some.inj known] at loose
    exact absurd trivial loose
  | start | stop =>
    rw [hjob] at request
    cases request

/-- The thread of a task that is not a request's has no request. -/
theorem unasked_of_loose (amid : (charter spared).Amid t job s) (loose : ¬ job.IsRequest)
    {thread : Bridge.Thread} (hthread : Assoc.get? t s.bridge.threads = some thread) (id : Nat) :
    thread.stage.request? ≠ some id :=
  fun has => other_of_loose amid loose hthread
    ((amid.inv.threads t thread hthread).proper.asks id has)

/-- The thread of another task goes on. -/
theorem left_resume_of_loose (amid : (charter spared).Amid t job s) (loose : ¬ job.IsRequest)
    (how : Bridge.Resume) : (charter spared).Steps t job s (bridgeStep (.resume t how) s).1 ∧
      ∃ bjob limit, ¬ bjob.IsRequest ∧
        Left t bjob limit True (bridgeStep (.resume t how) s).1
          (bridgeStep (.resume t how) s).2 := by
  cases hthread : Assoc.get? t s.bridge.threads with
  | none =>
    have same : bridgeStep (.resume t how) s = (s, none) := by
      rw [bridgeStep, Bridge.State.step, Bridge.State.resume, hthread]
      rfl
    rw [same]
    exact ⟨.refl amid, .start, 0, id, .nothing hthread⟩
  | some thread =>
    have other := other_of_loose amid loose hthread
    have unasked := unasked_of_loose amid loose hthread
    have leaves := Bridge.leaves_resume (outside s) amid.inv.numbered how hthread
      (amid.inv.threads t thread hthread).proper (fun id has => absurd has (unasked id))
      fun id answering => absurd (by rw [answering]; rfl) (unasked id)
    obtain ⟨steps, left⟩ := left_bridgeStep (e := .resume t how) amid leaves
      (fun thread' id hthread' has => absurd has (unasked_of_loose amid loose hthread' id))
      fun method params hjob => by
        rw [hjob] at other
        exact absurd trivial other
    exact ⟨steps, _, _, other, left.mono (Nat.le_refl _) fun _ => trivial⟩

theorem answering_of_fits {id : Nat} {stage : Bridge.Stage}
    (fits : (Bridge.Wait.answer id).Fits stage) :
    stage = .answering id := by
  cases stage with
  | answering id' => rw [Bridge.Wait.answer.inj fits]
  | reaping | draining =>
    obtain ⟨w, hw⟩ := fits
    cases hw
  | queued | launching | lined | writing | terminating | killing => cases fits

theorem heeds_runThread_of_loose (loose : ¬ (custom spared).firm t job) (fuel : Nat)
    {next : Option Next}
    (amid : (charter spared).Amid t job s) (other : ¬ bjob.IsRequest)
    (left : Left t bjob limit may s next) :
    (charter spared).Heeds t job (fun _ _ => True) (runThread t fuel next) s := by
  -- Such a task may be cancelled in any wait, so the fuel is all that bounds it; what it would end
  -- with then is no concern of the charter.
  induction fuel generalizing s bjob limit may next with
  | zero =>
    cases left with
    | nothing gone => exact ⟨amid, trivial⟩
    | ends outcome gone asked cancelled =>
      cases outcome with
      | finished | failed | cancelled | unwritten => exact ⟨amid, trivial⟩
      | answered id => exact absurd (asked id rfl) other
    | waits => exact ⟨amid, trivial⟩
  | succ fuel ih =>
    cases left with
    | nothing gone => exact ⟨amid, trivial⟩
    | ends outcome gone asked cancelled =>
      cases outcome with
      | finished | failed | cancelled | unwritten => exact ⟨amid, trivial⟩
      | answered id => exact absurd (asked id rfl) other
    | waits on thread has same proper fits turn rank =>
      have unasked (id : Nat) : on ≠ .answer id := by
        rintro rfl
        have asks := proper.asks id (by rw [answering_of_fits fits]; rfl)
        rcases same with same | ⟨-, no⟩
        · exact other (same ▸ asks)
        · exact no asks
      refine (heeds_waitFor_of_loose loose amid unasked turn).andThen (fun how u amid' _ => ?_)
        (fun _ _ _ => trivial) fun _ _ => trivial
      obtain ⟨steps, bjob', limit', other', left'⟩ :=
        left_resume_of_loose amid' (not_request loose) how
      exact Charter.heeds_act_andThen steps (ih steps.amid other' left')

/-- Starting and stopping the worker suits the charter.  Neither of them has a request of its
own. -/
theorem suits_bridgeThread (other : ¬ bjob.IsRequest) :
    (bridgeThread bjob).Suits (charter spared) := by
  intro t job s loose amid
  have unasked (thread : Bridge.Thread) (found : Assoc.get? t s.bridge.threads = some thread) :
      ∀ id, thread.stage.request? ≠ some id :=
    unasked_of_loose amid (not_request loose) found
  have free : Bridge.held s.bridge t none = none := by
    by_contra has
    obtain ⟨id, hid⟩ := Option.ne_none_iff_exists'.mp has
    obtain ⟨thread, hthread, asks⟩ := Option.bind_eq_some_iff.mp hid
    exact unasked thread hthread id asks
  obtain ⟨steps, left⟩ := left_bridgeStep (e := .begin t bjob) amid
    (Bridge.leaves_begin (outside s) amid.inv.numbered free bjob)
    (fun thread id hthread has => absurd has (unasked thread hthread id))
      fun method params hjob => by
      rw [hjob] at other
      exact absurd trivial other
  have current : s.loop.current = t := amid.current
  refine Charter.heeds_read_andThen ?_
  rw [current]
  exact Charter.heeds_act_andThen steps
    (heeds_runThread_of_loose loose threadFuel steps.amid other left)

/-! ## Threads of requests -/

variable {key method : String} {params : List (String × Json)}

/-- The thread of a request's task may go on, or there is none any more. -/
def Awake (t : Nat) (method : String) (params : List (String × Json)) (limit : Nat)
    (s : State) : Prop :=
  Gone t s ∨ ∃ stage, Assoc.get? t s.bridge.threads =
    some { job := .request method params, stage } ∧
    stage.rank ≤ limit ∧ ∀ id, stage = .answering id → Assoc.get? id s.bridge.pending = none

/-- Where the task of a request may end.  Its thread is over by then, and it ends with an answer or
an error. -/
def Closes {α : Type} (t : Nat) (ending : Ending Trouble α) (s : State) : Prop :=
  Gone t s ∧ ending ≠ .cancelled

/-- The job of a request's task. -/
theorem request_of_amid (amid : (charter spared).Amid t (.request key method params) s) :
    s.loop.jobOf t = some (.request (Bridge.requestKey method params) method params) := by
  have hjob : s.loop.jobOf t = some (.request key method params) := amid.job
  rw [hjob, (amid.inv.joined t key method params hjob).1]

/-- The thread of a request's task is for that request. -/
theorem job_of_amid (amid : (charter spared).Amid t (.request key method params) s)
    {thread : Bridge.Thread}
    (hthread : Assoc.get? t s.bridge.threads = some thread) {id : Nat}
    (has : thread.stage.request? = some id) :
    thread.job = .request method params := by
  have fits := amid.inv.threads t thread hthread
  have asks := fits.proper.asks id has
  cases hjob : thread.job with
  | request method' params' =>
    have known := fits.request method' params' hjob
    rw [request_of_amid amid] at known
    obtain ⟨-, rfl, rfl⟩ := Job.request.inj (Option.some.inj known)
    rfl
  | start | stop =>
    rw [hjob] at asks
    cases asks

theorem left_resume (amid : (charter spared).Amid t (.request key method params) s)
    (awake : Awake t method params (limit + 1) s) {how : Bridge.Resume}
    (goesOn : how ≠ .cancelled) :
    (charter spared).Steps t (.request key method params) s (bridgeStep (.resume t how) s).1 ∧
      Left t (.request method params) limit False (bridgeStep (.resume t how) s).1
        (bridgeStep (.resume t how) s).2 := by
  rcases awake with gone | ⟨stage, hthread, limited, answered⟩
  · have same : bridgeStep (.resume t how) s = (s, none) := by
      rw [bridgeStep, Bridge.State.step, Bridge.State.resume,
        show Assoc.get? t s.bridge.threads = none from gone]
      rfl
    rw [same]
    exact ⟨.refl amid, .nothing gone⟩
  · have leaves := Bridge.leaves_resume (outside s) amid.inv.numbered how hthread
      (amid.inv.threads t _ hthread).proper (fun _ _ => goesOn) answered
    obtain ⟨steps, left⟩ := left_bridgeStep (e := .resume t how) amid leaves
      (fun thread id hthread' has => job_of_amid amid hthread' has) fun method' params' hjob => by
        obtain ⟨rfl, rfl⟩ := Bridge.Job.request.inj hjob
        exact request_of_amid amid
    exact ⟨steps, left.mono (Nat.sub_le_of_le_add limited) goesOn⟩

theorem heeds_ends (amid : (charter spared).Amid t (.request key method params) s)
    (gone : Gone t s) (fuel : Nat) {outcome : Bridge.Outcome} (goesOn : outcome ≠ .cancelled) :
    (charter spared).Heeds t (.request key method params) (Closes t)
    (runThread t fuel (some (.ends outcome)))
      s := by
  cases outcome with
  | finished | failed | unwritten => cases fuel <;> exact ⟨amid, gone, by simp⟩
  | cancelled => exact absurd rfl goesOn
  | answered id =>
    -- Whatever has been answered has not been cancelled.
    have told {u : State} (amid' : (charter spared).Amid t (.request key method params) u)
      (gone' : Gone t u)
        {e : Ending Trouble Value} : u.loop.ending? (.answer id) = some e →
        (charter spared).Heeds t (.request key method params) (Closes t) (reporting e) u := by
      intro he
      cases e with
      | value v => cases v <;> exact ⟨amid', gone', by simp⟩
      | error => exact ⟨amid', gone', by simp⟩
      | cancelled => exact absurd he (amid'.guarded.answers id)
    cases fuel <;>
      exact ⟨amid, fun e he => told amid gone he, fun _ => ⟨⟨.inl trivial, by simp⟩,
        fun e u _ amid' same delivers =>
          told amid' (same.trans gone) (delivers (.inl trivial)).raised⟩⟩

theorem goesOn_of_uncancelled {e : Ending Trouble Value} (h : e ≠ .cancelled) :
    overOf e ≠ .cancelled := by
  cases e with
  | value v =>
    cases v with
    | taken well => cases well <;> exact nofun
    | nothing | json | count | version | module | diagnostics | lookup | resolution | source
    | context | positions | checked | report | described => exact nofun
  | error => exact nofun
  | cancelled => exact absurd rfl h

/-- A request's task waits for what its thread waits for, and then goes on with it. -/
theorem heeds_waitFor {on : Bridge.Wait} {stage : Bridge.Stage} {next : Bridge.Resume → Act Json}
    (amid : (charter spared).Amid t (.request key method params) s)
    (has : Assoc.get? t s.bridge.threads = some { job := .request method params, stage })
    (fits : on.Fits stage) (turn : ∀ n, on = .turn n → Awaitable s n) (rank : stage.rank ≤ limit)
    (rest : ∀ how u, how ≠ .cancelled → (charter spared).Amid t (.request key method params) u →
      Awake t method params limit u →
        (charter spared).Heeds t (.request key method params) (Closes t) (next how) u) :
    (charter spared).Heeds t (.request key method params) (Closes t)
      ((waitFor on).andThen next) s := by
  have firm : (charter spared).custom.firm t (.request key method params) := .inl trivial
  have unanswered (other : ∀ id, on ≠ .answer id) (id : Nat) : stage ≠ .answering id := by
    rintro rfl
    exact other id fits
  -- While the task waits its thread stays as it is.
  have awake {u : State} (same : Assoc.get? t u.bridge.threads = Assoc.get? t s.bridge.threads)
      (other : ∀ id, on ≠ .answer id) : Awake t method params limit u :=
    .inr ⟨stage, same.trans has, rank, fun id hid => absurd hid (unanswered other id)⟩
  cases on with
  | turn n =>
    obtain ⟨given, unraised, unclaimed⟩ := turn n rfl
    refine ⟨amid, fun e he => ?_,
      fun _ => ⟨⟨⟨trivial, unclaimed⟩, fun m hm => Signal.turn.inj hm ▸ given⟩,
      fun e u _ amid' same delivers => ?_⟩⟩
    · cases (show s.loop.ending? (.turn n) = some e from he).symm.trans unraised
    · exact rest _ u (goesOn_of_uncancelled ((delivers firm).uncancelled trivial)) amid'
        (awake same nofun)
  | answer id =>
    -- The answer has been given, so the request is open no longer.
    have answered {u : State} (amid' : (charter spared).Amid t (.request key method params) u)
        (same : Assoc.get? t u.bridge.threads = Assoc.get? t s.bridge.threads)
        {e : Ending Trouble Value}
        (he : u.loop.ending? (.answer id) = some e) :
        (charter spared).Heeds t (.request key method params) (Closes t) (next (overOf e)) u := by
      refine rest _ u (goesOn_of_uncancelled fun hc => ?_) amid'
        (.inr ⟨stage, same.trans has, rank, ?_⟩)
      · exact amid'.guarded.answers id (hc ▸ he)
      · intro id' hid'
        rw [answering_of_fits fits] at hid'
        obtain rfl := Bridge.Stage.answering.inj hid'
        refine (amid'.inv.answered id ?_).2
        rw [he]
        exact nofun
    exact ⟨amid, fun e he => answered amid rfl he, fun _ => ⟨⟨.inl trivial, nofun⟩,
      fun e u _ amid' same delivers => answered amid' same (delivers firm).raised⟩⟩
  | launch | pipe =>
    have waits : (charter spared).Heeds t (.request key method params) (Closes t)
        (.wait (.outside s.loop.nextTicket) fun e => next (overOf e)) (delay s).1 := by
      refine heeds_fresh amid (steps_delay amid) (Nat.lt_irrefl _) (Nat.lt_succ_self _) rfl
        fun e u amid' same delivers => ?_
      exact rest _ u (goesOn_of_uncancelled ((delivers firm).uncancelled trivial)) amid'
        (awake same nofun)
    exact ⟨steps_delay amid, waits⟩
  | readers w =>
    have waits : (charter spared).Heeds t (.request key method params)
        (fun ending u => ∃ how, ending = .value how ∧ how ≠ .cancelled ∧
          Assoc.get? t u.bridge.threads = Assoc.get? t s.bridge.threads)
            (waitFor (.readers w)) s := by
      refine Charter.heeds_read_andThen
        ((heeds_awaitAll _ amid).onEnd fun ending u amid' ⟨mild, same⟩ => ?_)
      cases ending with
      | value | error => exact ⟨amid', _, rfl, nofun, same⟩
      | cancelled => exact absurd rfl (mild firm)
    refine waits.andThen (fun how u amid' h => ?_) (fun e u h => ?_) fun u h => ?_
    · obtain ⟨how', hhow, goesOn, same⟩ := h
      obtain rfl := Ending.value.inj hhow
      exact rest how u goesOn amid' (awake same nofun)
    · obtain ⟨how, hhow, -⟩ := h
      cases hhow
    · obtain ⟨how, hhow, -⟩ := h
      cases hhow
  | exit w graced =>
    -- Only a thread that stops a worker waits for the end of one.
    have stops : stage.stops = true := by
      cases stage with
      | terminating | killing => rfl
      | reaping | draining =>
        obtain ⟨w, hw⟩ := fits
        cases hw
      | queued | launching | lined | writing | answering => cases fits
    have starts := (amid.inv.threads t _ has).proper.starts trivial
    rw [stops] at starts
    cases starts

theorem heeds_runThread (fuel : Nat) {next : Option Next}
    (amid : (charter spared).Amid t (.request key method params) s)
    (left : Left t (.request method params) fuel False s next) :
    (charter spared).Heeds t (.request key method params) (Closes t) (runThread t fuel next) s := by
  -- When the fuel is used up the thread has no stage left that it could wait at.
  induction fuel generalizing s next with
  | zero =>
    cases left with
    | nothing gone => exact ⟨amid, gone, nofun⟩
    | ends outcome gone asked cancelled => exact heeds_ends amid gone 0 cancelled
    | waits on thread has same proper fits turn rank =>
      cases hstage : thread.stage <;> rw [hstage] at rank <;> cases rank
  | succ fuel ih =>
    cases left with
    | nothing gone => exact ⟨amid, gone, nofun⟩
    | ends outcome gone asked cancelled => exact heeds_ends amid gone _ cancelled
    | waits on thread has same proper fits turn rank =>
      obtain ⟨job, stage⟩ := thread
      obtain rfl := same.resolve_right fun other => other.1 trivial
      refine heeds_waitFor amid has fits turn rank fun how u goesOn amid' awake => ?_
      obtain ⟨steps, left'⟩ := left_resume amid' awake goesOn
      exact Charter.heeds_act_andThen steps (ih steps.amid left')

/-- The task of a request heeds the charter: when it ends its thread has ended before, and it does
not end as cancelled. -/
theorem heeds_requestBody (amid : (charter spared).Amid t (.request key method params) s)
    (idle : Gone t s) :
    (charter spared).Heeds t (.request key method params) (Closes t)
    (requestBody method params) s := by
  have free : Bridge.held s.bridge t none = none := by
    rw [Bridge.held, show Assoc.get? t s.bridge.threads = none from idle]
    rfl
  obtain ⟨steps, left⟩ := left_bridgeStep (e := .begin t (.request method params)) amid
    (Bridge.leaves_begin (outside s) amid.inv.numbered free _)
    (fun thread id hthread has => job_of_amid amid hthread has) fun method' params' hjob => by
      obtain ⟨rfl, rfl⟩ := Bridge.Job.request.inj hjob
      exact request_of_amid amid
  have current : s.loop.current = t := amid.current
  have ran : (charter spared).Heeds t (.request key method params) (Closes t)
      (bridgeThread (.request method params)) s := by
    refine Charter.heeds_read_andThen ?_
    rw [current]
    exact Charter.heeds_act_andThen steps (heeds_runThread threadFuel steps.amid left)
  exact ran.andThen (fun _ _ amid' closes => ⟨amid', closes.1, by simp⟩)
    (fun _ _ closes => ⟨closes.1, by simp⟩)
    fun _ closes => absurd rfl closes.2

end PikeAnalysis.Engine.Sharing
