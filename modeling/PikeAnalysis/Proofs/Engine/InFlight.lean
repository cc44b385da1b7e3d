import PikeAnalysis.Proofs.Engine.Makeup
import PikeAnalysis.Proofs.Engine.Threads
import PikeAnalysis.Proofs.Engine.Upkeep

/-!
# Requests in flight

All that the engine does, and all that befalls it, keeps the charter of the shared requests
(`lawful`).  A worker that prints or ends concerns no thread of the bridge; a request that nobody
makes yet gets a task and a key, and the key is given up only after the task has ended; and all
tasks but those of requests suit the charter (`pervades_suits`).

The charter of `Proofs/Engine/Sharing.lean` is kept by three kinds of routines, for three reasons.
The tasks of requests keep it because of what is known of their threads.  Calls for requests keep it
whether or not they are spared, as they only wait for a ticket of their own.  And all others suit it
because they do nothing that concerns requests but to ask, which `Pervades` spreads from a few
routines to all.

The sections go from the bridge outward.  Readers wait for lines and not for requests, and what
wakes them is claimed by nobody else.  A stop waits for runs that it has cancelled, so those have to
be exposed, that is, no request may depend on one of them.  To join a request is the only way in
which two tasks come to wait for one end, and there a ticket stands between each of them and the
task of the request: who is cancelled loses that ticket and nothing else.
-/

namespace PikeAnalysis.Engine.Sharing

open PikeAnalysis.Concurrency
open PikeAnalysis.Concurrency.Loop (Calm Guarded Sane)

variable {spared : Nat → Prop} {s s' : State} {t : Nat} {job : Job} {own : Option Nat}

/-! ## Steps of the bridge that concern no thread -/

theorem eases_tellBridge (h : Shared spared s) (guarded : Guarded (custom spared) s.loop)
    {e : Bridge.Event}
    (within : Bridge.Within s.bridge none (s.bridge.step (outside s) e).2
      (s.bridge.step (outside s) e).1) :
    Eases spared s (tellBridge e s) := by
  obtain ⟨calm, tame, bridge⟩ := deals_bridgeStep (h.tame guarded) e
  have moves := Moves.of_within within none
  rw [← bridge] at moves
  have shared : Shared spared (tellBridge e s) :=
    moves.shared h (calm guarded).2.1 tame nofun
  exact ⟨calm.mono fun _ _ => trivial, shared, bridge ▸ within.threads⟩

/-- What a reader has read, or that it has come to the end. -/
theorem eases_heard (h : Shared spared s) (guarded : Guarded (custom spared) s.loop)
    (w : Nat) (line : String) :
    Eases spared s (tellBridge (.stdoutLine w line) s) ∧
      Eases spared s (tellBridge (.stderrLine w line) s) ∧
      Eases spared s (tellBridge (.stdoutEnded w) s) := by
  have first := Bridge.Within.refl h.numbered
  exact ⟨eases_tellBridge h guarded (first.stdoutLine line),
    eases_tellBridge h guarded (first.stderrLine w line),
    eases_tellBridge h guarded (first.crash w _)⟩

theorem eases_workerExited (h : Shared spared s) (guarded : Guarded (custom spared) s.loop)
    (w : Nat) (code : Int) (quiet : Bool) : Eases spared s (s.workerExited w code quiet) := by
  have exited : Eases spared s (tellBridge (.exited w code) s) :=
    eases_tellBridge h guarded ((Bridge.Within.refl h.numbered).exited w code)
  have dealt {u u' : State} (e : Eases spared s u)
    (d : Tame spared (claims u) u → Deals spared (fun _ => False) (claims u) (claims u') u u') :
      Eases spared s u' := by
    have guarded' := (e.calm guarded).1
    exact e.trans ((d (e.shared.tame guarded')).eases e.shared guarded')
  have fed : Eases spared s (if quiet then tellBridge (.exited w code) s
      else ((tellBridge (.exited w code) s).feedOutput w [] true).feedErrors w [] true) := by
    cases quiet with
    | true => exact exited
    | false =>
      exact dealt (dealt exited fun k => deals_feedOutput k w [] true) fun k =>
        deals_feedErrors k w [] true
  have told (u : State) (k : Tame spared (claims u) u) : Deals spared (fun _ => False) (claims u)
      (claims
        ((u.setPipes w { u.pipesOf w with exitWaiters := [] }).wake (u.pipesOf w).exitWaiters)) u
      ((u.setPipes w { u.pipesOf w with exitWaiters := [] }).wake (u.pipesOf w).exitWaiters) := by
    refine deals_wake k w { u.pipesOf w with exitWaiters := [] } rfl _ (fun n hn => ?_)
      fun n hn => ?_
    · exact claims_of_waiters (List.mem_append_right _ hn)
    · rcases List.mem_append.mp hn with hn | hn
      · exact claims_of_waiters (List.mem_append_left _ hn)
      · cases hn
  exact dealt fed (told _)

/-! ## Joining and forgetting -/

variable {key method : String} {params : List (String × Json)} {task : Nat}

/-- The task of a request that has ended is forgotten.  Whoever asks for the same later on begins a
request anew. -/
theorem eases_forget (h : Shared spared s) (key : String) (ended : s.loop.jobOf task = none) :
    Eases spared s (tellBridge (.forget key task) s) := by
  -- The key may stand for a later request already, and then nothing is forgotten.
  by_cases found : Assoc.get? key s.bridge.inflight = some task
  · have told : tellBridge (.forget key task) s =
        { s with bridge := { s.bridge with inflight := Assoc.erase key s.bridge.inflight } } := by
      rw [tellBridge, bridgeStep, Bridge.State.step, if_pos found]
      rfl
    have kept :
        Shared spared
          { s with bridge := { s.bridge with inflight := Assoc.erase key s.bridge.inflight } } := by
      refine
        { h with
          joined := fun t key' method params hjob => ?_
          inFlight := fun key' t hkey => h.inFlight key' t (Assoc.of_get?_erase hkey).2
          numbered :=
            ⟨h.numbered.pending, fun g n hn => h.numbered.queues g n (by cases g <;> exact hn)⟩ }
      obtain ⟨hkey, hjoined⟩ := h.joined t key' method params hjob
      have hne : key' ≠ key := by
        rintro rfl
        obtain rfl := Option.some.inj (hjoined.symm.trans found)
        rw [show s.loop.jobOf t = some _ from hjob] at ended
        cases ended
      refine ⟨hkey, ?_⟩
      dsimp only
      rw [Assoc.get?_erase_of_ne hne, hjoined]
    rw [told]
    exact ⟨.refl s.loop, kept, rfl⟩
  · have told : tellBridge (.forget key task) s = s := by
      rw [tellBridge, bridgeStep, Bridge.State.step, if_neg found]
      rfl
    rw [told]
    exact ⟨.refl s.loop, h, rfl⟩

/-- A request gets a task under its key.  The task, its hook and its key come together, in one
step. -/
def newRequest (method : String) (params : List (String × Json)) (s : State) : State :=
  { s with
    loop := (s.loop.create (.request (Bridge.requestKey method params) method params)).1.follow
      (.ended s.loop.nextTask)
        (.hook (.forgetRequest (Bridge.requestKey method params) s.loop.nextTask))
    bridge := { s.bridge with
      inflight := Assoc.set (Bridge.requestKey method params) s.loop.nextTask s.bridge.inflight } }

/-- A task begins, and what can be joined is under way or has ended. -/
theorem Shared.begin (h : Shared spared s) (guarded : Guarded (custom spared) s.loop) (job : Job)
    {inflight : List (String × Nat)}
    (joined : ∀ t key method params, (s.loop.create job).1.jobOf t =
      some (.request key method params) →
      key = Bridge.requestKey method params ∧ Assoc.get? key inflight = some t)
    (inFlight : ∀ key t, Assoc.get? key inflight = some t →
      (∃ method params, (s.loop.create job).1.jobOf t = some (.request key method params)) ∨
        ∃ e, s.loop.ending? (.ended t) = some e ∧ e ≠ .cancelled) :
    Shared spared
      { s with loop := (s.loop.create job).1, bridge := { s.bridge with inflight } } where
  joined := joined
  inFlight := inFlight
  threads u thread hu :=
    have fits := h.threads u thread hu
    { known := Nat.lt_succ_of_lt fits.known
      proper := fits.proper
      request := fun method params hjob => by
        have running := fits.request method params hjob
        dsimp only
        rw [guarded.fresh.jobOf_create, if_neg (Nat.ne_of_lt (guarded.fresh.lt_of_jobOf running)),
          running] }
  pending := h.pending
  numbered := ⟨h.numbered.pending, fun g n hn => h.numbered.queues g n (by cases g <;> exact hn)⟩
  answered := h.answered
  granted := h.granted
  queued u n hu := h.queued u n (by rwa [Loop.waitingOn_create guarded.fresh] at hu)
  held u hu := (h.held u hu).evolve (Loop.evolves_create s.loop job)
  claimed := h.claimed

/-- Somebody makes a call.  It has no request yet, so what is shared stays. -/
theorem Shared.call (h : Shared spared s) (guarded : Guarded (custom spared) s.loop) (c : Call) :
    Shared spared { s with loop := (s.loop.create (.call c)).1 } := by
  have jobs (u : Nat) (j : Job) (request : j.IsRequest) :
      (s.loop.create (.call c)).1.jobOf u = some j ↔ s.loop.jobOf u = some j := by
    rw [guarded.fresh.jobOf_create]
    split
    · next here =>
      subst here
      refine ⟨fun hj => ?_, fun hj => absurd (guarded.fresh.lt_of_jobOf hj) (Nat.lt_irrefl _)⟩
      rw [← Option.some.inj hj] at request
      exact request.elim
    · exact Iff.rfl
  have begun : Shared spared { s with
      loop := (s.loop.create (.call c)).1
      bridge := { s.bridge with inflight := s.bridge.inflight } } := by
    refine h.begin guarded (.call c) (fun t key method params hjob => ?_) fun key t hkey => ?_
    · exact h.joined t key method params ((jobs t (.request key method params) trivial).mp hjob)
    · refine (h.inFlight key t hkey).imp_left fun ⟨method, params, hjob⟩ => ⟨method, params, ?_⟩
      exact (jobs t (.request key method params) trivial).mpr hjob
  exact begun

theorem shared_newRequest (h : Shared spared s) (guarded : Guarded (custom spared) s.loop)
    (free : Assoc.get? (Bridge.requestKey method params) s.bridge.inflight = none) :
    Shared spared (newRequest method params s) := by
  -- The key is free, so the only entry for it is that of the new task.
  have begun : Shared spared { s with
      loop := (s.loop.create (.request (Bridge.requestKey method params) method params)).1
      bridge := { s.bridge with
        inflight := Assoc.set (Bridge.requestKey method params) s.loop.nextTask
          s.bridge.inflight } } := by
    refine h.begin guarded _ (fun u key' method' params' hu => ?_) fun key' u hkey => ?_
    · rw [guarded.fresh.jobOf_create] at hu
      split at hu
      · next he =>
        obtain ⟨rfl, rfl, rfl⟩ := Job.request.inj (Option.some.inj hu)
        exact ⟨rfl, by rw [Assoc.get?_set_self, he]⟩
      · obtain ⟨hkey, hjoined⟩ := h.joined u key' method' params' hu
        refine ⟨hkey, ?_⟩
        rw [Assoc.get?_set_of_ne fun he => ?_, hjoined]
        rw [he, free] at hjoined
        cases hjoined
    · rw [Assoc.get?_set] at hkey
      split at hkey
      · next here =>
        refine .inl ⟨method, params, ?_⟩
        rw [guarded.fresh.jobOf_create, if_pos (Option.some.inj hkey).symm, here]
      · refine (h.inFlight key' u hkey).imp_left ?_
        rintro ⟨method', params', hjob⟩
        refine ⟨method', params', ?_⟩
        rw [guarded.fresh.jobOf_create,
          if_neg (Nat.ne_of_lt (guarded.fresh.lt_of_jobOf hjob)), hjob]
  exact begun.loop (Loop.sameFirm_follow _ _ _)

/-- Somebody asks for what nobody asks for yet.  A task is created for it, and noted under its
key. -/
theorem steps_newRequest (amid : (charter spared).Amid t job s)
    (free : Assoc.get? (Bridge.requestKey method params) s.bridge.inflight = none) :
    (charter spared).Steps t job s (newRequest method params s) := by
  have guarded := amid.guarded.create (.request (Bridge.requestKey method params) method params)
  have begun := Loop.sameTurn_create amid.guarded.fresh
    (.request (Bridge.requestKey method params) method params)
  have created : (charter spared).Respects (some t) s { s with
      loop := (s.loop.create (.request (Bridge.requestKey method params) method params)).1 } :=
    Charter.respects_create amid.guarded _ _
  have fits : Follower.Fits (custom spared)
    (.hook (.forgetRequest (Bridge.requestKey method params) s.loop.nextTask))
      (.ended s.loop.nextTask) := fun key task heq => by rw [(Hook.forgetRequest.inj heq).2]
  have followed : Calm (custom spared) (fun _ => False) (claims s) (claims s) _
    (newRequest method params s).loop :=
    Loop.calm_follow _ fits (fun u heq => by cases heq) fun signal heq => by cases heq
  obtain ⟨guarded', -, turn, -⟩ := followed guarded
  refine ⟨⟨shared_newRequest amid.inv amid.guarded free, guarded', ?_, ?_, ?_⟩,
    created.trans (Sharing.respects guarded followed fun _ _ => rfl)⟩
  · exact turn.stays t job (begun.stays t job amid.job)
  · exact turn.current.trans (begun.current.trans amid.current)
  · exact (turn.waiting t).trans ((begun.waiting t).trans amid.awake)

theorem steps_joinRequest (amid : (charter spared).Amid t job s) (method : String)
    (params : List (String × Json)) :
    (charter spared).Steps t job s (joinRequest method params s).1 := by
  unfold joinRequest
  dsimp only
  cases found : Assoc.get? (Bridge.requestKey method params) s.bridge.inflight with
  | some task => exact .refl amid
  | none => exact steps_newRequest amid found

/-! ## All tasks but those of requests -/

open Routine

variable {α : Type}

/-- A change that concerns no task. -/
theorem suits_aside {f : State → State × α} (loop : ∀ s, (f s).1.loop = s.loop)
    (bridge : ∀ s, (f s).1.bridge = s.bridge) (pipes : ∀ s, (f s).1.pipes = s.pipes)
    (scheduler : ∀ s, (f s).1.scheduler = s.scheduler) (delays : ∀ s, (f s).1.delays = s.delays) :
    (Routine.act f : Act α).Suits (charter spared) := by
  refine suits_act fun t job s _ amid => ?_
  have same : Deals spared (fun _ => False) (claims s) (claims s) s (f s).1 :=
    .of_same (tame_amid amid) (loop s) (bridge s) fun u hu => .inl ?_
  · refine Deals.steps (same.drop fun n hn => ?_) amid
    rw [claims, pipes, scheduler, delays] at hn
    exact hn
  · rw [Held, pipes, scheduler] at hu
    exact hu

/-- A change that eases, wherever it is made. -/
theorem suits_eases {f : State → State}
    (eases : ∀ s, Shared spared s → Guarded (custom spared) s.loop → Eases spared s (f s)) :
    (Routine.modify f : Act Unit).Suits (charter spared) :=
  fun _ _ s _ amid =>
    have steps := (eases s amid.inv amid.guarded).steps amid
    ⟨steps, steps.amid, trivial⟩

theorem suits_tell (e : Scheduler.Event) :
    (Routine.modify fun s => Scheduler.tell s e : Act Unit).Suits (charter spared) :=
  suits_eases fun _ h guarded => (deals_happen (h.tame guarded) e).eases h guarded

theorem suits_timerBody (id : Nat) :
    (Scheduler.timerBody id : Act Unit).Suits (charter spared) := by
  refine (suits_read _).andThen fun quiet => (suits_sleep _).onEnd fun ending => ?_
  cases ending with
  | value => exact suits_tell _
  | error e => exact suits_fail e
  | cancelled => exact suits_done ()

/-- Whoever waits until a document is idle starts over with a new ticket. -/
theorem suits_idle (uri : String) {next : Job} {idle : Act Value} (awaits : next.AwaitsIdle)
    (goesOn : idle.Suits (charter spared)) :
    ((Scheduler.busyTicket uri : Act (Option Nat)).andThen fun
      | none => idle
      | some n => .renew (.ticket n) next).Suits (charter spared) := by
  intro t job s loose amid
  have loose' : ¬ (custom spared).firm t next := by
    cases next with
    | awaitValidation | awaitIdle => exact not_firm id id t
    | call | request | load | readOutput | readErrors | timer | run => exact awaits.elim
  -- The ticket is a new one, and the slot is asked to raise it.
  have ticket : (charter spared).Heeds t job (fun ending u => ∃ found, ending = .value found ∧
      ∀ n, found = some n → (charter spared).Steps t job s u ∧ n = s.loop.nextTicket ∧
        n < u.loop.nextTicket)
      (Scheduler.busyTicket uri : Act (Option Nat)) s := by
    refine Charter.heeds_read_andThen ?_
    dsimp only
    split
    · exact ⟨amid, none, rfl, nofun⟩
    · next slot _ =>
      have steps : (charter spared).Steps t job s { s with
          loop := s.loop.newTicket.1
          scheduler := { s.scheduler with
            machine := s.scheduler.machine.awaitIdle slot s.loop.nextTicket } } := by
        refine Deals.steps (deals_claim (tame_amid amid) rfl rfl (fun u hu => hu) fun n hn => ?_)
          amid
        rcases hn with hn | hn | hn
        · exact .inl (.inl hn)
        · rcases Scheduler.awaits_awaitIdle hn with hn | rfl
          · exact .inl (.inr (.inl hn))
          · exact .inr rfl
        · exact .inl (.inr (.inr hn))
      refine ⟨steps, steps.amid, _, rfl, fun n hn => ?_⟩
      obtain rfl := Option.some.inj hn
      exact ⟨steps, rfl, Nat.lt_succ_self _⟩
  refine ticket.andThen (fun found u amid' h => ?_) (fun _ _ _ => trivial) fun _ _ => trivial
  obtain ⟨found', heq, fresh⟩ := h
  obtain rfl := Ending.value.inj heq
  cases found with
  | none => exact goesOn t job u loose amid'
  | some n =>
    obtain ⟨steps, hn, given⟩ := fresh n rfl
    exact heeds_renew loose loose' amid steps (Nat.not_lt.mpr (Nat.le_of_eq hn.symm)) given

/-- Waiting for runs that were cancelled. -/
theorem heeds_awaitEnds (tasks : List Nat) (amid : (charter spared).Amid t job s)
    (exposed : ∀ u ∈ tasks, s.loop.Exposed (custom spared) u) :
    (charter spared).Heeds t job (fun _ _ => True)
    (Scheduler.stopBody.awaitEnds tasks : Act Unit) s := by
  induction tasks generalizing s with
  | nil => exact ⟨amid, trivial⟩
  | cons u rest ih =>
    have others (v : State) (evolves : Loop.Evolves s.loop v.loop)
      (amid' : (charter spared).Amid t job v) :
        (charter spared).Heeds t job (fun _ _ => True)
          (Scheduler.stopBody.awaitEnds rest : Act Unit) v :=
      ih amid' fun x hx => (exposed x (List.mem_cons_of_mem u hx)).evolve evolves
    refine ⟨amid, fun e _ => ?_, fun _ => ⟨⟨exposed u List.mem_cons_self, nofun⟩,
      fun e v evolves amid' _ _ => ?_⟩⟩
    · cases e with
      | error e => exact ⟨amid, trivial⟩
      | value | cancelled => exact others s (.refl _) amid
    · cases e with
      | error e => exact ⟨amid', trivial⟩
      | value | cancelled => exact others v evolves amid'

theorem suits_stopBody : (Scheduler.stopBody : Act Unit).Suits (charter spared) := by
  intro t job s _ amid
  have steps : (charter spared).Steps t job s (Scheduler.tell s .stop) :=
    (deals_happen (tame_amid amid) .stop).steps amid
  refine Charter.heeds_act_andThen (f := fun s => Scheduler.happen s .stop) steps
    (heeds_awaitEnds _ steps.amid fun u hu => ?_)
  obtain ⟨x, -, hx⟩ := List.mem_filterMap.mp hu
  cases x with
  | cancelRun run =>
    have held : Held s u := .inr (.inr ⟨(run, u), Assoc.mem_of_get? hx, rfl⟩)
    exact (amid.inv.held u held).evolve steps.respects.evolves
  | armTimer | cancelTimer | startRun | wake | closed => cases hx

/-! ## Readers -/

/-- The lines of a channel of a worker are taken out of it. -/
theorem deals_drain (h : Tame spared (claims s) s) (w : Nat) (p : Pipes)
    (readers : p.readers = (s.pipesOf w).readers)
    (waits : ∀ n ∈ waiters p, n ∈ waiters (s.pipesOf w)) :
    Deals spared (fun _ => False) (claims s) (claims (s.setPipes w p)) s (s.setPipes w p) :=
  deals_wake h w p readers [] (List.forall_mem_nil _) fun n hn =>
    claims_of_waiters (w := w) (waits n hn)

/-- More of a channel is waited for, if there is more to come. -/
theorem deals_moreOf (h : Tame spared (claims s) s) (w : Nat) (c : Channel) (put : Channel → Pipes)
    (readers : ∀ c', (put c').readers = (s.pipesOf w).readers)
    (waits : ∀ c', ∀ n ∈ waiters (put c'), n ∈ waiters (s.pipesOf w) ∨ c'.waiter = some n)
    (old : ∀ n, c.waiter = some n → n ∈ waiters (s.pipesOf w)) :
    Deals spared (fun _ => False) (claims s)
      (claims (({ s with loop := (moreOf c s.loop).1 }).setPipes w (put (moreOf c s.loop).2.1))) s
      (({ s with loop := (moreOf c s.loop).1 }).setPipes w (put (moreOf c s.loop).2.1)) := by
  unfold moreOf
  split
  · exact deals_drain h w _ (readers c) fun n hn => (waits c n hn).elim id (old n)
  · refine deals_ask h w _ (readers _) fun n hn => (waits _ n hn).imp_right fun hn => ?_
    exact (Option.some.inj hn).symm

theorem moreOf_some {c : Channel} {l : Loop Job Hook Trouble Value} {n : Nat}
    (h : (moreOf c l).2.2 = some n) :
    n = l.nextTicket ∧ (moreOf c l).1.nextTicket = n + 1 := by
  unfold moreOf at h ⊢
  split at h
  · cases h
  · next open_ =>
    obtain rfl := Option.some.inj h
    rw [if_neg open_]
    exact ⟨rfl, rfl⟩

/-- A reader starts over once there is more to read. -/
theorem heeds_more {next : Job} {c : Channel} {u : State} {n : Nat}
    {post : Ending Trouble Value → State → Prop}
    (loose : ¬ (custom spared).firm t job) (loose' : ¬ (custom spared).firm t next)
    (amid : (charter spared).Amid t job s) (steps : (charter spared).Steps t job s u)
    (loop : u.loop = (moreOf c s.loop).1) (more : (moreOf c s.loop).2.2 = some n) :
    (charter spared).Heeds t job post (.renew (.ticket n) next) u := by
  obtain ⟨fresh, given⟩ := moreOf_some more
  refine heeds_renew loose loose' amid steps ?_ ?_
  · exact Nat.not_lt.mpr (Nat.le_of_eq fresh.symm)
  · have next : u.loop.nextTicket = n + 1 := by rw [loop, given]
    exact Nat.lt_of_lt_of_eq (Nat.lt_succ_self n) next.symm

theorem mem_waiters_output {p : Pipes} {c : Channel} {n : Nat}
    (h : n ∈ waiters { p with output := c }) :
    n ∈ waiters p ∨ c.waiter = some n := by
  rcases List.mem_append.mp h with hn | hn
  · rcases List.mem_append.mp hn with hn | hn
    · exact .inr (Option.mem_toList.mp hn)
    · exact .inl (List.mem_append_left _ (List.mem_append_right _ hn))
  · exact .inl (List.mem_append_right _ hn)

theorem mem_waiters_errors {p : Pipes} {c : Channel} {n : Nat}
    (h : n ∈ waiters { p with errors := c }) :
    n ∈ waiters p ∨ c.waiter = some n := by
  rcases List.mem_append.mp h with hn | hn
  · rcases List.mem_append.mp hn with hn | hn
    · exact .inl (List.mem_append_left _ (List.mem_append_left _ hn))
    · exact .inr (Option.mem_toList.mp hn)
  · exact .inl (List.mem_append_right _ hn)

theorem output_waits {p : Pipes} {n : Nat} (h : p.output.waiter = some n) : n ∈ waiters p :=
  List.mem_append_left _ (List.mem_append_left _ (Option.mem_toList.mpr h))

theorem errors_waits {p : Pipes} {n : Nat} (h : p.errors.waiter = some n) : n ∈ waiters p :=
  List.mem_append_left _ (List.mem_append_right _ (Option.mem_toList.mpr h))

theorem suits_hearOutput (w : Nat) (lines : List String) :
    (hearOutput w lines).Suits (charter spared) := by
  induction lines with
  | nil => exact suits_done ()
  | cons line rest ih =>
    exact (suits_eases fun s h guarded => (eases_heard h guarded w line).1).andThen fun _ => ih

theorem suits_hearErrors (w : Nat) (lines : List String) :
    (hearErrors w lines).Suits (charter spared) := by
  induction lines with
  | nil => exact suits_done false
  | cons line rest ih =>
    refine (suits_eases fun s h guarded => (eases_heard h guarded w line).2.1).andThen fun _ => ?_
    split
    · exact suits_done true
    · exact ih

theorem suits_readOutput (w : Nat) : (readOutput w).Suits (charter spared) := by
  unfold readOutput
  refine (suits_act fun t job s _ amid => ?_).andThen fun lines =>
    (suits_hearOutput w lines).andThen fun _ => ?_
  · refine Deals.steps (deals_drain (tame_amid amid) w _ rfl fun n hn => ?_) amid
    exact (mem_waiters_output hn).elim id output_waits
  intro t job s loose amid
  have steps : (charter spared).Steps t job s
    (({ s with loop := (moreOf (s.pipesOf w).output s.loop).1 }).setPipes w
      { s.pipesOf w with output := (moreOf (s.pipesOf w).output s.loop).2.1 }) :=
    Deals.steps
      (deals_moreOf (tame_amid amid) w _ (fun output => { s.pipesOf w with output }) (fun _ => rfl)
      (fun _ _ => mem_waiters_output) fun _ => output_waits) amid
  refine Charter.heeds_act_andThen steps ?_
  dsimp only
  cases more : (moreOf (s.pipesOf w).output s.loop).2.2 with
  | some n => exact heeds_more loose (not_firm id id t) amid steps rfl more
  | none =>
    have left : (Routine.modify (tellBridge (.stdoutEnded w)) : Act Unit).Suits (charter spared) :=
      suits_eases fun s h guarded => (eases_heard h guarded w "").2.2
    exact ((suits_awaitExit w).andThen fun _ => left.andThen fun _ => suits_done _) t
      job _ loose steps.amid

theorem suits_readErrors (w : Nat) : (readErrors w).Suits (charter spared) := by
  unfold readErrors
  refine (suits_act fun t job s _ amid => ?_).andThen fun lines =>
    (suits_hearErrors w lines).andThen fun fatal => ?_
  · refine Deals.steps (deals_drain (tame_amid amid) w _ rfl fun n hn => ?_) amid
    exact (mem_waiters_errors hn).elim id errors_waits
  cases fatal with
  | true => exact suits_done _
  | false =>
    intro t job s loose amid
    have steps : (charter spared).Steps t job s
        (({ s with loop := (moreOf (s.pipesOf w).errors s.loop).1 }).setPipes w
          { s.pipesOf w with errors := (moreOf (s.pipesOf w).errors s.loop).2.1 }) :=
      Deals.steps (deals_moreOf (tame_amid amid) w _ (fun errors => { s.pipesOf w with errors })
        (fun _ => rfl)
        (fun _ _ => mem_waiters_errors) fun _ => errors_waits) amid
    simp only [Bool.false_eq_true, if_false]
    refine Charter.heeds_act_andThen steps ?_
    dsimp only
    cases more : (moreOf (s.pipesOf w).errors s.loop).2.2 with
    | some n => exact heeds_more loose (not_firm id id t) amid steps rfl more
    | none => exact ⟨steps.amid, trivial⟩

/-! ## Modules and drafts -/

theorem suits_findModule (path : String) :
    (Routine.act (findModule path) : Act (Except Nat (Option StdlibModule))).Suits
    (charter spared) := by
  refine suits_act fun t job s _ amid => ?_
  have noted (u : State) (k : Tame spared (claims s) u) (stdlib : StdlibIndex) :
      Deals spared (fun _ => False) (claims s) (claims s) u { u with stdlib } :=
    .of_same k rfl rfl fun _ hu => .inl hu
  have asked := noted s (tame_amid amid) (s.stdlib.ask s.now s.bridge.generation path).1
  unfold findModule
  dsimp only
  split
  · exact Deals.steps asked amid
  · exact Deals.steps asked amid
  · exact Deals.steps asked amid
  · have created : Deals spared (fun _ => False) (claims s) (claims s) _ _ :=
      asked.trans (.of_loop asked.tame
      (Loop.calm_create (k := .load path) s.loop (not_firm id id _)))
    have followed :=
      created.trans (.of_loop created.tame (Loop.calm_follow _ (s := .ended s.loop.nextTask)
      (f := .hook (.endLoading path)) (fun key task heq => by cases heq) (fun u heq => by cases heq)
      fun signal heq => by cases heq))
    exact Deals.steps (followed.trans (noted _ followed.tame _)) amid

theorem suits_commit (d : Validation.Draft) (positions : PositionIndex) :
    (Routine.act (commit d positions)).Suits (charter spared) := by
  have same (s : State) : (commit d positions s).1.loop = s.loop ∧
    (commit d positions s).1.bridge = s.bridge ∧
      (commit d positions s).1.pipes = s.pipes ∧ (commit d positions s).1.scheduler = s.scheduler ∧
        (commit d positions s).1.delays = s.delays := by
    unfold commit
    split <;> exact ⟨rfl, rfl, rfl, rfl, rfl⟩
  exact suits_aside (fun s => (same s).1) (fun s => (same s).2.1) (fun s => (same s).2.2.1)
    (fun s => (same s).2.2.2.1) fun s => (same s).2.2.2.2

/-- Whatever is no request suits the charter. -/
theorem pervades_suits : Pervades fun r => r.Suits (charter spared) where
  done := suits_done
  fail := suits_fail
  cancelled := suits_cancelled
  read := suits_read
  onEnd hr next := hr.onEnd next
  within d late _ hr := suits_within d late hr
  awaitTask := suits_awaitTask
  join method params := suits_act fun _ _ _ _ amid => steps_joinRequest amid method params
  elsewhere same := suits_aside (fun s => (same s).loop) (fun s => (same s).bridge)
    (fun s => (same s).pipes)
    (fun s => (same s).scheduler) fun s => (same s).delays
  find := suits_findModule
  begin uri version text := suits_act fun _ _ s _ amid => Deals.steps (.of_loop (tame_amid amid)
    (Loop.calm_create (k := .call (.validate uri version text)) s.loop (not_firm id id _))) amid
  missed miss := suits_eases fun s h guarded =>
    Deals.eases (.of_same (h.tame guarded) rfl rfl fun _ hu => .inl hu) h guarded
  draft target analysis :=
    suits_aside (fun _ => rfl) (fun _ => rfl) (fun _ => rfl) (fun _ => rfl) fun _ => rfl
  commit := suits_commit
  delayed := suits_delayed
  complete := suits_eases fun s h guarded =>
    Deals.eases (.of_same (h.tame guarded) rfl rfl fun _ hu => .inl hu) h guarded
  save uri version text := suits_tell _
  ended run := suits_eases fun s h guarded => by
    have told : Deals spared (fun _ => False) (claims s) (claims (Scheduler.tell s (.ended run))) s
        (Scheduler.tell s (.ended run)) := deals_happen (h.tame guarded) _
    refine Deals.eases (told.trans (.of_same told.tame rfl rfl fun u hu => .inl ?_)) h guarded
    rcases hu with hu | ⟨e, he, heq⟩ | hu
    · exact .inl hu
    · exact .inr (.inl ⟨e, List.mem_of_mem_filter he, heq⟩)
    · exact .inr (.inr hu)
  timer := suits_timerBody
  idle uri {_ _} awaits goesOn := suits_idle uri awaits goesOn
  stopping := suits_stopBody
  thread {job} other := suits_bridgeThread fun request => by
    cases job with
    | request method params => exact other method params rfl
    | start | stop => exact request
  output := suits_readOutput
  errors := suits_readErrors

/-! ## Calls for requests -/

/-- What a call makes of the value of the request that it has waited for. -/
def passOn (answer : Value) : Act Value :=
  Routine.andThen (match answer with
    | .json v => .done v
    | _ => .done .null) fun v => .done (.json v)

theorem callBody_request (method : String) (params : List (String × Json)) :
    callBody (.request method params) = (Routine.act (joinRequest method params)).andThen
      fun task =>
      (Routine.awaitTask task : Act Value).andThen passOn := by
  have asked : callBody (.request method params) =
      (request method params).andThen fun v => .done (.json v) := rfl
  have joined :
      request method params = (Routine.act (joinRequest method params)).andThen fun task =>
      (Routine.awaitTask task : Act Value).andThen fun answer => match answer with
        | .json v => .done v
        | _ => .done .null := rfl
  rw [asked, joined, Routine.andThen_assoc]
  refine congrArg _ (funext fun task => ?_)
  rw [Routine.andThen_assoc]
  rfl

theorem threads_joinRequest (method : String) (params : List (String × Json)) (s : State) :
    (joinRequest method params s).1.bridge.threads = s.bridge.threads := by
  unfold joinRequest
  dsimp only
  split <;> rfl

/-- A call that is spared heeds the charter as any other does. -/
theorem heeds_call {method : String} {params : List (String × Json)}
    (amid : (charter spared).Amid t (.call (.request method params)) s) (idle : Gone t s) :
    (charter spared).Heeds t (.call (.request method params)) (fun _ => Gone t)
      (callBody (.request method params)) s := by
  rw [callBody_request]
  have steps := steps_joinRequest amid method params
  refine Charter.heeds_act_andThen steps ?_
  have left (u : State) (same : Assoc.get? t u.bridge.threads =
      Assoc.get? t (joinRequest method params s).1.bridge.threads) : Gone t u := by
    rw [Gone, same, threads_joinRequest]
    exact idle
  refine (heeds_awaitTask _ steps.amid).andThen (fun answer u amid' same => ?_)
    (fun _ u => left u) left
  cases answer <;> exact ⟨amid', left u same⟩

/-! ## Courses -/

/-- What befalls an engine of which nobody has the tasks of requests: only those are not cancelled
from outside.  Everything else that can be cancelled may be, at any moment. -/
def befall (o : Occurrence) (s : State) : State :=
  match o with
  | .cancels task => match s.loop.jobOf task with
    | some (.request ..) => s
    | _ => occur o s
  | o => occur o s

/-- Whether an occurrence is not the cancellation of a task that is spared. -/
def Spares (spared : Nat → Prop) (o : Occurrence) : Prop :=
  ∀ t, o = .cancels t → ¬ spared t

/-- Nobody is spared whom somebody might cancel. -/
theorem spares_nobody (o : Occurrence) : Spares (fun _ => False) o :=
  fun _ _ no => no

theorem heeds_body (amid : (charter spared).Amid t job s) {next : Job}
    (h : next = job ∧ Gone t s ∨ ¬ (custom spared).firm t job ∧ ¬ (custom spared).firm t next) :
    (charter spared).Heeds t job ((charter spared).Ends t job) (jobBody next) s := by
  by_cases firm : (custom spared).firm t job
  · obtain ⟨rfl, gone⟩ := h.resolve_right fun other => other.1 firm
    cases next with
    | request key method params =>
      exact (heeds_requestBody amid gone).mono fun _ _ closes _ => ⟨closes.1, fun _ => closes.2⟩
    | call c =>
      cases c with
      | request method params =>
        exact (heeds_call amid gone).mono fun _ _ gone _ => ⟨gone, fun no => no.elim⟩
      | start | stop | validate | runPipeline | resolve | visible | source | context | module
      | preload | waitIdle | waitAllIdle | stopScheduler | startBridge | stopBridge | probeVersion
      | query | positions | check | report | describe =>
        exact absurd firm (not_firm id id t)
    | awaitValidation | awaitIdle | load | readOutput | readErrors | timer | run =>
      exact absurd firm (not_firm id id t)
  · have loose : ¬ next.IsRequest := by
      rcases h with ⟨rfl, -⟩ | h
      · exact not_request firm
      · exact not_request h.2
    exact (pervades_suits.jobBody loose t job s firm amid).mono fun _ _ _ request =>
      absurd request firm

theorem eases_hook (h : Shared spared s) (guarded : Guarded (custom spared) s.loop)
    {k : Hook} {signal : Signal}
    {Q : Multiset (Ready Hook)}
    (sane : Sane (custom spared) (claims s) none (.follow (.hook k) signal ::ₘ Q) s.loop) :
    Eases spared s (hookBody k s) := by
  have here :
      0 < Loop.pending (.follow (.hook k) signal ::ₘ Q) s.loop (.follow (.hook k) signal) := by
    rw [Loop.pending_cons, if_pos rfl]
    exact Nat.succ_pos _
  cases k with
  | forgetRequest key task =>
    obtain rfl := sane.fits _ _ here key task rfl
    have raised := sane.raised _ _ (.inl (Multiset.mem_cons_self _ _))
    have gone := (sane.ended task raised).2
    refine eases_forget h key ?_
    rw [Loop.jobOf, gone, Option.map_none]
  | endLoading path =>
    exact Deals.eases (.of_same (h.tame guarded) rfl rfl fun _ hu => .inl hu) h guarded
  | runOver run =>
    have told :
        Deals spared (fun _ => False) (claims s) (claims (Scheduler.tell s (.dropped run))) s
        (Scheduler.tell s (.dropped run)) := deals_happen (h.tame guarded) _
    refine Deals.eases (told.trans (.of_same told.tame rfl rfl fun u hu => .inl ?_)) h guarded
    rcases hu with hu | hu | ⟨e, he, heq⟩
    · exact .inl hu
    · exact .inr (.inl hu)
    · exact .inr (.inr ⟨e, (Assoc.mem_erase.mp he).1, heq⟩)

theorem eases_happen (h : Shared spared s) (guarded : Guarded (custom spared) s.loop)
    (o : Happening) :
    Eases spared s (happen o s) := by
  have tame := h.tame guarded
  have eases {u : State} (d : Deals spared (fun _ => False) (claims s) (claims u) s u) :
      Eases spared s u :=
    d.eases h guarded
  cases o with
  | opened uri version text =>
    have noted : Deals spared (fun _ => False) (claims s) (claims s) s
      { s with stores := s.stores.opened uri } :=
      .of_same tame rfl rfl fun _ hu => .inl hu
    exact eases
      (noted.trans (deals_happen (s := { s with stores := s.stores.opened uri }) noted.tame
      (.opened uri version text)))
  | changed | saved | closed => exact eases (deals_happen tame _)
  | output w lines ended => exact eases (deals_feedOutput tame w lines ended)
  | errors w lines ended => exact eases (deals_feedErrors tame w lines ended)
  | exited w code quiet => exact eases_workerExited h guarded w code quiet
  | delayed n well =>
    -- A delay is over once: its signal is raised and it is claimed no more.
    dsimp only [happen, State.delayOver]
    split
    · next waits =>
      have delayed : n ∈ s.delays := List.contains_iff_mem.mp waits
      have may : Loop.MayRaise (custom spared) (claims s) (fun _ => False) s.loop s.loop.nextTicket
        (.outside n)
          (.value (.taken well) : Ending Trouble Value) :=
            ⟨nofun, h.claimed n (.inr (.inr delayed))⟩
      have raised : Deals spared (fun _ => False) (claims s) (claims s) s
          { s with loop := s.loop.raise (.outside n) (.value (.taken well)) } :=
        .of_loop tame (Loop.gentle_raise s.loop may nofun).calm
      have taken : Deals spared (fun _ => False) (claims s) (claims s) s { s with
          delays := s.delays.filter (· != n)
          loop := s.loop.raise (.outside n) (.value (.taken well)) } :=
        raised.trans (.of_same raised.tame rfl rfl fun _ hu => .inl hu)
      refine eases (taken.drop fun m hm => ?_)
      rcases hm with hm | hm | hm
      · exact .inl hm
      · exact .inr (.inl hm)
      · exact .inr (.inr (List.mem_of_mem_filter hm))
    · exact eases (.of_same tame rfl rfl fun _ hu => .inl hu)
  | passedOn | surroundings | sinks => exact eases (.of_same tame rfl rfl fun _ hu => .inl hu)
  | clock now =>
    have gentle :
        Loop.Gentle (custom spared) (claims s) (fun _ => False) s.loop { s.loop with now } :=
      Loop.gentle_of_parts [] rfl rfl rfl rfl (Nat.le_refl _)
        (List.append_nil _).symm (fun _ h => .inl h)
        fun _ h => .inl h
    exact eases (.of_loop tame gentle.calm)

theorem passes_befall (h : Shared spared s) (guarded : Guarded (custom spared) s.loop)
    {o : Occurrence} (spares : Spares spared o) : (charter spared).Passes s (befall o s) := by
  have tame := h.tame guarded
  cases o with
  | happens o => exact (eases_happen h guarded o).passes guarded
  | calls c =>
    exact ⟨h.call guarded c, guarded.create _, Charter.respects_create guarded (Job.call c) none⟩
  | cancels task =>
    have same : (charter spared).Passes s s := ⟨h, guarded, .refl none s⟩
    unfold befall
    dsimp only
    split
    · exact same
    · next other =>
      cases hjob : s.loop.jobOf task with
      | none =>
        have none_cancelled : (s.loop.cancel task).1 = s.loop := by
          rw [Loop.cancel, Loop.cancelTask, Option.map_eq_none_iff.mp hjob]
        rw [occur, none_cancelled]
        exact same
      | some job =>
        -- The task of a request cannot be cancelled from outside, and calls that are spared are
        -- not.
        have loose : ¬ (custom spared).firm task job := by
          rintro (request | ⟨spared, -⟩)
          · cases job with
            | request key method params => exact other key method params hjob
            | call | awaitValidation | awaitIdle | load | readOutput | readErrors | timer | run =>
              exact request
          · exact spares task rfl spared
        have cancelled : Deals spared (fun _ => False) (claims s) (claims s) s
            { s with loop := (s.loop.cancel task).1 } := .cancel tame (guarded.exposed hjob loose)
        exact (cancelled.eases h guarded).passes guarded

/-- Everything that the engine does, and all that befalls it, keeps the charter, unless somebody is
cancelled who is spared.  Nobody else has the tasks of requests in hand, so that these are not
cancelled is no premise about callers. -/
theorem lawful (spared : Nat → Prop) : (charter spared).Lawful rules befall (Spares spared) where
  bodies amid h := heeds_body amid h
  hooks h guarded sane := (eases_hook h guarded sane).passes guarded
  happens h guarded spares := passes_befall h guarded spares

theorem holds_opening (settings : Config.Settings) (typedbBudget stdlibBudget : Int) (host : Host)
    (sink : Sink) : (charter spared).Holds none
      ((opening settings typedbBudget stdlibBudget host sink).queue : Multiset (Ready Hook))
      (opening settings typedbBudget stdlibBudget host sink).machine := by
  -- At the start there are no tasks, timers and threads, so most conditions are about nothing.
  have unclaimed (n : Nat) :
      ¬ claims (State.initial settings typedbBudget stdlibBudget host sink) n := by
    rintro (⟨p, hp, -⟩ | ⟨slot, hslot, -⟩ | hn)
    · cases hp
    · cases hslot
    · cases hn
  have unheld (t : Nat) :
      ¬ Held (State.initial settings typedbBudget stdlibBudget host sink) t := by
    rintro (⟨p, hp, -⟩ | ⟨e, he, -⟩ | ⟨e, he, -⟩)
    · cases hp
    · cases he
    · cases he
  exact
    { inv :=
        { joined := fun t key method params hjob => by cases hjob
          inFlight := fun key t hkey => by cases hkey
          threads := fun t thread ht => by cases ht
          pending := fun id entry hid => by cases hid
          numbered := ⟨fun id hid => absurd rfl hid, fun g n hn => by cases g <;> cases hn⟩
          answered := fun id hid => absurd rfl hid
          granted := fun n hn => absurd rfl hn
          queued := fun t n ht => by cases ht
          held := fun t ht => absurd ht (unheld t)
          claimed := fun n hn => absurd hn (unclaimed n) }
      guarded := .empty
      sane := .empty unclaimed
      waiting := fun t rest _ hrest => by cases hrest
      unbegun := fun t _ => rfl }

end PikeAnalysis.Engine.Sharing
