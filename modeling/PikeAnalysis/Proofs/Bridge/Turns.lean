import PikeAnalysis.Proofs.Bridge.History

/-!
# Turns at the locks

Threads that start or stop a worker take turns, and so do threads that write a request.  A thread
that queues for its turn goes on when its ticket has been given the turn or when it has given up;
`Course` are the histories in which this is so, and in which nothing else is asked of what happens.

`Orderly` says what holds of both locks along every course, and of a moment within a step, where the
thread whose turn it is may have one of them in hand.  One thread has a lock at a time.  A ticket
stands in one queue only, so that a turn given at one lock is none at the other.  And who is about
to put a worker to use, be it that he waits for the readers of an old one or for a process that is
being started, has kept the start lock all the time, which is why there is no worker in use by then.

Cancellation makes this delicate.  A holder may give up while he waits, or after he has been given
the turn and before he has gone on, and then the turn must not get lost.  `Turns` keeps for each
ticket what has become of it, and the condition on courses is only that the outside does not take
anybody for a holder who gave up unless he did.

The invariant speaks of a moment within a step by two parameters: the thread `own` whose step it is,
which is in no stage, and the lock that it has in hand.  A lock that nobody keeps, is in nobody's
hand, and has no turn given out is free, and only then can it be taken.
-/

namespace PikeAnalysis.Bridge

/-! ## Tickets -/

/-- What has become of a ticket: its holder has been given the turn, or had given up before.  Either
may be so of a ticket that is still in the queue, which it leaves when its holder goes on. -/
inductive Turn where
  | given | givenUp
  deriving DecidableEq

/-- What has become of the tickets so far.  Nothing is known of a ticket that has not been drawn, or
whose holder still waits. -/
abbrev Turns := Nat → Option Turn

/-- The tickets whose holders are given their turn. -/
def grants (out : List Effect) : List Nat :=
  out.filterMap fun
    | .grant n => some n
    | _ => none

/-- What has become of the tickets once something has been done. -/
def Turns.after (turns : Turns) (out : List Effect) : Turns :=
  fun n => turns n <|> if n ∈ grants out then some .given else none

/-- What has become of the tickets when the holder of one gives up.  Who gives up after the turn has
come to him has had it all the same. -/
def Turns.giveUp (turns : Turns) (n : Nat) : Turns :=
  fun m => if m = n then turns n <|> some .givenUp else turns m

/-- The queue in which a thread stands, and its ticket there.  A thread stands in one queue at
most. -/
def Stage.ticket? : Stage → Option (Gate × Nat)
  | .queued n => some (.start, n)
  | .lined _ _ n => some (.write, n)
  | .reaping | .launching .. | .writing .. | .answering _ | .terminating
    _ | .killing _ | .draining =>
    none

/-- A thread in a queue goes on when it has its turn or has given up. -/
def Event.Due (turns : Turns) (s : State) : Event → Prop
  | .resume t how => ∀ thread g n, Assoc.get? t s.threads = some thread →
    thread.stage.ticket? = some (g, n) → how = .cancelled ∨ turns n = some .given
  | _ => True

/-- The histories in which threads wait for their turn.  The outside takes a holder of a ticket for
one who has given up only if that is so.  That a thread goes on with its turn only when it has it is
the only condition. -/
inductive Course : List Occurrence → Turns → State → Prop
  | start (recentMax : Nat) : Course [] (fun _ => none) { recentMax }
  | occurs {past : List Occurrence} {turns : Turns} {s : State} (h : Course past turns s)
    (env : Outside) (e : Event) (knows : ∀ n, env.abandoned n = true → turns n = some .givenUp)
    (due : e.Due turns s) :
    Course (past ++ [⟨e, (s.step env e).2⟩]) (turns.after (s.step env e).2) (s.step env e).1
  | givesUp {past : List Occurrence} {turns : Turns} {s : State} (h : Course past turns s) (n : Nat)
    (waits : ∃ g, n ∈ (s.lock g).queue) : Course past (turns.giveUp n) s

variable {past : List Occurrence} {turns : Turns} {s s' : State} {out more : List Effect}
  {own : Option Nat} {hand : Option Gate} {g : Gate} {t n : Nat}

theorem Course.history (h : Course past turns s) : History past s := by
  induction h with
  | start recentMax => exact .start recentMax
  | occurs _ env e _ _ ih => exact ih.occurs env e
  | givesUp _ _ _ ih => exact ih

@[simp] theorem grants_append (out more : List Effect) :
    grants (out ++ more) = grants out ++ grants more :=
  List.filterMap_append

theorem mem_grants : n ∈ grants out ↔ Effect.grant n ∈ out := by
  constructor
  · intro h
    obtain ⟨x, hx, hn⟩ := List.mem_filterMap.mp h
    cases x with
    | grant m =>
      obtain rfl := Option.some.inj hn
      exact hx
    | _ => cases hn
  · exact fun h => List.mem_filterMap.mpr ⟨_, h, rfl⟩

theorem Turns.after_append (turns : Turns) (out more : List Effect) :
    turns.after (out ++ more) = (turns.after out).after more := by
  funext m
  unfold Turns.after
  cases turns m <;> by_cases hout : m ∈ grants out <;> simp [hout]

theorem Turns.after_of_no_grant (turns : Turns) (h : ∀ m, .grant m ∉ more) :
    turns.after more = turns := by
  funext m
  have hm : m ∉ grants more := fun hmem => h m (mem_grants.mp hmem)
  simp [Turns.after, hm]

theorem Turns.after_of_eq_some {turn : Turn} (h : turns n = some turn) (out : List Effect) :
    turns.after out n = some turn := by
  rw [Turns.after, h]
  rfl

theorem Turns.given_of_after (h : turns.after more n = some .given) :
    turns n = some .given ∨ .grant n ∈ more := by
  unfold Turns.after at h
  cases hn : turns n with
  | some turn => exact .inl (by simpa [hn] using h)
  | none =>
    refine .inr (mem_grants.mp ?_)
    by_contra hmem
    simp [hn, hmem] at h

theorem Turns.known_of_after (h : turns.after more n ≠ none) :
    turns n ≠ none ∨ .grant n ∈ more := by
  by_cases hn : turns n = none
  · refine .inr (mem_grants.mp ?_)
    by_contra hmem
    exact h (by simp [Turns.after, hn, hmem])
  · exact .inl hn

/-! ## The locks -/

@[simp] theorem lock_setLock_self (s : State) (g : Gate) (l : Lock) :
    (s.setLock g l).lock g = l := by
  cases g <;> rfl

theorem lock_setLock_of_ne {g g' : Gate} (h : g' ≠ g) (s : State) (l : Lock) :
    (s.setLock g l).lock g' = s.lock g' := by
  cases g <;> cases g' <;> first | rfl | exact absurd rfl h

@[simp] theorem threads_setLock (s : State) (g : Gate) (l : Lock) :
    (s.setLock g l).threads = s.threads := by
  cases g <;> rfl

@[simp] theorem current_setLock (s : State) (g : Gate) (l : Lock) :
    (s.setLock g l).current = s.current := by
  cases g <;> rfl

@[simp] theorem nextTicket_setLock (s : State) (g : Gate) (l : Lock) :
    (s.setLock g l).nextTicket = s.nextTicket := by
  cases g <;> rfl

/-- The lock that a thread keeps while it waits.  While it waits for its turn a thread keeps none,
so there is no circle of threads that wait for one another's locks. -/
def Stage.holds : Stage → Option Gate
  | .queued _ | .lined .. | .answering _ => none
  | .writing .. => some .write
  | .reaping | .launching .. | .terminating _ | .killing _ | .draining => some .start

/-- Whether a thread is about to put a worker to use.  Both stages are reached under the start lock
only, and the thread still has it. -/
def Stage.starts : Stage → Bool
  | .reaping | .launching .. => true
  | .queued _ | .lined .. | .writing .. | .answering _ | .terminating _ | .killing _ | .draining =>
    false

/-- What a thread waits for, unless it is the thread whose turn it is. -/
def State.stageOf (s : State) (own : Option Nat) (t : Nat) : Option Stage :=
  if own = some t then none else (Assoc.get? t s.threads).map (·.stage)

/-- What holds of the locks within a step of the thread `own`, which may have one of them in hand.
Between two steps there is no such thread, and no lock is in hand. -/
structure Orderly (turns : Turns) (own : Option Nat) (hand : Option Gate) (s : State) : Prop where
  held : ∀ t stage g, s.stageOf own t = some stage → stage.holds = some g →
    (s.lock g).held = true ∧ hand ≠ some g
  inHand : ∀ g, hand = some g → (s.lock g).held = true
  single : ∀ t u stage stage' g, s.stageOf own t = some stage → s.stageOf own u = some stage' →
    stage.holds = some g → stage'.holds = some g → t = u
  idle : ∀ t stage, s.stageOf own t = some stage → stage.starts = true → s.current = none
  queued : ∀ t stage g n, s.stageOf own t = some stage → stage.ticket? = some (g, n) →
    n ∈ (s.lock g).queue
  holder : ∀ t u stage stage' g n, s.stageOf own t = some stage → s.stageOf own u = some stage' →
    stage.ticket? = some (g, n) → stage'.ticket? = some (g, n) → t = u
  given : ∀ g, ∀ n ∈ (s.lock g).queue, turns n = some .given →
    (s.lock g).held = false ∧ (s.lock g).queue.head? = some n
  known : ∀ n, (∃ g, n ∈ (s.lock g).queue) ∨ turns n ≠ none → n < s.nextTicket
  apart : ∀ g g' n, n ∈ (s.lock g).queue → n ∈ (s.lock g').queue → g = g'

theorem stageOf_none (s : State) (t : Nat) :
    s.stageOf none t = (Assoc.get? t s.threads).map (·.stage) :=
  if_neg (by simp)

theorem stageOf_none_of_stageOf_some {u : Nat} {stage : Stage}
    (h : s.stageOf (some t) u = some stage) :
    u ≠ t ∧ s.stageOf none u = some stage := by
  unfold State.stageOf at h
  split at h
  · cases h
  · next hne => exact ⟨fun hu => hne (by rw [hu]), by rw [stageOf_none, h]⟩

theorem stageOf_of_threads (h : s'.threads = s.threads) (own : Option Nat) (t : Nat) :
    s'.stageOf own t = s.stageOf own t := by
  rw [State.stageOf, State.stageOf, h]

theorem stageOf_of_set {job : Job} {stage : Stage}
    (h : s'.threads = Assoc.set t { job, stage } s.threads) (u : Nat) :
    s'.stageOf none u = if u = t then some stage else s.stageOf (some t) u := by
  rw [stageOf_none, State.stageOf, h, Assoc.get?_set]
  by_cases hu : u = t
  · simp [hu]
  · have hne : some t ≠ some u := fun he => hu (Option.some.inj he).symm
    simp [hu, hne]

theorem stageOf_of_erase (h : s'.threads = Assoc.erase t s.threads) (u : Nat) :
    s'.stageOf none u = s.stageOf (some t) u := by
  rw [stageOf_none, State.stageOf, h, Assoc.get?_erase]
  by_cases hu : u = t
  · simp [hu]
  · have hne : some t ≠ some u := fun he => hu (Option.some.inj he).symm
    simp [hu, hne]

/-- Who is about to put a worker to use has kept the start lock. -/
theorem holds_of_starts {stage : Stage} (h : stage.starts = true) : stage.holds = some .start := by
  cases stage <;> first | rfl | cases h

/-- No thread that waits keeps a lock that another has in hand, or that nobody has. -/
theorem Orderly.not_holds (h : Orderly turns own hand s)
    (free : hand = some g ∨ (s.lock g).held = false)
    {u : Nat} {stage : Stage} (hstage : s.stageOf own u = some stage) : stage.holds ≠ some g := by
  intro hholds
  obtain ⟨hheld, hhand⟩ := h.held u stage g hstage hholds
  rcases free with hfree | hfree
  · exact hhand hfree
  · rw [hheld] at hfree
    cases hfree

/-- A change that leaves threads, locks and tickets alone.  A worker can be put to use by the thread
that has the start lock in hand. -/
theorem Orderly.calm (h : Orderly turns own hand s) (threads : s'.threads = s.threads)
    (lock : ∀ g, s'.lock g = s.lock g) (nextTicket : s'.nextTicket = s.nextTicket)
    (current : hand = some .start ∨ s'.current = none ∨ s'.current = s.current) :
    Orderly turns own hand s' := by
  have hstage : ∀ u, s'.stageOf own u = s.stageOf own u := stageOf_of_threads threads own
  refine
    { held := fun u stage g hu => by rw [lock]; exact h.held u stage g (hstage u ▸ hu)
      inHand := fun g => by rw [lock]; exact h.inHand g
      single := fun u v stage stage' g hu hv =>
        h.single u v stage stage' g (hstage u ▸ hu) (hstage v ▸ hv)
      idle := fun u stage hu hstarts => ?_
      queued := fun u stage g n hu => by rw [lock]; exact h.queued u stage g n (hstage u ▸ hu)
      holder := fun u v stage stage' g n hu hv =>
        h.holder u v stage stage' g n (hstage u ▸ hu) (hstage v ▸ hv)
      given := fun g => by rw [lock]; exact h.given g
      known := fun n hn => by rw [nextTicket]; exact h.known n (by simpa only [lock] using hn)
      apart := fun g g' n => by rw [lock, lock]; exact h.apart g g' n }
  have hu' := hstage u ▸ hu
  rcases current with hhand | hnone | hsame
  · exact absurd (holds_of_starts hstarts) (h.not_holds (.inl hhand) hu')
  · exact hnone
  · exact hsame.trans (h.idle u stage hu' hstarts)

/-- The first in a queue is given its turn while nobody has the lock.  If the queue is empty nothing
happens. -/
theorem Orderly.wake (h : Orderly turns own hand s) (free : (s.lock g).held = false) :
    Orderly (turns.after (s.wakeFirst g).2) own hand (s.wakeFirst g).1 := by
  have hhead : ∀ m, Effect.grant m ∈ (s.wakeFirst g).2 → (s.lock g).queue.head? = some m := by
    intro m hgranted
    obtain ⟨m', hm', hsame⟩ := List.mem_map.mp hgranted
    obtain rfl := Effect.grant.inj hsame
    exact Option.mem_toList.mp hm'
  refine { h with given := fun g' n hn hgiven => ?_, known := fun n hn => ?_ }
  · rcases Turns.given_of_after hgiven with hbefore | hgranted
    · exact h.given g' n hn hbefore
    · -- the ticket stands in one queue only
      obtain rfl := h.apart g g' n (List.mem_of_mem_head? (hhead n hgranted)) hn
      exact ⟨free, hhead n hgranted⟩
  · rcases hn with hqueue | hturn
    · exact h.known n (.inl hqueue)
    · rcases Turns.known_of_after hturn with hbefore | hgranted
      · exact h.known n (.inr hbefore)
      · exact h.known n (.inl ⟨g, List.mem_of_mem_head? (hhead n hgranted)⟩)

/-- The holder of a ticket gives up while it is in a queue. -/
theorem Orderly.giveUp (h : Orderly turns own hand s) (waits : ∃ g, n ∈ (s.lock g).queue) :
    Orderly (turns.giveUp n) own hand s := by
  refine { h with given := fun g m hm hgiven => h.given g m hm ?_, known := fun m hm => ?_ }
  · unfold Turns.giveUp at hgiven
    split at hgiven
    · next he =>
      rw [he]
      cases hturn : turns n with
      | some turn => simpa [hturn] using hgiven
      | none => simp [hturn] at hgiven
    · exact hgiven
  · rcases hm with hqueue | hturn
    · exact h.known m (.inl hqueue)
    · unfold Turns.giveUp at hturn
      split at hturn
      · next he => exact h.known m (.inl (he ▸ waits))
      · exact h.known m (.inr hturn)

/-! ### One lock at a time -/

/-- A lock changes as long as what it says of threads and tickets is so afterwards. -/
theorem Orderly.setLock (h : Orderly turns own hand s) {hand' : Option Gate} {l : Lock}
    (held : ∀ u stage, s.stageOf own u = some stage → stage.holds = some g →
      l.held = true ∧ hand' ≠ some g)
    (inHand : hand' = some g → l.held = true)
    (others : ∀ g', g' ≠ g → (hand' = some g' ↔ hand = some g'))
    (queued : ∀ u stage n, s.stageOf own u = some stage → stage.ticket? = some (g, n) → n ∈ l.queue)
    (given : ∀ n ∈ l.queue, turns n = some .given → l.held = false ∧ l.queue.head? = some n)
    (subset : ∀ n ∈ l.queue, n ∈ (s.lock g).queue) : Orderly turns own hand' (s.setLock g l) := by
  have hstage : ∀ u, (s.setLock g l).stageOf own u = s.stageOf own u :=
    stageOf_of_threads (threads_setLock s g l) own
  have hother : ∀ g', g' ≠ g → (s.setLock g l).lock g' = s.lock g' :=
    fun g' hg' => lock_setLock_of_ne hg' s l
  have hsub : ∀ g' n, n ∈ ((s.setLock g l).lock g').queue → n ∈ (s.lock g').queue := by
    intro g' n hn
    by_cases hg' : g' = g
    · subst hg'
      rw [lock_setLock_self] at hn
      exact subset n hn
    · rwa [hother g' hg'] at hn
  refine
    { held := fun u stage g' hu hholds => ?_
      inHand := fun g' hhand => ?_
      single := fun u v stage stage' g' hu hv =>
        h.single u v stage stage' g' (hstage u ▸ hu) (hstage v ▸ hv)
      idle := fun u stage hu hstarts => by
        rw [current_setLock]
        exact h.idle u stage (hstage u ▸ hu) hstarts
      queued := fun u stage g' n hu hticket => ?_
      holder := fun u v stage stage' g' n hu hv =>
        h.holder u v stage stage' g' n (hstage u ▸ hu) (hstage v ▸ hv)
      given := fun g' n hn hgiven => ?_
      known := fun n hn => by
        rw [nextTicket_setLock]
        exact h.known n (hn.imp_left fun ⟨g', hg'⟩ => ⟨g', hsub g' n hg'⟩)
      apart := fun g' g'' n hn hn' => h.apart g' g'' n (hsub g' n hn) (hsub g'' n hn') }
  -- Each condition is about one lock, the one that changes or one that does not.
  all_goals by_cases hg' : g' = g
  · subst hg'
    rw [lock_setLock_self]
    exact held u stage (hstage u ▸ hu) hholds
  · rw [hother g' hg', Ne, others g' hg']
    exact h.held u stage g' (hstage u ▸ hu) hholds
  · subst hg'
    rw [lock_setLock_self]
    exact inHand hhand
  · rw [hother g' hg']
    exact h.inHand g' ((others g' hg').mp hhand)
  · subst hg'
    rw [lock_setLock_self]
    exact queued u stage n (hstage u ▸ hu) hticket
  · rw [hother g' hg']
    exact h.queued u stage g' n (hstage u ▸ hu) hticket
  · subst hg'
    rw [lock_setLock_self] at hn ⊢
    exact given n hn hgiven
  · rw [hother g' hg'] at hn ⊢
    exact h.given g' n hn hgiven

/-- A lock is given back.  Whoever is first in its queue is granted it by what the release says. -/
theorem Orderly.release (h : Orderly turns own (some g) s) :
    Orderly (turns.after (s.release g).2) own none (s.release g).1 := by
  have hheld := h.inHand g rfl
  have hdropped : Orderly turns own none (s.setLock g { s.lock g with held := false }) := by
    refine h.setLock (fun u stage hu hholds => ?_) nofun (fun g' hg' => ?_) (fun u stage n => ?_)
      (fun n hn hgiven => ?_) fun n hn => hn
    · exact absurd hholds (h.not_holds (.inl rfl) hu)
    · simp [hg'.symm]
    · exact h.queued u stage g n
    · have hfree := (h.given g n hn hgiven).1
      rw [hheld] at hfree
      cases hfree
  exact hdropped.wake (by rw [lock_setLock_self])

/-- A lock is taken when nobody has it and nobody has been given the turn. -/
theorem Orderly.take (h : Orderly turns own none s) (free : (s.lock g).held = false)
    (nobody : ∀ n ∈ (s.lock g).queue, turns n ≠ some .given) :
    Orderly turns own (some g) (s.take g) := by
  refine h.setLock (fun u stage hu hholds => ?_) (fun _ => rfl) (fun g' hg' => ?_)
    (fun u stage n => ?_)
    (fun n hn hgiven => absurd hgiven (nobody n hn)) fun n hn => hn
  · exact absurd hholds (h.not_holds (.inr free) hu)
  · simp [hg'.symm]
  · exact h.queued u stage g n

/-- A thread ends. -/
theorem Orderly.finish (h : Orderly turns (some t) hand s)
    (threads : s'.threads = Assoc.erase t s.threads) (lock : ∀ g, s'.lock g = s.lock g)
    (nextTicket : s'.nextTicket = s.nextTicket) (current : s'.current = s.current) :
    Orderly turns none none s' := by
  have hstage : ∀ u, s'.stageOf none u = s.stageOf (some t) u := stageOf_of_erase threads
  exact
    { held := fun u stage g hu hholds => by
        rw [lock]
        exact ⟨(h.held u stage g (hstage u ▸ hu) hholds).1, nofun⟩
      inHand := nofun
      single := fun u v stage stage' g hu hv =>
        h.single u v stage stage' g (hstage u ▸ hu) (hstage v ▸ hv)
      idle := fun u stage hu hstarts => current.trans (h.idle u stage (hstage u ▸ hu) hstarts)
      queued := fun u stage g n hu => by rw [lock]; exact h.queued u stage g n (hstage u ▸ hu)
      holder := fun u v stage stage' g n hu hv =>
        h.holder u v stage stage' g n (hstage u ▸ hu) (hstage v ▸ hv)
      given := fun g => by rw [lock]; exact h.given g
      known := fun n hn => by rw [nextTicket]; exact h.known n (by simpa only [lock] using hn)
      apart := fun g g' n => by rw [lock, lock]; exact h.apart g g' n }

/-- A thread starts to wait, keeping a lock only if it has it in hand, and for a turn only with a
ticket of its own. -/
theorem Orderly.wait (h : Orderly turns (some t) hand s) {job : Job} {stage : Stage}
    (holds : ∀ g, stage.holds = some g → hand = some g)
    (starts : stage.starts = true → s.current = none)
    (ticket : ∀ g n, stage.ticket? = some (g, n) → n ∈ (s.lock g).queue ∧
      ∀ u st, s.stageOf (some t) u = some st → st.ticket? ≠ some (g, n))
    (threads : s'.threads = Assoc.set t { job, stage } s.threads) (lock : ∀ g, s'.lock g = s.lock g)
    (nextTicket : s'.nextTicket = s.nextTicket) (current : s'.current = s.current) :
    Orderly turns none none s' := by
  -- Only the new stage has to be compared with those of the others.
  have hstage : ∀ u st, s'.stageOf none u = some st →
      (u = t ∧ st = stage) ∨ s.stageOf (some t) u = some st := by
    intro u st hu
    rw [stageOf_of_set threads] at hu
    split at hu
    · next he => exact .inl ⟨he, (Option.some.inj hu).symm⟩
    · exact .inr hu
  refine
    { held := fun u st g hu hholds => ?_
      inHand := nofun
      single := fun u v st st' g hu hv hholds hholds' => ?_
      idle := fun u st hu hstarts => ?_
      queued := fun u st g n hu hticket => ?_
      holder := fun u v st st' g n hu hv hticket hticket' => ?_
      given := fun g => by rw [lock]; exact h.given g
      known := fun n hn => by rw [nextTicket]; exact h.known n (by simpa only [lock] using hn)
      apart := fun g g' n => by rw [lock, lock]; exact h.apart g g' n }
  · rw [lock]
    rcases hstage u st hu with ⟨-, rfl⟩ | hu
    · exact ⟨h.inHand g (holds g hholds), nofun⟩
    · exact ⟨(h.held u st g hu hholds).1, nofun⟩
  · rcases hstage u st hu with ⟨rfl, rfl⟩ | hu
    · rcases hstage v st' hv with ⟨rfl, -⟩ | hv
      · rfl
      · exact absurd hholds' (h.not_holds (.inl (holds g hholds)) hv)
    · rcases hstage v st' hv with ⟨rfl, rfl⟩ | hv
      · exact absurd hholds (h.not_holds (.inl (holds g hholds')) hu)
      · exact h.single u v st st' g hu hv hholds hholds'
  · rw [current]
    rcases hstage u _ hu with ⟨-, rfl⟩ | hu
    · exact starts hstarts
    · exact h.idle u st hu hstarts
  · rw [lock]
    rcases hstage u _ hu with ⟨-, rfl⟩ | hu
    · exact (ticket g n hticket).1
    · exact h.queued u st g n hu hticket
  · rcases hstage u _ hu with ⟨rfl, rfl⟩ | hu
    · rcases hstage v _ hv with ⟨rfl, -⟩ | hv
      · rfl
      · exact absurd hticket' ((ticket g n hticket).2 v st' hv)
    · rcases hstage v _ hv with ⟨rfl, rfl⟩ | hv
      · exact absurd hticket ((ticket g n hticket').2 u st hu)
      · exact h.holder u v st st' g n hu hv hticket hticket'

/-- A thread joins a queue with a new ticket.  The ticket is nobody else's, as no stage names it. -/
theorem Orderly.draw (h : Orderly turns (some t) none s) (g : Gate) :
    Orderly turns (some t) none (s.draw g) ∧ s.nextTicket ∈ ((s.draw g).lock g).queue ∧
    ∀ g' u st, (s.draw g).stageOf (some t) u = some st → st.ticket? ≠ some (g', s.nextTicket) := by
  -- The ticket is new: nobody holds it, and it is in no queue.
  have hnew : ∀ g', s.nextTicket ∉ (s.lock g').queue :=
    fun g' hmem => absurd (h.known _ (.inl ⟨g', hmem⟩)) (Nat.lt_irrefl _)
  have hstage : ∀ u, (s.draw g).stageOf (some t) u = s.stageOf (some t) u :=
    stageOf_of_threads (by cases g <;> rfl) _
  have hcurrent : (s.draw g).current = s.current := by cases g <;> rfl
  have hself :
      (s.draw g).lock g = { s.lock g with queue := (s.lock g).queue ++ [s.nextTicket] } := by
    cases g <;> rfl
  have hother : ∀ g', g' ≠ g → (s.draw g).lock g' = s.lock g' := by
    intro g' hg'
    cases g <;> cases g' <;> first | rfl | exact absurd rfl hg'
  have hheld : ∀ g', ((s.draw g).lock g').held = (s.lock g').held := by
    intro g'
    cases g <;> cases g' <;> rfl
  have hmem : ∀ g' n, n ∈ ((s.draw g).lock g').queue ↔
      n ∈ (s.lock g').queue ∨ g' = g ∧ n = s.nextTicket := by
    intro g' n
    by_cases hg' : g' = g
    · subst hg'
      simp [hself]
    · simp [hother g' hg', hg']
  refine ⟨?_, (hmem g _).mpr (.inr ⟨rfl, rfl⟩), fun g' u st hu hticket =>
    hnew g' (h.queued u st g' _ (hstage u ▸ hu) hticket)⟩
  refine
    { held := fun u stage g' hu => by rw [hheld]; exact h.held u stage g' (hstage u ▸ hu)
      inHand := nofun
      single := fun u v stage stage' g' hu hv =>
        h.single u v stage stage' g' (hstage u ▸ hu) (hstage v ▸ hv)
      idle := fun u stage hu hstarts => hcurrent.trans (h.idle u stage (hstage u ▸ hu) hstarts)
      queued := fun u stage g' n hu hticket =>
        (hmem g' n).mpr (.inl (h.queued u stage g' n (hstage u ▸ hu) hticket))
      holder := fun u v stage stage' g' n hu hv =>
        h.holder u v stage stage' g' n (hstage u ▸ hu) (hstage v ▸ hv)
      given := fun g' n hn hgiven => ?_
      known := fun n hn => ?_
      apart := fun g' g'' n hn hn' => ?_ }
  · have hn : n ∈ (s.lock g').queue := by
      refine ((hmem g' n).mp hn).resolve_right fun ⟨_, hlast⟩ => ?_
      have hknown := h.known n (.inr (by simp [hgiven]))
      exact absurd hknown (by simp [hlast])
    obtain ⟨hfree, hhead⟩ := h.given g' n hn hgiven
    refine ⟨(hheld g').trans hfree, ?_⟩
    by_cases hg' : g' = g
    · subst hg'
      rw [hself, List.head?_append, hhead, Option.some_or]
    · rw [hother g' hg', hhead]
  · have hle : n < s.nextTicket ∨ n = s.nextTicket := by
      rcases hn with ⟨g', hqueue⟩ | hturn
      · exact ((hmem g' n).mp hqueue).imp (fun hold => h.known n (.inl ⟨g', hold⟩)) And.right
      · exact .inl (h.known n (.inr hturn))
    have hnext : (s.draw g).nextTicket = s.nextTicket + 1 := by cases g <;> rfl
    omega
  · rcases (hmem g' n).mp hn with hold | ⟨rfl, rfl⟩ <;>
      rcases (hmem g'' _).mp hn' with hold' | ⟨rfl, hlast⟩
    · exact h.apart g' g'' n hold hold'
    · exact absurd (hlast ▸ hold) (hnew g')
    · exact absurd hold' (hnew g'')
    · rfl

/-- A thread goes on, with the lock that it kept while it waited. -/
theorem Orderly.turn (h : Orderly turns none none s) {stage : Stage}
    (hstage : s.stageOf none t = some stage) : Orderly turns (some t) stage.holds s where
  held u st g hu hholds := by
    obtain ⟨hne, hu⟩ := stageOf_none_of_stageOf_some hu
    exact ⟨(h.held u st g hu hholds).1, fun hown =>
      hne (h.single u t st stage g hu hstage hholds hown)⟩
  inHand g hown := (h.held t stage g hstage hown).1
  single u v st st' g hu hv :=
    h.single u v st st' g (stageOf_none_of_stageOf_some hu).2 (stageOf_none_of_stageOf_some hv).2
  idle u st hu := h.idle u st (stageOf_none_of_stageOf_some hu).2
  queued u st g n hu := h.queued u st g n (stageOf_none_of_stageOf_some hu).2
  holder u v st st' g n hu hv :=
    h.holder u v st st' g n (stageOf_none_of_stageOf_some hu).2 (stageOf_none_of_stageOf_some hv).2
  given := h.given
  known := h.known
  apart := h.apart

/-- A thread begins.  It has no lock in hand. -/
theorem Orderly.begin (h : Orderly turns none none s) (t : Nat) :
    Orderly turns (some t) none s where
  held u st g hu := h.held u st g (stageOf_none_of_stageOf_some hu).2
  inHand := nofun
  single u v st st' g hu hv :=
    h.single u v st st' g (stageOf_none_of_stageOf_some hu).2 (stageOf_none_of_stageOf_some hv).2
  idle u st hu := h.idle u st (stageOf_none_of_stageOf_some hu).2
  queued u st g n hu := h.queued u st g n (stageOf_none_of_stageOf_some hu).2
  holder u v st st' g n hu hv :=
    h.holder u v st st' g n (stageOf_none_of_stageOf_some hu).2 (stageOf_none_of_stageOf_some hv).2
  given := h.given
  known := h.known
  apart := h.apart

theorem head?_filter_ne {queue : List Nat} {m : Nat} (hne : m ≠ n) (h : queue.head? = some m) :
    (queue.filter (· != n)).head? = some m := by
  cases queue with
  | nil => cases h
  | cons k rest =>
    obtain rfl := Option.some.inj h
    simp [hne]

/-- A thread leaves the queue. -/
theorem Orderly.leave (h : Orderly turns none none s) {stage : Stage}
    (hstage : s.stageOf none t = some stage) (ticket : stage.ticket? = some (g, n)) :
    Orderly turns (some t) none (s.leaveQueue g n) := by
  refine (h.begin t).setLock (fun u st => (h.begin t).held u st g) nofun (fun _ _ => Iff.rfl)
    (fun u st m hu hticket => ?_) (fun m hm hgiven => ?_) fun m hm => (List.mem_filter.mp hm).1
  · obtain ⟨hne, hu⟩ := stageOf_none_of_stageOf_some hu
    refine List.mem_filter.mpr ⟨h.queued u st g m hu hticket, ?_⟩
    have hmn : m ≠ n := fun hm => hne (h.holder u t st stage g n hu hstage (hm ▸ hticket) ticket)
    simpa using hmn
  · obtain ⟨hmem, hmn⟩ := List.mem_filter.mp hm
    obtain ⟨hfree, hhead⟩ := h.given g m hmem hgiven
    exact ⟨hfree, head?_filter_ne (by simpa using hmn) hhead⟩

/-- A thread whose turn it is leaves the queue with the lock.  The turn of its ticket had been
granted. -/
theorem Orderly.enter (h : Orderly turns none none s) {stage : Stage}
    (hstage : s.stageOf none t = some stage) (ticket : stage.ticket? = some (g, n))
    (hgiven : turns n = some .given) :
    Orderly turns (some t) (some g) ((s.leaveQueue g n).take g) := by
  obtain ⟨hfree, hhead⟩ := h.given g n (h.queued t stage g n hstage ticket) hgiven
  have hlock : (s.leaveQueue g n).lock g =
      { s.lock g with queue := (s.lock g).queue.filter (· != n) } := lock_setLock_self _ _ _
  refine (h.leave hstage ticket).take (by rw [hlock]; exact hfree) fun m hm hgiven' => ?_
  rw [hlock] at hm
  obtain ⟨hmem, hmn⟩ := List.mem_filter.mp hm
  have hhead' := (h.given g m hmem hgiven').2
  rw [hhead] at hhead'
  simp [Option.some.inj hhead'] at hmn

end PikeAnalysis.Bridge
