import PikeAnalysis.Proofs.Bridge.History

/-!
# Requests and their answers

Requests are numbered upwards for as long as the bridge lives, and a worker's line settles the
request whose number it carries and no other.  `Sound` says so of a moment within a step, where part
of what is to be done has been decided; every operation of the bridge keeps it, and so does every
history (`requests_and_answers_correlate`).

A request is numbered before it has its turn to write, so numbers are followed from the moment at
which they are given, not from the moment at which they reach a worker.  Between the two the request
can be closed by a line, by its worker's going or by a stop, and when it turns out at last that it
could not be written its thread fails only if none of these has come first.  That is why a number is
closed once although four parties can close it: whoever closes it takes it off the requests without
an answer in the same step.

The books (`Books`) are about three lists of numbers and the requests that are open: numbers ascend,
each is written and closed at most once, and what is open is not closed.  To this `Sound` adds what
is said of threads: what a thread waits for is a request that was numbered for it, and what it ends
with is how that was closed.  The lemmas for the operations of the machine are in the order of their
definitions.

That answers reach the right worker's request is said under a premise about workers, which is named
in the statement (`Honest`): a line is trusted for the number it carries, so a worker that answers
what it was not asked could settle the request of another one.  Everything else holds of any worker.
-/

namespace PikeAnalysis.Bridge

/-! ## What is said of threads -/

/-- What a worker has said, be it a result or not, as opposed to a failure to hear from it. -/
def Said : Except BridgeFailure Json → Prop
  | .ok _ | .error (.rejected ..) | .error (.malformed ..) => True
  | .error _ => False

/-- The number that a line carries, if it is an answer at all.  It is read off the text alone, as
the state does, so a statement about lines need not mention the state. -/
def lineId? (line : String) : Option Int :=
  (Json.read? line.toList).bind State.answerId?

/-- The number that comes with an event. -/
def Event.heard : Event → Option Int
  | .stdoutLine _ line => lineId? line
  | _ => none

/-- A thread is for a request, which was given a number and was meant for a worker. -/
def Asks (out : List Effect) (t : Nat) (job : Job) (id w : Nat) : Prop :=
  ∃ method params, job = .request method params ∧ .register t w { id, method, params } ∈ out

/-- What a thread may wait for.  A stage that names a request has to name one that was numbered for
this thread in its present life. -/
def Stage.Fits (out : List Effect) (t : Nat) (job : Job) : Stage → Prop
  | .queued _ | .reaping | .launching .. => True
  | .lined id w _ | .writing id w => Asks out t job id w
  | .answering id => ∃ w, Asks out t job id w
  | .terminating _ | .killing _ | .draining => job = .stop

/-- Who waits for the turn to write has not written.  That is why nothing is written twice: writing
takes the thread to a stage from which no other leads back to this one. -/
def Stage.Unsent (out : List Effect) : Stage → Prop
  | .lined id _ _ => (id : Int) ∉ sentIds out
  | _ => True

/-- How a thread may end.  Whoever ends with an answer asked for it, and what a failed start is told
as is never something a worker has said. -/
def Outcome.Fits (out : List Effect) (t : Nat) (job : Job) : Outcome → Prop
  | .finished => ∀ method params, job ≠ .request method params
  | .failed why => ¬ Said (.error why)
  | .cancelled => True
  | .answered id => ∃ w, Asks out t job id w
  | .unwritten id why => (∃ w, Asks out t job id w) ∧ ¬ Said (.error why)

variable {out more : List Effect} {t id w : Nat} {job : Job}

theorem Asks.mono (h : Asks out t job id w) (le : ∀ x ∈ out, x ∈ more) : Asks more t job id w := by
  obtain ⟨method, params, hjob, hregister⟩ := h
  exact ⟨method, params, hjob, le _ hregister⟩

theorem Stage.Fits.mono {stage : Stage} (h : stage.Fits out t job) (le : ∀ x ∈ out, x ∈ more) :
    stage.Fits more t job := by
  cases stage with
  | lined | writing => exact Asks.mono h le
  | answering id => exact h.imp fun _ hw => hw.mono le
  | queued | reaping | launching | terminating | killing | draining => exact h

theorem Outcome.Fits.mono {outcome : Outcome} (h : outcome.Fits out t job)
    (le : ∀ x ∈ out, x ∈ more) : outcome.Fits more t job := by
  cases outcome with
  | answered id => exact h.imp fun _ hw => hw.mono le
  | unwritten id why => exact h.imp_left (·.imp fun _ hw => hw.mono le)
  | finished | failed | cancelled => exact h

theorem Stage.unsent_append {stage : Stage} :
    stage.Unsent (out ++ more) ↔ stage.Unsent out ∧ stage.Unsent more := by
  cases stage with
  | lined => simp [Stage.Unsent]
  | _ => simp [Stage.Unsent]

theorem Stage.unsent_of_no_send {stage : Stage} (h : sentIds out = []) : stage.Unsent out := by
  cases stage with
  | lined => simp [Stage.Unsent, h]
  | _ => trivial

/-! ## Within a step -/

/-- What a step begins with.  A step is judged against what was known before it, and a setting holds
those four things fixed while the effects of the step are gone through one by one. -/
structure Setting where
  /-- What each thread is for. -/
  job : Nat → Option Job
  /-- How often each thread has ended since it began. -/
  ended : Nat → Nat
  /-- The number that came with the event. -/
  heard : Option Int
  /-- What was to be done before. -/
  earlier : List Effect

/-- What is known of requests: `out` is all that was to be done so far.  Nothing about threads or
workers is in it but which worker a request was numbered for. -/
structure Books (out : List Effect) (s : State) : Prop where
  ascending : (registeredIds out).Pairwise (· < ·)
  bounded : ∀ n ∈ registeredIds out, n ≤ s.nextId
  written : ∀ w r, .send w r ∈ out → ∃ t, .register t w r ∈ out
  sentOnce : (sentIds out).Nodup
  keys : (s.pending.map (·.1)).Nodup
  registered : ∀ e ∈ s.pending,
    ∃ t params, .register t e.2.worker { id := e.1, method := e.2.method, params } ∈ out
  open' : ∀ e ∈ s.pending, e.1 ∉ settledIds out
  once : (settledIds out).Nodup
  settled : ∀ id ∈ settledIds out, (id : Int) ∈ registeredIds out

/-- What holds within a step when `out` is to be done; nothing is said of the thread `own`, whose
turn it is.  Of the thread `own` it is known that it has not ended, and nothing else, as it is about
to decide. -/
structure Sound (c : Setting) (own : Option Nat) (out : List Effect) (s : State) : Prop where
  books : Books (c.earlier ++ out) s
  threads : ∀ t thread, own ≠ some t → Assoc.get? t s.threads = some thread →
    c.job t = some thread.job ∧ thread.stage.Fits (c.earlier ++ out) t thread.job
  unsent : ∀ t thread, own ≠ some t → Assoc.get? t s.threads = some thread →
    thread.stage.Unsent (c.earlier ++ out)
  outcomes : ∀ t outcome, .ends t outcome ∈ out →
    ∃ job, c.job t = some job ∧ outcome.Fits (c.earlier ++ out) t job
  said : ∀ (id : Nat) answer, .settle id answer ∈ out → Said answer → c.heard = some (id : Int)
  single : ∀ t, c.ended t + endsOf t out ≤ 1
  awake : ∀ t, own = some t ∨ Assoc.get? t s.threads ≠ none → c.ended t + endsOf t out = 0

/-! ## The books -/

/-- Effects by which no request is numbered, written or closed.  The lists of numbers that
the theorem is about stay as they are, whatever else happens. -/
def Effect.IsMute (x : Effect) : Prop :=
  x.registers = none ∧ x.sends = none ∧ x.closes = none

variable {s s' : State}

/-- What is mute changes none of the lists. -/
theorem ids_of_mute (mute : ∀ x ∈ more, x.IsMute) :
    registeredIds more = [] ∧ sentIds more = [] ∧ settledIds more = [] :=
  ⟨List.filterMap_eq_nil_iff.mpr fun x hx => (mute x hx).1,
    List.filterMap_eq_nil_iff.mpr fun x hx => (mute x hx).2.1,
    List.filterMap_eq_nil_iff.mpr fun x hx => (mute x hx).2.2⟩

/-- Where the numbers of effects are all different, a number belongs to one effect. -/
theorem same_of_number {α : Type} {f : Effect → Option α} {x y : Effect} {a : α}
    (nodup : (out.filterMap f).Nodup) (hx : x ∈ out) (hy : y ∈ out) (hfx : f x = some a)
    (hfy : f y = some a) : x = y := by
  by_contra hne
  have hpairs := List.pairwise_filterMap.mp nodup
  have symmetric : Std.Symm fun x y => ∀ b, f x = some b → ∀ b', f y = some b' → b ≠ b' :=
    ⟨fun _ _ hxy b hb b' hb' => (hxy b' hb' b hb).symm⟩
  exact hpairs.forall hx hy hne a hfx a hfy rfl

/-- A number is given once: to one thread, for one worker and one request. -/
theorem Books.registration (h : Books out s) {t u v : Nat} {r r' : Request}
    (hr : .register t w r ∈ out) (hr' : .register u v r' ∈ out) (same : r.id = r'.id) :
    t = u ∧ w = v ∧ r = r' :=
  have hnodup : (registeredIds out).Nodup := h.ascending.imp fun hlt => Int.ne_of_lt hlt
  Effect.register.inj (same_of_number hnodup hr hr' rfl (congrArg some same.symm))

theorem Books.quiet (h : Books out s) (nextId : s.nextId ≤ s'.nextId)
    (pending : s'.pending = s.pending) (mute : ∀ x ∈ more, x.IsMute) : Books (out ++ more) s' := by
  obtain ⟨hregistered, hsent, hsettled⟩ := ids_of_mute mute
  have hr : registeredIds (out ++ more) = registeredIds out := by simp [hregistered]
  have hs : sentIds (out ++ more) = sentIds out := by simp [hsent]
  have hd : settledIds (out ++ more) = settledIds out := by simp [hsettled]
  refine
    { ascending := by rw [hr]; exact h.ascending
      bounded := fun n hn => ?_
      written := fun w r hsend => ?_
      sentOnce := by rw [hs]; exact h.sentOnce
      keys := by rw [pending]; exact h.keys
      registered := fun e he => ?_
      open' := by rw [pending, hd]; exact h.open'
      once := by rw [hd]; exact h.once
      settled := by rw [hr, hd]; exact h.settled }
  · rw [hr] at hn
    have hle := h.bounded n hn
    omega
  · have hearlier := (List.mem_append.mp hsend).resolve_right fun hmem => nomatch (mute _ hmem).2.1
    exact (h.written w r hearlier).imp fun _ hregister => List.mem_append_left _ hregister
  · rw [pending] at he
    obtain ⟨t, params, hregister⟩ := h.registered e he
    exact ⟨t, params, List.mem_append_left _ hregister⟩

/-- A request is given the next number.  It was not written before, since numbers only grow. -/
theorem Books.register (h : Books out s) (t w : Nat) (method : String)
    (params : List (String × Json))
    (nextId : s'.nextId = s.nextId + 1)
    (pending : s'.pending = Assoc.set (s.nextId + 1) { method, worker := w } s.pending) :
    (((s.nextId + 1 : Nat) : Int) ∉ sentIds out) ∧
    Books (out ++ [.register t w { id := (s.nextId + 1 : Nat), method, params }]) s' := by
  -- The number is above all that were given, so it is in none of the lists.
  have hfresh : ((s.nextId + 1 : Nat) : Int) ∉ registeredIds out := by
    intro hmem
    have hle := h.bounded _ hmem
    omega
  have hkey : Assoc.get? (s.nextId + 1) s.pending = none := by
    by_contra hfound
    obtain ⟨entry, hentry⟩ := Option.ne_none_iff_exists'.mp hfound
    obtain ⟨u, params, hregister⟩ := h.registered _ (Assoc.mem_of_get? hentry)
    exact hfresh (mem_registeredIds.mpr ⟨_, _, _, hregister, rfl⟩)
  have hnew : s.nextId + 1 ∉ settledIds out := fun hmem => hfresh (h.settled _ hmem)
  have hunsent : ((s.nextId + 1 : Nat) : Int) ∉ sentIds out := by
    intro hmem
    obtain ⟨v, r, hsend, hr⟩ := mem_sentIds.mp hmem
    obtain ⟨u, hregister⟩ := h.written v r hsend
    exact hfresh (mem_registeredIds.mpr ⟨u, v, r, hregister, hr⟩)
  -- Of the lists only that of what is registered has grown.
  refine ⟨hunsent, ?_⟩
  rw [Assoc.set_of_get?_eq_none hkey] at pending
  generalize hx : Effect.register t w { id := (s.nextId + 1 : Nat), method, params } = x
  have hr : registeredIds (out ++ [x]) = registeredIds out ++ [((s.nextId + 1 : Nat) : Int)] := by
    rw [registeredIds_append, ← hx]
    rfl
  have hs : sentIds (out ++ [x]) = sentIds out := by
    rw [sentIds_append, ← hx]
    exact List.append_nil _
  have hd : settledIds (out ++ [x]) = settledIds out := by
    rw [settledIds_append, ← hx]
    exact List.append_nil _
  refine
    { ascending := ?_
      bounded := fun n hn => ?_
      written := fun v r hsend => ?_
      sentOnce := by rw [hs]; exact h.sentOnce
      keys := ?_
      registered := fun e he => ?_
      open' := fun e he => ?_
      once := by rw [hd]; exact h.once
      settled := fun id hid => ?_ }
  · rw [hr, List.pairwise_append]
    refine ⟨h.ascending, List.pairwise_singleton _ _, fun a ha b hb => ?_⟩
    obtain rfl := List.mem_singleton.mp hb
    have hle := h.bounded a ha
    omega
  · rw [hr] at hn
    rcases List.mem_append.mp hn with hn | hn
    · have hle := h.bounded n hn
      omega
    · obtain rfl := List.mem_singleton.mp hn
      omega
  · rcases List.mem_append.mp hsend with hsend | hsend
    · exact (h.written v r hsend).imp fun _ hregister => List.mem_append_left _ hregister
    · rw [← hx] at hsend
      cases List.mem_singleton.mp hsend
  · rw [pending, List.map_append]
    refine List.nodup_append.mpr ⟨h.keys, by simp, ?_⟩
    rintro k hk k' hk' rfl
    obtain ⟨⟨_, entry⟩, he, rfl⟩ := List.mem_map.mp hk
    obtain rfl := List.mem_singleton.mp hk'
    exact Assoc.get?_ne_none_of_mem he hkey
  · rw [pending] at he
    rcases List.mem_append.mp he with he | he
    · obtain ⟨u, params', hregister⟩ := h.registered e he
      exact ⟨u, params', List.mem_append_left _ hregister⟩
    · obtain rfl := List.mem_singleton.mp he
      exact ⟨t, params, by simp [← hx]⟩
  · rw [hd]
    rw [pending] at he
    rcases List.mem_append.mp he with he | he
    · exact h.open' e he
    · obtain rfl := List.mem_singleton.mp he
      exact hnew
  · rw [hd] at hid
    rw [hr]
    exact List.mem_append_left _ (h.settled id hid)

/-- A request is written that was not written before.  That it has been registered tells whose
request it is. -/
theorem Books.send (h : Books out s) {r : Request} (hregister : .register t w r ∈ out)
    (unsent : r.id ∉ sentIds out) : Books (out ++ [.send w r]) s := by
  have hr : registeredIds (out ++ [.send w r]) = registeredIds out := by
    rw [registeredIds_append]
    exact List.append_nil _
  have hs : sentIds (out ++ [.send w r]) = sentIds out ++ [r.id] := by
    rw [sentIds_append]
    rfl
  have hd : settledIds (out ++ [.send w r]) = settledIds out := by
    rw [settledIds_append]
    exact List.append_nil _
  refine
    { ascending := by rw [hr]; exact h.ascending
      bounded := by rw [hr]; exact h.bounded
      written := fun v r' hsend => ?_
      sentOnce := ?_
      keys := h.keys
      registered := fun e he => ?_
      open' := by rw [hd]; exact h.open'
      once := by rw [hd]; exact h.once
      settled := by rw [hr, hd]; exact h.settled }
  · rcases List.mem_append.mp hsend with hsend | hsend
    · exact (h.written v r' hsend).imp fun _ hr' => List.mem_append_left _ hr'
    · obtain ⟨rfl, rfl⟩ := Effect.send.inj (List.mem_singleton.mp hsend)
      exact ⟨t, List.mem_append_left _ hregister⟩
  · -- It has not been written before, so that it is still there once.
    rw [hs]
    refine List.nodup_append.mpr ⟨h.sentOnce, by simp, ?_⟩
    rintro n hn n' hn' rfl
    exact unsent (List.mem_singleton.mp hn' ▸ hn)
  · obtain ⟨u, params, hr'⟩ := h.registered e he
    exact ⟨u, params, List.mem_append_left _ hr'⟩

theorem settledIds_settle (gone : List (Nat × Pending))
    (answer : Nat × Pending → Except BridgeFailure Json) :
    settledIds (gone.map fun e => .settle e.1 (answer e)) = gone.map (·.1) := by
  rw [settledIds, List.filterMap_map]
  exact congrFun (List.filterMap_eq_map (f := fun e : Nat × Pending => e.1)) gone

/-- Requests are closed and no longer without an answer, be it that they are settled or that the
thread of one of them gives it up. -/
theorem Books.close (h : Books out s) (gone : List (Nat × Pending))
    (closes : settledIds more = gone.map (·.1)) (unnumbered : registeredIds more = [])
    (unsent : sentIds more = []) (found : ∀ e ∈ gone, e ∈ s.pending)
    (once : (gone.map (·.1)).Nodup) (nextId : s'.nextId = s.nextId)
    (left : s'.pending.Sublist s.pending) (apart : ∀ e ∈ s'.pending, e.1 ∉ gone.map (·.1)) :
    Books (out ++ more) s' := by
  -- Of the lists only that of the settled numbers grows, by those that are closed.
  have hr : registeredIds (out ++ more) = registeredIds out := by simp [unnumbered]
  have hs : sentIds (out ++ more) = sentIds out := by simp [unsent]
  have hd : settledIds (out ++ more) = settledIds out ++ gone.map (·.1) := by simp [closes]
  have hnone : ∀ v r, .send v r ∉ more := by
    intro v r hmem
    have hid : r.id ∈ sentIds more := mem_sentIds.mpr ⟨v, r, hmem, rfl⟩
    rw [unsent] at hid
    cases hid
  refine
    { ascending := by rw [hr]; exact h.ascending
      bounded := by rw [hr, nextId]; exact h.bounded
      written := fun v r hsend => ?_
      sentOnce := by rw [hs]; exact h.sentOnce
      keys := h.keys.sublist (left.map _)
      registered := fun e he => ?_
      open' := fun e he => ?_
      once := ?_
      settled := fun id hid => ?_ }
  · have hearlier := (List.mem_append.mp hsend).resolve_right (hnone v r)
    exact (h.written v r hearlier).imp fun _ hregister => List.mem_append_left _ hregister
  · obtain ⟨t, params, hregister⟩ := h.registered e (left.subset he)
    exact ⟨t, params, List.mem_append_left _ hregister⟩
  · rw [hd, List.mem_append]
    rintro (hmem | hmem)
    · exact h.open' e (left.subset he) hmem
    · exact apart e he hmem
  · rw [hd]
    refine List.nodup_append.mpr ⟨h.once, once, ?_⟩
    rintro id hid id' hid' rfl
    obtain ⟨e, he, rfl⟩ := List.mem_map.mp hid'
    exact h.open' e (found e he) hid
  · rw [hr]
    rw [hd] at hid
    rcases List.mem_append.mp hid with hid | hid
    · exact h.settled id hid
    · obtain ⟨e, he, rfl⟩ := List.mem_map.mp hid
      obtain ⟨t, params, hregister⟩ := h.registered e (found e he)
      exact mem_registeredIds.mpr ⟨_, _, _, hregister, rfl⟩

/-- One request is closed.  The effect closes its number and no other. -/
theorem Books.closeOne (h : Books out s) {id : Nat} {entry : Pending} {x : Effect}
    (found : Assoc.get? id s.pending = some entry) (closes : x.closes = some id)
    (unnumbered : x.registers = none) (unsent : x.sends = none) (nextId : s'.nextId = s.nextId)
    (pending : s'.pending = Assoc.erase id s.pending) : Books (out ++ [x]) s' := by
  refine h.close [(id, entry)] ?_ ?_ ?_ (fun e he => ?_) (by simp) nextId
    (pending ▸ List.filter_sublist) fun e he hmem => ?_
  · simp [settledIds, closes]
  · simp [registeredIds, unnumbered]
  · simp [sentIds, unsent]
  · rw [List.mem_singleton.mp he]
    exact Assoc.mem_of_get? found
  · rw [pending] at he
    exact (Assoc.mem_erase.mp he).2 (List.mem_singleton.mp hmem)

/-! ## Operations -/

variable {c : Setting} {own own' : Option Nat} {p : State.Step} {method : String}
  {params : List (String × Json)}

/-- A step that is sound after what has been decided before it. -/
abbrev Sound.After (c : Setting) (own : Option Nat) (out : List Effect) (p : State.Step) : Prop :=
  Sound c own (out ++ p.2) p.1

theorem Sound.thenDo {f : State → State.Step} (h : Sound.After c own out p)
    (next : Sound c own (out ++ p.2) p.1 → Sound.After c own' (out ++ p.2) (f p.1)) :
    Sound.After c own' out (State.thenDo p f) := by
  have hnext := next h
  rw [Sound.After, List.append_assoc] at hnext
  exact hnext

/-- What was to be done stays to be done. -/
theorem mem_later {x : Effect} (earlier out more : List Effect) (h : x ∈ earlier ++ out) :
    x ∈ earlier ++ (out ++ more) := by
  rw [← List.append_assoc]
  exact List.mem_append_left _ h

theorem Sound.move (h : Sound c own out s) (books : Books (c.earlier ++ (out ++ more)) s')
    (threads : ∀ u thread, own' ≠ some u → Assoc.get? u s'.threads = some thread →
      (own ≠ some u ∧ Assoc.get? u s.threads = some thread) ∨
      (c.job u = some thread.job ∧ thread.stage.Fits (c.earlier ++ (out ++ more)) u thread.job ∧
        thread.stage.Unsent (c.earlier ++ out)))
    (unsent : sentIds more = [])
    (outcomes : ∀ u outcome, .ends u outcome ∈ more → own = some u ∧ endsOf u more = 1 ∧
      ∃ job, c.job u = some job ∧ outcome.Fits (c.earlier ++ (out ++ more)) u job)
    (said : ∀ (id : Nat) answer, .settle id answer ∈ more → Said answer → c.heard = some (id : Int))
    (awake : ∀ u, own' = some u ∨ Assoc.get? u s'.threads ≠ none →
      (own = some u ∨ Assoc.get? u s.threads ≠ none) ∧ ∀ outcome, .ends u outcome ∉ more) :
    Sound c own' (out ++ more) s' := by
  have le : ∀ x ∈ c.earlier ++ out, x ∈ c.earlier ++ (out ++ more) :=
    fun _ => mem_later c.earlier out more
  -- A thread is as it was before, or what is said of it is given.
  refine ⟨books, fun u thread hown hthread => ?_, fun u thread hown hthread => ?_,
    fun u outcome hends => ?_, fun id answer hsettle => ?_, fun u => ?_, fun u hu => ?_⟩
  · rcases threads u thread hown hthread with ⟨hbefore, hsame⟩ | ⟨hjob, hfits, -⟩
    · obtain ⟨hjob, hfits⟩ := h.threads u thread hbefore hsame
      exact ⟨hjob, hfits.mono le⟩
    · exact ⟨hjob, hfits⟩
  · rw [← List.append_assoc]
    refine Stage.unsent_append.mpr ⟨?_, Stage.unsent_of_no_send unsent⟩
    rcases threads u thread hown hthread with ⟨hbefore, hsame⟩ | ⟨-, -, hunsent⟩
    · exact h.unsent u thread hbefore hsame
    · exact hunsent
  · rcases List.mem_append.mp hends with hends | hends
    · obtain ⟨job, hjob, hfits⟩ := h.outcomes u outcome hends
      exact ⟨job, hjob, hfits.mono le⟩
    · exact (outcomes u outcome hends).2.2
  · rcases List.mem_append.mp hsettle with hsettle | hsettle
    · exact h.said id answer hsettle
    · exact said id answer hsettle
  · rw [endsOf_append]
    by_cases hends : ∃ outcome, .ends u outcome ∈ more
    · obtain ⟨outcome, hends⟩ := hends
      obtain ⟨hown, hone, -⟩ := outcomes u outcome hends
      have hzero := h.awake u (.inl hown)
      omega
    · have hzero := endsOf_eq_zero fun outcome hmem => hends ⟨outcome, hmem⟩
      have hone := h.single u
      omega
  · obtain ⟨hbefore, hnone⟩ := awake u hu
    rw [endsOf_append, endsOf_eq_zero hnone]
    exact h.awake u hbefore

/-- A change by which no thread goes on or ends. -/
theorem Sound.goOn (h : Sound c own out s) (books : Books (c.earlier ++ (out ++ more)) s')
    (threads : s'.threads = s.threads) (unsent : sentIds more = [])
    (running : ∀ u outcome, .ends u outcome ∉ more)
    (said : ∀ (id : Nat) answer, .settle id answer ∈ more → Said answer →
      c.heard = some (id : Int)) :
    Sound c own (out ++ more) s' :=
  h.move books (fun u thread hown hthread => .inl ⟨hown, by rwa [← threads]⟩) unsent
    (fun u outcome hends => absurd hends (running u outcome)) said
    fun u hu => ⟨by rwa [← threads], running u⟩

/-- Effects that concern neither requests nor threads. -/
def Effect.IsAside : Effect → Prop
  | .waits .. | .ends .. | .register .. | .settle .. | .send .. => False
  | _ => True

theorem Effect.IsAside.mute {x : Effect} (h : x.IsAside) : x.IsMute := by
  cases x with
  | waits | ends | register | settle | send => exact h.elim
  | _ => exact ⟨rfl, rfl, rfl⟩

/-- A change that concerns neither requests nor threads. -/
theorem Sound.aside (h : Sound c own out s) (nextId : s.nextId ≤ s'.nextId)
    (pending : s'.pending = s.pending) (threads : s'.threads = s.threads)
    (aside : ∀ x ∈ more, x.IsAside) : Sound c own (out ++ more) s' := by
  have mute : ∀ x ∈ more, x.IsMute := fun x hx => (aside x hx).mute
  refine h.goOn ?_ threads (ids_of_mute mute).2.1 (fun u outcome hends => aside _ hends)
    fun id answer hsettle => (aside _ hsettle).elim
  rw [← List.append_assoc]
  exact h.books.quiet nextId pending mute

/-- A change that concerns neither, and nothing is done. -/
theorem Sound.quiet (h : Sound c own out s) (nextId : s.nextId ≤ s'.nextId)
    (pending : s'.pending = s.pending) (threads : s'.threads = s.threads) :
    Sound.After c own out (s', []) :=
  h.aside nextId pending threads (List.forall_mem_nil _)

/-- A change of which nothing is told. -/
theorem Sound.silent (h : Sound c own out s) (nextId : s.nextId ≤ s'.nextId)
    (pending : s'.pending = s.pending) (threads : s'.threads = s.threads) : Sound c own out s' := by
  have hquiet : Sound c own (out ++ []) s' := h.quiet nextId pending threads
  rwa [List.append_nil] at hquiet

/-- The thread whose turn it is ends.  Its outcome has to fit what was said so far. -/
theorem Sound.ends (h : Sound c (some t) out s) {outcome : Outcome} (hjob : c.job t = some job)
    (fits : outcome.Fits (c.earlier ++ out) t job)
    (books : Books ((c.earlier ++ out) ++ [.ends t outcome]) s')
    (threads : s'.threads = Assoc.erase t s.threads) :
    Sound c none (out ++ [.ends t outcome]) s' := by
  refine h.move ?_ (fun u thread _ hthread => .inl ?_) rfl (fun u outcome' hends => ?_)
    (fun id answer hsettle => ?_) fun u hu => ?_
  · rwa [← List.append_assoc]
  · obtain ⟨hne, hbefore⟩ := Assoc.of_get?_erase (threads ▸ hthread)
    exact ⟨fun hown => hne (Option.some.inj hown).symm, hbefore⟩
  · obtain ⟨rfl, rfl⟩ := Effect.ends.inj (List.mem_singleton.mp hends)
    have hone : endsOf u [.ends u outcome'] = 1 := by simp [endsOf]
    exact ⟨rfl, hone, job, hjob, fits.mono fun _ => mem_later c.earlier out _⟩
  · cases List.mem_singleton.mp hsettle
  · obtain ⟨thread, hthread⟩ := Option.ne_none_iff_exists'.mp (hu.resolve_left nofun)
    obtain ⟨hne, hbefore⟩ := Assoc.of_get?_erase (threads ▸ hthread)
    refine ⟨.inr (by simp [hbefore]), fun outcome' hends => ?_⟩
    exact hne (Effect.ends.inj (List.mem_singleton.mp hends)).1

/-- The thread whose turn it is ends, and closes no request by that. -/
theorem Sound.finish (h : Sound c (some t) out s) {outcome : Outcome} (hjob : c.job t = some job)
    (fits : outcome.Fits (c.earlier ++ out) t job) (open' : (Effect.ends t outcome).closes = none) :
    Sound.After c none out (s.finish t outcome) :=
  h.ends hjob fits
    (h.books.quiet (Nat.le_refl _) rfl (List.forall_mem_singleton.mpr ⟨rfl, rfl, open'⟩)) rfl

theorem awake_set {threads : List (Nat × Thread)} {thread : Thread} {u : Nat}
    (h : Assoc.get? u (Assoc.set t thread threads) ≠ none) :
    some t = some u ∨ Assoc.get? u threads ≠ none := by
  obtain ⟨found, hfound⟩ := Option.ne_none_iff_exists'.mp h
  rcases Assoc.of_get?_set hfound with ⟨rfl, -⟩ | ⟨-, hbefore⟩
  · exact .inl rfl
  · exact .inr (by simp [hbefore])

theorem Sound.wait (h : Sound c (some t) out s) {stage : Stage} {on : Wait}
    (hjob : c.job t = some job)
    (fits : stage.Fits (c.earlier ++ out) t job) (unsent : stage.Unsent (c.earlier ++ out)) :
    Sound.After c none out (s.wait t job stage on) := by
  refine h.move ?_ (fun u thread _ hthread => ?_) rfl (fun u outcome hends => ?_)
    (fun id answer hsettle => ?_) fun u hu => ⟨?_, fun outcome hends => ?_⟩
  · rw [← List.append_assoc]
    exact h.books.quiet (Nat.le_refl _) rfl (List.forall_mem_singleton.mpr ⟨rfl, rfl, rfl⟩)
  · rcases Assoc.of_get?_set hthread with ⟨rfl, rfl⟩ | ⟨hne, hbefore⟩
    · exact .inr ⟨hjob, fits.mono fun _ => mem_later c.earlier out _, unsent⟩
    · exact .inl ⟨fun hown => hne (Option.some.inj hown).symm, hbefore⟩
  · cases List.mem_singleton.mp hends
  · cases List.mem_singleton.mp hsettle
  · exact awake_set (hu.resolve_left nofun)
  · cases List.mem_singleton.mp hends

/-- Requests fail without anything heard of them.  Their failures are none that a line of the worker
has said. -/
theorem Sound.reject (h : Sound c own out s) {why : String → BridgeFailure}
    (unsaid : ∀ method, ¬ Said (.error (why method))) :
    Sound.After c own out (s.rejectPending why) := by
  have hnone {α : Type} {f : Effect → Option α} (hf : ∀ id answer, f (.settle id answer) = none) :
      (s.rejectPending why).2.filterMap f = [] := by
    refine List.filterMap_eq_nil_iff.mpr fun x hx => ?_
    obtain ⟨e, -, rfl⟩ := List.mem_map.mp hx
    exact hf _ _
  refine h.goOn ?_ rfl (hnone fun _ _ => rfl) (fun u outcome hends => ?_)
    fun id answer hsettle hsaid => ?_
  · rw [← List.append_assoc]
    exact h.books.close s.pending (settledIds_settle _ _) (hnone fun _ _ => rfl)
      (hnone fun _ _ => rfl)
      (fun _ he => he) h.books.keys rfl (List.nil_sublist _) nofun
  · obtain ⟨e, -, he⟩ := List.mem_map.mp hends
    cases he
  · obtain ⟨e, -, he⟩ := List.mem_map.mp hsettle
    cases he
    exact absurd hsaid (unsaid _)

theorem Sound.crash (h : Sound c own out s) (w : Nat) {why : String → BridgeFailure}
    (unsaid : ∀ method, ¬ Said (.error (why method))) : Sound.After c own out (s.crash w why) := by
  unfold State.crash
  split
  · refine Sound.thenDo ?_ fun hd => hd.reject unsaid
    exact h.aside (Nat.le_refl _) rfl rfl (List.forall_mem_singleton.mpr trivial)
  · exact h.quiet (Nat.le_refl _) rfl rfl

/-! ## The locks -/

/-- A change of the locks concerns neither requests nor threads. -/
theorem Sound.setLock (h : Sound c own out s) (g : Gate) (l : Lock) :
    Sound c own out (s.setLock g l) := by
  cases g <;> exact h.silent (Nat.le_refl _) rfl rfl

theorem Sound.wakeFirst (h : Sound c own out s) (g : Gate) :
    Sound.After c own out (s.wakeFirst g) := by
  refine h.aside (Nat.le_refl _) rfl rfl fun x hx => ?_
  obtain ⟨n, -, rfl⟩ := List.mem_map.mp hx
  trivial

theorem Sound.release (h : Sound c own out s) (g : Gate) : Sound.After c own out (s.release g) :=
  (h.setLock g _).wakeFirst g

/-- A thread gives a lock back because it is cancelled. -/
theorem Sound.giveUp (h : Sound c (some t) out s) (hjob : c.job t = some job) (g : Gate) :
    Sound.After c none out (s.giveUp g t) :=
  Sound.thenDo (h.release g) fun hs => hs.finish hjob trivial rfl

/-- A thread takes a lock, or waits for its turn. -/
theorem Sound.acquire (h : Sound c (some t) out s) (env : Outside) (g : Gate)
    (hjob : c.job t = some job) {stage : Nat → Stage} {go : State → State.Step}
    (fits : ∀ n, (stage n).Fits (c.earlier ++ out) t job)
    (unsent : ∀ n, (stage n).Unsent (c.earlier ++ out))
    (next : ∀ s', Sound c (some t) out s' → Sound.After c none out (go s')) :
    Sound.After c none out (s.acquire env g t job stage go) := by
  unfold State.acquire
  split
  · exact next _ (h.setLock g _)
  · have hqueued : Sound c (some t) out (s.draw g) := by
      cases g <;> exact h.silent (Nat.le_refl _) rfl rfl
    exact hqueued.wait hjob (fits _) (unsent _)

/-- A thread goes on with the lock for which it has waited, or gives up. -/
theorem Sound.enter (h : Sound c (some t) out s) (g : Gate) (n : Nat) (how : Resume)
    (hjob : c.job t = some job) {go : State → State.Step}
    (next : ∀ s', Sound c (some t) out s' → Sound.After c none out (go s')) :
    Sound.After c none out (s.enter g t n how go) := by
  have hleft : Sound c (some t) out (s.leaveQueue g n) := h.setLock g _
  unfold State.enter
  dsimp only
  split
  · refine Sound.thenDo ?_ fun hs => hs.finish hjob trivial rfl
    split
    · exact hleft.quiet (Nat.le_refl _) rfl rfl
    · exact hleft.wakeFirst g
  · exact next _ (hleft.setLock g _)

/-! ## Requests -/

/-- A request is given the next number, which has not been written. -/
theorem Sound.register (h : Sound c (some t) out s) (w : Nat) (method : String)
    (params : List (String × Json)) :
    (((s.nextId + 1 : Nat) : Int) ∉ sentIds (c.earlier ++ out)) ∧
    Sound.After c (some t) out
      ({ s with
          nextId := s.nextId + 1
          pending := Assoc.set (s.nextId + 1) { method, worker := w } s.pending },
        [.register t w { id := (s.nextId + 1 : Nat), method, params }]) := by
  let registered : State := { s with
    nextId := s.nextId + 1
    pending := Assoc.set (s.nextId + 1) { method, worker := w } s.pending }
  have hregister : _ ∧ Books _ registered := h.books.register t w method params rfl rfl
  obtain ⟨hunsent, hbooks⟩ := hregister
  refine ⟨hunsent, h.goOn ?_ rfl rfl (fun u outcome hends => ?_) fun id answer hsettle => ?_⟩
  · rwa [← List.append_assoc]
  · cases List.mem_singleton.mp hends
  · cases List.mem_singleton.mp hsettle

/-- The thread whose turn it is writes its request.  The numbers of those who still wait for their
turn are others. -/
theorem Sound.send (h : Sound c (some t) out s) {r : Request}
    (hregister : .register t w r ∈ c.earlier ++ out) (unsent : r.id ∉ sentIds (c.earlier ++ out)) :
    Sound.After c (some t) out (s, [.send w r]) := by
  -- A number is registered by one thread, so another that is lined up has another number.
  have hother : ∀ u thread, some t ≠ some u → Assoc.get? u s.threads = some thread →
      thread.stage.Unsent [.send w r] := by
    intro u thread hne hthread
    have hfits := (h.threads u thread hne hthread).2
    obtain ⟨job, stage⟩ := thread
    cases stage with
    | lined id v n =>
      obtain ⟨method, params, -, hregister'⟩ := hfits
      intro hmem
      have hid : (id : Int) = r.id := List.mem_singleton.mp hmem
      exact hne (congrArg some (h.books.registration hregister hregister' hid.symm).1)
    | _ => trivial
  have hquiet : ∀ u, endsOf u [Effect.send w r] = 0 := fun u => rfl
  refine
    { books := ?_
      threads := fun u thread hown hthread => ?_
      unsent := fun u thread hown hthread => ?_
      outcomes := fun u outcome hends => ?_
      said := fun id answer hsettle => ?_
      single := fun u => by rw [endsOf_append, hquiet]; exact h.single u
      awake := fun u hu => by rw [endsOf_append, hquiet]; exact h.awake u hu }
  · rw [← List.append_assoc]
    exact h.books.send hregister unsent
  · obtain ⟨hjob, hfits⟩ := h.threads u thread hown hthread
    exact ⟨hjob, hfits.mono fun _ => mem_later c.earlier out _⟩
  · rw [← List.append_assoc]
    exact Stage.unsent_append.mpr ⟨h.unsent u thread hown hthread, hother u thread hown hthread⟩
  · obtain ⟨job, hjob, hfits⟩ :=
      h.outcomes u outcome ((List.mem_append.mp hends).resolve_right fun hmem => by
      cases List.mem_singleton.mp hmem)
    exact ⟨job, hjob, hfits.mono fun _ => mem_later c.earlier out _⟩
  · exact h.said id answer ((List.mem_append.mp hsettle).resolve_right fun hmem => by
      cases List.mem_singleton.mp hmem)

/-- A request that could not be written fails if it is still open, and has its answer otherwise.
Both can be: between the attempt to write and its end any other thread may have had its turn. -/
theorem Sound.unwritten (h : Sound c (some t) out s) (hjob : c.job t = some job)
    (asks : Asks (c.earlier ++ out) t job id w) (v : Nat) (method : String) :
    Sound.After c none out (s.unwritten t id v method) := by
  unfold State.unwritten
  split
  · next hopen =>
    obtain ⟨entry, hentry⟩ := Option.isSome_iff_exists.mp hopen
    exact h.ends hjob ⟨⟨w, asks⟩, fun hsaid => hsaid⟩
      (h.books.closeOne hentry rfl rfl rfl rfl rfl) rfl
  · exact h.finish hjob ⟨w, asks⟩ rfl

theorem Sound.written (h : Sound c (some t) out s) (hjob : c.job t = some job)
    (asks : Asks (c.earlier ++ out) t job id w) : Sound.After c none out (s.written t job id) :=
  Sound.thenDo (h.release .write) fun hs =>
    hs.wait hjob ⟨w, asks.mono fun _ => mem_later c.earlier out _⟩ trivial

theorem Sound.write (h : Sound c (some t) out s) (env : Outside) (hjob : c.job t = some job)
    (asks : Asks (c.earlier ++ out) t job id w) (unsent : (id : Int) ∉ sentIds (c.earlier ++ out)) :
    Sound.After c none out (s.write env t job id w) := by
  obtain ⟨method, params, rfl, hregister⟩ := asks
  have asks : Asks (c.earlier ++ out) t (.request method params) id w :=
    ⟨method, params, rfl, hregister⟩
  have later (more : List Effect) :
      Asks (c.earlier ++ (out ++ more)) t (.request method params) id w :=
    asks.mono fun _ => mem_later c.earlier out more
  unfold State.write
  dsimp only
  split
  · exact Sound.thenDo (h.send hregister unsent) fun hs => hs.written hjob (later _)
  · exact Sound.thenDo (h.send hregister unsent) fun hs => hs.wait hjob (later _) trivial
  · exact Sound.thenDo (h.release .write) fun hs => hs.unwritten hjob (later _) w method

theorem Sound.pipeOver (h : Sound c (some t) out s) (hjob : c.job t = some job)
    (asks : Asks (c.earlier ++ out) t job id w) (how : Resume) :
    Sound.After c none out (s.pipeOver t job id w how) := by
  unfold State.pipeOver
  split
  · exact h.giveUp hjob .write
  · exact Sound.thenDo (h.release .write) fun hs =>
      hs.unwritten hjob (asks.mono fun _ => mem_later c.earlier out _) w _
  · exact h.written hjob asks

/-- A request is numbered, and written unless others write.  There is a worker in use, or it would
not come to this. -/
theorem Sound.ask (h : Sound c (some t) out s) (env : Outside)
    (hjob : c.job t = some (.request method params)) (current : s.current ≠ none) :
    Sound.After c none out (s.ask env t (.request method params) method params) := by
  unfold State.ask
  split
  · next hnone => exact absurd hnone current
  · next w _ =>
    obtain ⟨hunsent, hregistered⟩ := h.register w method params
    have hnow : ∀ stage : Stage, stage.Unsent (c.earlier ++ out) →
        stage.Unsent (c.earlier ++ (out ++
          [.register t w { id := (s.nextId + 1 : Nat), method, params }])) := by
      intro stage hstage
      rw [← List.append_assoc]
      exact Stage.unsent_append.mpr ⟨hstage, Stage.unsent_of_no_send rfl⟩
    have hasks : Asks (c.earlier ++ (out ++
        [.register t w { id := (s.nextId + 1 : Nat), method, params }])) t
        (.request method params) (s.nextId + 1) w := ⟨method, params, rfl, by simp⟩
    refine Sound.thenDo hregistered fun hs => hs.acquire env .write hjob (fun _ => hasks)
      (fun n => hnow (.lined (s.nextId + 1) w n) hunsent) fun s' hs' => ?_
    exact hs'.write env hjob hasks (hnow (.lined (s.nextId + 1) w 0) hunsent)

theorem Sound.started (h : Sound c (some t) out s) (env : Outside) (hjob : c.job t = some job)
    (current : s.current ≠ none) : Sound.After c none out (s.started env t job) := by
  unfold State.started
  split
  · exact h.ask env hjob current
  · next hother => exact h.finish hjob (fun method params hreq => hother method params hreq) rfl

/-! ## Starting -/

theorem Sound.spawnFailed (h : Sound c (some t) out s) (hjob : c.job t = some job)
    (why : SpawnFailure) : Sound.After c none out (s.spawnFailed t why) := by
  refine Sound.thenDo (Sound.thenDo ?_ fun hs => hs.release .start) fun hs =>
    hs.finish hjob (fun hsaid => hsaid) rfl
  refine h.aside (Nat.le_refl _) rfl rfl fun x hx => ?_
  split at hx
  · cases hx
  · rw [List.mem_singleton.mp hx]
    trivial

theorem Sound.launched (h : Sound c (some t) out s) (env : Outside) (hjob : c.job t = some job)
    (command : List String) (outcome : Launch) :
    Sound.After c none out (s.launched env t job command outcome) := by
  cases outcome with
  | notFound | refused => exact h.spawnFailed hjob _
  | started pid =>
    refine Sound.thenDo (Sound.thenDo ?_ fun hs => hs.release .start) fun hs =>
      hs.started env hjob nofun
    exact h.aside (Nat.le_refl _) rfl rfl (List.forall_mem_singleton.mpr trivial)

theorem Sound.spawn (h : Sound c (some t) out s) (env : Outside) (hjob : c.job t = some job) :
    Sound.After c none out (s.spawn env t job) := by
  unfold State.spawn
  split
  · exact h.spawnFailed hjob _
  · refine Sound.thenDo (h.aside (Nat.le_refl _) rfl rfl (List.forall_mem_singleton.mpr trivial))
      fun hs => ?_
    dsimp only
    split
    · exact hs.wait hjob trivial trivial
    · exact hs.launched env hjob _ _

theorem Sound.startLocked (h : Sound c (some t) out s) (env : Outside) (hjob : c.job t = some job) :
    Sound.After c none out (s.startLocked env t job) := by
  unfold State.startLocked
  split
  · next hrunning =>
    refine Sound.thenDo (h.release .start) fun hs => hs.started env hjob ?_
    intro hnone
    have hcurrent : s.current = none := hnone
    simp [State.isRunning, hcurrent] at hrunning
  · split
    · exact h.spawn env hjob
    · next w _ =>
      refine Sound.thenDo (h.crash w fun method hsaid => hsaid) fun hs => ?_
      split
      · exact hs.spawn env hjob
      · refine Sound.thenDo ?_ fun hs => hs.wait hjob trivial trivial
        exact hs.aside (Nat.le_refl _) rfl rfl (List.forall_mem_singleton.mpr trivial)

/-! ## Stopping -/

theorem Sound.stopped (h : Sound c (some t) out s) (hjob : c.job t = some .stop) :
    Sound.After c none out (s.stopped t) :=
  Sound.thenDo (h.release .start) fun hs => hs.finish hjob nofun rfl

theorem Sound.drain (h : Sound c (some t) out s) (hjob : c.job t = some .stop) :
    Sound.After c none out (s.drain t) := by
  unfold State.drain
  split
  · exact h.stopped hjob
  · refine Sound.thenDo ?_ fun hs => hs.wait hjob rfl trivial
    exact h.aside (Nat.le_refl _) rfl rfl (List.forall_mem_singleton.mpr trivial)

theorem Sound.stopLocked (h : Sound c (some t) out s) (hjob : c.job t = some .stop) :
    Sound.After c none out (s.stopLocked t) := by
  unfold State.stopLocked
  split
  · exact h.stopped hjob
  · have hdetached : Sound c (some t) out s.detach := h.silent (Nat.le_refl _) rfl rfl
    refine Sound.thenDo (hdetached.reject fun method hsaid => hsaid) fun hs => ?_
    split
    · refine Sound.thenDo ?_ fun hs => hs.wait hjob rfl trivial
      exact hs.aside (Nat.le_refl _) rfl rfl (List.forall_mem_singleton.mpr trivial)
    · exact hs.drain hjob

/-! ## Threads -/

theorem Sound.haveLock (h : Sound c (some t) out s) (env : Outside) (hjob : c.job t = some job) :
    Sound.After c none out (s.haveLock env t job) := by
  cases job with
  | stop => exact h.stopLocked hjob
  | request | start => exact h.startLocked env hjob

theorem Sound.startOrStop (h : Sound c (some t) out s) (env : Outside) (hjob : c.job t = some job) :
    Sound.After c none out (s.startOrStop env t job) :=
  h.acquire env .start hjob (fun _ => trivial) (fun _ => trivial) fun _ hs => hs.haveLock env hjob

theorem Sound.begin (h : Sound c (some t) out s) (env : Outside) (hjob : c.job t = some job) :
    Sound.After c none out (s.begin env t job) := by
  cases job with
  | start | stop => exact h.startOrStop env hjob
  | request method params =>
    unfold State.begin
    dsimp only
    split
    · next hrunning =>
      refine h.ask env hjob fun hnone => ?_
      simp [State.isRunning, hnone] at hrunning
    · split
      · exact h.finish hjob (fun hsaid => hsaid) rfl
      · exact h.startOrStop env hjob

/-- What is said of a thread that waits is enough to go on with it. -/
theorem Sound.resume (h : Sound c none out s) (env : Outside) (t : Nat) (how : Resume) :
    Sound.After c none out (s.resume env t how) := by
  unfold State.resume
  split
  · exact h.quiet (Nat.le_refl _) rfl rfl
  · next thread hthread =>
    -- In its turn nothing is said of the thread itself.  What was said of it is used in the case
    -- that it is in.
    have hturn : Sound c (some t) out s :=
      { h with
        threads := fun u thread _ => h.threads u thread (by simp)
        unsent := fun u thread _ => h.unsent u thread (by simp)
        awake := fun u hu => h.awake u <| hu.elim
          (fun he => .inr (by simp [← Option.some.inj he, hthread]))
          .inr }
    obtain ⟨hjob, hfits⟩ := h.threads t thread (by simp) hthread
    have hunsent := h.unsent t thread (by simp) hthread
    obtain ⟨job, stage⟩ := thread
    dsimp only at hjob hfits hunsent ⊢
    cases stage with
    | queued n => exact hturn.enter .start n how hjob fun _ hs => hs.haveLock env hjob
    | reaping =>
      dsimp only
      split
      · exact hturn.giveUp hjob .start
      · exact hturn.spawn env hjob
    | launching command outcome =>
      dsimp only
      split
      · exact hturn.giveUp hjob .start
      · exact hturn.launched env hjob command outcome
    | lined id w n =>
      exact hturn.enter .write n how hjob fun _ hs => hs.write env hjob hfits hunsent
    | writing id w => exact hturn.pipeOver hjob hfits how
    | answering id =>
      dsimp only
      split
      · exact hturn.finish hjob trivial rfl
      · exact hturn.finish hjob hfits rfl
    | terminating w =>
      have hstop : c.job t = some .stop := hjob.trans (congrArg some hfits)
      cases how with
      | cancelled => exact hturn.giveUp hjob .start
      | timedOut =>
        refine Sound.thenDo ?_ fun hs => hs.wait hjob hfits trivial
        refine hturn.aside (Nat.le_refl _) rfl rfl fun x hx => ?_
        rcases List.mem_pair.mp hx with rfl | rfl <;> trivial
      | done | failed => exact hturn.drain hstop
    | killing w =>
      have hstop : c.job t = some .stop := hjob.trans (congrArg some hfits)
      dsimp only
      split
      · exact hturn.giveUp hjob .start
      · exact hturn.drain hstop
    | draining =>
      have hstop : c.job t = some .stop := hjob.trans (congrArg some hfits)
      dsimp only
      split
      · exact hturn.giveUp hjob .start
      · exact hturn.stopped hstop

/-! ## Lines -/

/-- What is found for a line is found under its number.  A line with a number under which nothing is
pending answers nothing. -/
theorem answered?_eq_some {line : String} {id : Nat} {entry : Pending} {payload : Json}
    (h : s.answered? line = some (id, entry, payload)) :
    lineId? line = some (id : Int) ∧ Assoc.get? id s.pending = some entry := by
  unfold State.answered? at h
  simp only [Option.bind_eq_bind, Option.bind_eq_some_iff] at h
  obtain ⟨payload', hread, n, hn, h⟩ := h
  split at h
  · cases h
  · next hneg =>
    simp only [Option.bind_eq_some_iff, Option.some.injEq, Prod.mk.injEq] at h
    obtain ⟨entry', hfound, rfl, rfl, rfl⟩ := h
    refine ⟨?_, hfound⟩
    rw [lineId?, hread, Option.bind_some, hn]
    congr 1
    omega

theorem Sound.stdoutLine (h : Sound c none out s) {line : String} (heard : c.heard = lineId? line) :
    Sound.After c none out (s.stdoutLine line) := by
  unfold State.stdoutLine
  split
  · exact h.quiet (Nat.le_refl _) rfl rfl
  · next id entry payload hanswered =>
    obtain ⟨hline, hfound⟩ := answered?_eq_some hanswered
    refine h.goOn ?_ rfl rfl (fun u outcome hends => ?_) fun id' answer hsettle _ => ?_
    · rw [← List.append_assoc]
      exact h.books.closeOne hfound rfl rfl rfl rfl rfl
    · cases List.mem_singleton.mp hends
    · obtain ⟨rfl, -⟩ := Effect.settle.inj (List.mem_singleton.mp hsettle)
      rw [heard, hline]

theorem Sound.stderrLine (h : Sound c none out s) (w : Nat) (line : String) :
    Sound.After c none out (s.stderrLine w line) := by
  have hnoted : Sound c none out
      (if Text.containsLowered "error" line.toList then s.remember line else s) := by
    split
    · exact h.silent (Nat.le_refl _) rfl rfl
    · exact h
  unfold State.stderrLine
  dsimp only
  generalize (if Text.containsLowered "error" line.toList then s.remember line else s) =
    noted at hnoted ⊢
  split
  · refine Sound.thenDo ?_ fun hs => hs.crash w fun method hsaid => hsaid
    refine hnoted.aside (Nat.le_refl _) rfl rfl fun x hx => ?_
    dsimp only at hx
    split at hx
    · rw [List.mem_singleton.mp hx]
      trivial
    · cases hx
  · exact hnoted.quiet (Nat.le_refl _) rfl rfl

theorem Sound.exited (h : Sound c own out s) (w : Nat) (code : Int) :
    Sound c own out (s.exited w code) := by
  unfold State.exited
  split
  · exact h
  · exact h.silent (Nat.le_refl _) rfl rfl

/-! ## Steps and histories -/

/-- What a step begins with that follows a history.  The event counts as part of what is known,
since it may begin a thread or bring a number. -/
def settingOf (past : List Occurrence) (e : Event) : Setting where
  job t := e.begins t <|> begun past t
  ended t := if (e.begins t).isSome then 0 else endings past t
  heard := e.heard
  earlier := told past

/-- What holds between two steps. -/
def Settled (past : List Occurrence) (s : State) : Prop :=
  Sound { job := begun past, ended := endings past, heard := none, earlier := told past } none [] s

variable {past : List Occurrence}

theorem Settled.enter (h : Settled past s) (e : Event)
    (turn : ∀ u, if own = some u then (e.begins u).isSome else e.begins u = none) :
    Sound (settingOf past e) own [] s := by
  -- For all threads but the one whose turn it is, the step begins nothing and counts no end.
  have hquiet : ∀ u, own ≠ some u → e.begins u = none := by
    intro u hu
    have hturn := turn u
    rwa [if_neg hu] at hturn
  have hjob : ∀ u, own ≠ some u → (settingOf past e).job u = begun past u := by
    intro u hu
    change (e.begins u <|> begun past u) = begun past u
    rw [hquiet u hu]
    rfl
  have hended : ∀ u, own ≠ some u → (settingOf past e).ended u = endings past u := by
    intro u hu
    change (if (e.begins u).isSome then 0 else endings past u) = endings past u
    rw [hquiet u hu]
    rfl
  have hown : ∀ u, own = some u → (settingOf past e).ended u = 0 := by
    intro u hu
    have hturn := turn u
    rw [if_pos hu] at hturn
    exact if_pos hturn
  refine ⟨h.books, fun u thread hu hthread => ?_, fun u thread hu => h.unsent u thread nofun,
    nofun, nofun, fun u => ?_, fun u hu => ?_⟩
  · obtain ⟨hbegun, hfits⟩ := h.threads u thread nofun hthread
    exact ⟨(hjob u hu).trans hbegun, hfits⟩
  · by_cases hu : own = some u
    · rw [hown u hu]
      exact Nat.zero_le 1
    · rw [hended u hu]
      exact h.single u
  · by_cases hu' : own = some u
    · rw [hown u hu']
      rfl
    · rw [hended u hu']
      exact h.awake u (.inr (hu.resolve_left hu'))

/-- An event that begins no thread. -/
theorem Settled.hear (h : Settled past s) (e : Event) (quiet : ∀ u, e.begins u = none) :
    Sound (settingOf past e) none [] s :=
  h.enter e fun u => by rw [if_neg nofun, quiet u]

theorem Settled.step (h : Settled past s) (env : Outside) (e : Event) :
    Sound.After (settingOf past e) none [] (s.step env e) := by
  cases e with
  | begin t job =>
    have hown : Sound (settingOf past (.begin t job)) (some t) [] s :=
      h.enter _ fun u => by
        split
        · next he => simp [Event.begins, Option.some.inj he]
        · next hne => exact if_neg fun he => hne (congrArg some he)
    exact hown.begin env (by simp [settingOf, Event.begins])
  | join key t => exact (h.hear (.join key t) fun _ => rfl).quiet (Nat.le_refl _) rfl rfl
  | resume t how => exact (h.hear (.resume t how) fun _ => rfl).resume env t how
  | forget key t =>
    have hs := h.hear (.forget key t) fun _ => rfl
    unfold State.step
    dsimp only
    split
    · exact hs.quiet (Nat.le_refl _) rfl rfl
    · exact hs.quiet (Nat.le_refl _) rfl rfl
  | stdoutLine w line => exact (h.hear (.stdoutLine w line) fun _ => rfl).stdoutLine rfl
  | stderrLine w line => exact (h.hear (.stderrLine w line) fun _ => rfl).stderrLine w line
  | stdoutEnded w =>
    exact (h.hear (.stdoutEnded w) fun _ => rfl).crash w fun method hsaid => hsaid
  | exited w code =>
    have hs := (h.hear (.exited w code) fun _ => rfl).exited w code
    exact hs.quiet (Nat.le_refl _) rfl rfl

theorem settled_of_history (h : History past s) : Settled past s := by
  -- The invariant within a step, taken at the beginning and at the end of each step of the history.
  induction h with
  | start recentMax =>
    exact
      { books :=
          { ascending := .nil
            bounded := nofun
            written := nofun
            sentOnce := .nil
            keys := .nil
            registered := nofun
            open' := nofun
            once := .nil
            settled := nofun }
        threads := nofun
        unsent := nofun
        outcomes := nofun
        said := nofun
        single := fun _ => Nat.zero_le 1
        awake := fun _ _ => rfl }
  | @occurs past s _ env e ih =>
    have hstep := ih.step env e
    have htold : told (past ++ [⟨e, (s.step env e).2⟩]) = told past ++ (s.step env e).2 := by simp
    have hended : ∀ u, endings (past ++ [⟨e, (s.step env e).2⟩]) u =
        (settingOf past e).ended u + endsOf u (s.step env e).2 := endings_append past _
    refine ⟨?_, fun u thread hown hthread => ?_, fun u thread hown hthread => ?_, nofun, nofun,
      fun u => ?_, fun u hu => ?_⟩
    · rw [List.append_nil, htold]
      exact hstep.books
    · obtain ⟨hjob, hfits⟩ := hstep.threads u thread hown hthread
      rw [List.append_nil, htold]
      exact ⟨(begun_append _ _ u).trans hjob, hfits⟩
    · rw [List.append_nil, htold]
      exact hstep.unsent u thread hown hthread
    · exact (congrArg (· ≤ 1) (hended u)).mpr (hstep.single u)
    · exact (hended u).trans (hstep.awake u hu)

/-- Every occurrence of a history is a step that followed what was before it. -/
theorem History.occurrence (h : History past s) {before after : List Occurrence} {o : Occurrence}
    (hpast : past = before ++ o :: after) :
    ∃ u env, History before u ∧ o.effects = (u.step env o.event).2 := by
  induction h generalizing after with
  | start => simp at hpast
  | @occurs past s h env e ih =>
    rcases List.eq_nil_or_concat after with rfl | ⟨more, last, rfl⟩
    · obtain ⟨rfl, hlast⟩ := List.append_inj' hpast rfl
      obtain rfl := List.singleton_inj.mp hlast
      exact ⟨s, env, h, rfl⟩
    · have hsplit : past ++ [⟨e, (s.step env e).2⟩] = (before ++ o :: more) ++ [last] := by
        rw [hpast]
        simp
      exact ih (List.append_inj' hsplit rfl).1

/-! ## Correlation -/

/-- Workers that answer only requests that they were sent.  It is the only premise about workers,
and only one of the conclusions needs it. -/
def Honest (past : List Occurrence) : Prop :=
  ∀ before o after, past = before ++ o :: after → ∀ w line n, o.event = .stdoutLine w line →
    lineId? line = some n → ∃ r, .send w r ∈ told before ∧ r.id = n

/-- How requests, answers and calls belong together.  These are statements about a history as a
whole, read off the effects that were told and the lines that came; the state does not occur in
them.  `History` makes every order of events a history, so each of them holds however late a line, a
failed write or the end of a worker comes. -/
structure Correlated (past : List Occurrence) : Prop where
  /-- Requests are numbered upwards, whichever worker they are for. -/
  ascending : (registeredIds (told past)).Pairwise (· < ·)
  /-- What is written to a worker is a request that was numbered for that worker. -/
  written : ∀ w r, .send w r ∈ told past → ∃ t, .register t w r ∈ told past
  /-- No number is written twice. -/
  sentOnce : (sentIds (told past)).Nodup
  /-- No request is closed twice, whether by a line, by its worker's going, by a stop or because it
  was not written. -/
  once : (settledIds (told past)).Nodup
  /-- Only what was numbered is closed. -/
  registered : ∀ id ∈ settledIds (told past), (id : Int) ∈ registeredIds (told past)
  /-- What a worker has said comes from a line that carries the number of the request; if workers
  are honest it is a line of the worker for which the request was numbered, and to which alone it
  can have been written. -/
  said : ∀ o ∈ past, ∀ (id : Nat) answer, .settle id answer ∈ o.effects → Said answer →
    ∃ w line, o.event = .stdoutLine w line ∧ lineId? line = some (id : Int) ∧
      (Honest past → ∀ t v r, .register t v r ∈ told past → r.id = (id : Int) → v = w)
  /-- A call that is over has failed without a worker's saying so, was cancelled, or ends as the
  answer to the request that was numbered for it. -/
  calls : ∀ before o after, past = before ++ o :: after → ∀ t outcome, .ends t outcome ∈ o.effects →
    ∃ job, begun (before ++ [o]) t = some job ∧ outcome.Fits (told (before ++ [o])) t job
  /-- A call is over once. -/
  single : ∀ t, endings past t ≤ 1
  /-- A number is one thread's, for one worker and one request. -/
  own : ∀ t u w v r r', .register t w r ∈ told past → .register u v r' ∈ told past → r.id = r'.id →
    t = u ∧ w = v ∧ r = r'

/-- A line that does not carry the number of a request leaves it as it is. -/
theorem stdoutLine_of_ne (s : State) {line : String} {id : Nat}
    (h : lineId? line ≠ some (id : Int)) :
    Assoc.get? id (s.stdoutLine line).1.pending = Assoc.get? id s.pending ∧
      ∀ answer, .settle id answer ∉ (s.stdoutLine line).2 := by
  unfold State.stdoutLine
  split
  · exact ⟨rfl, fun _ => List.not_mem_nil⟩
  · next other entry payload hanswered =>
    obtain ⟨hline, -⟩ := answered?_eq_some hanswered
    have hne : id ≠ other := fun he => h (he ▸ hline)
    refine ⟨Assoc.get?_erase_of_ne hne _, fun answer hsettle => ?_⟩
    exact hne (Effect.settle.inj (List.mem_singleton.mp hsettle)).1

/-- Whatever happens to the bridge, in whatever order, requests and answers correlate, and a line
leaves every request as it is whose number it does not carry.  The four ways to close a request, a
line, the going of its worker, a stop and a write that fails, may come in any order. -/
theorem requests_and_answers_correlate (h : History past s) :
    Correlated past ∧
    ∀ env w line (id : Nat), lineId? line ≠ some (id : Int) →
      Assoc.get? id (s.step env (.stdoutLine w line)).1.pending = Assoc.get? id s.pending ∧
        ∀ answer, .settle id answer ∉ (s.step env (.stdoutLine w line)).2 := by
  have hsettled := settled_of_history h
  have hbooks := hsettled.books
  dsimp only at hbooks
  rw [List.append_nil] at hbooks
  refine ⟨?_, fun env w line id hne => stdoutLine_of_ne s hne⟩
  refine
    { ascending := hbooks.ascending
      written := hbooks.written
      sentOnce := hbooks.sentOnce
      once := hbooks.once
      registered := hbooks.settled
      said := fun o ho id answer hsettle hsaid => ?_
      calls := fun before o after hpast t outcome hends => ?_
      single := hsettled.single
      own := fun t u w v r r' => hbooks.registration }
  · -- The occurrence is taken out of the history at its place.  What came before is a history too.
    obtain ⟨before, after, hpast⟩ := List.append_of_mem ho
    obtain ⟨u, env, hbefore, heffects⟩ := h.occurrence hpast
    rw [heffects] at hsettle
    have hheard : o.event.heard = some (id : Int) :=
      ((settled_of_history hbefore).step env o.event).said id answer (by simpa using hsettle) hsaid
    obtain ⟨w, line, hevent⟩ : ∃ w line, o.event = .stdoutLine w line := by
      cases hevent : o.event with
      | stdoutLine w line => exact ⟨w, line, rfl⟩
      | _ =>
        rw [hevent] at hheard
        cases hheard
    have hline : lineId? line = some (id : Int) := by
      rw [hevent] at hheard
      exact hheard
    refine ⟨w, line, hevent, hline, fun honest t v r hregister hid => ?_⟩
    obtain ⟨r', hsend', hid'⟩ := honest before o after hpast w line id hevent hline
    have htold : .send w r' ∈ told past := by
      obtain ⟨o', ho', hmem⟩ := mem_told.mp hsend'
      exact mem_told.mpr ⟨o', hpast ▸ List.mem_append_left _ ho', hmem⟩
    obtain ⟨t', hregister'⟩ := hbooks.written w r' htold
    exact (hbooks.registration hregister hregister' (hid.trans hid'.symm)).2.1
  · obtain ⟨u, env, hbefore, heffects⟩ := h.occurrence hpast
    rw [heffects] at hends
    obtain ⟨job, hjob, hfits⟩ :=
      ((settled_of_history hbefore).step env o.event).outcomes t outcome (by simpa using hends)
    refine ⟨job, (begun_append _ _ t).trans hjob, ?_⟩
    rw [told_append, heffects]
    exact hfits

/-- An outside in which workers start at once and take whatever is written to them. -/
def willing : Outside :=
  { now := 0
    command := .ok ["pike"]
    launch := .started 1
    slow := false
    write := fun _ => .taken
    abandoned := fun _ => false }

/-- An outside in which every pipe is full.  Every write is then suspended and can fail late, which
is the case that the statement must not leave out. -/
def clogged : Outside :=
  { willing with write := fun _ => .stalled }

/-- Two requests to a worker whose pipe is full.  The first stands written but not taken while the
second waits for its turn, and then it turns out that it was not written; the second is answered
before the same turns out of it.  A request after that finds the worker gone and is written to its
successor, and the old worker repeats its answer before the new one gives one. -/
def clogging : List Event :=
  [.begin 0 (.request "parse" []), .begin 1 (.request "tokenize" []),
    .resume 0 .failed, .resume 1 .done,
    .stdoutLine 0 "\x7b\"id\": 2, \"result\": 0\x7d", .resume 1 .failed,
      .exited 0 (-9), .stdoutEnded 0,
    .begin 2 (.request "parse" []), .stdoutLine 0 "\x7b\"id\": 2, \"result\": 1\x7d",
    .stdoutLine 1 "\x7b\"id\": 3, \"result\": 0\x7d", .resume 2 .done]

/-- Every request is closed once: the first because it was not written, the others by their
answers. -/
theorem clogged_bridge_correlates :
    let past := (after clogged clogging).1
    registeredIds (told past) = [1, 2, 3] ∧ sentIds (told past) = [1, 2, 3] ∧
      settledIds (told past) = [1, 2, 3] ∧ Correlated past := by
  intro past
  refine ⟨by decide +kernel, by decide +kernel, by decide +kernel, ?_⟩
  exact (requests_and_answers_correlate (history_after clogged clogging)).1

end PikeAnalysis.Bridge
