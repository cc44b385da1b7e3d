import PikeAnalysis.Proofs.Engine.Loading
import PikeAnalysis.Proofs.Stdlib.Failures

/-!
# What the last load of a module leaves behind

When a load of a module is completed without a module, the index notes that, unless no worker could
be reached (`recollects_concluded`).  Whatever is done later by any task but another load of that
module leaves the note alone for as long as it counts (`abides_body`): such tasks may ask for the
module, which drops a note that does not count any more, and store or note others.

A note counts for as long as its time to live has not passed and the worker is the one it was made
under; this is the same for all notes, and is decided by the index when it is asked.  The contract
of other tasks allows them everything but to touch a note that counts, and the proofs that they keep
it are of the usual form: a rule for each step of the index, and the routines above it by their
text.
-/

namespace PikeAnalysis.Engine.Library

open PikeAnalysis.Concurrency

attribute [local irreducible] StdlibModule.cleanPath IncludeCache.targetPath

variable {ω : Type} {s u : State} {path : String} {ttl : Duration} {job : Job}

/-! ## Completed loads -/

/-- A load that has been completed: when and under which worker, and what it was told.  That is all
there is to know of a load: for how long its module is taken to be missing follows from it. -/
structure Completed where
  time : Instant
  generation : Nat
  answer : Except BridgeFailure Json
  /-- Whether the index has been cleared since. -/
  cleared : Bool := false

namespace Completed

/-- The worker did not find the module, or the request for it failed. -/
def missing (c : Completed) : Bool :=
  match c.answer with
  | .error why => !Validation.isUnreachable why
  | .ok v => !(Wire.StdlibAnswer.ofJson v).found

/-- No worker could be reached.  Such a load says nothing of the module, and the module is asked for
again at once. -/
def unreachable (c : Completed) : Bool :=
  match c.answer with
  | .error why => Validation.isUnreachable why
  | .ok _ => false

theorem not_missing_and_unreachable (c : Completed) :
    ¬ (c.missing = true ∧ c.unreachable = true) := by
  unfold missing unreachable
  cases c.answer with
  | error why => cases Validation.isUnreachable why <;> simp
  | ok => simp

/-- What is noted of a load.  Nothing is noted of a load that found the module, or that reached no
worker. -/
def noted (ttl : Duration) (c : Completed) : Option MissingModule :=
  if c.missing then some { expiresAt := c.time.after ttl, generation := c.generation } else none

/-- Less than the time to live has passed, and the worker is the same.  Whether it is taken for
missing depends on these two alone, besides whether the index has been cleared. -/
def Stands (ttl : Duration) (now : Instant) (generation : Nat) (c : Completed) : Prop :=
  (∀ expiry, c.time.after ttl = some expiry → now < expiry) ∧ generation = c.generation

/-- What is noted counts as long as it stands. -/
theorem counts_noted (c : Completed) (now : Instant) (generation : Nat) :
    StdlibIndex.Counts (c.noted ttl) now generation ↔ c.missing = true ∧
      c.Stands ttl now generation := by
  unfold noted
  cases missing : c.missing with
  | true => simp [StdlibIndex.counts_iff, Stands]
  | false => simp [StdlibIndex.not_counts_none]

theorem generation_of_noted {c : Completed} {f : MissingModule} (h : c.noted ttl = some f) :
    f.generation = c.generation := by
  unfold noted at h
  split at h
  · rw [← Option.some.inj h]
  · cases h

end Completed

/-! ## Recollections -/

/-- If the load that was completed last did not yield a module, the index does not have it, and
knows of it what was noted then. -/
structure Recollects (ttl : Duration) (path : String) (last : Option Completed) (s : State) :
    Prop where
  lasting : s.stdlib.negativeTtl = ttl
  earlier : ∀ c ∈ last, c.generation ≤ s.bridge.generation
  remembers : ∀ c ∈ last, c.missing = true ∨ c.unreachable = true →
    s.stdlib.Remembers path (c.noted ttl) (c.cleared = true) s.now s.bridge.generation

variable {last : Option Completed}

namespace Recollects

/-- What is remembered of any load is remembered still. -/
theorem change (h : Recollects ttl path last s)
    (lasting : u.stdlib.negativeTtl = s.stdlib.negativeTtl)
    (now : u.now = s.now) (worker : u.bridge.generation = s.bridge.generation)
    (keeps : ∀ {known cleared}, s.stdlib.Remembers path known cleared s.now s.bridge.generation →
      u.stdlib.Remembers path known cleared s.now s.bridge.generation) :
      Recollects ttl path last u where
  lasting := lasting.trans h.lasting
  earlier c hc := worker ▸ h.earlier c hc
  remembers c hc failed := by
    rw [now, worker]
    exact keeps (h.remembers c hc failed)

theorem still (h : Recollects ttl path last s) (still : Still s u) : Recollects ttl path last u :=
  h.change (by rw [still.stdlib]) still.now still.generation fun remembers => by rwa [still.stdlib]

/-- Time goes on, and workers come one after the other. -/
theorem later (h : Recollects ttl path last s) (stdlib : u.stdlib = s.stdlib) (time : s.now ≤ u.now)
    (worker : s.bridge.generation ≤ u.bridge.generation) : Recollects ttl path last u where
  lasting := by rw [stdlib, h.lasting]
  earlier c hc := Nat.le_trans (h.earlier c hc) worker
  remembers c hc failed := by
    rw [stdlib]
    refine (h.remembers c hc failed).later time worker fun f hf => ?_
    rw [Completed.generation_of_noted hf]
    exact h.earlier c hc

end Recollects

/-- A load that does not yield a module notes that, unless no worker could be reached. -/
theorem Completed.concludes (c : Completed) (path : String) (s : State) :
    (c.missing = true ∧ (concluded path c.answer s).1 = remembered path s) ∨
      (c.missing = false ∧ c.unreachable = true ∧ (concluded path c.answer s).1 = s) ∨
        (c.missing = false ∧ c.unreachable = false ∧
          ∃ mod, (concluded path c.answer s).1 = stored mod s) := by
  unfold missing unreachable
  cases c.answer with
  | error why => cases reached : Validation.isUnreachable why <;> simp [concluded, reached]
  | ok v =>
    cases found : (Wire.StdlibAnswer.ofJson v).found with
    | true =>
      exact .inr (.inr ⟨by simp [found], rfl, .ofAnswer path (Wire.StdlibAnswer.ofJson v) s.now,
        by simp only [concluded, found, if_true]⟩)
    | false => simp [concluded, found]

/-- A load that is completed leaves behind what it was told.  It was told so at this very time, by
the worker that runs now. -/
theorem recollects_concluded {t : Nat} (loads : u.stdlib.Loads path t)
    (lasting : u.stdlib.negativeTtl = ttl)
    {c : Completed} (time : c.time = u.now) (worker : c.generation = u.bridge.generation) :
    Recollects ttl path (some c) (concluded path c.answer u).1 := by
  rcases c.concludes path u with ⟨missing, he⟩ | ⟨missing, -, he⟩ | ⟨missing, reached, mod, he⟩ <;>
    rw [he]
  · refine ⟨lasting, fun d hd => ?_, fun d hd _ => ⟨loads.modules, .inl ?_⟩⟩ <;> obtain rfl :=
      Option.some.inj hd
    · exact Nat.le_of_eq worker
    · refine (Assoc.get?_set _ _ _ _).trans ?_
      rw [if_pos rfl, Completed.noted, if_pos missing, time, worker, lasting]
  · refine ⟨lasting, fun d hd => ?_, fun d hd _ => ⟨loads.modules, .inl ?_⟩⟩ <;> obtain rfl :=
      Option.some.inj hd
    · exact Nat.le_of_eq worker
    · rw [loads.failures, Completed.noted, if_neg (by simp [missing])]
  · have kept : (u.stdlib.store mod).negativeTtl = u.stdlib.negativeTtl := by
      rw [StdlibIndex.store_eq]
    refine ⟨?_, fun d hd => ?_, fun d hd failed => ?_⟩
    · unfold stored
      split <;> exact kept.trans lasting
    · obtain rfl := Option.some.inj hd
      unfold stored
      split <;> exact Nat.le_of_eq worker
    · obtain rfl := Option.some.inj hd
      simp [missing, reached] at failed

/-! ## Other tasks -/

/-- The contract of a task that leaves alone what is remembered of the loads of a module. -/
def recollecting (ttl : Duration) (path : String) : Contract State Job where
  step s u := ∀ last, Recollects ttl path last s → Recollects ttl path last u
  waits _ := True
  pause _ := True
  renews _ := False

theorem easy_recollecting : (recollecting ttl path).Easy where
  waits _ := trivial
  loops s _ _ _ now := ⟨fun _ h => h.still (still_loop s now), trivial⟩

theorem recollects_findModule (h : Recollects ttl path last s) (other : String) :
    Recollects ttl path last (findModule other s).1 := by
  have lasting : (s.stdlib.ask s.now s.bridge.generation other).1.negativeTtl =
    s.stdlib.negativeTtl := by
    rcases s.stdlib.ask_cases s.now s.bridge.generation other with
      ⟨m, -, -, he⟩ | ⟨-, -, -, he⟩ | ⟨t, -, -, -, he⟩ | ⟨-, -, -, he⟩ <;>
      rw [he]
  have asked : Recollects ttl path last
      { s with stdlib := (s.stdlib.ask s.now s.bridge.generation other).1 } :=
    h.change lasting rfl rfl fun remembers => remembers.ask other
  rw [findModule_eq]
  cases (s.stdlib.ask s.now s.bridge.generation other).2 with
  | found | absent | join => exact asked
  | load =>
    refine h.change lasting ?_ rfl fun remembers => (remembers.ask other).noteLoading other _
    exact Loop.now_follow ..

theorem consults_recollecting : Consults fun r => r.Abides (recollecting ttl path) where
  done := Routine.abides_done
  fail := Routine.abides_fail
  cancelled := Routine.abides_cancelled
  read := Routine.abides_read
  onEnd hr next := hr.onEnd next
  within d late _ hr := Routine.abides_within easy_recollecting d late hr
  awaitTask := Routine.abides_awaitTask easy_recollecting
  join method params := Routine.abides_act fun s _ =>
    ⟨fun _ h => h.still (still_joinRequest method params s), trivial⟩
  find _ := Routine.abides_act fun _ _ => ⟨fun _ h => recollects_findModule h _, trivial⟩
  keep _ := Routine.abides_modify fun _ _ => ⟨fun _ h => h.still ⟨rfl, rfl, rfl⟩, trivial⟩

/-- The load of another module leaves alone what is remembered of this one. -/
theorem abides_loadBody {other : String} (ne : other ≠ path) :
    (loadBody other).Abides (recollecting ttl path) := by
  have all := @consults_recollecting path ttl
  have noted : (loadBody.remember other).Abides (recollecting ttl path) :=
    Routine.abides_modify fun _ _ =>
      ⟨fun _ h => h.change rfl rfl rfl fun remembers => remembers.rememberFailure ne _ _, trivial⟩
  unfold loadBody
  refine all.bind (all.orFailure (all.ask _)) fun answer => ?_
  split
  · split
    · exact all.done _
    · exact all.bind noted fun _ => all.done _
  · dsimp only
    split
    · refine all.bind (all.read _) fun now => all.bind ?_ fun _ => all.done _
      refine Routine.abides_modify fun s _ => ⟨fun _ h => ?_, trivial⟩
      have kept (mod : StdlibModule) : (s.stdlib.store mod).negativeTtl = s.stdlib.negativeTtl := by
        rw [StdlibIndex.store_eq]
      split <;> exact h.change (kept _) rfl rfl fun remembers => remembers.store ne
    · exact all.bind noted fun _ => all.done _

/-- Every task but a load of the module leaves alone what is remembered of its loads.  A load of
another module notes something else, under another path. -/
theorem abides_body (other : job ≠ .load path) :
    (rules.body job).Abides (recollecting ttl path) := by
  have all := @consults_recollecting path ttl
  cases job with
  | call c =>
    cases c with
    | module asked => exact all.bind (all.getModule asked) fun _ => all.done _
    | resolve name uri =>
      exact all.bind (all.lookup name uri) fun _ => all.done _
    | visible uri => exact all.bind (all.visible uri) fun _ => all.done _
    | _ => exact all.done _
  | request => exact all.bind (all.read _) fun t => Routine.abides_await easy_recollecting _
  | load asked => exact abides_loadBody fun same => other (congrArg _ same)
  | _ => exact all.done _

/-- What a task that waits has left to do: a load of the module concludes, and all others leave
alone what is remembered of its loads. -/
def LeftOver (ttl : Duration) (path : String) (job : Job)
    (rest : Rest State Trouble Value Job) : Prop :=
  (job = .load path → Learns path rest) ∧
    (job ≠ .load path → ∀ e, (rest e).Abides (recollecting ttl path))

theorem leavesOver : LeavesOver (LeftOver ttl path) rules where
  first {job s u signal rest} run := by
    refine ⟨fun load => ?_, fun other => (abides_body other).rest (fun _ => trivial) run⟩
    subst load
    exact learns_of_waits run
  next {job s u e signal rest rest'} left run := by
    refine ⟨fun load => ?_, fun other => (left.2 other e).rest (fun _ => trivial) run⟩
    rw [left.1 load e s] at run
    cases run

end PikeAnalysis.Engine.Library
