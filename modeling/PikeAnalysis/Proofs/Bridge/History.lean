import Mathlib.Data.List.Nodup
import Mathlib.Data.List.Pairwise
import PikeAnalysis.Bridge.Machine

/-!
# Histories of the bridge

A history lists what happened to the bridge and what was to be done each time.  Anything may happen
at any moment: threads begin and go on, lines arrive from workers that are in use or long gone,
workers end, and the outside may look different every time, so that a process starts at once, late
or not at all, and a pipe takes what is written to it, is full or is broken.

What requests are concerned with is read off a history as three lists: the numbers that were given,
the numbers that were written, and the numbers that were closed.  That a request is given its
number, that it is written and that it is closed are three moments, and other things may happen
between them.

Nothing is assumed here about when a thread goes on; that it goes on only after what it waited for
is a premise of some of the claims and not of others, and is added where it is needed (`Course` in
`Proofs/Bridge/Turns.lean`).  A history also does not say which task drives a thread.  That the
engine's tasks produce such histories is shown in `Proofs/Engine`.
-/

namespace PikeAnalysis.Bridge

/-- Something that happened, and what was to be done then.  What comes of an event depends on the
state in which it happens; the effects are kept beside it so that a history can be read without
running it again. -/
structure Occurrence where
  event : Event
  effects : List Effect

/-- The states that the bridge can come to, and how.  Every event is possible in every state.  An
event that concerns nobody, such as a line of a worker that has gone or the end of a wait that
nobody is in, is one that changes nothing, so nothing has to be assumed about the order in which the
outside acts. -/
inductive History : List Occurrence → State → Prop
  | start (recentMax : Nat) : History [] { recentMax }
  | occurs {past : List Occurrence} {s : State} (h : History past s) (env : Outside) (e : Event) :
    History (past ++ [⟨e, (s.step env e).2⟩]) (s.step env e).1

/-- What comes of events while the outside stays as it is.  Runs on given events start here, from
the empty state. -/
def after (env : Outside) (events : List Event) : List Occurrence × State :=
  events.foldl (fun p e => (p.1 ++ [⟨e, (p.2.step env e).2⟩], (p.2.step env e).1)) ([], {})

theorem history_after (env : Outside) (events : List Event) :
    History (after env events).1 (after env events).2 := by
  have hfold : ∀ past s, History past s →
      History (events.foldl (fun p e => (p.1 ++ [⟨e, (p.2.step env e).2⟩], (p.2.step env e).1))
        (past, s)).1
        (events.foldl (fun p e => (p.1 ++ [⟨e, (p.2.step env e).2⟩], (p.2.step env e).1))
          (past, s)).2 := by
    induction events with
    | nil => exact fun past s h => h
    | cons e rest ih => exact fun past s h => ih _ _ (h.occurs env e)
  exact hfold [] {} (.start 5)

/-- All that was to be done.  The effects of all steps, one after the other. -/
def told (past : List Occurrence) : List Effect :=
  past.flatMap (·.effects)

/-- The thread that an event begins, if it is this one. -/
def Event.begins (t : Nat) : Event → Option Job
  | .begin u job => if u = t then some job else none
  | _ => none

/-- What a thread is for: the job with which it began last.  A number may be used again for a later
thread; what it was for before does not matter then. -/
def begun (past : List Occurrence) (t : Nat) : Option Job :=
  past.foldl (fun known o => o.event.begins t <|> known) none

/-- How often a thread was to end.  It is at most one for every thread in a step, which is part of
what is shown. -/
def endsOf (t : Nat) (out : List Effect) : Nat :=
  out.countP fun
    | .ends u _ => decide (u = t)
    | _ => false

/-- How often a thread has ended since it began last.  So it is one at most, and zero as long as the
thread has not ended. -/
def endings (past : List Occurrence) (t : Nat) : Nat :=
  past.foldl (fun n o => (if (o.event.begins t).isSome then 0 else n) + endsOf t o.effects) 0

/-! ## What was to be done -/

/-- The number that a request is given. -/
def Effect.registers : Effect → Option Int
  | .register _ _ r => some r.id
  | _ => none

/-- The number of a request that is written to a worker. -/
def Effect.sends : Effect → Option Int
  | .send _ r => some r.id
  | _ => none

/-- The number of a request that is closed: it is answered, or its thread ends because it was not
written. -/
def Effect.closes : Effect → Option Nat
  | .settle id _ | .ends _ (.unwritten id _) => some id
  | _ => none

/-- The numbers that were given to requests, in the order in which they were given. -/
def registeredIds (out : List Effect) : List Int :=
  out.filterMap Effect.registers

/-- The numbers of the requests that were written. -/
def sentIds (out : List Effect) : List Int :=
  out.filterMap Effect.sends

/-- The numbers of the requests that were closed. -/
def settledIds (out : List Effect) : List Nat :=
  out.filterMap Effect.closes

section Small

variable {past : List Occurrence} {o : Occurrence} {out more : List Effect} {t id : Nat}

@[simp] theorem told_append (past : List Occurrence) (o : Occurrence) :
    told (past ++ [o]) = told past ++ o.effects := by
  simp [told]

@[simp] theorem begun_append (past : List Occurrence) (o : Occurrence) (t : Nat) :
    begun (past ++ [o]) t = (o.event.begins t <|> begun past t) := by
  simp [begun]

@[simp] theorem endsOf_append (t : Nat) (out more : List Effect) :
    endsOf t (out ++ more) = endsOf t out + endsOf t more :=
  List.countP_append

@[simp] theorem endings_append (past : List Occurrence) (o : Occurrence) (t : Nat) :
    endings (past ++ [o]) t =
      (if (o.event.begins t).isSome then 0 else endings past t) + endsOf t o.effects := by
  simp [endings]

theorem endsOf_eq_zero (h : ∀ outcome, .ends t outcome ∉ out) : endsOf t out = 0 := by
  refine List.countP_eq_zero.mpr fun x hx => ?_
  cases x with
  | ends u outcome =>
    have hne : u ≠ t := fun he => h outcome (he ▸ hx)
    simpa using hne
  | _ => exact Bool.false_ne_true

@[simp] theorem registeredIds_append (out more : List Effect) :
    registeredIds (out ++ more) = registeredIds out ++ registeredIds more :=
  List.filterMap_append

@[simp] theorem sentIds_append (out more : List Effect) :
    sentIds (out ++ more) = sentIds out ++ sentIds more :=
  List.filterMap_append

@[simp] theorem settledIds_append (out more : List Effect) :
    settledIds (out ++ more) = settledIds out ++ settledIds more :=
  List.filterMap_append

theorem mem_told {x : Effect} : x ∈ told past ↔ ∃ o ∈ past, x ∈ o.effects := by
  simp [told]

theorem mem_registeredIds {n : Int} :
    n ∈ registeredIds out ↔ ∃ t w r, Effect.register t w r ∈ out ∧ r.id = n := by
  constructor
  · intro h
    obtain ⟨x, hx, hn⟩ := List.mem_filterMap.mp h
    cases x with
    | register t w r => exact ⟨t, w, r, hx, Option.some.inj hn⟩
    | _ => cases hn
  · rintro ⟨t, w, r, hx, rfl⟩
    exact List.mem_filterMap.mpr ⟨_, hx, rfl⟩

theorem mem_sentIds {n : Int} : n ∈ sentIds out ↔ ∃ w r, Effect.send w r ∈ out ∧ r.id = n := by
  constructor
  · intro h
    obtain ⟨x, hx, hn⟩ := List.mem_filterMap.mp h
    cases x with
    | send w r => exact ⟨w, r, hx, Option.some.inj hn⟩
    | _ => cases hn
  · rintro ⟨w, r, hx, rfl⟩
    exact List.mem_filterMap.mpr ⟨_, hx, rfl⟩

theorem mem_settledIds :
    id ∈ settledIds out ↔
      (∃ answer, Effect.settle id answer ∈ out) ∨
        ∃ t why, Effect.ends t (.unwritten id why) ∈ out := by
  constructor
  · intro h
    obtain ⟨x, hx, hn⟩ := List.mem_filterMap.mp h
    cases x with
    | settle id' answer =>
      obtain rfl := Option.some.inj hn
      exact .inl ⟨answer, hx⟩
    | ends t outcome =>
      cases outcome with
      | unwritten id' why =>
        obtain rfl := Option.some.inj hn
        exact .inr ⟨t, why, hx⟩
      | _ => cases hn
    | _ => cases hn
  · rintro (⟨answer, hx⟩ | ⟨t, why, hx⟩) <;> exact List.mem_filterMap.mpr ⟨_, hx, rfl⟩

end Small

end PikeAnalysis.Bridge
