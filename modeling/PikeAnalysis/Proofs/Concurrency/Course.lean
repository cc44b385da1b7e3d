import PikeAnalysis.Proofs.Concurrency.Contract

/-!
# Courses of a routine among anything else

A routine is undisturbed between its waits, and nothing is known of what happens while it waits.  A
course of it lists the changes that it makes itself and, in between, what it found when it went on:
any state, and any way in which its signal ended.  What holds of all courses holds however the
machine interleaves the routine with other tasks.

This is the one notion of a run that knows nothing of the loop.  A state may change in any way
between two turns of the routine, so a statement about all courses of a routine is a statement about
all interleavings of it with anything else; what the others really can do is said by contracts,
charters and pacts, which are about whole machines.  A claim about one function of the program, such
as that a validation is atomic, is stated on its courses.

A course is decided by its moves (`Course.unique`), and `Routine.play` computes one from a script of
what happens in each wait, so that a course at a concrete input can be found by evaluation
(`course_of_play`).
-/

namespace PikeAnalysis.Concurrency

/-- A move in the course of a routine: a change it makes itself, or a wait, with what it finds after
it and how the signal ended.  The state before and after a change is part of the move, and so are
both ends of a wait, so that a list of moves can be asked what changed, and when. -/
inductive Move (σ ε ν : Type) where
  | own (before after : σ)
  | aside (before after : σ) (ending : Ending ε ν)

namespace Routine

variable {σ ε ν κ α β : Type}

/-- The courses of a routine from a state on, up to its end.  A routine that ends by starting over
as another job has no course: what comes after is that job's. -/
inductive Course : Routine σ ε ν κ α → σ → List (Move σ ε ν) → σ → Ending ε α → Prop
  | done (a : α) (s : σ) : Course (.done a) s [] s (.value a)
  | fail (e : ε) (s : σ) : Course (.fail e) s [] s (.error e)
  | cancelled (s : σ) : Course .cancelled s [] s .cancelled
  | get {k : σ → Routine σ ε ν κ α} {s t : σ} {moves : List (Move σ ε ν)} {ending : Ending ε α}
      (rest : Course (k s) s moves t ending) : Course (.get k) s moves t ending
  | set {next : Routine σ ε ν κ α} {s s' t : σ} {moves : List (Move σ ε ν)} {ending : Ending ε α}
      (rest : Course next s' moves t ending) : Course (.set s' next) s (.own s s' :: moves) t ending
  | wait {signal : Signal} {k : Ending ε ν → Routine σ ε ν κ α} {s s' t : σ} {e : Ending ε ν}
      {moves : List (Move σ ε ν)} {ending : Ending ε α} (rest : Course (k e) s' moves t ending) :
      Course (.wait signal k) s (.aside s s' e :: moves) t ending

variable {r : Routine σ ε ν κ α} {s s' t t' : σ} {moves moves' : List (Move σ ε ν)}
  {ending ending' : Ending ε α}

/-! ## Routines one after the other -/

/-- A course of what is done after a routine is a course of the routine and one of the rest.  The
moves of the two are put one after the other, and the rest starts from whatever ending the routine
has had, a cancellation included. -/
theorem Course.of_onEnd {f : Ending ε α → Routine σ ε ν κ β} {last : Ending ε β}
    (h : Course (r.onEnd f) s moves t last) :
    ∃ before mid reached after, moves = before ++ after ∧ Course r s before mid reached ∧
      Course (f reached) mid after t last := by
  induction r generalizing s moves with
  | done a => exact ⟨[], s, _, moves, rfl, .done a s, h⟩
  | fail e => exact ⟨[], s, _, moves, rfl, .fail e s, h⟩
  | cancelled => exact ⟨[], s, _, moves, rfl, .cancelled s, h⟩
  | renew => cases h
  | get k ih =>
    cases h with
    | get rest =>
      obtain ⟨before, mid, reached, after, rfl, h, k⟩ := ih s rest
      exact ⟨before, mid, reached, after, rfl, .get h, k⟩
  | set s' next ih =>
    cases h with
    | set rest =>
      obtain ⟨before, mid, reached, after, rfl, h, k⟩ := ih rest
      exact ⟨_ :: before, mid, reached, after, rfl, .set h, k⟩
  | wait signal k ih =>
    cases h with
    | wait rest =>
      obtain ⟨before, mid, reached, after, rfl, h, k⟩ := ih _ rest
      exact ⟨_ :: before, mid, reached, after, rfl, .wait h, k⟩

theorem andThen_eq_onEnd (r : Routine σ ε ν κ α) (f : α → Routine σ ε ν κ β) :
    r.andThen f = r.onEnd fun
      | .value a => f a
      | .error e => .fail e
      | .cancelled => .cancelled := by
  induction r with
  | done | fail | cancelled | renew => rfl
  | get k ih => exact congrArg Routine.get (funext ih)
  | set s next ih => exact congrArg (Routine.set s) ih
  | wait signal k ih => exact congrArg (Routine.wait signal) (funext ih)

theorem andThen_assoc {γ : Type} (r : Routine σ ε ν κ α) (f : α → Routine σ ε ν κ β)
    (g : β → Routine σ ε ν κ γ) :
    (r.andThen f).andThen g = r.andThen fun a => (f a).andThen g := by
  induction r with
  | done | fail | cancelled | renew => rfl
  | get k ih => exact congrArg Routine.get (funext ih)
  | set s next ih => exact congrArg (Routine.set s) ih
  | wait signal k ih => exact congrArg (Routine.wait signal) (funext ih)

theorem onEnd_assoc {γ : Type} (r : Routine σ ε ν κ α) (f : Ending ε α → Routine σ ε ν κ β)
    (g : Ending ε β → Routine σ ε ν κ γ) :
    (r.onEnd f).onEnd g = r.onEnd fun ending => (f ending).onEnd g := by
  induction r with
  | done | fail | cancelled | renew => rfl
  | get k ih => exact congrArg Routine.get (funext ih)
  | set s next ih => exact congrArg (Routine.set s) ih
  | wait signal k ih => exact congrArg (Routine.wait signal) (funext ih)

theorem ofEnding_onEnd (ending : Ending ε α) (f : Ending ε α → Routine σ ε ν κ β) :
    (ofEnding ending : Routine σ ε ν κ α).onEnd f = f ending := by
  cases ending <;> rfl

/-- What is done next, and after it however it ends, is put together in each case. -/
theorem andThen_onEnd {γ : Type} (r : Routine σ ε ν κ α) {f : α → Routine σ ε ν κ β}
    {g : Ending ε β → Routine σ ε ν κ γ} {h : Ending ε α → Routine σ ε ν κ γ}
    (value : ∀ a, (f a).onEnd g = h (.value a)) (error : ∀ e, g (.error e) = h (.error e))
    (cancelled : g .cancelled = h .cancelled) : (r.andThen f).onEnd g = r.onEnd h := by
  induction r with
  | done a => exact value a
  | fail e => exact error e
  | cancelled => exact cancelled
  | renew => rfl
  | get k ih => exact congrArg Routine.get (funext ih)
  | set s next ih => exact congrArg (Routine.set s) ih
  | wait signal k ih => exact congrArg (Routine.wait signal) (funext ih)

/-- A course of a change and what is done next begins with the change. -/
theorem Course.of_act {f : σ → σ × β} {k : β → Routine σ ε ν κ α}
    (h : Course ((act f).andThen k) s moves t ending) :
    ∃ rest, moves = .own s (f s).1 :: rest ∧ Course (k (f s).2) (f s).1 rest t ending := by
  cases h with
  | get h =>
    cases h with
    | set h => exact ⟨_, rfl, h⟩

/-! ## What is told by the moves -/

/-- The moves of a course decide all of it.  None is the beginning of another, since a routine that
has ended makes no more moves. -/
theorem Course.unique (h : Course r s moves t ending) {more more' : List (Move σ ε ν)}
    (h' : Course r s moves' t' ending') (same : moves ++ more = moves' ++ more') :
    moves = moves' ∧ t = t' ∧ ending = ending' := by
  induction h generalizing moves' with
  | done | fail | cancelled =>
    cases h'
    exact ⟨rfl, rfl, rfl⟩
  | get rest ih =>
    cases h' with
    | get rest' => exact ih rest' same
  | set rest ih =>
    cases h' with
    | set rest' =>
      obtain ⟨rfl, rfl, rfl⟩ := ih rest' (List.cons.inj same).2
      exact ⟨rfl, rfl, rfl⟩
  | wait rest ih =>
    cases h' with
    | wait rest' =>
      obtain ⟨hmove, hrest⟩ := List.cons.inj same
      cases hmove
      obtain ⟨rfl, rfl, rfl⟩ := ih rest' hrest
      exact ⟨rfl, rfl, rfl⟩

/-- A routine that keeps a contract which asks nothing of its waits makes only changes of the
contract.  Nothing is assumed about what happens in the waits. -/
theorem Course.own_of_keeps {c : Contract σ κ} {post : Ending ε α → σ → Prop}
    (anywhere : ∀ s, c.pause s) (h : Course r s moves t ending) (keeps : r.Keeps c post s) :
    post ending t ∧ ∀ a b, .own a b ∈ moves → c.step a b := by
  induction h with
  | done | fail | cancelled => exact ⟨keeps, nofun⟩
  | get rest ih => exact ih keeps
  | set rest ih =>
    obtain ⟨step, keeps⟩ := keeps
    obtain ⟨last, own⟩ := ih keeps
    refine ⟨last, fun a b hmem => ?_⟩
    rcases List.mem_cons.mp hmem with heq | hmem
    · cases heq
      exact step
    · exact own a b hmem
  | wait rest ih =>
    obtain ⟨last, own⟩ := ih (keeps.2.2 _ _ (anywhere _))
    refine ⟨last, fun a b hmem => ?_⟩
    rcases List.mem_cons.mp hmem with heq | hmem
    · cases heq
    · exact own a b hmem

/-! ## Played courses -/

/-- Plays a routine, up to its end, to a script of what happens in each of its waits. -/
def play : Routine σ ε ν κ α → σ → List ((σ → σ) × Ending ε ν) →
    Option (List (Move σ ε ν) × σ × Ending ε α)
  | .done a, s, _ => some ([], s, .value a)
  | .fail e, s, _ => some ([], s, .error e)
  | .cancelled, s, _ => some ([], s, .cancelled)
  | .get k, s, script => (k s).play s script
  | .set s' next, s, script =>
    (next.play s' script).map fun (moves, found) => (.own s s' :: moves, found)
  | .wait _ _, _, [] => none
  | .wait _ k, s, (f, e) :: script =>
    ((k e).play (f s) script).map fun (moves, found) => (.aside s (f s) e :: moves, found)
  | .renew .., _, _ => none

/-- What is played is a course, in which nothing happens aside but what the script says. -/
theorem course_of_play {script : List ((σ → σ) × Ending ε ν)}
    (h : r.play s script = some (moves, t, ending)) :
    Course r s moves t ending ∧
      ∀ a b e, .aside a b e ∈ moves → ∃ f, (f, e) ∈ script ∧ b = f a := by
  -- Every wait of the routine takes one scene of the script.
  induction r generalizing s script moves with
  | done | fail | cancelled =>
    cases h
    exact ⟨by constructor, fun a b e hmem => absurd hmem List.not_mem_nil⟩
  | renew => cases h
  | get k ih =>
    obtain ⟨course, scripted⟩ := ih s h
    exact ⟨.get course, scripted⟩
  | set s' next ih =>
    obtain ⟨⟨rest, found⟩, hrest, heq⟩ := Option.map_eq_some_iff.mp h
    cases heq
    obtain ⟨course, scripted⟩ := ih hrest
    refine ⟨.set course, fun a b e hmem => ?_⟩
    exact scripted a b e ((List.mem_cons.mp hmem).resolve_left nofun)
  | wait signal k ih =>
    cases script with
    | nil => cases h
    | cons scene script =>
      obtain ⟨⟨rest, found⟩, hrest, heq⟩ := Option.map_eq_some_iff.mp h
      cases heq
      obtain ⟨course, scripted⟩ := ih _ hrest
      refine ⟨.wait course, fun a b e hmem => ?_⟩
      rcases List.mem_cons.mp hmem with heq | hmem
      · cases heq
        exact ⟨scene.1, List.mem_cons_self, rfl⟩
      · obtain ⟨f, hscene, hb⟩ := scripted a b e hmem
        exact ⟨f, List.mem_cons_of_mem _ hscene, hb⟩

end Routine

end PikeAnalysis.Concurrency
