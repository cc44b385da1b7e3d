import PikeAnalysis.Proofs.Engine.Consulting

/-!
# The index of the standard library shows only in its speed

Modules are asked for and loads come back in any order, while time passes, the worker is replaced
and the index is cleared.  Whoever asks for a module is told what an index without a memory would
tell, namely what the worker says of it (`getModule_as_without_index`), although the index answers
from what it has, forgets what does not fit and lets requests share a load.  It keeps its limits
meanwhile (`index_keeps_limits`).

An index without a memory is a function of the path, the time and what the worker says
(`withoutIndex`), so that "told the same" is an equation and not a simulation of a second machine.
Its premise is that the worker answers a request for a module always in the same way; a worker that
does not would be told apart by any index that remembers.  What the loading of a module costs, and
when it was loaded, is not part of the answer.
-/

namespace PikeAnalysis.Engine.Library

open PikeAnalysis.Concurrency

attribute [local irreducible] StdlibModule.cleanPath

variable {ω : Type} {worker : Worker ω} {settings : Config.Settings}
  {typedbBudget stdlibBudget : Int} {host : Host} {sink : Sink} {os before after : List (Event ω)}
  {c d : Moment State Trouble Value Job Hook}

/-- What an index without a memory tells of a module at a time, if the worker answers a request for
a path as `answers` says: nothing if there is no path or the worker fails, else the module that it
describes. -/
def withoutIndex (answers : String → Except BridgeFailure Json) (path : String) (now : Instant) :
    Option StdlibModule :=
  let path := StdlibModule.cleanPath path
  if path.isEmpty then none else moduleFrom path now (reading (.resolveStdlib path) (answers path))

/-- Nothing is taken to be sound, and anybody may be cancelled.  This is the weakest setting, so
what is shown in it holds of every course. -/
def anyData (worker : Worker ω) (maxModules : Nat) (budget : Int) : Setting ω :=
  { worker, maxModules, budget, sound := False, worker_sound := False.elim,
    cancels := fun _ => True,
    helpers := True }

theorem allowed_anyData (worker : Worker ω) (maxModules : Nat) (budget : Int)
    (first : Moment State Trouble Value Job Hook) (os : List (Event ω)) :
    Pact.AllowedOn rules (occur worker) (Event.Allowed (anyData worker maxModules budget)) first
      os := by
  rintro before e after d - -
  cases e with
  | stored => exact False.elim
  | cancelled task =>
    intro job _
    cases job <;> trivial
  | called | answered | clock | replaced | cleared | invalidated | surroundings => trivial

/-- If the worker always answers a request for a module in the same way, a task that asks for a
module ends with the module that an index without a memory would tell, however much is asked for and
cleared meanwhile, in whatever order requests are answered, and whatever the limits.  It ends as
cancelled only if it has been cancelled itself, or the task of a load or a request has.  A task that
was cancelled is set aside, and a cancellation has to be an event of the course. -/
theorem getModule_as_without_index {answers : String → Except BridgeFailure Json}
    (fixed : ∀ path choice, worker "resolve_stdlib" [("module", .str path)] choice = answers path)
    {task : Nat} {path : String} {e : Ending Trouble Value}
    (begun : Leads rules (occur worker) (opening settings typedbBudget stdlibBudget host sink)
      before c)
    (asked : c.state.loop.jobOf task = some (.call (.module path)))
    (course : Leads rules (occur worker) c after d)
    (ended : d.state.loop.ending? (.ended task) = some e) :
    (e = .cancelled ∧
      Cancelled worker (opening settings typedbBudget stdlibBudget host sink)
        (before ++ after) task) ∨
    ∃ now, e = .value (.module (withoutIndex answers path now)) := by
  -- Nothing is assumed of the data, and what may be cancelled is what an event of the course
  -- cancels.
  let S := (anyData worker settings.stdlibModules stdlibBudget).along
    (opening settings typedbBudget stdlibBudget host sink) (before ++ after)
  have comes : S.Comes task (.call (.module path)) e :=
    comes_of_leads (S := S) rfl rfl (allowed_along fun _ _ => False.elim) begun asked course ended
  cases e with
  | cancelled => exact .inl ⟨rfl, comes.elim (fun may => .inl may) .inr⟩
  | error why => exact comes.elim
  | value v =>
    obtain ⟨mod, rfl, knows⟩ := comes
    right
    unfold Worker.Knows at knows
    split at knows
    · next unnamed => exact ⟨0, by rw [withoutIndex, if_pos unnamed, knows]⟩
    · next named =>
      obtain ⟨choice, now, hmod⟩ := knows
      have reply : worker.replies (.resolveStdlib (StdlibModule.cleanPath path)) choice =
          reading (.resolveStdlib (StdlibModule.cleanPath path))
            (answers (StdlibModule.cleanPath path)) :=
        congrArg _ (fixed _ choice)
      exact ⟨now, by rw [withoutIndex, if_neg named, ← reply, hmod]; rfl⟩

/-- A worker that finds every module, and nothing in it. -/
def finder : Worker Unit :=
  fun _ _ _ => .ok (.obj [("found", .bool true)])

/-- A module has been asked for and found. -/
def loaded : Moment State Trouble Value Job Hook :=
  let asked := (opening {} 1000 1000 desk .absent).happen (occur finder) (.called (.module "Stdio"))
  let waiting : Moment State Trouble Value Job Hook := { machine := asked.machine.settle rules 20 }
  { machine := (waiting.happen (occur finder) (.answered 2 ())).machine.settle rules 20 }

/-- It is asked for once more. -/
def reloaded : Moment State Trouble Value Job Hook :=
  loaded.happen (occur finder) (.called (.module " Stdio."))

/-- And found again. -/
def found : Moment State Trouble Value Job Hook :=
  { machine := reloaded.machine.settle rules 20 }

/-- Whether a task asks for a module. -/
def Asks (task : Nat) (path : String) (m : Moment State Trouble Value Job Hook) : Bool :=
  match m.state.loop.jobOf task with
  | some (.call (.module p)) => p == path
  | _ => false

/-- Whether a task has ended with a value. -/
def Yielded (task : Nat) (m : Moment State Trouble Value Job Hook) : Bool :=
  match m.state.loop.ending? (.ended task) with
  | some (.value _) => true
  | _ => false

/-- The second task is told the same as the first, from the index. -/
theorem found_again_as_without_index :
    found.state.stdlib.hits = 1 ∧ ∃ now, found.state.loop.ending? (.ended 3) = some (.value
      (.module (withoutIndex (fun _ => .ok (.obj [("found", .bool true)])) " Stdio." now))) := by
  have called :
      Leads rules (occur finder) (opening {} 1000 1000 desk .absent) [.called (.module "Stdio")]
      _ := Leads.refl.happens _
  have answered : Leads rules (occur finder) (opening {} 1000 1000 desk .absent) _ loaded :=
    Leads.settle ((called.settle 20).happens (.answered 2 ())) 20
  have again : Leads rules (occur finder) (opening {} 1000 1000 desk .absent) _ reloaded :=
    answered.happens (.called (.module " Stdio."))
  have course : Leads rules (occur finder) reloaded [] found := Leads.settle .refl 20
  obtain ⟨hhits, hasks, hyielded⟩ : found.state.stdlib.hits = 1 ∧ Asks 3 " Stdio." reloaded ∧
      Yielded 3 found := by decide +kernel
  have asked : reloaded.state.loop.jobOf 3 = some (.call (.module " Stdio.")) := by
    unfold Asks at hasks
    split at hasks
    · next hjob => rw [hjob, eq_of_beq hasks]
    · cases hasks
  refine ⟨hhits, ?_⟩
  unfold Yielded at hyielded
  split at hyielded
  · next v hended =>
    rcases getModule_as_without_index (fun _ _ => rfl) again asked course
      hended with ⟨he, -⟩ | ⟨now, he⟩
    · cases he
    · exact ⟨now, hended.trans (congrArg some he)⟩
  · cases hyielded

/-- All along, the bytes of the loaded modules are counted and within the budget, there are no more
modules than there may be, no module has two loads under way, and none is both loaded and known to
be missing.  The limits are those with which the engine was opened. -/
theorem index_keeps_limits (room : 1 ≤ settings.stdlibModules) (budget : 0 ≤ stdlibBudget)
    (course : Leads rules (occur worker)
      (opening settings typedbBudget stdlibBudget host sink) os d) :
    (d.state.stdlib.memory = StdlibIndex.totalBytes d.state.stdlib.modules ∧
      d.state.stdlib.memory ≤ stdlibBudget) ∧
    d.state.stdlib.modules.length ≤ settings.stdlibModules ∧
    (∀ path t u, d.state.loop.jobOf t = some (.load path) →
      d.state.loop.jobOf u = some (.load path) →
      t = u) ∧
    ∀ path, ¬ (Assoc.has path d.state.stdlib.modules ∧ Assoc.has path d.state.stdlib.failures) := by
  have law := lawful (anyData worker settings.stdlibModules stdlibBudget)
  have holds := (law.leads (holds_opening typedbBudget host sink rfl rfl) course
    (allowed_anyData worker settings.stdlibModules stdlibBudget _ os)).holds
  have agrees : Agrees _ _ d.state := holds.sound.inv
  obtain ⟨hmax, hbudget⟩ := agrees.limits
  have kept := agrees.kept room
  refine ⟨⟨kept.memory, ?_⟩, ?_, fun path t u ht hu => ?_, fun path ⟨hmod, hfail⟩ => ?_⟩
  · have := kept.within
    rw [show d.state.stdlib.budget = stdlibBudget from hbudget] at this
    omega
  · rw [show settings.stdlibModules = d.state.stdlib.maxModules from hmax.symm]
    exact kept.few
  · have first : d.state.stdlib.Loads path t := holds.sound.relies t _ nofun ht path rfl
    have second : d.state.stdlib.Loads path u := holds.sound.relies u _ nofun hu path rfl
    exact Option.some.inj (first.loading.symm.trans second.loading)
  · have hnone := kept.apart path (by simpa [Assoc.has, Option.isSome_iff_ne_none] using hmod)
    rw [Assoc.has, hnone] at hfail
    cases hfail

/-- Two modules have been asked for and found, with room for one. -/
def crowded : Moment State Trouble Value Job Hook :=
  let asked := ((opening { stdlibModules := 1 } 1000 1000 desk .absent).happen (occur finder)
    (.called (.module "Stdio"))).happen (occur finder) (.called (.module "Array"))
  let waiting : Moment State Trouble Value Job Hook := { machine := asked.machine.settle rules 20 }
  let answered := (waiting.happen (occur finder) (.answered 4 ())).happen
    (occur finder) (.answered 5 ())
  { machine := answered.machine.settle rules 20 }

/-- One of the two has been evicted. -/
theorem crowded_index_keeps_limits :
    crowded.state.stdlib.evictions = 1 ∧ crowded.state.stdlib.modules.length ≤ 1 ∧
      crowded.state.stdlib.memory = StdlibIndex.totalBytes crowded.state.stdlib.modules := by
  have asked : Leads rules (occur finder) (opening { stdlibModules := 1 } 1000 1000 desk .absent)
      [.called (.module "Stdio")] _ := Leads.refl.happens _
  have answered := (((asked.happens (.called (.module "Array"))).settle 20).happens
    (.answered 4 ())).happens (.answered 5 ())
  have course : Leads rules (occur finder) (opening { stdlibModules := 1 } 1000 1000 desk .absent) _
      crowded := answered.settle 20
  obtain ⟨⟨memory, -⟩, few, -⟩ := index_keeps_limits (by decide) (by decide) course
  exact ⟨by decide +kernel, few, memory⟩

end PikeAnalysis.Engine.Library
