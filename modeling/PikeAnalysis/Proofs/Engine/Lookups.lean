import PikeAnalysis.Proofs.Engine.Consulting

/-!
# Lookups fail over data only

Names are looked up and listed while requests come back in any order, time passes, the worker is
replaced, documents come and go and the index is cleared.  Whatever the worker answers, and if it
does not, a lookup ends with what could be found, which may be nothing.  What makes it fail is a
declared type whose alternatives are no list, the address of a document that cannot be taken apart,
or an included file with a name that no file can have.  Where there is none of these it does not
fail (`lookups_fail_over_data`).

That a lookup ends is not claimed: a worker that never answers keeps it waiting, up to the limit of
time.  What is claimed is about how it ends when it does, and there are three ways.  It has found
something, which may be nothing; it was cancelled, and then somebody cancelled it; or it failed over
data, and then there is such data among what was stored or among what the worker may answer.

Both directions matter.  A failure of the bridge is never passed on, so a lookup does not depend on
the worker being there; and one that meets unsound data does fail, which is shown by a course.
-/

namespace PikeAnalysis.Engine.Library

open PikeAnalysis.Concurrency

attribute [local irreducible] StdlibModule.cleanPath IncludeCache.targetPath

variable {ω : Type} {worker : Worker ω} {settings : Config.Settings}
  {typedbBudget stdlibBudget : Int} {host : Host} {sink : Sink} {before after : List (Event ω)}
  {c d : Moment State Trouble Value Job Hook}

/-- Types, addresses and paths that can all be taken apart, be they the worker's or stored.  It
speaks of what the worker may answer and of what was stored in the course, and of nothing else. -/
structure SoundData (worker : Worker ω) (os : List (Event ω)) : Prop where
  worker : worker.Sound
  stored : ∀ stores, .stored stores ∈ os → stores.Typed

/-- The data is taken for what it is.  Whether it is sound is a matter of the course: the worker's
answers and the documents that were stored in it. -/
def givenData (worker : Worker ω) (os : List (Event ω)) (maxModules : Nat) (budget : Int) :
    Setting ω :=
  { worker, maxModules, budget, sound := SoundData worker os, worker_sound := SoundData.worker,
    cancels := fun _ => True, helpers := True }

/-- A lookup ends with a result of its kind, or as cancelled if it was, or fails over data that is
not sound.  The cancellation is a parameter, so that it can be tied to an event of the course. -/
def EndsLookup (sound cancelled : Prop) (Result : Value → Prop) (e : Ending Trouble Value) : Prop :=
  (e = .cancelled ∧ cancelled) ∨ (∃ v, e = .value v ∧ Result v) ∨
    ¬ sound ∧ ∃ why, e = .error why ∧ why.OverData

/-- However the worker answers and whatever happens meanwhile, a task that looks up a name, or lists
what can be named, ends with what it has found, unless some of the data cannot be taken apart.  It
ends as cancelled only if it has been cancelled itself, or the task of a load or a request has. -/
theorem lookups_fail_over_data {task : Nat} {e : Ending Trouble Value}
    (begun : Leads rules (occur worker) (opening settings typedbBudget stdlibBudget host sink)
      before c)
    (course : Leads rules (occur worker) c after d)
    (ended : d.state.loop.ending? (.ended task) = some e) :
    let cancelled := Cancelled worker (opening settings typedbBudget stdlibBudget host sink)
      (before ++ after) task
    (∀ name uri, c.state.loop.jobOf task = some (.call (.resolve name uri)) →
      EndsLookup (SoundData worker (before ++ after)) cancelled (fun v => ∃ l, v = .lookup l) e) ∧
    ∀ uri, c.state.loop.jobOf task = some (.call (.visible uri)) →
      EndsLookup (SoundData worker (before ++ after)) cancelled
        (fun v => ∃ r, v = .resolution r) e := by
  let S := (givenData worker (before ++ after) settings.stdlibModules stdlibBudget).along
    (opening settings typedbBudget stdlibBudget host sink) (before ++ after)
  have comes {job : Job} (asked : c.state.loop.jobOf task = some job) : S.Comes task job e :=
    comes_of_leads (S := S) rfl rfl (allowed_along fun stores h sound => sound.stored stores h)
      begun asked course
      ended
  refine ⟨fun name uri asked => ?_, fun uri asked => ?_⟩ <;>
  · have hcomes := comes asked
    cases e with
    | cancelled => exact .inl ⟨rfl, hcomes.elim (fun may => .inl may) .inr⟩
    | value v => exact .inr (.inl ⟨v, rfl, hcomes⟩)
    | error why => exact .inr (.inr ⟨hcomes.1, why, rfl, hcomes.2⟩)

/-- A worker that answers nothing. -/
def silent : Worker Unit :=
  fun _ _ _ => .error (.exited none none)

theorem sound_silent : silent.Sound :=
  ⟨fun _ _ _ => nofun, fun _ _ _ _ => nofun, fun _ _ _ _ => nofun⟩

/-- A document with an include directive and a class in it. -/
def sketch (uri : String) : Stores :=
  let header : Symbol := { name := "#include", kind := .import, classname := "\"shapes.h\"" }
  let shape : Symbol :=
    { name := "Shape", kind := .klass, children := [{ name := "y", kind := .variable }] }
  { documents := { entries := [(uri, { uri, version := 1, table := .ofRoots [header, shape] })] } }

theorem typed_sketch {uri path : String} (address : Uri.toPath uri = .ok path) :
    (sketch uri).Typed := by
  refine ⟨fun e he => ?_, fun _ _ => nofun⟩
  obtain rfl := List.mem_singleton.1 he
  refine ⟨rfl, SymbolTable.typed_ofRoots fun s hs => ?_, path, address⟩
  have plain (name : String) : Symbol.Typed { name, kind := .variable } := .of_type_eq_none rfl rfl
  rcases List.mem_cons.1 hs with rfl | hs
  · exact .of_type_eq_none rfl rfl
  · obtain rfl := List.mem_singleton.1 hs
    refine ⟨⟨none, rfl⟩, fun c hc => ?_⟩
    rw [List.mem_singleton.1 hc]
    exact plain "y"

/-- The document has come, and something is asked about it. -/
def sketched (uri : String) (call : Call) : Moment State Trouble Value Job Hook :=
  ((opening {} 1000 1000 desk .absent).happen (occur silent) (.stored (sketch uri))).happen
    (occur silent)
    (.called call)

/-- The worker has been asked, and has not answered. -/
def unanswered (m : Moment State Trouble Value Job Hook) : Moment State Trouble Value Job Hook :=
  let waiting : Moment State Trouble Value Job Hook := { machine := m.machine.settle rules 20 }
  { machine := (waiting.happen (occur silent) (.answered 2 ())).machine.settle rules 20 }

/-- A member of a class is looked up. -/
def looking : Moment State Trouble Value Job Hook :=
  sketched "file:///a.pike" (.resolve "Shape->y" "file:///a.pike")

/-- Whether a task has ended, and not been cancelled.  It has a value or an error then. -/
def Concluded (task : Nat) (m : Moment State Trouble Value Job Hook) : Bool :=
  match m.state.loop.ending? (.ended task) with
  | none | some .cancelled => false
  | _ => true

/-- The lookup ends with a result although the worker does not answer. -/
theorem lookup_without_worker :
    ∃ l, (unanswered looking).state.loop.ending? (.ended 0) = some (.value (.lookup l)) := by
  have stored : Leads rules (occur silent) (opening {} 1000 1000 desk .absent)
      [.stored (sketch "file:///a.pike")] _ := Leads.refl.happens _
  have begun : Leads rules (occur silent) (opening {} 1000 1000 desk .absent)
      [.stored (sketch "file:///a.pike"), .called (.resolve "Shape->y" "file:///a.pike")] looking :=
    stored.happens _
  have waits : Leads rules (occur silent) looking [] _ := Leads.settle .refl 20
  have course : Leads rules (occur silent) looking [.answered 2 ()] (unanswered looking) :=
    (waits.happens _).settle 20
  have address : Uri.toPath "file:///a.pike" = .ok "/a.pike" := by decide +kernel
  have sound : SoundData silent [.stored (sketch "file:///a.pike"),
      .called (.resolve "Shape->y" "file:///a.pike"), .answered 2 ()] := by
    refine ⟨sound_silent, fun stores h => ?_⟩
    rcases List.mem_cons.1 h with h | h
    · rw [Event.stored.inj h]
      exact typed_sketch address
    · simp at h
  have concluded : Concluded 0 (unanswered looking) := by decide +kernel
  cases ended : (unanswered looking).state.loop.ending? (.ended 0) with
  | none =>
    rw [Concluded, ended] at concluded
    cases concluded
  | some e =>
    have asked : looking.state.loop.jobOf 0 = some (.call (.resolve "Shape->y" "file:///a.pike")) :=
      rfl
    rcases (lookups_fail_over_data begun course ended).1 _ _
      asked with ⟨rfl, -⟩ | ⟨_, rfl, found⟩ | ⟨unsound, -⟩
    · rw [Concluded, ended] at concluded
      cases concluded
    · obtain ⟨l, rfl⟩ := found
      exact ⟨l, rfl⟩
    · exact absurd sound unsound

/-- What can be named is not listed in a document that includes a file if it cannot be told from
where. -/
example :
    let failed := unanswered (sketched "file://[/a.pike" (.visible "file://[/a.pike"))
    (match failed.state.loop.ending? (.ended 0) with
      | some (.error (.fault (.badAddress reason))) => reason
      | _ => "") = "Invalid IPv6 URL" := by
  decide +kernel

end PikeAnalysis.Engine.Library
