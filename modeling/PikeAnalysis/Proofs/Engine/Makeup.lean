import PikeAnalysis.Engine.Run
import PikeAnalysis.Proofs.Concurrency.Course
import PikeAnalysis.Proofs.Resolve.Pervasion

/-!
# What all that the engine does is made of

Most routines of the engine are put together of a few: they ask the worker, look into the state, and
note what they have found.  What holds of these, and passes on from parts to the whole, holds of
whatever only asks (`Asks.ask`), of all queries about names (`Consults.queries`), and of all tasks
but those of the requests themselves (`Pervades.jobBody`), or of as many of these as are of
documents of which certain things are told (`Conducts.jobBody`).

There are three layers, each with more in it.  `Asks` has what every routine that asks the worker is
made of, `Consults` adds the index and the cache of included files, and `Conducts` adds what is told
to the scheduler and kept of documents.  Each layer is a list of closure properties; a property of
routines that has them holds of all that can be put together in that layer.  To show something of
all tasks of the engine is then to show it of a dozen small steps.

The properties are about routines in any context.  What depends on the task, such as whether it may
be cancelled, has to be put into the property.
-/

namespace PikeAnalysis.Engine

open PikeAnalysis.Concurrency

attribute [local irreducible] StdlibModule.cleanPath IncludeCache.targetPath

variable {α β : Type} {s s' : State}

/-! ## Asking -/

/-- A property of routines that passes on to whatever only asks the worker.  The routines that ask
the worker are put together from a few pieces.  A property that has each of them holds of every
request, so what is proved by cases is proved once for all methods. -/
structure Asks (holds : ∀ {α : Type}, Act α → Prop) : Prop where
  done {α : Type} (a : α) : holds (.done a : Act α)
  fail {α : Type} (e : Trouble) : holds (.fail e : Act α)
  cancelled {α : Type} : holds (.cancelled : Act α)
  read {α : Type} (f : State → α) : holds (Routine.read f : Act α)
  onEnd {α β : Type} {r : Act α} {f : Ending Trouble α → Act β} :
    holds r → (∀ ending, holds (f ending)) → holds (r.onEnd f)
  within {α : Type} (d : Duration) (late : Trouble) {r : Act α} : holds r → holds (r.within d late)
  awaitTask (task : Nat) : holds (Routine.awaitTask task : Act Value)
  join (method : String) (params : List (String × Json)) :
    holds (Routine.act (joinRequest method params) : Act Nat)

namespace Asks

variable {holds : ∀ {α : Type}, Act α → Prop} (all : Asks holds)
include all

theorem bind {r : Act α} {f : α → Act β} (h : holds r) (next : ∀ a, holds (f a)) :
    holds (r >>= f) := by
  rw [show r >>= f = r.onEnd _ from Routine.andThen_eq_onEnd r f]
  refine all.onEnd h fun ending => ?_
  cases ending with
  | value a => exact next a
  | error e => exact all.fail e
  | cancelled => exact all.cancelled

theorem ofEnding (ending : Ending Trouble α) : holds (Routine.ofEnding ending : Act α) := by
  cases ending with
  | value a => exact all.done a
  | error e => exact all.fail e
  | cancelled => exact all.cancelled

theorem catching {r : Act α} {handle : Trouble → Option (Act α)} (h : holds r)
    (handled : ∀ e r', handle e = some r' → holds r') : holds (r.catching handle) := by
  refine all.onEnd h fun ending => ?_
  cases ending with
  | value a => exact all.done a
  | cancelled => exact all.cancelled
  | error e =>
    dsimp only
    cases hhandle : handle e with
    | none => exact all.fail e
    | some r' => exact handled e r' hhandle

theorem foldlM {f : β → α → Act β} (h : ∀ b a, holds (f b a)) (xs : List α) (b : β) :
    holds (xs.foldlM f b) := by
  induction xs generalizing b with
  | nil => exact all.done b
  | cons a rest ih =>
    rw [List.foldlM_cons]
    exact all.bind (h b a) fun b' => ih b'

theorem mapM {f : α → Act β} (xs : List α) (h : ∀ a ∈ xs, holds (f a)) : holds (xs.mapM f) := by
  have loop (bs : List β) : holds (List.mapM.loop f xs bs) := by
    induction xs generalizing bs with
    | nil => exact all.done _
    | cons a rest ih =>
      obtain ⟨first, others⟩ := List.forall_mem_cons.mp h
      exact all.bind first fun b => ih others (b :: bs)
  exact loop []

theorem request (method : String) (params : List (String × Json)) :
    holds (request method params) := by
  unfold Engine.request
  refine all.bind (all.join method params) fun task =>
    all.bind (all.awaitTask task) fun answer => ?_
  split <;> exact all.done _

theorem ask (q : Bridge.Query) : holds (ask q) := by
  unfold Engine.ask
  refine all.bind (all.request _ _) fun answer => ?_
  split
  · exact all.done _
  · exact all.fail _

theorem orFailure {r : Act α} (h : holds r) : holds (orFailure r) := by
  refine all.onEnd h fun ending => ?_
  split
  · exact all.done _
  · exact all.done _
  · exact all.fail _
  · exact all.cancelled

theorem orTrouble (r : Except Fault α) : holds (orTrouble r) := by
  cases r with
  | ok a => exact all.done a
  | error f => exact all.fail _

theorem analyze (target : Validation.Target) : holds (analyze target) := by
  unfold Engine.analyze
  refine all.bind (all.read _) fun limit => all.onEnd ?_ fun ending => ?_
  · exact all.within _ _ (all.bind (all.orTrouble _) fun path => all.ask _)
  · split
    · exact all.done _
    · exact all.done _
    · exact all.done _
    · exact all.fail _
    · exact all.cancelled

theorem buildPositions (text : String) (names : List String) (tokens : Option (List Wire.Token))
    (withBridge : Bool) : holds (buildPositions text names tokens withBridge) := by
  unfold Engine.buildPositions
  split
  · exact all.done _
  · split
    · exact all.fail _
    · exact all.done _
    · refine all.bind (all.read _) fun running => ?_
      split
      · refine all.bind (all.orFailure (all.ask _)) fun answer => ?_
        split <;> exact all.done _
      · exact all.done _

theorem parseFile (path : String) : holds (parseFile path) := by
  unfold Engine.parseFile
  split
  · exact all.fail _
  · refine all.bind (all.read _) fun text => ?_
    cases text with
    | none => exact all.done none
    | some text =>
      refine all.bind (all.orFailure (all.ask _)) fun answer => ?_
      cases answer <;> exact all.done _

/-- A module is looked up by its clean path, if that is not empty. -/
theorem getModule {path : String} (find : ¬ (StdlibModule.cleanPath path).isEmpty →
    holds (Routine.act (findModule (StdlibModule.cleanPath path)) :
      Act (Except Nat (Option StdlibModule)))) : holds (getModule path) := by
  unfold Engine.getModule
  dsimp only
  split
  · exact all.done none
  · next named =>
    refine all.bind (find named) fun found => ?_
    cases found with
    | ok found => exact all.done found
    | error task =>
      refine all.bind (all.awaitTask task) fun answer => ?_
      split <;> exact all.done _

theorem classify (text : String) (line character : Int) : holds (classify text line character) := by
  refine all.bind (all.read _) fun available => ?_
  dsimp only
  split
  · exact all.done _
  · refine all.bind (all.orFailure (all.ask _)) fun answer => ?_
    cases answer <;> exact all.done _

end Asks

/-! ## Consulting -/

/-- A property of routines that passes on to whatever asks the worker and keeps what it learns of
modules and files. -/
structure Consults (holds : ∀ {α : Type}, Act α → Prop) : Prop extends Asks holds where
  /-- A module is looked up by a clean path, and begins to be loaded if need be. -/
  find {path : String} : ¬ (StdlibModule.cleanPath path).isEmpty →
    holds (Routine.act (findModule (StdlibModule.cleanPath path)) :
      Act (Except Nat (Option StdlibModule)))
  keep (file : IncludedFile) :
    holds (Routine.modify fun s : State => { s with includes := s.includes.store file })

namespace Consults

variable {holds : ∀ {α : Type}, Act α → Prop} (all : Consults holds)
include all

theorem getModule (path : String) : holds (getModule path) :=
  all.toAsks.getModule all.find

theorem preload : holds preload := by
  unfold Engine.preload
  apply all.foldlM
  intro n path
  exact all.bind (all.getModule path) fun _ => all.done _

theorem resolveInclude (directive : Symbol) (uri : String) :
    holds (resolveInclude directive uri) := by
  unfold Engine.resolveInclude
  dsimp only
  split
  · exact all.done none
  refine all.bind (all.orTrouble _) fun file =>
    all.bind (all.orFailure (all.ask _)) fun answer => ?_
  cases answer with
  | error why => exact all.done none
  | ok v =>
    dsimp only
    split
    · exact all.done none
    refine all.bind (all.read _) fun now => all.bind (all.read _) fun cached => ?_
    cases cached with
    | some cached => exact all.done _
    | none =>
      refine all.bind (all.parseFile _) fun table => ?_
      cases table with
      | none => exact all.done none
      | some table =>
        exact all.bind (all.keep _) fun _ => all.done _

/-- Whatever is asked in a query has the property. -/
theorem queries (depth : Nat) :
    Resolve.Pervades (resolverSources depth) fun x => ∀ f, holds (x f) where
  pure a f := all.done (a, f)
  bind hx hf f := all.bind (hx f) fun r => hf r.1 r.2
  get f := all.done (f, f)
  modify g f := all.done ((), g f)
  documents f := all.bind (all.read _) fun a => all.done (a, f)
  module path f := all.bind (all.getModule path) fun a => all.done (a, f)
  included d uri f := all.bind (all.resolveInclude d uri) fun a => all.done (a, f)
  fault _ f := all.bind (all.fail _) fun a => all.done (a, f)

theorem resolving {uri : String} {f : Resolve.Sources Act → Resolve.Context → Act α}
    (h : ∀ depth c, holds (f (resolverSources depth) c)) : holds (resolving uri f) :=
  all.bind (all.read _) fun (c, depth) => h depth c

theorem lookup (name uri : String) :
    holds (Engine.resolving uri fun src c => Resolve.lookup src c name) :=
  all.resolving fun depth c => all.bind ((all.queries depth).either c name {}) fun _ => all.done _

theorem visible (uri : String) : holds (visible uri) :=
  all.resolving fun depth c => all.bind ((all.queries depth).visibleFrom c _ _ {}) fun _ =>
    all.done _

end Consults

/-! ## Everything else -/

/-- A change that concerns neither tasks nor documents nor the worker.  What is left to change are,
among others, the index of the standard library, the included files, the log and what leaves the
engine. -/
structure Elsewhere (s s' : State) : Prop where
  loop : s'.loop = s.loop
  bridge : s'.bridge = s.bridge
  pipes : s'.pipes = s.pipes
  scheduler : s'.scheduler = s.scheduler
  stores : s'.stores = s.stores
  delays : s'.delays = s.delays

/-- Jobs of requests.  They are the tasks with a thread of the bridge of their own, and the theorems
here are about all other tasks. -/
def Job.IsRequest : Job → Prop
  | .request .. => True
  | _ => False

/-- Whether what a call says of documents is within a relation.  Calls that say nothing of documents
are. -/
def Call.Within (told : String → Int → String → Prop) : Call → Prop
  | .validate uri version text | .runPipeline uri version text => told uri version text
  | .check targets => ∀ target ∈ targets, told target.1 1 target.2
  | _ => True

/-- Whether what a job says of documents is within a relation. -/
def Job.Within (told : String → Int → String → Prop) : Job → Prop
  | .call c => c.Within told
  | _ => True

/-- Jobs of those who wait until documents are idle.  They start over after each wait. -/
def Job.AwaitsIdle : Job → Prop
  | .awaitValidation .. | .awaitIdle _ => True
  | _ => False

/-- A property of routines that passes on to whatever the engine does, requests aside, as long as
what it is told of documents is within a relation.  The relation is given by whoever uses it: what
was said to the engine, or anything. -/
structure Conducts (told : String → Int → String → Prop) (holds : ∀ {α : Type}, Act α → Prop) : Prop
    extends Asks holds where
  elsewhere {α : Type} {f : State → State × α} : (∀ s, Elsewhere s (f s).1) →
    holds (Routine.act f : Act α)
  /-- A module is looked up, and begins to be loaded if need be. -/
  find (path : String) :
    holds (Routine.act (findModule path) : Act (Except Nat (Option StdlibModule)))
  /-- A call is begun in a task of its own. -/
  begin {uri : String} {version : Int} {text : String} : told uri version text →
    holds (Routine.act fun s : State =>
      ({ s with loop := (s.loop.create (.call (.validate uri version text))).1 },
        (s.loop.create (.call (.validate uri version text))).2))
  validate {uri : String} {version : Int} {text : String} : told uri version text →
    holds (validateVersion uri version text)
  /-- The scheduler is told that a document is to be validated. -/
  save {uri : String} {version : Int} {text : String} : told uri version text →
    holds (Routine.modify fun s : State => Scheduler.tell s (.save uri (some version) (some text)))
  run (id : Nat) : holds (Scheduler.runBody validateRun id : Act Unit)
  timer (id : Nat) : holds (Scheduler.timerBody id : Act Unit)
  /-- Something is done if a document is idle, and else the wait for that goes on. -/
  idle (uri : String) {job : Job} {idle : Act Value} : job.AwaitsIdle → holds idle →
    holds ((Scheduler.busyTicket uri : Act (Option Nat)).andThen fun
      | none => idle
      | some n => .renew (.ticket n) job)
  stopping : holds (Scheduler.stopBody : Act Unit)
  thread {job : Bridge.Job} : (∀ method params, job ≠ .request method params) →
    holds (bridgeThread job)
  output (w : Nat) : holds (readOutput w)
  errors (w : Nat) : holds (readErrors w)

namespace Conducts

variable {told : String → Int → String → Prop} {holds : ∀ {α : Type}, Act α → Prop}
  (all : Conducts told holds)
include all

theorem noted {f : State → State} (same : ∀ s, Elsewhere s (f s)) :
    holds (Routine.modify f : Act Unit) :=
  all.elsewhere (f := fun s => (f s, ())) same

theorem consults : Consults holds :=
  { all.toAsks with
    find := fun _ => all.find _
    keep := fun _ => all.noted fun _ => ⟨rfl, rfl, rfl, rfl, rfl, rfl⟩ }

theorem tell (entry : LogEntry) : holds (tell entry) :=
  all.noted fun _ => ⟨rfl, rfl, rfl, rfl, rfl, rfl⟩

/-! ## Waiting -/

theorem awaitValidation (uri : String) (version : Int) : holds (awaitValidation uri version) :=
  all.idle uri trivial (all.bind (all.read _) fun _ => all.done _)

theorem awaitIdle (uris : List String) : holds (awaitIdle uris) := by
  induction uris with
  | nil => exact all.done _
  | cons uri rest ih => exact all.idle uri trivial ih

/-! ## Loads -/

theorem loadBody (path : String) : holds (loadBody path) := by
  have remember : holds (loadBody.remember path) :=
    all.noted fun _ => ⟨rfl, rfl, rfl, rfl, rfl, rfl⟩
  refine all.bind (all.orFailure (all.ask _)) fun answer => ?_
  cases answer with
  | error why =>
    dsimp only
    split
    · exact all.done _
    · exact all.bind remember fun _ => all.done _
  | ok v =>
    dsimp only
    split
    · refine all.bind (all.read _) fun now => all.bind (all.noted fun s => ?_) fun _ => all.done _
      split <;> exact ⟨rfl, rfl, rfl, rfl, rfl, rfl⟩
    · exact all.bind remember fun _ => all.done _

/-! ## Names -/

/-- What is said instead of an answer that takes too long. -/
theorem inTime {r : Act α} (h : holds r) (entry : LogEntry) (instead : α) :
    holds (r.catching fun
      | .timedOut => some do
        Engine.tell entry
        return instead
      | _ => none) := by
  refine all.catching h fun e r' hr' => ?_
  split at hr'
  · cases hr'
    exact all.bind (all.tell entry) fun _ => all.done _
  · cases hr'

theorem resolve (name uri : String) : holds (resolve name uri) := by
  refine all.bind (all.read _) fun limit => all.inTime ?_ _ _
  exact all.within _ _ (all.consults.lookup name uri)

theorem askSource (source : Resolve.Source) (name uri : String) :
    holds (askSource source name uri) := by
  refine all.bind (all.read _) fun (c, depth) => ?_
  refine all.bind ((all.consults.queries depth).find c name source {}) fun (found, findings) => ?_
  exact all.bind ((all.consults.queries depth).offer c source findings) fun _ => all.done _

theorem completionContext (text : String) (line character : Int) :
    holds (completionContext text line character) :=
  all.bind (all.read _) fun _ => all.inTime (all.within _ _ (all.classify text line character)) _ _

theorem moduleInTime (path : String) : holds (moduleInTime path) :=
  all.bind (all.read _) fun _ => all.inTime (all.within _ _ (all.consults.getModule path)) _ _

/-! ## Calls -/

theorem start : holds start := by
  refine all.bind (all.orFailure (all.thread nofun)) fun started => ?_
  split
  · exact all.tell _
  · exact all.fail _
  refine all.bind (all.read _) fun settings => ?_
  -- Whatever comes of the setting, the modules are loaded after it.
  have after : holds (if settings.preload then (do
      let _ ← Engine.preload
      pure ()) else pure () : Act Unit) := by
    split
    · exact all.bind all.consults.preload fun _ => all.done _
    · exact all.done _
  dsimp only
  split
  · refine all.bind (all.orFailure (all.ask _)) fun answer => ?_
    cases answer with
    | error why => exact all.bind (all.tell _) fun _ => after
    | ok v => exact after
  · exact after

theorem stop : holds stop :=
  all.bind all.stopping fun _ => all.bind (all.thread nofun) fun _ => all.done _

theorem during {body : Act α} (h : holds body) : holds (during body) :=
  all.bind all.start fun _ => all.onEnd h fun ending => all.bind all.stop fun _ =>
    all.ofEnding ending

theorem callAside {uri : String} {version : Int} {text : String} (within : told uri version text) :
    holds (callAside (.validate uri version text)) :=
  all.bind (all.begin within) fun task => all.awaitTask task

theorem checkAll {targets : List (String × String)}
    (within : ∀ target ∈ targets, told target.1 1 target.2) :
    holds (checkAll targets) := by
  refine all.bind (all.read _) fun obstacle => ?_
  cases obstacle with
  | some why => exact all.done _
  | none =>
    refine all.bind (all.mapM targets fun target ht => ?_) fun _ => all.done _
    refine all.bind (all.callAside (within target ht)) fun answer => ?_
    split <;> exact all.done _

theorem callBody {c : Call} (within : c.Within told) : holds (callBody c) := by
  cases c with
  | start => exact all.bind all.start fun _ => all.done _
  | stop => exact all.bind all.stop fun _ => all.done _
  | validate uri version text =>
    exact all.bind (all.save within) fun _ => all.awaitValidation uri version
  | runPipeline uri version text => exact all.bind (all.validate within) fun _ => all.done _
  | resolve name uri => exact all.bind (all.resolve name uri) fun _ => all.done _
  | visible uri => exact all.bind (all.consults.visible uri) fun _ => all.done _
  | source source name uri => exact all.askSource source name uri
  | context text line character =>
    exact all.bind (all.completionContext text line character) fun _ => all.done _
  | module path => exact all.bind (all.moduleInTime path) fun _ => all.done _
  | preload => exact all.bind all.consults.preload fun _ => all.done _
  | waitIdle uri => exact all.awaitIdle [uri]
  | waitAllIdle => exact all.bind (all.read _) fun uris => all.awaitIdle uris
  | stopScheduler => exact all.bind all.stopping fun _ => all.done _
  | startBridge | stopBridge => exact all.bind (all.thread nofun) fun _ => all.done _
  | probeVersion => exact all.bind (all.read _) fun _ => all.done _
  | request method params => exact all.bind (all.request method params) fun _ => all.done _
  | query q => exact all.bind (all.ask q) fun _ => all.done _
  | positions text names tokens withBridge =>
    exact all.bind (all.buildPositions text names tokens withBridge) fun _ => all.done _
  | check targets => exact all.during (all.checkAll within)
  | report =>
    exact all.during (all.bind (all.read _) fun _ => all.bind (all.read _) fun _ => all.done _)
  | describe path =>
    exact all.during
      (all.bind (all.moduleInTime path) fun _ => all.bind (all.read _) fun _ => all.done _)

/-- Every task but those of the requests has the property. -/
theorem jobBody {job : Job} (other : ¬ job.IsRequest) (within : job.Within told) :
    holds (jobBody job) := by
  cases job with
  | call c => exact all.callBody within
  | awaitValidation uri version => exact all.awaitValidation uri version
  | awaitIdle uris => exact all.awaitIdle uris
  | request key method params => exact absurd trivial other
  | load path => exact all.loadBody path
  | readOutput w => exact all.output w
  | readErrors w => exact all.errors w
  | timer id => exact all.bind (all.timer id) fun _ => all.done _
  | run id => exact all.bind (all.run id) fun _ => all.done _

end Conducts

/-! ## Validations -/

/-- A property of routines that passes on to whatever the engine does, requests aside, whatever it
is told of documents.  It is `Conducts` for the relation that always holds. -/
structure Pervades (holds : ∀ {α : Type}, Act α → Prop) : Prop extends Asks holds where
  elsewhere {α : Type} {f : State → State × α} : (∀ s, Elsewhere s (f s).1) →
    holds (Routine.act f : Act α)
  /-- A module is looked up, and begins to be loaded if need be. -/
  find (path : String) :
    holds (Routine.act (findModule path) : Act (Except Nat (Option StdlibModule)))
  /-- A call is begun in a task of its own. -/
  begin (uri : String) (version : Int) (text : String) : holds (Routine.act fun s : State =>
    ({ s with loop := (s.loop.create (.call (.validate uri version text))).1 },
      (s.loop.create (.call (.validate uri version text))).2))
  missed (miss : Validation.Miss) : holds (Routine.modify fun s : State =>
    { s with stores := (Validation.missed s.stores miss).1 }.note
      (Validation.missed s.stores miss).2)
  draft (target : Validation.Target) (analysis : Wire.Analysis) :
    holds (Routine.act fun s : State =>
      ({ s with stores := (Validation.draft s.stores s.settings.maxProblems target analysis).1 },
        (Validation.draft s.stores s.settings.maxProblems target analysis).2))
  commit (d : Validation.Draft) (positions : PositionIndex) : holds
    (Routine.act (commit d positions))
  /-- The outside is given time. -/
  delayed {α : Type} {f : Ending Trouble Value → Act α} : (∀ ending, holds (f ending)) →
    holds ((Routine.act delay).andThen fun n => .wait (.outside n) f)
  complete :
    holds (Routine.modify fun s : State => { s with stores := Validation.complete s.stores })
  /-- The scheduler is told that a document is to be validated. -/
  save (uri : String) (version : Int) (text : String) :
    holds (Routine.modify fun s : State => Scheduler.tell s (.save uri (some version) (some text)))
  /-- The scheduler is told that a validation has ended. -/
  ended (run : Nat) :
    holds (Routine.modify fun s : State => Scheduler.forgetTimers (Scheduler.tell s (.ended run)))
  timer (id : Nat) : holds (Scheduler.timerBody id : Act Unit)
  /-- Something is done if a document is idle, and else the wait for that goes on. -/
  idle (uri : String) {job : Job} {idle : Act Value} : job.AwaitsIdle → holds idle →
    holds ((Scheduler.busyTicket uri : Act (Option Nat)).andThen fun
      | none => idle
      | some n => .renew (.ticket n) job)
  stopping : holds (Scheduler.stopBody : Act Unit)
  thread {job : Bridge.Job} : (∀ method params, job ≠ .request method params) →
    holds (bridgeThread job)
  output (w : Nat) : holds (readOutput w)
  errors (w : Nat) : holds (readErrors w)

namespace Pervades

variable {holds : ∀ {α : Type}, Act α → Prop} (all : Pervades holds)
include all

theorem noted (entry : LogEntry) : holds (Engine.tell entry) :=
  all.elsewhere (f := fun s => (s.note [entry], ())) fun _ => ⟨rfl, rfl, rfl, rfl, rfl, rfl⟩

theorem awaitSink (sink : Sink) : holds (awaitSink sink) := by
  cases sink with
  | absent | accepts => exact all.done ()
  | fails => exact all.noted _
  | slow =>
    refine all.delayed fun ending => ?_
    split
    · exact all.cancelled
    · exact all.noted _
    · exact all.noted _
    · exact all.done ()

theorem publish (uri : String) (diagnostics : List Diagnostic) :
    holds (publish uri diagnostics) := by
  refine all.bind (all.elsewhere fun s => ?_) fun sink => all.awaitSink sink
  unfold hand
  dsimp only
  split <;> exact ⟨rfl, rfl, rfl, rfl, rfl, rfl⟩

theorem validateVersion (uri : String) (version : Int) (text : String) :
    holds (validateVersion uri version text) := by
  refine all.bind (all.read _) fun target => all.bind (all.analyze target) fun analysis => ?_
  cases analysis with
  | error miss => exact all.bind (all.missed miss) fun _ => all.done none
  | ok analysis =>
    refine all.bind (all.draft target analysis) fun draft => ?_
    refine all.bind (all.buildPositions _ _ _ _) fun positions =>
      all.bind (all.commit draft positions) fun stored => ?_
    cases stored with
    | none => exact all.done none
    | some diagnostics =>
      exact all.bind (all.publish _ _) fun _ => all.bind all.complete fun _ => all.done _

theorem validateRun (r : Scheduler.Run) : holds (validateRun r) := by
  refine all.onEnd (all.validateVersion _ _ _) fun ending => ?_
  cases ending with
  | value _ => exact all.done ()
  | error _ => exact all.noted _
  | cancelled => exact all.cancelled

theorem runBody (run : Nat) : holds (Scheduler.runBody Engine.validateRun run : Act Unit) := by
  refine all.bind (all.read _) fun found => ?_
  cases found with
  | none => exact all.done ()
  | some r =>
    exact all.onEnd (all.validateRun r) fun ending => all.bind (all.ended run) fun _ =>
      all.ofEnding ending

theorem conducts : Conducts (fun _ _ _ => True) holds :=
  { all with
    begin := fun {uri version text} _ => all.begin uri version text
    validate := fun {uri version text} _ => all.validateVersion uri version text
    save := fun {uri version text} _ => all.save uri version text
    run := all.runBody }

/-- Every task but those of the requests has the property. -/
theorem jobBody {job : Job} (other : ¬ job.IsRequest) : holds (jobBody job) := by
  refine all.conducts.jobBody other ?_
  cases job with
  | call c => cases c <;> simp [Job.Within, Call.Within]
  | awaitValidation | awaitIdle | request | load | readOutput | readErrors | timer | run => trivial

end Pervades

end PikeAnalysis.Engine
