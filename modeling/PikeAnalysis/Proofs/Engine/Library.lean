import PikeAnalysis.Engine.Run
import PikeAnalysis.Proofs.Bridge.RequestKeys
import PikeAnalysis.Proofs.Concurrency.Pact
import PikeAnalysis.Proofs.Engine.Closed
import PikeAnalysis.Proofs.Resolve.Typing
import PikeAnalysis.Proofs.Stdlib.Limits

/-!
# What the engine knows from its worker

The engine is asked for modules and for the meaning of names, any number of times at once, while
requests are answered in any order, time passes, the worker is replaced, documents come and go and
the index is cleared.  A request ends as the worker answers it, whatever the worker chooses to say;
the rest is what the engine does by itself.  `Library.Agrees` says what the engine knows then: of a
module what the worker said of it, within the limits of the index, with one load for each module at
a time.  The steps of the engine's routines keep it.

What is stated is relative to a worker, which may answer a question differently every time: `Worker`
takes a choice, and what is known must agree with some choice.  Where a claim needs the worker to be
consistent that is a premise of the claim.  The system here has the same tasks as the engine but for
requests, which end as the worker answers them; how a request gets its answer, and that it gets one,
is the subject of the modules on the bridge.

`Library.pact` ties three things: what the index holds, which loads are under way, and how tasks
may end.  A load that is noted is that of a task with that job, so whoever joins it may count on how
such a task ends.
-/

namespace PikeAnalysis.Engine

open PikeAnalysis.Concurrency

attribute [local irreducible] StdlibModule.cleanPath IncludeCache.targetPath

/-! ## Workers -/

/-- What a worker answers to a method with its parameters, by what it chooses.  The choice may
differ from one question to the next. -/
abbrev Worker (ω : Type) := String → List (String × Json) → ω → Except BridgeFailure Json

/-- What is made of the answer to a question. -/
def reading (q : Bridge.Query) (answer : Except BridgeFailure Json) : Except BridgeFailure Json :=
  match answer with
  | .error why => .error why
  | .ok v =>
    match q.model.read v with
    | .ok v => .ok v
    | .error issue => .error (.malformed q.method issue.message)

/-- The module that an answer describes at a time; none if the worker did not find it or did not
answer. -/
def moduleFrom (path : String) (now : Instant) : Except BridgeFailure Json → Option StdlibModule
  | .error _ => none
  | .ok v =>
    let answer := Wire.StdlibAnswer.ofJson v
    if answer.found then some (StdlibModule.ofAnswer path answer now) else none

namespace Worker

variable {ω : Type}

/-- What is made of the worker's answer to a question.  The worker answers with JSON, and a question
takes it as what its model says, or fails. -/
def replies (worker : Worker ω) (q : Bridge.Query) (choice : ω) : Except BridgeFailure Json :=
  reading q (worker q.method q.params choice)

/-- Whether the worker may say this of a module.  Both come of one answer: what it tells, and the
time at which it came. -/
def Describes (worker : Worker ω) (path : String) (mod : Option StdlibModule) : Prop :=
  ∃ choice now, mod = moduleFrom path now (worker.replies (.resolveStdlib path) choice)

/-- Whether this may be known of what is asked for by a path, which may turn out to be none. -/
def Knows (worker : Worker ω) (path : String) (mod : Option StdlibModule) : Prop :=
  if (StdlibModule.cleanPath path).isEmpty then mod = none
  else worker.Describes (StdlibModule.cleanPath path) mod

/-- A worker whose symbols have types that can be taken apart, and whose files have names that files
can have. -/
structure Sound (worker : Worker ω) : Prop where
  modules : ∀ path choice v, worker.replies (.resolveStdlib path) choice = .ok v →
    let a := Wire.StdlibAnswer.ofJson v
    ∀ s ∈ (a.symbols ++ a.functions ++ a.globals ++ a.classes).filterMap
      Symbol.ofIntrospected?, s.Typed
  files : ∀ text path choice v, worker.replies (.analyze text ["parse"] (some path) none) choice =
    .ok v →
    ∀ p, (Wire.Analysis.ofJson v).parse = some p → ∀ s ∈ p.symbols.filterMap Symbol.ofWire?, s.Typed
  names : ∀ target file choice v, worker.replies (.resolveInclude target file) choice = .ok v →
    '\x00' ∉ (Wire.IncludeAnswer.ofJson v).path.toList

theorem Sound.describes {worker : Worker ω} (sound : worker.Sound) {path : String}
    {mod : StdlibModule}
    (h : worker.Describes path (some mod)) : TypedMembers mod.symbols := by
  obtain ⟨choice, now, hmod⟩ := h
  cases hv : worker.replies (.resolveStdlib path) choice with
  | error why =>
    rw [hv] at hmod
    cases hmod
  | ok v =>
    rw [hv, moduleFrom] at hmod
    split at hmod
    · obtain rfl := Option.some.inj hmod
      exact typedMembers_symbolMap (sound.modules path choice v hv)
    · cases hmod

theorem Sound.knows {worker : Worker ω} (sound : worker.Sound) {path : String} {mod : StdlibModule}
    (h : worker.Knows path (some mod)) : TypedMembers mod.symbols := by
  unfold Knows at h
  split at h
  · cases h
  · exact sound.describes h

end Worker

/-- Whether a failure is over a type or an address that cannot be taken apart, or a path that no
file can have. -/
def Trouble.OverData : Trouble → Prop
  | .fault _ | .badPath => True
  | _ => False

namespace Library

variable {ω : Type}

/-! ## The system -/

/-- What happens from outside.  Replacing the worker and the stores as a whole stands for whatever
the rest of the engine does to them, so the histories here include those of the engine and more. -/
inductive Event (ω : Type) where
  /-- The engine is asked for something, in a task of its own. -/
  | called (c : Call)
  /-- The task of a request is answered. -/
  | answered (task : Nat) (choice : ω)
  | cancelled (task : Nat)
  | clock (now : Instant)
  /-- The worker is another one. -/
  | replaced (generation : Nat)
  /-- The index of the standard library is cleared. -/
  | cleared
  /-- What is stored of documents is replaced. -/
  | stored (stores : Stores)
  /-- An included file is forgotten, or all are. -/
  | invalidated (path : Option String)
  | surroundings (host : Host)

/-- The worker answers the task of a request.  That is all the worker can do to the engine in these
courses. -/
def answer (worker : Worker ω) (task : Nat) (choice : ω) (s : State) : State :=
  match s.loop.jobOf task with
  | some (.request _ method params) =>
    { s with loop := s.loop.raise (.answer task) (endingOf (worker method params choice)) }
  | _ => s

def occur (worker : Worker ω) : Event ω → State → State
  | .called c, s => { s with loop := (s.loop.create (.call c)).1 }
  | .answered t choice, s => answer worker t choice s
  | .cancelled t, s => { s with loop := (s.loop.cancel t).1 }
  | .clock now, s => { s with loop := { s.loop with now } }
  | .replaced generation, s => { s with bridge := { s.bridge with generation } }
  | .cleared, s => { s with stdlib := s.stdlib.clear }
  | .stored stores, s => { s with stores }
  | .invalidated path, s => { s with includes := s.includes.invalidate path }
  | .surroundings host, s => { s with host }

/-- The task of a request waits for its answer.  It stands for the thread that asks the worker, of
which nothing else matters to whoever has asked. -/
def awaitAnswer : Act Value := do
  let t ← Routine.read fun (s : State) => s.loop.current
  Routine.await (.answer t)

/-- What tasks do: calls for modules and for names, without a time limit, the loads that come of
them, and requests. -/
def body : Job → Act Value
  | .call (.module path) => return .module (← getModule path)
  | .call (.resolve name uri) =>
    return .lookup (← resolving uri fun src c => Resolve.lookup src c name)
  | .call (.visible uri) => return .resolution (← visible uri)
  | .request .. => awaitAnswer
  | .load path => loadBody path
  | _ => return .nothing

def rules : Rules State Trouble Value Job Hook where
  body := body
  hook
    | .runOver _, s => s
    | h, s => hookBody h s

/-! ## Questions -/

/-- What the worker is asked on the way.  These are the three kinds of request that lookups and
loads make; everything else the engine asks is for validations. -/
inductive Question where
  | module (path : String)
  | header (target document : String)
  | file (text path : String)

namespace Question

open Bridge (Query)

def query : Question → Bridge.Query
  | .module path => .resolveStdlib path
  | .header target document => .resolveInclude target document
  | .file text path => .analyze text ["parse"] (some path) none

/-- The key of the request that asks a question. -/
def key (q : Question) : String :=
  Bridge.requestKey q.query.method q.query.params

theorem plain_of_texts {fields : List (String × Json)} (distinct : (Assoc.keys fields).Nodup)
    (texts : ∀ f ∈ fields, ∃ s, f.2 = .str s ∨ f.2 = .arr [.str s]) : Json.Plain (.obj fields) := by
  refine .obj distinct fun f hf => ?_
  obtain ⟨s, hs | hs⟩ := texts f hf
  · rw [hs]
    exact .str s
  · rw [hs]
    refine .arr fun v hv => ?_
    rw [List.mem_singleton.1 hv]
    exact .str s

theorem plain (q : Question) : Json.Plain (.obj q.query.params) := by
  cases q with
  | module path =>
    exact plain_of_texts (List.nodup_singleton "module") (by simp [query, Query.resolveStdlib])
  | header target document =>
    have distinct : ["includePath", "currentFile"].Nodup := by decide
    exact plain_of_texts distinct (by simp [query, Query.resolveInclude])
  | file text path =>
    have distinct : ["code", "filename", "include"].Nodup := by decide
    refine plain_of_texts distinct ?_
    simp [query, Query.analyze, Bridge.filenameOr]

theorem method_query (q : Question) : q.query.method =
    match q with
    | .module _ => "resolve_stdlib"
    | .header .. => "resolve_include"
    | .file .. => "analyze" := by
  cases q <;> rfl

/-- Questions whose requests have the same key are the same to the worker. -/
theorem same_of_key {p q : Question} (h : p.key = q.key) :
    p.query.method = q.query.method ∧ p.query.params = q.query.params := by
  obtain ⟨hmethod, halike⟩ := Bridge.alike_of_requestKey_eq p.plain q.plain h
  refine ⟨hmethod, ?_⟩
  -- Keys are equal if the parameters are alike, and texts are alike only if they are equal.
  have text {k : String} {s s' : String} (hp : Json.lookup k p.query.params = some (.str s))
      (hq : Json.lookup k q.query.params = some (.str s')) : s = s' := by
    cases halike with
    | obj keys values =>
      cases values k _ _ hp hq
      rfl
  cases p with
  | module path =>
    cases q with
    | module path' =>
      obtain rfl : path = path' := @text "module" _ _ rfl rfl
      rfl
    | header | file => exact absurd hmethod (by simp [method_query])
  | header target document =>
    cases q with
    | header target' document' =>
      obtain rfl : target = target' := @text "includePath" _ _ rfl rfl
      obtain rfl : document = document' := @text "currentFile" _ _ rfl rfl
      rfl
    | module | file => exact absurd hmethod (by simp [method_query])
  | file code path =>
    cases q with
    | file code' path' =>
      obtain rfl : code = code' := @text "code" _ _ rfl rfl
      have hname := @text "filename" _ _ rfl rfl
      simp only [query, Query.analyze, Bridge.filenameOr, hname]
    | module | header => exact absurd hmethod (by simp [method_query])

end Question

/-! ## The pact -/

/-- What is given: the worker, the limits of the index, whether the data is taken to be sound, and
who may be cancelled. -/
structure Setting (ω : Type) where
  worker : Worker ω
  maxModules : Nat
  budget : Int
  sound : Prop
  worker_sound : sound → worker.Sound
  /-- The tasks of calls that may be cancelled. -/
  cancels : Nat → Prop
  /-- Whether the task of a load or a request may be cancelled, of which nobody has hold. -/
  helpers : Prop

namespace Setting

variable (S : Setting ω)

/-- The values of tasks with a job.  Each kind of call has its kind of value, and a module that is
given is one that the worker may describe. -/
def Yields : Job → Value → Prop
  | .call (.module path), v => ∃ mod, v = .module mod ∧ S.worker.Knows path mod
  | .call (.resolve _ _), v => ∃ l, v = .lookup l
  | .call (.visible _), v => ∃ r, v = .resolution r
  | .request _ method params, v => ∃ choice a, S.worker method params choice = .ok a ∧ v = .json a
  | .load path, v => ∃ mod, v = .module mod ∧ S.worker.Describes path mod
  | _, _ => True

/-- Lookups fail over data that is at fault, never over the worker.  With sound data there are
none. -/
def Faults (e : Trouble) : Prop :=
  ¬ S.sound ∧ e.OverData

/-- The errors of tasks with a job. -/
def Fails : Job → Trouble → Prop
  | .call (.resolve _ _), e | .call (.visible _), e => S.Faults e
  | .request _ method params, e =>
    ∃ choice why, S.worker method params choice = .error why ∧ e = .bridge why
  | _, _ => False

/-- Whether a task with a job may be cancelled.  Callers are cancelled from outside; requests and
loads only where the setting says that helpers may be. -/
def MayCancel (t : Nat) : Job → Prop
  | .call _ => S.cancels t
  | _ => S.helpers

/-- Whether a task with a job may end as cancelled: if it may be cancelled, or what it waits for may
be. -/
def MayLapse (t : Nat) (job : Job) : Prop :=
  S.MayCancel t job ∨ S.helpers

/-- How a task with a job may end. -/
def Comes (t : Nat) (job : Job) : Ending Trouble Value → Prop :=
  Pact.Meets (S.Yields job) (S.Fails job) (S.MayLapse t job)

def terms : Terms Job Trouble Value where
  comes := S.Comes
  answered job := Pact.Meets (S.Yields job) (S.Fails job) False
  cancels := S.MayCancel
  comes_cancelled := .inl

/-- How a task may end that helps others, which is the same for all of its job. -/
def Helps (job : Job) : Ending Trouble Value → Prop :=
  Pact.Meets (S.Yields job) (S.Fails job) S.helpers

/-- How a helper may end to a task with a job that waits for it, and may be cancelled itself. -/
def Hears (t : Nat) (job helper : Job) : Ending Trouble Value → Prop :=
  Pact.Meets (S.Yields helper) (S.Fails helper) (S.MayLapse t job)

/-- How the request may end that asks a question. -/
def Answers (q : Question) : Ending Trouble Value → Prop :=
  S.Helps (.request q.key q.query.method q.query.params)

variable {S}

theorem helps_of_comes {t : Nat} {job : Job} (helper : ∀ c, job ≠ .call c)
    (e : Ending Trouble Value) (h : S.Comes t job e) : S.Helps job e := by
  refine h.mono (fun _ h => h) (fun _ h => h) fun lapse => lapse.elim (fun may => ?_) id
  cases job with
  | call c => exact absurd rfl (helper c)
  | awaitValidation | awaitIdle | request | load | readOutput | readErrors | timer | run =>
    exact may

theorem hears_of_helps {t : Nat} {job helper : Job} (e : Ending Trouble Value)
    (h : S.Helps helper e) :
    S.Hears t job helper e :=
  h.mono (fun _ h => h) (fun _ h => h) .inr

theorem answers_of_key {p q : Question} (h : p.key = q.key) : S.Answers p = S.Answers q := by
  obtain ⟨hmethod, hparams⟩ := Question.same_of_key h
  rw [Answers, Answers, hmethod, hparams, h]

end Setting

variable {S : Setting ω} {Q Q' : Multiset (Ready Hook)} {s u : State} {t : Nat} {job : Job}

/-- What the engine knows agrees with what the worker said, and what is being found out is on its
way.  Its limits are part of it, as room has to be made when something is stored. -/
structure Agrees (S : Setting ω) (Q : Multiset (Ready Hook)) (s : State) : Prop where
  kept : 1 ≤ S.maxModules → s.stdlib.Kept
  limits : s.stdlib.maxModules = S.maxModules ∧ s.stdlib.budget = S.budget
  /-- A load is forgotten after its own end. -/
  endings : ∀ path signal, 0 < Loop.pending Q s.loop (.follow (.hook (.endLoading path)) signal) →
    ∃ task, signal = .ended task ∧ Assoc.get? path s.stdlib.loading = some task
  modules : ∀ path mod, Assoc.get? path s.stdlib.modules = some mod →
    S.worker.Describes path (some mod)
  failures : ∀ path, Assoc.get? path s.stdlib.failures ≠ none → S.worker.Describes path none
  loading : ∀ path task, Assoc.get? path s.stdlib.loading = some task →
    s.loop.Expects S.terms task (S.Helps (.load path))
  /-- A task that is noted to load a module does so, unless it has ended. -/
  loads : ∀ path task, Assoc.get? path s.stdlib.loading = some task → task < s.loop.nextTask ∧
    ∀ job, s.loop.jobOf task = some job → job = .load path
  inflight : ∀ q task, Assoc.get? (Question.key q) s.bridge.inflight = some task →
    s.loop.Expects S.terms task (S.Answers q)
  stores : S.sound → s.stores.Typed
  includes : S.sound → ∀ e ∈ s.includes.files, e.2.table.Typed

/-- What a task relies on except in its own turn: the module that it loads is left to it.  In its
own turn it changes that itself. -/
def Relies (t : Nat) (job : Job) (s : State) : Prop :=
  ∀ path, job = .load path → s.stdlib.Loads path t

/-- Whatever becomes of the loop, a task that is noted to load a module does nothing else. -/
theorem Agrees.loads_of_evolves (h : Agrees S Q s) {l : Loop Job Hook Trouble Value}
    (evolves : s.loop.Evolves l) {path : String} {task : Nat}
    (noted : Assoc.get? path s.stdlib.loading = some task) :
    task < l.nextTask ∧ ∀ job, l.jobOf task = some job → job = .load path := by
  obtain ⟨hlt, hjob⟩ := h.loads path task noted
  exact ⟨Nat.lt_of_lt_of_le hlt evolves.next, fun job hj => hjob job (evolves.jobs task job hlt hj)⟩

/-- What the tasks of the engine owe one another.  It is instantiated for each claim with what may
be cancelled and what the data is taken to be. -/
def pact (S : Setting ω) : Pact State where
  terms := S.terms
  inv := Agrees S
  relies := Relies
  inv_drop {i Q s} h :=
    { h with
      endings := fun path signal hpos => h.endings path signal (by
        rw [Loop.pending_cons]
        omega) }
  inv_loop h faithful hooks :=
    { h with
      endings := fun path signal hpos => h.endings path signal (Nat.lt_of_lt_of_le hpos (hooks _ _))
      loading := fun path task htask => faithful.expects _ _ (h.loading path task htask)
      loads := fun path task htask => h.loads_of_evolves faithful.evolves htask
      inflight := fun q task htask => faithful.expects _ _ (h.inflight q task htask) }
  relies_loop _ h := h

/-! ## Steps -/

/-- A change of anything but the loop.  What other tasks rely on has to stay true. -/
theorem steps_of_loop_eq (h : (pact S).Amid t job Q s) (loop : u.loop = s.loop)
    (agrees : Agrees S Q u)
    (relies : ∀ v path, v ≠ t → s.stdlib.Loads path v → u.stdlib.Loads path v) :
    (pact S).Steps t job Q s u where
  amid :=
    { orderly := by
        rw [show HasLoop.loop u = HasLoop.loop s from loop]
        exact h.orderly
      fair := by
        rw [show HasLoop.loop u = HasLoop.loop s from loop]
        exact h.fair
      inv := agrees
      relies := fun v j hne hj path hpath => by
        rw [show HasLoop.loop u = HasLoop.loop s from loop] at hj
        exact relies v path (fun he => hne (congrArg some he.symm)) (h.relies v j hne hj path hpath)
      job := by
        rw [show HasLoop.loop u = HasLoop.loop s from loop]
        exact h.job }
  faithful := by
    rw [show HasLoop.loop u = HasLoop.loop s from loop]
    exact .refl _

/-- The index may learn what the worker said.  Modules are those that it describes, and failures are
noted where it describes none. -/
theorem Agrees.index (h : Agrees S Q s) {x : StdlibIndex} (kept : 1 ≤ S.maxModules → x.Kept)
    (limits : x.maxModules = s.stdlib.maxModules ∧ x.budget = s.stdlib.budget)
    (loading : x.loading = s.stdlib.loading)
    (modules : ∀ path mod, Assoc.get? path x.modules = some mod →
      S.worker.Describes path (some mod))
    (failures : ∀ path, Assoc.get? path x.failures ≠ none → S.worker.Describes path none) :
    Agrees S Q { s with stdlib := x } :=
  { h with
    kept
    limits := ⟨limits.1.trans h.limits.1, limits.2.trans h.limits.2⟩
    endings := fun path signal hpos => by
      rw [loading]
      exact h.endings path signal hpos
    modules
    failures
    loading := fun path task htask => h.loading path task (by rwa [← loading])
    loads := fun path task htask => h.loads path task (by rwa [← loading]) }

/-- Asking the index teaches it nothing.  A failure may be dropped, and a module may become the last
to be evicted. -/
theorem Agrees.ask (h : Agrees S Q s) (path : String) :
    Agrees S Q { s with stdlib := (s.stdlib.ask s.now s.bridge.generation path).1 } := by
  have kept (room : 1 ≤ S.maxModules) := (h.kept room).ask s.now s.bridge.generation path
  have forgotten (other : String)
    (hother : Assoc.get? other (Assoc.erase path s.stdlib.failures) ≠ none) :
      S.worker.Describes other none := by
    obtain ⟨f, hf⟩ := Option.ne_none_iff_exists'.1 hother
    exact h.failures other (by simp [Assoc.of_get?_erase hf])
  rcases s.stdlib.ask_cases s.now s.bridge.generation path with
    ⟨m, hm, -, he⟩ | ⟨-, -, -, he⟩ | ⟨_, -, -, -, he⟩ | ⟨-, -, -, he⟩ <;>
    rw [he] at kept ⊢
  · refine h.index kept ⟨rfl, rfl⟩ rfl (fun other mod hmod => ?_) h.failures
    rw [StdlibIndex.get?_moved] at hmod
    split at hmod
    · next hother =>
      rw [hother]
      exact Option.some.inj hmod ▸ h.modules path m hm
    · exact h.modules other mod hmod
  · exact h.index kept ⟨rfl, rfl⟩ rfl h.modules h.failures
  · exact h.index kept ⟨rfl, rfl⟩ rfl h.modules forgotten
  · exact h.index kept ⟨rfl, rfl⟩ rfl h.modules forgotten

/-- A change that starts a task, with something that is to be done after its end. -/
theorem steps_of_hooked (h : (pact S).Amid t job Q s) {new : Job} {hook : Hook}
    (loop : u.loop = s.loop.hooked new hook) (agrees : Agrees S Q u)
    (relies : ∀ v path, s.stdlib.Loads path v → u.stdlib.Loads path v)
    (begins : Relies s.loop.nextTask new u) : (pact S).Steps t job Q s u := by
  have order : s.loop.Orderly (some t) Q := h.orderly
  have hjob : s.loop.jobOf t = some job := h.job
  have hlt := order.fresh.lt_of_jobOf hjob
  have hown : some t ≠ some s.loop.nextTask := fun he => Nat.ne_of_lt hlt (Option.some.inj he)
  have hloop : HasLoop.loop u = s.loop.hooked new hook := loop
  have faithful : Loop.Faithful S.terms Loop.Nothing (some t) Q Q s.loop (s.loop.hooked new hook) :=
    .hooked order new hook hown
  refine ⟨{ orderly := ?_, fair := ?_, inv := agrees, relies := fun v j hne hj path hpath => ?_,
            job := ?_ }, ?_⟩
  · rw [hloop]
    exact order.hooked new hook hown
  · rw [hloop]
    exact faithful.fair h.fair
  · rw [hloop, order.fresh.jobOf_hooked] at hj
    split at hj
    · next hv =>
      rw [hv]
      exact begins path (Option.some.inj hj ▸ hpath)
    · exact relies v path (h.relies v j hne hj path hpath)
  · rw [hloop, order.fresh.jobOf_hooked, if_neg (Nat.ne_of_lt hlt), hjob]
  · rw [hloop]
    exact faithful

/-- The state once a new request asks a question.  A request that is under way already would be
joined instead. -/
def asking (q : Question) (s : State) : State :=
  { s with
    loop := s.loop.hooked (.request q.key q.query.method q.query.params)
      (.forgetRequest q.key s.loop.nextTask)
    bridge := { s.bridge with inflight := Assoc.set q.key s.loop.nextTask s.bridge.inflight } }

theorem joinRequest_eq (q : Question) (s : State) :
    joinRequest q.query.method q.query.params s =
      match Assoc.get? q.key s.bridge.inflight with
      | some task => (s, task)
      | none => (asking q s, s.loop.nextTask) := by
  unfold joinRequest Question.key
  dsimp only
  cases Assoc.get? (Bridge.requestKey q.query.method q.query.params) s.bridge.inflight <;> rfl

theorem agrees_asking (h : Agrees S Q s) (order : s.loop.Orderly (some t) Q)
    (hown : some t ≠ some s.loop.nextTask) (q : Question) :
    (asking q s).loop.Expects S.terms s.loop.nextTask (S.Answers q) ∧ Agrees S Q (asking q s) := by
  have faithful : Loop.Faithful S.terms Loop.Nothing (some t) Q Q s.loop (asking q s).loop :=
    .hooked order _ _ hown
  have hjob : (asking q s).loop.jobOf s.loop.nextTask =
      some (.request q.key q.query.method q.query.params) :=
    (order.fresh.jobOf_hooked _ _ _).trans (if_pos rfl)
  have expects : (asking q s).loop.Expects S.terms s.loop.nextTask (S.Answers q) :=
    (Loop.Expects.of_jobOf hjob).mono (Setting.helps_of_comes nofun)
  refine ⟨expects, { h with
    endings := fun path signal hpos => h.endings path signal ?_
    loading := fun path task htask => faithful.expects _ _ (h.loading path task htask)
    loads := fun path task htask => h.loads_of_evolves faithful.evolves htask
    inflight := fun p task htask => ?_ }⟩
  · have hsame := Loop.pending_hooked Q s.loop (.request q.key q.query.method q.query.params)
      (.forgetRequest q.key s.loop.nextTask) (.endLoading path) signal
    rw [if_neg nofun, Nat.add_zero] at hsame
    exact hsame ▸ hpos
  · have hset := Assoc.get?_set q.key p.key s.loop.nextTask s.bridge.inflight
    have hnow : Assoc.get? p.key (Assoc.set q.key s.loop.nextTask s.bridge.inflight) =
      some task := htask
    rw [hnow] at hset
    split at hset
    · next hp =>
      obtain rfl := Option.some.inj hset
      rw [S.answers_of_key hp]
      exact expects
    · exact faithful.expects _ _ (h.inflight p task hset.symm)

/-- A request for a question is joined, or a new one is made.  In either case the task is one
whose end can be counted on. -/
theorem join_spec (h : (pact S).Amid t job Q s) (q : Question) :
    let joined := joinRequest q.query.method q.query.params s
    (pact S).Steps t job Q s joined.1 ∧ joined.1.stdlib = s.stdlib ∧
      joined.1.loop.Expects S.terms joined.2 (S.Answers q) := by
  have agrees : Agrees S Q s := h.inv
  dsimp only
  rw [joinRequest_eq]
  cases hkey : Assoc.get? q.key s.bridge.inflight with
  | some task => exact ⟨.refl h, rfl, agrees.inflight q task hkey⟩
  | none =>
    obtain ⟨expects, asks⟩ := agrees_asking agrees h.orderly h.own_ne_next q
    exact ⟨steps_of_hooked h rfl asks (fun _ _ h => h) nofun, rfl, expects⟩

/-- The state once a task loads a module that is not known. -/
def fetching (path : String) (s : State) : State :=
  { s with
    loop := s.loop.hooked (.load path) (.endLoading path)
    stdlib := (s.stdlib.ask s.now s.bridge.generation path).1.noteLoading path s.loop.nextTask }

theorem findModule_eq (path : String) (s : State) :
    findModule path s =
      let x := (s.stdlib.ask s.now s.bridge.generation path).1
      match (s.stdlib.ask s.now s.bridge.generation path).2 with
      | .found mod => ({ s with stdlib := x }, .ok (some mod))
      | .absent => ({ s with stdlib := x }, .ok none)
      | .join task => ({ s with stdlib := x }, .error task)
      | .load => (fetching path s, .error s.loop.nextTask) := by
  unfold findModule fetching
  cases s.stdlib.ask s.now s.bridge.generation path with
  | mk x decision => cases decision <;> rfl

theorem agrees_fetching (h : Agrees S Q s) (order : s.loop.Orderly (some t) Q)
    (hown : some t ≠ some s.loop.nextTask) {path : String}
    (free : Assoc.get? path s.stdlib.loading = none)
    (asked : (s.stdlib.ask s.now s.bridge.generation path).1.loading = s.stdlib.loading) :
    (fetching path s).loop.Expects S.terms s.loop.nextTask (S.Helps (.load path)) ∧
      Agrees S Q (fetching path s) := by
  have faithful : Loop.Faithful S.terms Loop.Nothing (some t) Q Q s.loop (fetching path s).loop :=
    .hooked order _ _ hown
  have hjob : (fetching path s).loop.jobOf s.loop.nextTask = some (.load path) :=
    (order.fresh.jobOf_hooked _ _ _).trans (if_pos rfl)
  have expects : (fetching path s).loop.Expects S.terms s.loop.nextTask (S.Helps (.load path)) :=
    (Loop.Expects.of_jobOf hjob).mono (Setting.helps_of_comes nofun)
  have loading (other : String) : Assoc.get? other (fetching path s).stdlib.loading =
      if other = path then some s.loop.nextTask else Assoc.get? other s.stdlib.loading := by
    refine (Assoc.get?_set path other _ _).trans ?_
    rw [asked]
  refine ⟨expects, { h.ask path with
    kept := fun room => ((h.ask path).kept room).noteLoading path _
    endings := fun other signal hpos => ?_
    loading := fun other task htask => ?_
    loads := fun other task htask => ?_
    inflight := fun q task htask => faithful.expects _ _ (h.inflight q task htask) }⟩
  · have hpending : 0 < Loop.pending Q (s.loop.hooked (.load path) (.endLoading path))
        (.follow (.hook (.endLoading other)) signal) := hpos
    rw [Loop.pending_hooked] at hpending
    rw [loading]
    by_cases hother : other = path
    · -- Nothing was to be done after the end of a load of this module.
      have hzero : Loop.pending Q s.loop (.follow (.hook (.endLoading other)) signal) = 0 := by
        refine Nat.eq_zero_of_not_pos fun hold => ?_
        obtain ⟨task, -, htask⟩ := h.endings other signal hold
        rw [hother, free] at htask
        cases htask
      rw [hzero] at hpending
      split at hpending
      · next hsignal => exact ⟨s.loop.nextTask, hsignal.2, by rw [if_pos hother]⟩
      · exact absurd hpending (Nat.lt_irrefl 0)
    · rw [if_neg hother]
      rw [if_neg fun he => hother (Hook.endLoading.inj he.1)] at hpending
      exact h.endings other signal hpending
  · rw [loading] at htask
    split at htask
    · next hother =>
      obtain rfl := Option.some.inj htask
      rw [hother]
      exact expects
    · exact faithful.expects _ _ (h.loading other task htask)
  · rw [loading] at htask
    split at htask
    · next hother =>
      obtain rfl := Option.some.inj htask
      refine ⟨faithful.evolves.fresh order.fresh |>.lt_of_jobOf hjob, fun job hj => ?_⟩
      rw [hother]
      exact Option.some.inj (hj.symm.trans hjob)
    · exact h.loads_of_evolves faithful.evolves htask

/-- The index yields what the worker said of a module, or a task that finds it out.  The cases are
those of the index's decision: found, absent, joined or begun. -/
theorem find_spec (h : (pact S).Amid t job Q s) (path : String) :
    let found := findModule path s
    (pact S).Steps t job Q s found.1 ∧
      (∀ v other, s.stdlib.Loads other v → found.1.stdlib.Loads other v) ∧
      match found.2 with
      | .ok mod => S.worker.Describes path mod
      | .error task => found.1.loop.Expects S.terms task (S.Helps (.load path)) := by
  have agrees : Agrees S Q s := h.inv
  have asked := agrees.ask path
  have loads (v : Nat) (other : String) (hl : s.stdlib.Loads other v) :
      (s.stdlib.ask s.now s.bridge.generation path).1.Loads other v :=
    hl.ask s.now s.bridge.generation path
  have steps : (pact S).Steps t job Q s
      { s with stdlib := (s.stdlib.ask s.now s.bridge.generation path).1 } :=
    steps_of_loop_eq h rfl asked fun v other _ => loads v other
  dsimp only
  rw [findModule_eq]
  rcases s.stdlib.ask_cases s.now s.bridge.generation path with
    ⟨m, hm, hdecision, -⟩ | ⟨-, hknown, hdecision, -⟩ | ⟨task, -, htask, hdecision, -⟩ |
      ⟨hnone, free, hdecision, hx⟩ <;>
    rw [hdecision]
  · exact ⟨steps, loads, agrees.modules path m hm⟩
  · exact ⟨steps, loads, agrees.failures path hknown⟩
  · exact ⟨steps, loads, agrees.loading path task htask⟩
  · have hloading : (s.stdlib.ask s.now s.bridge.generation path).1.loading = s.stdlib.loading := by
      rw [hx]
    -- Nothing is known of the module and nobody loads it, so a task is begun that does.
    obtain ⟨expects, fetches⟩ := agrees_fetching agrees h.orderly h.own_ne_next free hloading
    have noted (v : Nat) (other : String) (hl : s.stdlib.Loads other v) :
        (fetching path s).stdlib.Loads other v :=
      (loads v other hl).noteLoading (by rw [hloading, free]) _
    refine ⟨steps_of_hooked h rfl fetches noted fun other hother => ?_, noted, expects⟩
    obtain rfl := Job.load.inj hother
    refine ⟨(Assoc.get?_set _ _ _ _).trans (if_pos rfl), ?_, ?_⟩
    · change Assoc.get? path (s.stdlib.ask s.now s.bridge.generation path).1.modules = none
      rw [hx]
      exact hnone
    · change Assoc.get? path (s.stdlib.ask s.now s.bridge.generation path).1.failures = none
      rw [hx]
      exact (Assoc.get?_erase _ _ _).trans (if_pos rfl)

/-! ## Between turns -/

/-- A change of anything but the loop, between turns. -/
theorem passes_of_loop_eq (h : (pact S).Sound none Q s) (loop : u.loop = s.loop)
    (agrees : Agrees S Q u)
    (relies : ∀ v path j, s.loop.jobOf v = some j → s.stdlib.Loads path v → u.stdlib.Loads path v) :
    (pact S).Passes Q Q s u := by
  have hloop : HasLoop.loop u = HasLoop.loop s := loop
  refine Pact.passes_of_faithful ⟨?_, ?_, agrees, fun v j hne hj path hpath => ?_⟩ ?_
  · rw [hloop]
    exact h.orderly
  · rw [hloop]
    exact h.fair
  · rw [hloop] at hj
    exact relies v path j hj (h.relies v j hne hj path hpath)
  · rw [hloop]
    exact .refl _

theorem hook_forgetRequest (h : (pact S).Sound none Q s) (key : String) (task : Nat) :
    (pact S).Passes Q Q s (rules.hook (.forgetRequest key task) s) := by
  have agrees : Agrees S Q s := h.inv
  have hhook : rules.hook (.forgetRequest key task) s =
      { s with bridge := if Assoc.get? key s.bridge.inflight = some task then
        { s.bridge with inflight := Assoc.erase key s.bridge.inflight } else s.bridge } := rfl
  rw [hhook]
  refine passes_of_loop_eq h rfl { agrees with inflight := fun q other hother => ?_ }
    fun _ _ _ _ h => h
  refine agrees.inflight q other ?_
  split at hother
  · exact (Assoc.of_get?_erase hother).2
  · exact hother

/-- A load that has ended is forgotten; no task loads that module. -/
theorem hook_endLoading {path : String} {signal : Signal}
    (h : (pact S).Sound none (.follow (.hook (.endLoading path)) signal ::ₘ Q) s) :
    (pact S).Passes Q Q s (rules.hook (.endLoading path) s) := by
  have order : s.loop.Orderly none (.follow (.hook (.endLoading path)) signal ::ₘ Q) := h.orderly
  have agrees : Agrees S (.follow (.hook (.endLoading path)) signal ::ₘ Q) s := h.inv
  have rest : Agrees S Q s := (pact S).inv_drop h.inv
  have pending (other : Signal) :
      Loop.pending (.follow (.hook (.endLoading path)) signal ::ₘ Q) s.loop
      (.follow (.hook (.endLoading path)) other) =
        Loop.pending Q s.loop (.follow (.hook (.endLoading path)) other) +
          if other = signal then 1 else 0 := by
    rw [Loop.pending_cons]
    simp
  have hself : 0 < Loop.pending (.follow (.hook (.endLoading path)) signal ::ₘ Q) s.loop
      (.follow (.hook (.endLoading path)) signal) := by
    rw [pending, if_pos rfl]
    omega
  obtain ⟨task, rfl, htask⟩ := agrees.endings path signal hself
  have hended : s.loop.task? task = none :=
    (order.ended task (order.raised _ _ (.inl (Multiset.mem_cons_self _ _)))).2
  refine passes_of_loop_eq h.drop rfl { rest with
    kept := fun room => (rest.kept room).endLoading path
    endings := fun other signal' hpos => ?_
    loading := fun other task' htask' => rest.loading other task' (Assoc.of_get?_erase htask').2
    loads := fun other task' htask' =>
      rest.loads other task' (Assoc.of_get?_erase htask').2 } fun v other j hj hl => ?_
  · have hother : other ≠ path := by
      rintro rfl
      have hpending :
          0 < Loop.pending Q s.loop (.follow (.hook (.endLoading other)) signal') := hpos
      have hsome : 0 < Loop.pending (.follow (.hook (.endLoading other)) (.ended task) ::ₘ Q) s.loop
          (.follow (.hook (.endLoading other)) signal') := by
        rw [pending]
        omega
      -- A load has one hook, which is this one, so that no second is pending.
      have hone := (order.hooks _ signal' hsome).1
      obtain ⟨task', rfl, htask'⟩ := rest.endings other signal' hpos
      rw [htask] at htask'
      obtain rfl := Option.some.inj htask'
      rw [pending, if_pos rfl] at hone
      omega
    obtain ⟨task', hsignal, htask'⟩ := rest.endings other signal' hpos
    exact ⟨task', hsignal, (Assoc.get?_erase_of_ne hother _).trans htask'⟩
  · refine hl.endLoading fun hother => ?_
    rw [hother] at hl
    obtain rfl := Option.some.inj (htask.symm.trans hl.loading)
    rw [Loop.jobOf, hended] at hj
    cases hj

theorem hooks {k : Hook} {signal : Signal}
    (h : (pact S).Sound none (.follow (.hook k) signal ::ₘ Q) s) :
    (pact S).Passes (.follow (.hook k) signal ::ₘ Q) Q s (rules.hook k s) := by
  have dropped :
      Loop.Faithful S.terms Loop.Nothing none (.follow (.hook k) signal ::ₘ Q) Q (HasLoop.loop s)
      (HasLoop.loop s) := .drop h.orderly
  -- What is to be done is taken from the queue first.
  have after {v : State} (passes : (pact S).Passes Q Q s v) :
      (pact S).Passes (.follow (.hook k) signal ::ₘ Q) Q s v := by
    obtain ⟨sound, X, faithful, borne⟩ := passes
    exact ⟨sound, X, (dropped.mono fun _ no => no.elim).trans faithful, borne⟩
  cases k with
  | runOver run => exact Pact.passes_of_faithful h.drop dropped
  | forgetRequest key task => exact after (hook_forgetRequest h.drop key task)
  | endLoading path => exact after (hook_endLoading h)

theorem passes_answer (h : (pact S).Sound none Q s) (task : Nat) (choice : ω) :
    (pact S).Passes Q Q s (answer S.worker task choice s) := by
  have order : s.loop.Orderly none Q := h.orderly
  unfold answer
  split
  · next key method params hjob =>
    have faithful : Loop.Faithful S.terms Loop.Nothing none Q Q s.loop
        (s.loop.raise (.answer task) (endingOf (S.worker method params choice))) := by
      refine .answer order hjob ?_
      cases hanswer : S.worker method params choice with
      | ok v => exact ⟨choice, v, hanswer, rfl⟩
      | error why => exact ⟨choice, why, hanswer, rfl⟩
    have mild := Loop.mild_raise s.loop (.answer task) (endingOf (S.worker method params choice))
    have order' := order.mild mild fun s e ⟨hs, _⟩ => by
      rw [hs]
      exact ⟨nofun, nofun⟩
    exact Pact.passes_of_faithful (h.mild mild order' faithful) faithful
  · exact Pact.passes_of_faithful h (.refl _)

/-- What may happen in a state: what is stored is sound, if the data is taken to be, and who is
cancelled may be. -/
def Event.Allowed (S : Setting ω) (e : Event ω) (s : State) : Prop :=
  match e with
  | .stored stores => S.sound → stores.Typed
  | .cancelled t => ∀ job, s.loop.jobOf t = some job → S.MayCancel t job
  | _ => True

/-- Whatever happens leaves everything in order. -/
theorem happens {e : Event ω} (h : (pact S).Sound none Q s) (allowed : e.Allowed S s) :
    (pact S).Passes Q Q s (occur S.worker e s) := by
  have agrees : Agrees S Q s := h.inv
  have order : s.loop.Orderly none Q := h.orderly
  cases e with
  | called c =>
    have faithful :
        Loop.Faithful S.terms Loop.Nothing none Q Q s.loop (s.loop.create (.call c)).1 :=
      .create order _
    refine Pact.passes_of_faithful
      (h.loop (order.create (.call c) nofun) faithful (fun k s' => ?_) fun v j _ hj => ?_) faithful
    · rw [Loop.pending_create, if_neg nofun]
      exact Nat.le_refl _
    · have hcreated := order.fresh.jobOf_create (.call c) v
      rw [hj] at hcreated
      split at hcreated
      · obtain rfl := Option.some.inj hcreated
        exact .inr nofun
      · exact .inl ⟨nofun, hcreated.symm⟩
  | answered task choice => exact passes_answer h task choice
  | cancelled task =>
    have mild := order.mild_cancel task
    have faithful :
        Loop.Faithful S.terms (fun signal => s.loop.waitingOn task = some signal) none Q Q s.loop
        (s.loop.cancel task).1 := .cancel order allowed
    have order' := order.mild mild fun s e ⟨_, hs⟩ =>
      ⟨order.not_ended hs, fun n hn => order.given_of_waitingOn (hn ▸ hs)⟩
    refine ⟨h.mild mild order' faithful, _, faithful, fun t signal job waits hjob hears => ?_⟩
    -- Only the task that is cancelled waits for what is raised.
    have waits' : s.loop.waitingOn t = some signal := (mild.waiting t).symm.trans waits
    obtain rfl := order.alone waits' hears
    exact allowed job ((mild.jobs t).symm.trans hjob)
  | clock now =>
    have mild : Loop.Mild (fun _ _ => False) s.loop { s.loop with now } :=
      { Loop.Mild.refl s.loop with }
    have faithful : Loop.Faithful S.terms Loop.Nothing none Q Q s.loop { s.loop with now } :=
      .of_same order mild fun _ => rfl
    exact Pact.passes_of_faithful (h.mild mild (order.mild mild fun _ _ => False.elim) faithful)
      faithful
  | replaced generation => exact passes_of_loop_eq h rfl { agrees with } fun _ _ _ _ h => h
  | cleared =>
    refine passes_of_loop_eq h rfl { agrees with
      kept := fun _ => .clear _
      modules := nofun
      failures := fun _ hf => absurd rfl hf } fun _ _ _ _ h => h.clear
  | stored stores =>
    exact passes_of_loop_eq h rfl { agrees with stores := allowed } fun _ _ _ _ h => h
  | invalidated path =>
    refine passes_of_loop_eq h rfl { agrees with includes := fun hs e he => ?_ } fun _ _ _ _ h => h
    cases path with
    | none => cases he
    | some path => exact agrees.includes hs e (Assoc.mem_erase.1 he).1
  | surroundings host => exact passes_of_loop_eq h rfl { agrees with } fun _ _ _ _ h => h

end Library

end PikeAnalysis.Engine
