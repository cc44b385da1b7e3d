import PikeAnalysis.Proofs.Engine.Library

/-!
# What comes of consulting the worker

Every routine by which the engine finds something out honours the pact, and yields what the worker
said, now or before (`gives_getModule`, `gives_resolveInclude`).  So do the queries about names that
are put together of them (`ensures`), and with these all tasks (`lawful`).

For each routine there is one statement of the form `Gives`: what its value is like and what its
errors are like, in any state in which the pact holds.  They follow the text of the routines from
the inside out, from a single request over modules and files to lookups.  Where a lookup goes
through many steps, the resolver's own theory says that its results are of some kind if those of its
sources are (`Resolve.Ensures`), so only the sources are dealt with here.

Who is cancelled is a parameter of the pact, so that a statement about those who are not can be made
for any course (`Setting.along`).
-/

namespace PikeAnalysis.Engine.Library

open PikeAnalysis.Concurrency

attribute [local irreducible] StdlibModule.cleanPath IncludeCache.targetPath

variable {ω α : Type} {S : Setting ω} {t : Nat} {job : Job} {Q : Multiset (Ready Hook)} {s : State}

/-! ## Asking -/

/-- A request yields what the worker answers.  The worker may have several answers to choose from,
and it is one of them. -/
theorem gives_request (q : Question) :
    (pact S).Gives t job (request q.query.method q.query.params)
      (fun a => ∃ choice, S.worker q.query.method q.query.params choice = .ok a)
      fun e => ∃ choice why, S.worker q.query.method q.query.params choice = .error why ∧
        e = .bridge why := by
  intro Q s amid relies
  obtain ⟨steps, same, expects⟩ := join_spec amid q
  have relies' : Relies t job (joinRequest q.query.method q.query.params s).1 := by
    intro path hpath
    rw [same]
    exact relies path hpath
  have waits := Pact.honours_awaitTask steps.amid relies' .inl (expects.mono Setting.hears_of_helps)
    fun ending Q' u he _ hr =>
      (⟨hr, he⟩ : Relies t job u ∧
        S.Hears t job (.request q.key q.query.method q.query.params) ending)
  refine Pact.honours_act_andThen steps (waits.andThen ?_ (fun _ _ _ h => h) fun _ _ h => h)
  rintro v Q' u amid' ⟨hrelies, choice, a, ha, rfl⟩
  exact ⟨amid', hrelies, choice, ha⟩

theorem gives_ask (q : Question) :
    (pact S).Gives t job (ask q.query) (fun v => ∃ choice, S.worker.replies q.query choice = .ok v)
      fun e => ∃ choice why, S.worker.replies q.query choice = .error why ∧ e = .bridge why := by
  have reply {choice : ω} {r : Except BridgeFailure Json}
      (h : S.worker q.query.method q.query.params choice = r) :
      S.worker.replies q.query choice = reading q.query r := by
    rw [Worker.replies, h]
  refine ((gives_request q).mono (fun _ h => h) ?_).andThen fun a ⟨choice, ha⟩ => ?_
  · rintro e ⟨choice, why, hwhy, rfl⟩
    exact ⟨choice, why, reply hwhy, rfl⟩
  · cases hread : q.query.model.read a with
    | ok v => exact Pact.gives_done ⟨choice, by rw [reply ha, reading, hread]⟩
    | error issue => exact Pact.gives_fail ⟨choice, _, by rw [reply ha, reading, hread], rfl⟩

/-- A question that may be answered in the negative. -/
theorem gives_orFailure (q : Question) :
    (pact S).Gives t job (orFailure (ask q.query))
      (fun r => ∃ choice, r = S.worker.replies q.query choice) fun _ => False := by
  refine (gives_ask q).onEnd fun ending h => ?_
  cases ending with
  | value v =>
    obtain ⟨choice, hv⟩ := h
    exact Pact.gives_done ⟨choice, hv.symm⟩
  | error e =>
    obtain ⟨choice, why, hwhy, rfl⟩ := h
    exact Pact.gives_done ⟨choice, hwhy.symm⟩
  | cancelled => exact Pact.gives_cancelled h

/-! ## Modules -/

/-- A module is what the worker says of it, whether it was loaded before or not.  If it was not, a
load is joined or begun, and what that yields is what the worker says. -/
theorem gives_getModule (path : String) :
    (pact S).Gives t job (getModule path) (S.worker.Knows path) fun _ => False := by
  have knows {mod : Option StdlibModule} (named : ¬ (StdlibModule.cleanPath path).isEmpty)
      (h : S.worker.Describes (StdlibModule.cleanPath path) mod) : S.worker.Knows path mod := by
    rw [Worker.Knows, if_neg named]
    exact h
  unfold getModule
  dsimp only
  split
  · next unnamed => exact Pact.gives_done (by rw [Worker.Knows, if_pos unnamed])
  · next named =>
    intro Q s amid relies
    obtain ⟨steps, loads, found⟩ := find_spec amid (StdlibModule.cleanPath path)
    have relies' : Relies t job (findModule (StdlibModule.cleanPath path) s).1 :=
      fun other hother => loads t other (relies other hother)
    refine Pact.honours_act_andThen steps ?_
    cases hfound : (findModule (StdlibModule.cleanPath path) s).2 with
    | ok mod =>
      rw [hfound] at found
      exact ⟨steps.amid, relies', knows named found⟩
    | error task =>
      rw [hfound] at found
      have waits := Pact.honours_awaitTask steps.amid relies' .inl
        (found.mono Setting.hears_of_helps)
        fun ending Q' u he _ hr =>
          (⟨hr, he⟩ : Relies t job u ∧ S.Hears t job (.load (StdlibModule.cleanPath path)) ending)
      refine waits.andThen ?_ (fun _ _ _ h => h) fun _ _ h => h
      rintro v Q' u amid' ⟨hrelies, mod, rfl, hmod⟩
      exact ⟨amid', hrelies, knows named hmod⟩

/-! ## Included files -/

theorem gives_parseFile {path : String} (hpath : S.sound → '\x00' ∉ path.toList) :
    (pact S).Gives t job (parseFile path) (fun table => S.sound → ∀ k ∈ table, k.Typed)
      S.Faults := by
  unfold parseFile
  split
  · next hnul => exact Pact.gives_fail ⟨fun hs => hpath hs (by simpa using hnul), trivial⟩
  · refine (Pact.gives_read (V := fun _ => True) fun _ _ _ => trivial).andThen fun text _ => ?_
    split
    · exact Pact.gives_done fun _ _ none => by cases none
    · next text =>
      refine ((gives_orFailure (.file text path)).mono (fun _ h => h) fun _ => False.elim).andThen
        ?_
      rintro r ⟨choice, hr⟩
      split
      · exact Pact.gives_done fun _ _ none => by cases none
      · next v =>
        refine Pact.gives_done fun hs k hk => ?_
        obtain rfl := Option.some.inj hk
        cases hparse : (Wire.Analysis.ofJson v).parse with
        | none => exact SymbolTable.typed_ofRoots fun _ none => by cases none
        | some p =>
          have sound := S.worker_sound hs
          exact SymbolTable.typed_ofRoots (sound.files text path choice v hr.symm p hparse)

theorem steps_store (h : (pact S).Amid t job Q s) (file : IncludedFile)
    (hfile : S.sound → file.table.Typed) :
    (pact S).Steps t job Q s { s with includes := s.includes.store file } := by
  have agrees : Agrees S Q s := h.inv
  refine steps_of_loop_eq h rfl { agrees with includes := fun hs e he => ?_ } fun _ _ _ h => h
  rcases Assoc.mem_set he with rfl | he
  · exact hfile hs
  · exact agrees.includes hs e he

theorem gives_resolveInclude (directive : Symbol) {uri : String}
    (hfile : S.sound → ∃ file, Uri.toPath uri = .ok file) :
    (pact S).Gives t job (resolveInclude directive uri)
      (fun file => S.sound → ∀ f ∈ file, f.table.Typed) S.Faults := by
  have nothing : (pact S).Gives t job (.done none : Act (Option IncludedFile))
      (fun file => S.sound → ∀ f ∈ file, f.table.Typed) S.Faults :=
    Pact.gives_done fun _ => nofun
  unfold resolveInclude
  dsimp only
  split
  · exact nothing
  · refine Pact.Gives.andThen (V := fun _ => True) ?_ fun file _ => ?_
    · unfold orTrouble
      split
      · exact Pact.gives_done trivial
      · next hfault =>
        refine Pact.gives_fail ⟨fun hs => ?_, trivial⟩
        obtain ⟨file, hok⟩ := hfile hs
        rw [hok] at hfault
        cases hfault
    · refine ((gives_orFailure (.header _ file)).mono (fun _ h => h) fun _ => False.elim).andThen ?_
      -- What the worker answers is one of the answers it has for this, and those name files if data
      -- are sound.
      rintro r ⟨choice, hr⟩
      split
      · exact nothing
      · next v =>
        split
        · exact nothing
        · refine (Pact.gives_read (V := fun _ => True) fun _ _ _ => trivial).andThen fun now _ => ?_
          refine Pact.Gives.andThen
            (Pact.gives_read (V := fun file => S.sound → ∀ f ∈ file, f.table.Typed)
            fun Q s agrees hs f hf => ?_) fun cached hcached => ?_
          · -- What is in the cache was put there by a parse, so that it is typed if data are sound.
            obtain ⟨hget, -⟩ := Option.filter_eq_some_iff.1 hf
            exact Agrees.includes agrees hs _ (Assoc.mem_of_get? hget)
          · split
            · exact Pact.gives_done hcached
            · refine (gives_parseFile fun hs => ?_).andThen fun table htable => ?_
              · exact (S.worker_sound hs).names _ file choice v hr.symm
              · split
                · exact nothing
                · next table =>
                  refine (Pact.gives_modify fun Q s amid relies =>
                    ⟨steps_store amid _ fun hs => htable hs table rfl, relies⟩).andThen
                      fun _ _ => ?_
                  · refine Pact.gives_done fun hs f hf => ?_
                    obtain rfl := Option.some.inj hf
                    exact htable hs table rfl

/-! ## Names -/

/-- Queries about names honour the pact, and fail only over unsound data. -/
theorem ensures (maxDepth : Nat) :
    Resolve.Ensures (resolverSources maxDepth) S.sound fun {α} (x : Resolve.Query Act α) P =>
      ∀ f : Resolve.Findings, (S.sound → f.Typed) →
        (pact S).Gives t job (x.run f) (fun r => P r.1 ∧ (S.sound → r.2.Typed)) S.Faults where
  pure h _ hf := Pact.gives_done ⟨h, hf⟩
  bind hx hk f hf := (hx f hf).andThen fun r ⟨ha, hg⟩ => hk r.1 ha r.2 hg
  get _ hf := Pact.gives_done ⟨hf, hf⟩
  modify h f hf := Pact.gives_done ⟨trivial, h f hf⟩
  documents f hf := by
    refine (Pact.gives_read fun Q s (agrees : Agrees S Q s) hs e he => ?_).andThen
      fun documents h =>
      Pact.gives_done ⟨h, hf⟩
    obtain ⟨entry, hentry, rfl⟩ := List.mem_map.1 he
    exact ((agrees.stores hs).documents entry hentry).2
  module path f hf := by
    refine ((gives_getModule path).mono (fun _ h => h) fun _ => False.elim).andThen fun mod hmod =>
      Pact.gives_done ⟨fun hs k hk => ?_, hf⟩
    obtain rfl := Option.mem_def.1 hk
    exact (S.worker_sound hs).knows hmod
  included directive _ hfile f hf :=
    (gives_resolveInclude directive hfile).andThen fun _ h => Pact.gives_done ⟨h, hf⟩
  fault unsound _ _ := Pact.gives_fail ⟨unsound, trivial⟩

/-- The document that a query is about, and how deep it looks. -/
theorem gives_resolving (uri : String) {f : Resolve.Sources Act → Resolve.Context → Act α}
    {V : α → Prop}
    (h : ∀ maxDepth c, (S.sound → c.Typed) →
      (pact S).Gives t job (f (resolverSources maxDepth) c) V S.Faults) :
    (pact S).Gives t job (resolving uri f) V S.Faults := by
  refine (Pact.gives_read (V := fun r : Resolve.Context × Nat => S.sound → r.1.Typed)
    fun Q s (agrees : Agrees S Q s) hs => ?_).andThen fun r hc => h r.2 r.1 hc
  have stores := agrees.stores hs
  exact ⟨fun e he => stores.documents (uri, e) (Assoc.mem_of_get? he),
    fun p hp => stores.programs uri p hp⟩

/-! ## Tasks -/

/-- What a task does that says how it ends honours the pact. -/
theorem honours_of_gives {r : Act Value} (amid : (pact S).Amid t job Q s) (relies : Relies t job s)
    (h : (pact S).Gives t job r (S.Yields job) (S.Fails job)) :
    (pact S).Honours t job ((pact S).Ends t job) r Q s :=
  (h Q s amid relies).mono fun _ _ _ ⟨_, he⟩ => he

theorem gives_call (c : Call) :
    (pact S).Gives t job (body (.call c)) (S.Yields (.call c)) (S.Fails (.call c)) := by
  cases c with
  | module path => exact (gives_getModule path).andThen fun mod h => Pact.gives_done ⟨mod, rfl, h⟩
  | resolve name uri =>
    have looks : (pact S).Gives t job
        (resolving uri fun src c => Resolve.lookup src c name) (fun _ => True) S.Faults :=
      gives_resolving uri fun maxDepth c hc =>
        ((ensures maxDepth).either hc name {} fun _ => ⟨nofun, nofun⟩).andThen fun _ _ =>
          Pact.gives_done trivial
    exact looks.andThen fun l _ => Pact.gives_done ⟨l, rfl⟩
  | visible uri =>
    have lists : (pact S).Gives t job (visible uri) (fun _ => True) S.Faults :=
      gives_resolving uri fun maxDepth c hc =>
        ((ensures maxDepth).visibleFrom hc _ _ {} fun _ => ⟨nofun, nofun⟩).andThen fun _ _ =>
          Pact.gives_done trivial
    exact lists.andThen fun r _ => Pact.gives_done ⟨r, rfl⟩
  | _ => exact Pact.gives_done trivial

/-- The task of a request ends as it is answered. -/
theorem honours_awaitAnswer {key method : String} {params : List (String × Json)}
    (amid : (pact S).Amid t (.request key method params) Q s) (current : s.loop.current = t) :
    (pact S).Honours t (.request key method params) ((pact S).Ends t (.request key method params))
      awaitAnswer Q s := by
  have hjob : s.loop.jobOf t = some (.request key method params) := amid.job
  have answers (e : Ending Trouble Value) (h : S.terms.answered (.request key method params) e) :
      S.Comes t (.request key method params) e := h.mono (fun _ h => h) (fun _ h => h) False.elim
  refine Pact.honours_read_andThen ?_
  rw [current]
  refine ⟨amid, nofun, .inr (.inl rfl), S.Comes t (.request key method params), ⟨.inl,
    ⟨amid.lt_next, fun e he => ?_, fun job e hj he => ?_⟩⟩, fun ending Q' u he ha _ =>
      Pact.honours_ofEnding ha he⟩
  · rcases (amid.fair.answered t e he).2 _ hjob with ⟨rfl, may⟩ | answered
    · exact .inl may
    · exact answers e answered
  · obtain rfl := Option.some.inj (hjob.symm.trans hj)
    exact answers e he

/-- A task may remember that the module could not be loaded that it is to load. -/
theorem steps_remember {path : String} (h : (pact S).Amid t job Q s) (loads : s.stdlib.Loads path t)
    (missing : S.worker.Describes path none) :
    (pact S).Steps t job Q s
      { s with stdlib := s.stdlib.rememberFailure s.now s.bridge.generation path } := by
  have agrees : Agrees S Q s := h.inv
  refine steps_of_loop_eq h rfl ?_ fun v other hne hl => ?_
  · refine agrees.index (fun room => (agrees.kept room).rememberFailure loads.modules _ _)
      ⟨rfl, rfl⟩ rfl
      agrees.modules fun other hother => ?_
    rw [StdlibIndex.rememberFailure, Assoc.get?_set] at hother
    split at hother
    · next hsame =>
      rw [hsame]
      exact missing
    · exact agrees.failures other hother
  · exact hl.rememberFailure (hl.ne loads hne) _ _

/-- A task may store the module that it is to load.  The module is one that the worker has
described, for the path that the task loads. -/
theorem steps_load {path : String} {mod : StdlibModule} (h : (pact S).Amid t job Q s)
    (loads : s.stdlib.Loads path t) (hpath : mod.path = path)
    (found : S.worker.Describes path (some mod)) (log : List LogEntry) :
    (pact S).Steps t job Q s { s with stdlib := s.stdlib.store mod, log } := by
  subst hpath
  have agrees : Agrees S Q s := h.inv
  have hrest := s.stdlib.store_eq mod
  have learns : Agrees S Q { s with stdlib := s.stdlib.store mod } := by
    refine agrees.index
      (fun room => (agrees.kept room).store (agrees.limits.1 ▸ room) loads.failures)
      ⟨by rw [hrest], by rw [hrest]⟩ (by rw [hrest]) (fun other m hm => ?_) fun other hother => ?_
    · rcases StdlibIndex.of_get?_store hm with ⟨rfl, rfl⟩ | hold
      · exact found
      · exact agrees.modules other m hold
    · rw [hrest] at hother
      exact agrees.failures other hother
  refine steps_of_loop_eq h rfl { learns with } fun v other hne hl => ?_
  exact hl.store (hl.ne loads hne)

theorem honours_storing {path : String} {mod : StdlibModule}
    (amid : (pact S).Amid t (.load path) Q s)
    (loads : s.stdlib.Loads path t) (hpath : mod.path = path)
    (found : S.worker.Describes path (some mod)) :
    (pact S).Honours t (.load path) ((pact S).Ends t (.load path))
      ((Routine.modify fun (s : State) =>
        let s := if s.stdlib.isTooLarge mod then s.note
          [⟨.warning, "stdlib_module_too_large"⟩] else s
        { s with stdlib := s.stdlib.store mod }).andThen fun _ =>
          .done (.module (some mod))) Q s := by
  have steps : (pact S).Steps t (.load path) Q s
      (let s := if s.stdlib.isTooLarge mod
        then s.note [⟨.warning, "stdlib_module_too_large"⟩] else s
      { s with stdlib := s.stdlib.store mod }) := by
    dsimp only
    split
    · exact steps_load amid loads hpath found _
    · exact steps_load amid loads hpath found s.log
  exact Pact.honours_modify_andThen steps ⟨steps.amid, some mod, rfl, found⟩

/-- A load yields what the worker says of the module, and leaves it in the index if there is
room. -/
theorem honours_loadBody {path : String} (amid : (pact S).Amid t (.load path) Q s)
    (relies : Relies t (.load path) s) :
    (pact S).Honours t (.load path) ((pact S).Ends t (.load path)) (loadBody path) Q s := by
  refine (gives_orFailure (.module path) Q s amid relies).andThen ?_ (fun _ _ _ h => h.2)
    fun _ _ h => h.2
  rintro r Q u amid ⟨relies, choice, hr⟩
  have loads : u.stdlib.Loads path t := relies path rfl
  have ends {Q : Multiset (Ready Hook)} {v : State} {mod : Option StdlibModule}
      (amid : (pact S).Amid t (.load path) Q v) (describes : S.worker.Describes path mod) :
      (pact S).Honours t (.load path) ((pact S).Ends t (.load path)) (.done (.module mod)) Q v :=
    ⟨amid, mod, rfl, describes⟩
  have remembers (missing : S.worker.Describes path none) :
      (pact S).Honours t (.load path) ((pact S).Ends t (.load path))
        ((loadBody.remember path).andThen fun _ => .done (.module none)) Q u := by
    have steps := steps_remember amid loads missing
    exact Pact.honours_modify_andThen steps (ends steps.amid missing)
  cases r with
  | error why =>
    -- A failure is told as if the module were missing.
    have missing : S.worker.Describes path none := ⟨choice, 0, by
      rw [show S.worker.replies (.resolveStdlib path) choice = .error why from hr.symm]
      rfl⟩
    dsimp only
    split
    · exact ends amid missing
    · exact remembers missing
  | ok v =>
    have saying (now : Instant) : S.worker.Describes path (moduleFrom path now (.ok v)) :=
      ⟨choice, now, by
      rw [show S.worker.replies (.resolveStdlib path) choice = .ok v from hr.symm]⟩
    dsimp only
    split
    · next found =>
      have describes (now : Instant) : S.worker.Describes path
          (some (StdlibModule.ofAnswer path (Wire.StdlibAnswer.ofJson v) now)) := by
        have hsaid := saying now
        rwa [moduleFrom, if_pos found] at hsaid
      exact Pact.honours_read_andThen (honours_storing amid loads rfl (describes u.now))
    · next missing =>
      have hsaid := saying 0
      rw [moduleFrom, if_neg missing] at hsaid
      exact remembers hsaid

/-! ## Courses -/

/-- Every task honours the pact, whatever happens.  The bodies of the jobs are dealt with one by
one; the outside may answer requests and change documents. -/
theorem lawful (S : Setting ω) :
    (pact S).Lawful rules (occur S.worker) (Event.Allowed S) where
  bodies {t job Q s} amid relies current := by
    cases job with
    | call c => exact honours_of_gives amid relies (gives_call c)
    | request key method params => exact honours_awaitAnswer amid current
    | load path => exact honours_loadBody amid relies
    | _ => exact ⟨amid, trivial⟩
  hooks := hooks
  happens := happens

/-- Nothing is known at first.  The limits of the index are those of the settings. -/
theorem holds_opening {settings : Config.Settings} {stdlibBudget : Int}
    (typedbBudget : Int) (host : Host)
    (sink : Sink) (modules : S.maxModules = settings.stdlibModules)
    (budget : S.budget = stdlibBudget) :
    (pact S).Holds
    ((opening settings typedbBudget stdlibBudget host sink).queue : Multiset (Ready Hook))
      (opening settings typedbBudget stdlibBudget host sink).machine := by
  have order :
      Loop.Orderly none 0 (opening settings typedbBudget stdlibBudget host sink).state.loop :=
    .empty
  refine ⟨⟨order, ⟨nofun, nofun⟩, ?_, nofun⟩, nofun⟩
  exact
    { kept := fun _ => ⟨List.nodup_nil, rfl, Int.le_max_right _ _, Nat.zero_le _, fun _ _ => rfl⟩
      limits := ⟨modules.symm, budget.symm⟩
      endings := fun path signal hpos => by
        obtain ⟨-, t, -, ht⟩ := order.hooks _ _ hpos
        exact absurd ht (Nat.not_lt_zero t)
      modules := nofun
      failures := fun _ h => absurd rfl h
      loading := nofun
      loads := nofun
      inflight := nofun
      stores := fun _ => ⟨nofun, nofun⟩
      includes := fun _ => nofun }

/-! ## Who is cancelled -/

/-- In a course with these events the task of a load or a request is cancelled.  Calls shield these
tasks, and nobody else has hold of them. -/
def HelperCancelled (worker : Worker ω) (first : Moment State Trouble Value Job Hook)
    (os : List (Event ω)) :
    Prop :=
  ∃ before t after d job, os = before ++ .cancelled t :: after ∧
    Leads rules (occur worker) first before d ∧
    d.state.loop.jobOf t = some job ∧ ∀ c, job ≠ .call c

/-- In a course with these events a call is cancelled, or a helper is. -/
def Cancelled (worker : Worker ω) (first : Moment State Trouble Value Job Hook)
    (os : List (Event ω))
    (task : Nat) : Prop :=
  .cancelled task ∈ os ∨ HelperCancelled worker first os

/-- Nobody but who is cancelled in a course may be. -/
def Setting.along (S : Setting ω) (first : Moment State Trouble Value Job Hook)
    (os : List (Event ω)) :
    Setting ω :=
  { S with
    cancels := fun t => .cancelled t ∈ os
    helpers := HelperCancelled S.worker first os }

theorem allowed_along {first : Moment State Trouble Value Job Hook} {os : List (Event ω)}
    (stored : ∀ stores, .stored stores ∈ os → S.sound → stores.Typed) :
    Pact.AllowedOn rules (occur S.worker) (Event.Allowed (S.along first os)) first os := by
  rintro before e after d rfl led
  cases e with
  | stored stores => exact stored stores (List.mem_append_right _ List.mem_cons_self)
  | cancelled task =>
    intro job hjob
    cases job with
    | call c => exact List.mem_append_right _ List.mem_cons_self
    | awaitValidation | awaitIdle | request | load | readOutput | readErrors | timer | run =>
      exact ⟨before, task, after, d, _, rfl, led, hjob, nofun⟩
  | called | answered | clock | replaced | cleared | invalidated | surroundings => trivial

/-- A task that has ended has ended as its job may.  With `Setting.along` this says of every task
that was not cancelled how it has ended. -/
theorem comes_of_leads {settings : Config.Settings} {typedbBudget stdlibBudget : Int} {host : Host}
    {sink : Sink} {before after : List (Event ω)} {c d : Moment State Trouble Value Job Hook}
    {e : Ending Trouble Value} (modules : S.maxModules = settings.stdlibModules)
    (budget : S.budget = stdlibBudget)
    (allowed : Pact.AllowedOn rules (occur S.worker) (Event.Allowed S)
      (opening settings typedbBudget stdlibBudget host sink) (before ++ after))
    (begun : Leads rules (occur S.worker) (opening settings typedbBudget stdlibBudget host sink)
      before c)
    (asked : c.state.loop.jobOf t = some job) (course : Leads rules (occur S.worker) c after d)
    (ended : d.state.loop.ending? (.ended t) = some e) : S.Comes t job e := by
  have law := lawful S
  have first := law.leads (holds_opening typedbBudget host sink modules budget)
    begun allowed.earlier
  have second := law.leads first.holds course (allowed.later begun)
  exact (second.expects t _ (.of_jobOf asked)).ending second.holds.sound.orderly ended

end PikeAnalysis.Engine.Library
