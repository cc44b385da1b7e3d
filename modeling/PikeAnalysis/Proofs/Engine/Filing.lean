import PikeAnalysis.Proofs.Engine.Missing
import PikeAnalysis.Proofs.Stdlib.Paths

/-!
# The keys of the index

Modules, failures and loads are filed in the index of the standard library under clean paths.
Asking for a module files nothing but under its own clean path, whatever the worker answers
(`filing_getModule`, `filing_loadBody`), so along every course each key of the index is the clean
path of something that was asked for (`filed_of_leads`).

Two steps have to be told apart.  Cleaning a path gives its key, and a load is begun for the key and
not for the path; later the load files what it has found under its own path, which is that key.  So
the invariant says of loads, too, that they are of keys, and of the rests of tasks that wait that
they file under keys (`LeftFiling`).

Keys are clean paths, but cleaning a key once more may change it: blanks are taken off before dots
are, so what is left may have blanks again.  `StdlibModule.cleanPath` is a fixed point exactly on
paths that are not ragged.
-/

namespace PikeAnalysis

/-! ## The index -/

namespace StdlibIndex

/-- Something is filed under a key: a module, a failure or a load.  That is all that the index keeps
by path. -/
def Files (x : StdlibIndex) (key : String) : Prop :=
  Assoc.get? key x.modules ≠ none ∨ Assoc.get? key x.failures ≠ none ∨
    Assoc.get? key x.loading ≠ none

variable {x : StdlibIndex} {key path : String}

theorem not_files_iff : ¬ x.Files key ↔ Assoc.get? key x.modules = none ∧
    Assoc.get? key x.failures = none ∧ Assoc.get? key x.loading = none := by
  simp [Files]

/-- Asking files nothing.  At most a failure is dropped, or a module becomes the last to be
evicted. -/
theorem files_of_ask {now : Instant} {generation : Nat}
    (h : (x.ask now generation path).1.Files key) :
    x.Files key := by
  by_contra hnot
  obtain ⟨modules, failures, loading⟩ := not_files_iff.1 hnot
  have erased : Assoc.get? key (Assoc.erase path x.failures) = none := by
    rw [Assoc.get?_erase, failures, ite_self]
  refine not_files_iff.2 ?_ h
  rcases x.ask_cases now generation path with
    ⟨m, hm, -, he⟩ | ⟨-, -, -, he⟩ | ⟨t, -, -, -, he⟩ | ⟨-, -, -, he⟩ <;>
    rw [he]
  · refine ⟨?_, failures, loading⟩
    rw [get?_moved, if_neg, modules]
    rintro rfl
    rw [modules] at hm
    cases hm
  · exact ⟨modules, failures, loading⟩
  · exact ⟨modules, erased, loading⟩
  · exact ⟨modules, erased, loading⟩

/-- A load is filed under its path. -/
theorem files_of_noteLoading {task : Nat} (h : (x.noteLoading path task).Files key) :
    key = path ∨ x.Files key := by
  rw [or_iff_not_imp_left]
  intro ne
  rwa [Files, noteLoading, Assoc.get?_set_of_ne ne] at h

/-- A failure is filed under its path. -/
theorem files_of_rememberFailure {now : Instant} {generation : Nat}
    (h : (x.rememberFailure now generation path).Files key) : key = path ∨ x.Files key := by
  rw [or_iff_not_imp_left]
  intro ne
  rwa [Files, rememberFailure, Assoc.get?_set_of_ne ne] at h

/-- A module is filed under its path. -/
theorem files_of_store {m : StdlibModule} (h : (x.store m).Files key) :
    key = m.path ∨ x.Files key := by
  rw [Files, store_eq] at h
  rcases h with h | h
  · obtain ⟨found, hfound⟩ := Option.ne_none_iff_exists'.1 h
    refine (of_get?_store hfound).imp And.left fun hold => .inl ?_
    simp [hold]
  · exact .inr (.inr h)

theorem files_of_endLoading (h : (x.endLoading path).Files key) : x.Files key := by
  by_contra hnot
  obtain ⟨modules, failures, loading⟩ := not_files_iff.1 hnot
  have erased : Assoc.get? key (Assoc.erase path x.loading) = none := by
    rw [Assoc.get?_erase, loading, ite_self]
  have gone : ¬ (x.endLoading path).Files key := not_files_iff.2 ⟨modules, failures, erased⟩
  exact gone h

theorem files_of_clear (h : x.clear.Files key) : x.Files key := by
  rcases h with h | h | h
  · exact absurd rfl h
  · exact absurd rfl h
  · exact .inr (.inr h)

theorem Loads.files {t : Nat} (h : x.Loads path t) : x.Files path :=
  .inr (.inr (by simp [h.loading]))

end StdlibIndex

namespace Engine.Library

open PikeAnalysis.Concurrency

attribute [local irreducible] StdlibModule.cleanPath IncludeCache.targetPath

variable {ω : Type} {worker : Worker ω} {S : Setting ω} {settings : Config.Settings}
  {typedbBudget stdlibBudget : Int} {host : Host} {sink : Sink} {Q : Multiset (Ready Hook)}
  {s u : State}
  {path : String} {P : String → Prop} {m m' : Machine State Trouble Value Job}
  {i : Ready Hook} {t : Nat}
  {job : Job} {r : Act Value} {c d : Moment State Trouble Value Job Hook} {os : List (Event ω)}

/-! ## What a task files -/

/-- Whatever is filed is filed under keys of a kind, or was before.  So what is filed can be traced
back to the tasks that file. -/
def Adds (P : String → Prop) (s u : State) : Prop :=
  ∀ key, u.stdlib.Files key → P key ∨ s.stdlib.Files key

theorem adds_of_eq (same : u.stdlib = s.stdlib) : Adds P s u := by
  intro key h
  rw [same] at h
  exact .inr h

theorem adds_of_named (named : P path) (h : Adds (· = path) s u) : Adds P s u := by
  intro key filed
  refine (h key filed).imp_left fun same => ?_
  rwa [same]

/-- The contract of a task that files only under keys of a kind. -/
def filing (P : String → Prop) : Contract State Job where
  step := Adds P
  waits _ := True
  pause _ := True
  renews _ := False

theorem easy_filing : (filing P).Easy where
  waits _ := trivial
  loops _ _ _ _ _ := ⟨adds_of_eq rfl, trivial⟩

theorem asks_filing : Engine.Asks fun r => r.Abides (filing P) where
  done := Routine.abides_done
  fail := Routine.abides_fail
  cancelled := Routine.abides_cancelled
  read := Routine.abides_read
  onEnd hr next := hr.onEnd next
  within d late _ hr := Routine.abides_within easy_filing d late hr
  awaitTask := Routine.abides_awaitTask easy_filing
  join method params := Routine.abides_act fun s _ =>
    ⟨adds_of_eq (still_joinRequest method params s).stdlib, trivial⟩

theorem adds_findModule (path : String) (s : State) : Adds (· = path) s (findModule path s).1 := by
  intro key h
  rw [findModule_eq] at h
  cases decided : (s.stdlib.ask s.now s.bridge.generation path).2 with
  | found | absent | join =>
    rw [decided] at h
    exact .inr (StdlibIndex.files_of_ask h)
  | load =>
    rw [decided] at h
    exact (StdlibIndex.files_of_noteLoading h).imp_right StdlibIndex.files_of_ask

theorem filing_findModule (named : P path) :
    (Routine.act (findModule path) : Act (Except Nat (Option StdlibModule))).Abides (filing P) :=
  Routine.abides_act fun s _ => ⟨adds_of_named named (adds_findModule path s), trivial⟩

/-- Whoever asks for a module files under its clean path. -/
theorem filing_getModule (path : String) :
    (getModule path).Abides (filing (· = StdlibModule.cleanPath path)) :=
  asks_filing.getModule fun _ => filing_findModule rfl

/-- A load files under its path. -/
theorem filing_loadBody (named : P path) : (loadBody path).Abides (filing P) := by
  have all := @asks_filing P
  have remember : (loadBody.remember path).Abides (filing P) :=
    Routine.abides_modify fun _ _ =>
      ⟨adds_of_named named fun _ h => StdlibIndex.files_of_rememberFailure h, trivial⟩
  unfold loadBody
  refine all.bind (all.orFailure (all.ask _)) fun answer => ?_
  split
  · split
    · exact all.done _
    · exact all.bind remember fun _ => all.done _
  · dsimp only
    split
    · refine all.bind (all.read _) fun now => all.bind ?_ fun _ => all.done _
      refine Routine.abides_modify fun s _ => ⟨adds_of_named named fun key h => ?_, trivial⟩
      split at h <;> exact StdlibIndex.files_of_store h
    · exact all.bind remember fun _ => all.done _

/-! ## Turns -/

/-- The clean path of something that can be asked for.  Which of these are fixed by cleaning once
more is what the theorem is about. -/
def IsKey (key : String) : Prop :=
  key ≠ "" ∧ ∃ path, StdlibModule.cleanPath path = key

theorem consults_filing : Consults fun r => r.Abides (filing IsKey) where
  toAsks := asks_filing
  find named := filing_findModule ⟨fun empty => named (String.isEmpty_iff.2 empty), _, rfl⟩
  keep _ := Routine.abides_modify fun _ _ => ⟨adds_of_eq rfl, trivial⟩

/-- Every task files under keys, as long as loads are of keys. -/
theorem filing_body (loads : ∀ path, job = .load path → IsKey path) :
    (rules.body job).Abides (filing IsKey) := by
  have all := consults_filing
  cases job with
  | call c =>
    cases c with
    | module asked => exact all.bind (all.getModule asked) fun _ => all.done _
    | resolve name uri => exact all.bind (all.lookup name uri) fun _ => all.done _
    | visible uri => exact all.bind (all.visible uri) fun _ => all.done _
    | _ => exact all.done _
  | request => exact all.bind (all.read _) fun t => Routine.abides_await easy_filing _
  | load path => exact filing_loadBody (loads path rfl)
  | _ => exact all.done _

/-- What a task that waits has left to do files under keys, as long as loads are of keys. -/
def LeftFiling (job : Job) (rest : Rest State Trouble Value Job) : Prop :=
  (∀ path, job = .load path → IsKey path) → ∀ e, (rest e).Abides (filing IsKey)

theorem leavesOver_filing : LeavesOver LeftFiling rules where
  first run loads := (filing_body loads).rest (fun _ => trivial) run
  next left run loads := (left loads _).rest (fun _ => trivial) run

/-! ## Courses -/

/-- All that is filed is filed under keys.  Modules, failures and loads under way all count as
filed. -/
def Filed (s : State) : Prop :=
  ∀ key, s.stdlib.Files key → IsKey key

namespace Filed

theorem of_adds (h : Filed s) (adds : Adds IsKey s u) : Filed u :=
  fun key filed => (adds key filed).elim id (h key)

theorem of_eq (h : Filed s) (same : u.stdlib = s.stdlib) : Filed u :=
  h.of_adds (adds_of_eq same)

theorem steps (h : Filed s) (steps : Relation.ReflTransGen (filing IsKey).step s u) : Filed u := by
  induction steps with
  | refl => exact h
  | tail _ step ih => exact ih.of_adds step

theorem happens (h : Filed s) (e : Event ω) : Filed (occur worker e s) := by
  cases e with
  | answered t choice => exact h.of_eq (still_answer worker t choice s).stdlib
  | cleared => exact fun key filed => h key (StdlibIndex.files_of_clear filed)
  | _ => exact h.of_eq rfl

theorem hook (h : Filed s) (k : Hook) : Filed (rules.hook k s) := by
  cases k with
  | endLoading path => exact fun key filed => h key (StdlibIndex.files_of_endLoading filed)
  | _ => exact h.of_eq rfl

/-- In the turn of a task all that is filed is filed under keys: a load is filed itself, so it is of
one. -/
theorem turn (h : Filed m.state) (holds : (pact S).Holds (i ::ₘ Q) m) (left : m.LeftOver LeftFiling)
    (begins : m.Begins rules i t job r m') : r.Abides (filing IsKey) := by
  have loads (path : String) (load : job = .load path) : IsKey path := by
    have filed : m.state.stdlib.Loads path t := holds.sound.relies t _ nofun begins.jobOf path load
    exact h path filed.files
  cases begins with
  | starts => exact filing_body loads
  | resumes task waiting => exact left _ _ _ waiting (Loop.jobOf_of_task? task) loads _

/-- Whatever is ready can be done. -/
theorem runs (h : Filed m.state) (holds : (pact S).Holds (i ::ₘ Q) m)
    (left : m.LeftOver LeftFiling) :
    Filed (m.runReady rules i).state := by
  rcases m.begins_or_idle rules
    i with ⟨t, job, r, m', begins⟩ | ⟨k, signal, rfl⟩ | same | ⟨f, now, same⟩
  · have begun : Filed (Machine.turnOf t m'.state) := h.of_eq (still_begins begins).stdlib
    obtain ⟨steps, -⟩ := Machine.runRoutine_keeps (h.turn holds left begins _ trivial)
    rw [begins.runReady]
    exact (begun.steps steps).of_eq (still_proceed rfl).stdlib
  · exact h.hook k
  · rwa [same]
  · rw [same]
    exact h.of_eq rfl

end Filed

/-- Along every course all that is filed is filed under keys.  Whatever the worker answers, and
whatever else is asked. -/
theorem filed_of_leads
    (led : Leads rules (occur worker) (opening settings typedbBudget stdlibBudget host sink) os d) :
    Filed d.state := by
  have law := lawful (anyData worker settings.stdlibModules stdlibBudget)
  have first := holds_opening (S := anyData worker settings.stdlibModules stdlibBudget)
    typedbBudget host sink
    rfl rfl
  -- What happens from outside files nothing; what is done is a turn of a task, or forgets
  -- something.
  induction led with
  | refl => rintro key (h | h | h) <;> exact absurd rfl h
  | happens _ e ih => exact ih.happens e
  | gathers _ ih => exact ih.of_eq (still_gather _).stdlib
  | @runs os m i before after earlier ih =>
    have allowed := allowed_anyData worker settings.stdlibModules stdlibBudget
      (opening settings typedbBudget stdlibBudget host sink) os
    have holds := (law.leads first earlier allowed).holds
    have left := law.leftovers leavesOver_filing first nofun earlier allowed
    rw [multiset_middle] at holds
    exact ih.runs holds left

/-! ## Paths -/

/-- Looks a key up in the index, and waits for the load of its module if there is one. -/
def consult (key : String) : Act (Option StdlibModule) := do
  match ← Routine.act (findModule key) with
  | .ok found => return found
  | .error task =>
    match ← (Routine.awaitTask task : Act Value) with
    | .module found => return found
    | _ => return none

/-- A path is looked up by what cleaning leaves of it, if anything. -/
theorem getModule_eq (path : String) :
    getModule path =
      if (StdlibModule.cleanPath path).isEmpty then .done none
        else consult (StdlibModule.cleanPath path) :=
  rfl

/-- Nothing is done for a path if and only if nothing is left of it. -/
theorem getModule_eq_done_iff {path : String} :
    getModule path = .done none ↔ (StdlibModule.cleanPath path).isEmpty = true := by
  rw [getModule_eq]
  split
  next empty => exact ⟨fun _ => empty, fun _ => rfl⟩
  next named => exact ⟨nofun, fun empty => absurd empty named⟩

open StdlibModule (Ragged isDot)
open Text (Trimmed isBlank)

/-- Along every course the keys of the index are clean paths; and whoever asks for the module at a
path looks it up by the clean path, and files nothing under any other key, and neither does the load
that comes of it.  A clean path has no dots at its ends.  If and only if the path was not ragged, it
has no blanks there either, is left alone when it is cleaned again, and is empty for a path of
blanks and dots alone, so that nothing is done. -/
theorem filed_under_fixed_keys_iff
    (led : Leads rules (occur worker) (opening settings typedbBudget stdlibBudget host sink) os d) :
    (∀ key, d.state.stdlib.Files key → key ≠ "" ∧ ∃ path, StdlibModule.cleanPath path = key) ∧
    ∀ path, let key := StdlibModule.cleanPath path
      getModule path = (if key.isEmpty then .done none else consult key) ∧
      (getModule path).Abides (filing (· = key)) ∧ (loadBody key).Abides (filing (· = key)) ∧
      Trimmed isDot key.toList ∧
      (Trimmed isBlank key.toList ↔ ¬ Ragged path) ∧
      (StdlibModule.cleanPath key = key ↔ ¬ Ragged path) ∧
      ((∀ c ∈ path.toList, isBlank c = true ∨ isDot c = true) →
        (getModule path = .done none ↔ ¬ Ragged path)) := by
  refine ⟨filed_of_leads led, fun path => ?_⟩
  refine ⟨getModule_eq path, filing_getModule path, filing_loadBody rfl,
    StdlibModule.trimmed_isDot_cleanPath path, StdlibModule.trimmed_isBlank_cleanPath_iff,
    StdlibModule.cleanPath_cleanPath_iff, fun bare => ?_⟩
  rw [getModule_eq_done_iff]
  exact StdlibModule.isEmpty_cleanPath_iff bare

/-- A module has been asked for by a ragged path and not found. -/
def raggedAsked : Moment State Trouble Value Job Hook :=
  { machine := ((opening {} 1000 1000 desk .absent).happen (occur denier)
      (.called (.module ". Nope"))).machine.settle rules 8 }

/-- The worker has not found it. -/
def raggedDenied : Moment State Trouble Value Job Hook :=
  { machine := (raggedAsked.happen (occur denier) (.answered 2 ())).machine.settle rules 8 }

/-- The failure is filed under a key with a blank, and cleaning that key changes it. -/
theorem ragged_path_is_filed_with_blank :
    raggedDenied.state.stdlib.Files " Nope" ∧
      (" Nope" ≠ "" ∧ ∃ path, StdlibModule.cleanPath path = " Nope") ∧
      StdlibModule.cleanPath " Nope" ≠ " Nope" ∧ getModule ". ." ≠ .done none := by
  have asked : Leads rules (occur denier) (opening {} 1000 1000 desk .absent) _ raggedAsked :=
    Leads.settle (Leads.refl.happens _) 8
  have led : Leads rules (occur denier) (opening {} 1000 1000 desk .absent) _ raggedDenied :=
    Leads.settle (asked.happens (.answered 2 ())) 8
  obtain ⟨keys, paths⟩ := filed_under_fixed_keys_iff led
  have filed : raggedDenied.state.stdlib.Files " Nope" := by
    have noted : (Assoc.get? " Nope" raggedDenied.state.stdlib.failures).isSome = true := by
      decide +kernel
    exact .inr (.inl (Option.isSome_iff_ne_none.1 noted))
  have ragged (rest : List Char) (left : Text.allBlank rest = false) :
      Ragged (String.ofList ('.' :: ' ' :: rest)) := by
    refine .inl ⟨⟨[], nofun⟩, ⟨['.'], by simp [isDot]⟩, ' ', rest, ?_, by simp, by decide, left⟩
    simp
  have key : StdlibModule.cleanPath ". Nope" = " Nope" := by decide +kernel
  have fixed := (paths ". Nope").2.2.2.2.2.1
  have bare : ∀ c ∈ ". .".toList, isBlank c = true ∨ isDot c = true := by simp [isBlank, isDot]
  have nothing := (paths ". .").2.2.2.2.2.2 bare
  rw [key] at fixed
  refine ⟨filed, keys _ filed, fun same => fixed.1 same ?_, fun done => nothing.1 done ?_⟩
  · exact ragged "Nope".toList (by decide)
  · exact ragged ".".toList (by decide)

end Engine.Library

end PikeAnalysis
