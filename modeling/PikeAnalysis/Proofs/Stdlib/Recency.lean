import Mathlib.Data.List.Dedup
import PikeAnalysis.Proofs.Stdlib.Limits

/-!
# The least recently used modules are evicted

A module is used when it is asked for and found, and when it is stored.  Nothing but the order in
which the loaded modules are kept tells when each was used last.  That order is kept by whatever is
done to the index (`Recent.perform`), so that a module which comes makes room for itself at the
expense of those that have not been used for longest (`evicts_least_recently_used`).

When each module was used last is read off the history (`uses`), and the index keeps no time, only
an order.  The invariant says that the two agree: the modules stand in the order in which their last
uses came.  Asking for a module that is not there uses nothing, and storing one uses it.
-/

namespace PikeAnalysis.StdlibIndex

variable {x : StdlibIndex} {path : String} {m : StdlibModule} {used : List String}

/-! ## Histories -/

/-- What can be done to an index.  Loads are told of by their begin and their end; what they were
told is a module to store or a failure to remember. -/
inductive Operation where
  | ask (now : Instant) (generation : Nat) (path : String)
  | noteLoading (path : String) (task : Nat)
  | endLoading (path : String)
  | store (m : StdlibModule)
  | rememberFailure (now : Instant) (generation : Nat) (path : String)
  | clear

/-- The index after an operation. -/
def perform (x : StdlibIndex) : Operation → StdlibIndex
  | .ask now generation path => (x.ask now generation path).1
  | .noteLoading path task => x.noteLoading path task
  | .endLoading path => x.endLoading path
  | .store m => x.store m
  | .rememberFailure now generation path => x.rememberFailure now generation path
  | .clear => x.clear

/-- What becomes of an index. -/
def run (x : StdlibIndex) (ops : List Operation) : StdlibIndex :=
  ops.foldl perform x

/-- The module that an operation uses: one that is asked for and found, or one that is stored. -/
def use? (x : StdlibIndex) : Operation → Option String
  | .ask _ _ path => if Assoc.has path x.modules then some path else none
  | .store m => if x.isTooLarge m then none else some m.path
  | _ => none

/-- The modules that are used, one after the other.  Asking for a module that is there uses it, and
so does storing it. -/
def uses (x : StdlibIndex) : List Operation → List String
  | [] => []
  | op :: ops => (x.use? op).toList ++ uses (x.perform op) ops

/-! ## Recency -/

/-- What is appended comes for the last time at the end, and not before. -/
theorem dedup_concat (l : List String) (p : String) :
    (l ++ [p]).dedup = l.dedup.filter (· ≠ p) ++ [p] := by
  induction l with
  | nil => rfl
  | cons a l ih =>
    rw [List.cons_append]
    by_cases hmem : a ∈ l
    · rw [List.dedup_cons_of_mem (List.mem_append_left _ hmem), List.dedup_cons_of_mem hmem, ih]
    · by_cases hlast : a = p
      · subst hlast
        rw [List.dedup_cons_of_mem (by simp), List.dedup_cons_of_notMem hmem, ih,
          List.filter_cons_of_neg (by simp)]
      · rw [List.dedup_cons_of_notMem (by simp [hmem, hlast]), List.dedup_cons_of_notMem hmem, ih,
          List.filter_cons_of_pos (by simpa using hlast), List.cons_append]

/-- The modules are counted, and stand in the order in which they were last used.  Modules that have
been evicted are in the history and not in the index. -/
structure Recent (x : StdlibIndex) (used : List String) : Prop where
  distinct : (Assoc.keys x.modules).Nodup
  memory : x.memory = totalBytes x.modules
  order : (Assoc.keys x.modules).Sublist used.dedup

/-- Some of the other modules, in their order, and the one that is used. -/
theorem Recent.order_concat (h : x.Recent used) {rest : List (String × StdlibModule)}
    (others : rest.Sublist (Assoc.erase path x.modules)) (m : StdlibModule) :
    (Assoc.keys (rest ++ [(path, m)])).Sublist (used ++ [path]).dedup := by
  rw [dedup_concat, Assoc.keys_append]
  refine List.Sublist.append ?_ (List.Sublist.refl _)
  have hkeys : (Assoc.keys rest).Sublist ((Assoc.keys x.modules).filter (· ≠ path)) :=
    Assoc.keys_erase path x.modules ▸ others.map _
  exact hkeys.trans (h.order.filter _)

theorem Recent.ask (h : x.Recent used) (now : Instant) (generation : Nat) (path : String) :
    (x.ask now generation path).1.Recent (used ++ (x.use? (.ask now generation path)).toList) := by
  cases hm : Assoc.get? path x.modules with
  | some m =>
    have huse : x.use? (.ask now generation path) = some path := by simp [use?, Assoc.has, hm]
    have hask : (x.ask now generation path).1 =
        { x with modules := Assoc.erase path x.modules ++ [(path, m)], hits := x.hits + 1 } := by
      rw [StdlibIndex.ask, hm]
    rw [hask, huse]
    refine ⟨distinct_moved h.distinct path m, ?_, h.order_concat (.refl _) m⟩
    change x.memory = totalBytes (Assoc.erase path x.modules ++ [(path, m)])
    rw [totalBytes_append, totalBytes_erase h.distinct hm, totalBytes_singleton, h.memory]
    exact (Int.sub_add_cancel _ _).symm
  | none =>
    have huse : x.use? (.ask now generation path) = none := by simp [use?, Assoc.has, hm]
    rw [huse, Option.toList_none, List.append_nil]
    rcases ask_cases x now generation path with
      ⟨m, hsome, -⟩ | ⟨-, -, -, he⟩ | ⟨_, -, -, -, he⟩ | ⟨-, -, -, he⟩
    · cases hm.symm.trans hsome
    all_goals
      rw [he]
      exact ⟨h.distinct, h.memory, h.order⟩

theorem Recent.store (h : x.Recent used) (m : StdlibModule) :
    (x.store m).Recent (used ++ (x.use? (.store m)).toList) := by
  cases hfits : x.isTooLarge m with
  | true =>
    have huse : x.use? (.store m) = none := by simp [use?, hfits]
    rwa [store_of_tooLarge hfits, huse, Option.toList_none, List.append_nil]
  | false =>
    have huse : x.use? (.store m) = some m.path := by simp [use?, hfits]
    obtain ⟨gone, left, hshortest, hmodules, hmemory, -⟩ := store_spec h.distinct h.memory hfits
    have hleft : left.Sublist (Assoc.erase m.path x.modules) :=
      hshortest.split ▸ List.sublist_append_right gone left
    rw [huse]
    refine ⟨?_, ?_, ?_⟩
    · rw [hmodules]
      exact (distinct_moved h.distinct m.path m).sublist ((hleft.append_right _).map _)
    · rw [hmemory, hmodules, totalBytes_append, totalBytes_singleton]
    · rw [hmodules]
      exact h.order_concat hleft m

/-- Whatever is done leaves the modules in the order in which they were last used. -/
theorem Recent.perform (h : x.Recent used) (op : Operation) :
    (x.perform op).Recent (used ++ (x.use? op).toList) := by
  cases op with
  | ask now generation path => exact h.ask now generation path
  | store m => exact h.store m
  | clear => exact ⟨.nil, rfl, List.nil_sublist _⟩
  | noteLoading | endLoading | rememberFailure =>
    change Recent _ (used ++ [])
    rw [List.append_nil]
    exact ⟨h.distinct, h.memory, h.order⟩

theorem Recent.run (h : x.Recent used) (ops : List Operation) :
    (x.run ops).Recent (used ++ x.uses ops) := by
  induction ops generalizing x used with
  | nil => simpa [StdlibIndex.run, uses] using h
  | cons op ops ih =>
    rw [uses, ← List.append_assoc]
    exact ih (h.perform op)

/-! ## Eviction -/

/-- Whatever has been done to an empty index, its modules stand in the order in which they were last
used.  If then a module is stored that is not over the budget by itself, it stays, and of the others
the shortest prefix goes without which the rest and the new module are within the limits. -/
theorem evicts_least_recently_used (maxModules : Nat) (budget : Int) (negativeTtl : Duration)
    (ops : List Operation) :
    let opening : StdlibIndex := { maxModules, budget, negativeTtl }
    let x := opening.run ops
    (Assoc.keys x.modules).Sublist (opening.uses ops).dedup ∧
      ∀ m : StdlibModule, x.isTooLarge m = false →
        ∃ gone left, ShortestPrefix (x.HasRoom m) (Assoc.erase m.path x.modules) gone left ∧
          (x.store m).modules = left ++ [(m.path, m)] ∧
          (x.store m).memory = totalBytes left + m.sizeBytes ∧
          (x.store m).evictions = x.evictions + gone.length := by
  intro opening x
  have hrecent : x.Recent ([] ++ opening.uses ops) :=
    Recent.run (x := opening) ⟨.nil, rfl, List.nil_sublist _⟩ ops
  exact ⟨hrecent.order, fun m fits => store_spec hrecent.distinct hrecent.memory fits⟩

/-- Of two modules the one goes that was not asked for again. -/
example :
    let sized (path : String) : StdlibModule := { path, symbols := [], sizeBytes := 1 }
    let x := run { maxModules := 2 }
      [.store (sized "Array"), .store (sized "Stdio"), .ask 0 0 "Array", .store (sized "String")]
    Assoc.keys x.modules = ["Array", "String"] := by
  decide +kernel

end PikeAnalysis.StdlibIndex
