import PikeAnalysis.Proofs.Program.Consistency
import PikeAnalysis.Proofs.ShortestPrefix
import PikeAnalysis.Stdlib.Index

/-!
# The index of the standard library keeps its limits

The bytes of the loaded modules are counted by differences, and modules are evicted one by one until
the limits are kept, up to the module that is being stored.  `StdlibIndex.Kept` says what holds of
an index that was used properly: modules are stored only if they are not known to be missing, and
known to be missing only if they are not stored.

The order of the modules is the order in which they were last used, so evicting takes from the
front, and the module that is being stored is at the end.  What storing does is one statement
(`store_spec`): the rest is what is left of the others when the shortest prefix has gone, and the
new module comes last.  A module that is larger than the whole budget is not stored, and evicts
nothing.

Modules and failures are never of the same path.  That is a part of `Kept` which storing cannot see
to by itself, so it is asked there that no failure is known of the module.  Loads that are under way
are in a table of their own and have no bytes.
-/

namespace PikeAnalysis.StdlibIndex

variable {x : StdlibIndex} {path : String} {m : StdlibModule}

/-- The bytes of some modules. -/
def totalBytes (modules : List (String × StdlibModule)) : Int :=
  (modules.map fun e => (e.2.sizeBytes : Int)).sum

/-- What is counted and known of the modules agrees, and the limits are kept.  It is what
`StdlibIndex` is supposed to be, and what its operations may count on. -/
structure Kept (x : StdlibIndex) : Prop where
  distinct : (Assoc.keys x.modules).Nodup
  memory : x.memory = totalBytes x.modules
  /-- A budget below nothing leaves no module. -/
  within : x.memory ≤ max x.budget 0
  few : x.modules.length ≤ x.maxModules
  apart : ∀ path, Assoc.get? path x.modules ≠ none → Assoc.get? path x.failures = none

theorem totalBytes_append (xs ys : List (String × StdlibModule)) :
    totalBytes (xs ++ ys) = totalBytes xs + totalBytes ys := by
  simp [totalBytes]

@[simp] theorem totalBytes_singleton (e : String × StdlibModule) :
    totalBytes [e] = e.2.sizeBytes := by
  simp [totalBytes]

theorem totalBytes_erase (distinct : (Assoc.keys x.modules).Nodup)
    (h : Assoc.get? path x.modules = some m) :
    totalBytes (Assoc.erase path x.modules) = totalBytes x.modules - m.sizeBytes :=
  TypeDatabase.sum_erase (fun m : StdlibModule => (m.sizeBytes : Int)) distinct h

/-- Moving a key to the end leaves the keys distinct. -/
theorem distinct_moved (distinct : (Assoc.keys x.modules).Nodup) (path : String)
    (m : StdlibModule) :
    (Assoc.keys (Assoc.erase path x.modules ++ [(path, m)])).Nodup := by
  rw [Assoc.keys_append, Assoc.keys_erase]
  refine List.nodup_append.2 ⟨distinct.filter _, List.nodup_singleton _, ?_⟩
  rintro k hk k' hk' rfl
  rw [List.mem_singleton.1 hk'] at hk
  simpa using (List.mem_filter.1 hk).2

theorem get?_moved (path other : String) (m : StdlibModule) :
    Assoc.get? other (Assoc.erase path x.modules ++ [(path, m)]) =
      if other = path then some m else Assoc.get? other x.modules := by
  rw [Assoc.get?_append, Assoc.get?_erase]
  by_cases h : other = path
  · simp [h, Assoc.get?]
  · simp [h, Ne.symm h, Assoc.get?]

/-! ## Asking -/

/-- Asking changes neither the limits nor the loads, and says what is known. -/
theorem ask_cases (x : StdlibIndex) (now : Instant) (generation : Nat) (path : String) :
    (∃ m, Assoc.get? path x.modules = some m ∧ (x.ask now generation path).2 = .found m ∧
      (x.ask now generation path).1 =
        { x with modules := Assoc.erase path x.modules ++ [(path, m)], hits := x.hits + 1 }) ∨
    (Assoc.get? path x.modules = none ∧ Assoc.get? path x.failures ≠ none ∧
      (x.ask now generation path).2 = .absent ∧
      (x.ask now generation path).1 = { x with negativeHits := x.negativeHits + 1 }) ∨
    (∃ t, Assoc.get? path x.modules = none ∧ Assoc.get? path x.loading = some t ∧
      (x.ask now generation path).2 = .join t ∧
      (x.ask now generation path).1 = { x with failures := Assoc.erase path x.failures }) ∨
    (Assoc.get? path x.modules = none ∧ Assoc.get? path x.loading = none ∧
      (x.ask now generation path).2 = .load ∧
      (x.ask now generation path).1 =
        { x with failures := Assoc.erase path x.failures, misses := x.misses + 1 }) := by
  unfold ask
  cases hm : Assoc.get? path x.modules with
  | some m => exact .inl ⟨m, rfl, rfl, rfl⟩
  | none =>
    dsimp only
    split
    · next hknown =>
      refine .inr (.inl ⟨rfl, ?_, rfl, rfl⟩)
      intro hnone
      rw [hnone] at hknown
      cases hknown
    · cases ht : Assoc.get? path x.loading with
      | some t => exact .inr (.inr (.inl ⟨t, rfl, rfl, rfl, rfl⟩))
      | none => exact .inr (.inr (.inr ⟨rfl, rfl, rfl, rfl⟩))

theorem Kept.forget (h : x.Kept) (path : String) :
    Kept { x with failures := Assoc.erase path x.failures } :=
  { h with
    apart := fun other hother => by
      have hnone := h.apart other hother
      rw [Assoc.get?_erase, hnone, ite_self] }

theorem Kept.ask (h : x.Kept) (now : Instant) (generation : Nat) (path : String) :
    (x.ask now generation path).1.Kept := by
  rcases ask_cases x now generation path with
    ⟨m, hm, -, he⟩ | ⟨-, -, -, he⟩ | ⟨t, -, -, -, he⟩ | ⟨-, -, -, he⟩ <;>
    rw [he]
  · have htotal : totalBytes (Assoc.erase path x.modules ++ [(path, m)]) =
      totalBytes x.modules := by
      rw [totalBytes_append, totalBytes_erase h.distinct hm]
      simp [totalBytes]
    refine
      { distinct := distinct_moved h.distinct path m
        memory := h.memory.trans htotal.symm
        within := h.within
        few := ?_
        apart := fun other hother => ?_ }
    · -- To move a module to the end changes neither how many there are nor what they take.
      have hperm : (Assoc.erase path x.modules ++ [(path, m)]).Perm x.modules := by
        refine Assoc.perm_of_get?_eq (distinct_moved h.distinct path m) h.distinct fun key => ?_
        rw [get?_moved]
        split
        · next hkey => rw [hkey, hm]
        · rfl
      exact Nat.le_trans (Nat.le_of_eq hperm.length_eq) h.few
    · rw [get?_moved] at hother
      refine h.apart other ?_
      split at hother
      · next hkey => simp [hkey, hm]
      · exact hother
  · exact { h with }
  · exact h.forget path
  · exact { h.forget path with }

/-! ## Storing -/

/-- There is room for a module beside some others.  An index that may hold no module holds the one
that was just stored. -/
def HasRoom (x : StdlibIndex) (m : StdlibModule) (others : List (String × StdlibModule)) : Prop :=
  others.length + 1 ≤ max 1 x.maxModules ∧ totalBytes others + m.sizeBytes ≤ x.budget

/-- What evicting leaves of the modules, given that the last one is kept and fits. -/
theorem evict_spec {keep : String} {kept : StdlibModule} (front : List (String × StdlibModule))
    (hmodules : x.modules = front ++ [(keep, kept)]) (distinct : (Assoc.keys x.modules).Nodup)
    (memory : x.memory = totalBytes x.modules) (fits : (kept.sizeBytes : Int) ≤ x.budget) :
    ∃ gone left, ShortestPrefix (x.HasRoom kept) front gone left ∧
      (evict keep x.modules x).modules = left ++ [(keep, kept)] ∧
      (evict keep x.modules x).memory = totalBytes left + kept.sizeBytes ∧
      (evict keep x.modules x).evictions = x.evictions + gone.length := by
  -- By induction on what stands before the module that is kept, which is what evicting consumes.
  induction front generalizing x with
  | nil =>
    rw [List.nil_append] at hmodules
    have hsame : evict keep x.modules x = x := by
      rw [hmodules, evict, if_pos (.inr rfl)]
    rw [hsame]
    refine ⟨[], [], .nil ⟨Nat.le_max_left _ _, ?_⟩, hmodules, ?_, rfl⟩
    · simpa [totalBytes] using fits
    · rw [memory, hmodules, ← List.nil_append [(keep, kept)], totalBytes_append,
        totalBytes_singleton]
  | cons e front ih =>
    obtain ⟨path, m⟩ := e
    have hne : path ≠ keep := by
      rintro rfl
      rw [hmodules] at distinct
      simp [Assoc.keys] at distinct
    have htotal : x.memory = totalBytes ((path, m) :: front) + kept.sizeBytes := by
      rw [memory, hmodules, totalBytes_append, totalBytes_singleton]
    have hlength : x.modules.length = ((path, m) :: front).length + 1 := by
      rw [hmodules, List.length_append]
      rfl
    rw [hmodules, List.cons_append, evict]
    split
    · next hdone =>
      obtain ⟨hfew, hwithin⟩ := hdone.resolve_right hne
      rw [hlength] at hfew
      rw [htotal] at hwithin
      exact ⟨[], (path, m) :: front, .nil ⟨Nat.le_trans hfew (Nat.le_max_right _ _), hwithin⟩,
        hmodules, htotal, rfl⟩
    · next hmore =>
      have hget : Assoc.get? path x.modules = some m := by simp [hmodules, Assoc.get?]
      have hrest : Assoc.erase path x.modules = front ++ [(keep, kept)] := by
        have hgone : path ∉ Assoc.keys (front ++ [(keep, kept)]) := by
          rw [hmodules] at distinct
          exact (List.nodup_cons.1 distinct).1
        have herase := Assoc.erase_of_get?_eq_none (Assoc.get?_eq_none_iff.2 hgone)
        rw [hmodules, List.cons_append]
        simpa [Assoc.erase] using herase
      have hdistinct : (Assoc.keys (Assoc.erase path x.modules)).Nodup := by
        rw [Assoc.keys_erase]
        exact distinct.filter _
      have hmemory : x.memory - m.sizeBytes = totalBytes (Assoc.erase path x.modules) := by
        rw [totalBytes_erase distinct hget, memory]
      -- There was no room with the first module, so every prefix that leaves room contains it.
      have hfull : ¬ x.HasRoom kept ((path, m) :: front) := fun hroom => by
        obtain ⟨hfew, hwithin⟩ := hroom
        refine hmore (.inl ⟨?_, htotal ▸ hwithin⟩)
        rw [List.length_cons] at hfew hlength
        omega
      obtain ⟨gone, left, hshortest, hleft, hbytes, hcount⟩ := ih
        (x := { x with
          modules := Assoc.erase path x.modules
          memory := x.memory - m.sizeBytes
          evictions := x.evictions + 1 })
        hrest hdistinct hmemory fits
      rw [hrest] at hleft hbytes hcount ⊢
      refine ⟨(path, m) :: gone, left, hshortest.cons hfull, hleft, hbytes, hcount.trans ?_⟩
      rw [List.length_cons, Nat.add_right_comm, Nat.add_assoc]

/-- Evicting changes nothing but the modules and what is counted. -/
theorem evict_eq (keep : String) (entries : List (String × StdlibModule)) (x : StdlibIndex) :
    evict keep entries x =
      { x with
        modules := (evict keep entries x).modules
        memory := (evict keep entries x).memory
        evictions := (evict keep entries x).evictions } := by
  induction entries generalizing x with
  | nil => rfl
  | cons e rest ih =>
    obtain ⟨path, m⟩ := e
    rw [evict]
    split
    · rfl
    · exact ih _

/-- What storing leaves of the others, the least recently used first, and the new module last. -/
theorem store_spec (distinct : (Assoc.keys x.modules).Nodup)
    (memory : x.memory = totalBytes x.modules) (fits : x.isTooLarge m = false) :
    ∃ gone left, ShortestPrefix (x.HasRoom m) (Assoc.erase m.path x.modules) gone left ∧
      (x.store m).modules = left ++ [(m.path, m)] ∧
      (x.store m).memory = totalBytes left + m.sizeBytes ∧
      (x.store m).evictions = x.evictions + gone.length := by
  have hmemory : x.memory - ((Assoc.get? m.path x.modules).elim 0 fun old => (old.sizeBytes : Int))
      + m.sizeBytes = totalBytes (Assoc.erase m.path x.modules ++ [(m.path, m)]) := by
    rw [totalBytes_append, totalBytes_singleton, memory]
    cases hold : Assoc.get? m.path x.modules with
    | none =>
      rw [Assoc.erase_of_get?_eq_none hold]
      simp
    | some old => rw [totalBytes_erase distinct hold, Option.elim_some]
  rw [store, if_neg (by rw [fits]; exact Bool.false_ne_true)]
  exact evict_spec
    (x := { x with
      modules := Assoc.erase m.path x.modules ++ [(m.path, m)]
      memory := x.memory - ((Assoc.get? m.path x.modules).elim 0 fun old => (old.sizeBytes : Int))
        + m.sizeBytes })
    _ rfl (distinct_moved distinct m.path m) hmemory (by simpa [isTooLarge] using fits)

theorem store_of_tooLarge (h : x.isTooLarge m = true) : x.store m = x := by
  rw [store, if_pos h]

/-- Storing changes nothing but the modules and what is counted. -/
theorem store_eq (x : StdlibIndex) (m : StdlibModule) :
    x.store m =
      { x with
        modules := (x.store m).modules
        memory := (x.store m).memory
        evictions := (x.store m).evictions } := by
  unfold store
  split
  · rfl
  · exact evict_eq _ _ _

/-- Evicting adds nothing. -/
theorem of_get?_evict {keep : String} {entries : List (String × StdlibModule)}
    {found : StdlibModule}
    (h : Assoc.get? path (evict keep entries x).modules = some found) :
    Assoc.get? path x.modules = some found := by
  induction entries generalizing x with
  | nil => exact h
  | cons e rest ih =>
    obtain ⟨other, m⟩ := e
    rw [evict] at h
    split at h
    · exact h
    · exact (Assoc.of_get?_erase (ih h)).2

/-- What is found after storing is the new module, or was there before. -/
theorem of_get?_store {found : StdlibModule}
    (h : Assoc.get? path (x.store m).modules = some found) :
    (path = m.path ∧ found = m) ∨ Assoc.get? path x.modules = some found := by
  unfold store at h
  split at h
  · exact .inr h
  · have moved := of_get?_evict h
    rw [get?_moved] at moved
    split at moved
    · next hpath => exact .inl ⟨hpath, (Option.some.inj moved).symm⟩
    · exact .inr moved

/-- A module is stored that is not known to be missing.  There has to be room for one at least,
which the newest one takes. -/
theorem Kept.store (h : x.Kept) (room : 1 ≤ x.maxModules)
    (hfailures : Assoc.get? m.path x.failures = none) :
    (x.store m).Kept := by
  have hother := store_eq x m
  have hfail : (x.store m).failures = x.failures := by rw [hother]
  have hbudget : (x.store m).budget = x.budget := by rw [hother]
  have hmax : (x.store m).maxModules = x.maxModules := by rw [hother]
  cases hfits : x.isTooLarge m with
  | true => rwa [store_of_tooLarge hfits]
  | false =>
    -- What is left after evicting is a suffix of what was there, with the new module at its end.
    obtain ⟨gone, left, hshortest, hmodules, hmemory, -⟩ := store_spec h.distinct h.memory hfits
    obtain ⟨hfew, hwithin⟩ := hshortest.enough
    refine
      { distinct := ?_
        memory := by rw [hmemory, hmodules, totalBytes_append, totalBytes_singleton]
        within := ?_
        few := ?_
        apart := fun path hpath => ?_ }
    · have hmoved := distinct_moved h.distinct m.path m
      rw [hshortest.split, List.append_assoc, Assoc.keys_append] at hmoved
      rw [hmodules]
      exact (List.nodup_append.1 hmoved).2.1
    · rw [hmemory, hbudget]
      exact Int.le_trans hwithin (Int.le_max_left _ _)
    · rwa [hmax, hmodules, List.length_append, ← Nat.max_eq_right room]
    · obtain ⟨found, hfound⟩ := Option.ne_none_iff_exists'.1 hpath
      rw [hfail]
      rcases of_get?_store hfound with ⟨rfl, -⟩ | hold
      · exact hfailures
      · exact h.apart path (by simp [hold])

/-- A module is known to be missing that is not stored. -/
theorem Kept.rememberFailure (h : x.Kept) (hmodules : Assoc.get? path x.modules = none)
    (now : Instant) (generation : Nat) : (x.rememberFailure now generation path).Kept :=
  { h with
    apart := fun other hother => by
      have hne : other ≠ path := by
        rintro rfl
        exact hother hmodules
      rw [StdlibIndex.rememberFailure, Assoc.get?_set_of_ne hne]
      exact h.apart other hother }

theorem Kept.noteLoading (h : x.Kept) (path : String) (task : Nat) :
    (x.noteLoading path task).Kept :=
  { h with }

theorem Kept.endLoading (h : x.Kept) (path : String) : (x.endLoading path).Kept :=
  { h with }

theorem Kept.clear (x : StdlibIndex) : x.clear.Kept where
  distinct := List.nodup_nil
  memory := rfl
  within := Int.le_max_right _ _
  few := Nat.zero_le _
  apart _ _ := rfl

/-! ## Loading -/

/-- A task loads a module that is neither loaded nor known to be missing.  Both are excluded at the
start of a load and stay so until it ends, since only a load stores a module or remembers a failure,
and there is one load for a path. -/
structure Loads (x : StdlibIndex) (path : String) (task : Nat) : Prop where
  loading : Assoc.get? path x.loading = some task
  modules : Assoc.get? path x.modules = none
  failures : Assoc.get? path x.failures = none

variable {other : String} {t u : Nat}

theorem Loads.ask (h : x.Loads other t) (now : Instant) (generation : Nat) (path : String) :
    (x.ask now generation path).1.Loads other t := by
  have hfailures : Assoc.get? other (Assoc.erase path x.failures) = none := by
    rw [Assoc.get?_erase, h.failures, ite_self]
  rcases ask_cases x now generation path with
    ⟨m, hm, -, he⟩ | ⟨-, -, -, he⟩ | ⟨t, -, -, -, he⟩ | ⟨-, -, -, he⟩ <;>
    rw [he]
  · refine ⟨h.loading, ?_, h.failures⟩
    rw [get?_moved, if_neg, h.modules]
    rintro rfl
    rw [h.modules] at hm
    cases hm
  · exact ⟨h.loading, h.modules, h.failures⟩
  · exact ⟨h.loading, h.modules, hfailures⟩
  · exact ⟨h.loading, h.modules, hfailures⟩

theorem Loads.noteLoading (h : x.Loads other t) (hnone : Assoc.get? path x.loading = none)
    (task : Nat) :
    (x.noteLoading path task).Loads other t := by
  refine ⟨?_, h.modules, h.failures⟩
  rw [StdlibIndex.noteLoading, Assoc.get?_set_of_ne]
  · exact h.loading
  · rintro rfl
    rw [h.loading] at hnone
    cases hnone

/-- Different tasks load different modules. -/
theorem Loads.ne (h : x.Loads other t) (k : x.Loads path u) (hne : t ≠ u) : other ≠ path := by
  rintro rfl
  have hsame := h.loading.symm.trans k.loading
  exact hne (Option.some.inj hsame)

theorem Loads.store (h : x.Loads other t) (hne : other ≠ m.path) : (x.store m).Loads other t := by
  have hrest := store_eq x m
  refine ⟨by rw [hrest]; exact h.loading, ?_, by rw [hrest]; exact h.failures⟩
  by_contra hstored
  obtain ⟨found, hfound⟩ := Option.ne_none_iff_exists'.1 hstored
  rcases of_get?_store hfound with ⟨rfl, -⟩ | hold
  · exact hne rfl
  · rw [h.modules] at hold
    cases hold

theorem Loads.rememberFailure (h : x.Loads other t) (hne : other ≠ path) (now : Instant)
    (generation : Nat) : (x.rememberFailure now generation path).Loads other t := by
  refine ⟨h.loading, h.modules, ?_⟩
  rw [StdlibIndex.rememberFailure, Assoc.get?_set_of_ne hne]
  exact h.failures

theorem Loads.endLoading (h : x.Loads other t) (hne : other ≠ path) :
    (x.endLoading path).Loads other t := by
  refine ⟨?_, h.modules, h.failures⟩
  rw [StdlibIndex.endLoading, Assoc.get?_erase_of_ne hne]
  exact h.loading

theorem Loads.clear (h : x.Loads other t) : x.clear.Loads other t :=
  ⟨h.loading, rfl, rfl⟩

end PikeAnalysis.StdlibIndex
