import Mathlib.Algebra.BigOperators.Group.List.Basic
import Mathlib.Data.List.Nodup
import Mathlib.Data.List.Pairwise
import Mathlib.Tactic.Ring
import PikeAnalysis.Program.Database

/-!
# The type database agrees with itself

Six structures are kept beside the programs: their sizes in one sum, when each was stored, the names
that each declares, the holders of each name, and which documents are open and closed.  `Aligned`
says how all but the holders follow from the programs; it is kept by every operation, evictions
included (`aligned_run`).  With sizes that are not negative the sum also stays within the budget
(`consistent_after_operations`).

The invariant has two layers.  `Aligned` says that what is kept beside the programs follows from
them, and is kept by any operation whatever its arguments; `Fits` speaks of sizes and needs that
they are not negative.  The index by name is a layer of its own, in `Proofs/Program/NameIndex.lean`,
as it follows from the programs in their order.

Every operation is made of a few steps: a program is dropped, one is stored, a document is opened or
closed.  Each step has its lemma, and evicting is dropping one program after the other.
-/

namespace PikeAnalysis.TypeDatabase

/-! ## Histories -/

/-- What can be done to a database.  These are all the ways in which the database is changed.  The
theorems are about lists of them in any order, from the empty database on. -/
inductive Operation where
  | set (info : ProgramInfo)
  | remove (uri : String)
  | markOpen (uri : String)
  | markClosed (uri : String)
  | reopen (uri : String)
  | clear

/-- The database after an operation. -/
def perform (db : TypeDatabase) : Operation → TypeDatabase
  | .set info => (db.set info).1
  | .remove uri => (db.remove uri).1
  | .markOpen uri => db.markOpen uri
  | .markClosed uri => db.markClosed uri
  | .reopen uri => (db.reopen uri).1
  | .clear => db.clear

/-- What becomes of an empty database.  The budget is fixed from the start. -/
def run (budget : Int) (ops : List Operation) : TypeDatabase :=
  ops.foldl perform (.empty budget)

/-- What is kept beside the programs, the holders of names aside, follows from the programs.  It is
kept by each part of an operation, while the budget is kept by whole operations only: between the
insertion of a program and the evictions that follow, the total may exceed it. -/
structure Aligned (db : TypeDatabase) : Prop where
  distinct : (Assoc.keys db.programs).Nodup
  filed : ∀ e ∈ db.programs, e.2.uri = e.1
  total : db.totalBytes = (db.programs.map (·.2.sizeBytes)).sum
  inserted : Assoc.keys db.inserted = Assoc.keys db.programs
  named : db.namesByUri = db.programs.map fun e => (e.1, e.2.names)
  closed : ∀ uri ∈ db.closed, uri ∈ Assoc.keys db.programs
  ascending : (db.inserted.map (·.2)).Pairwise (· < ·)
  counted : ∀ e ∈ db.inserted, e.2 ≤ db.counter

variable {db : TypeDatabase} {uri keep : String} {info : ProgramInfo}

/-! ## Dropping a program -/

theorem dropProgram_of_absent (h : db.get? uri = none) : db.dropProgram uri = db := by
  rw [dropProgram, h]

theorem dropProgram_of_stored (h : db.get? uri = some info) :
    db.dropProgram uri =
      { db with
        programs := Assoc.erase uri db.programs
        inserted := Assoc.erase uri db.inserted
        closed := db.closed.filter (· != uri)
        totalBytes := db.totalBytes - info.sizeBytes
        byName := ((Assoc.get? uri db.namesByUri).getD []).foldl (dropHolder uri) db.byName
        namesByUri := Assoc.erase uri db.namesByUri } := by
  rw [dropProgram, h]

@[simp] theorem programs_dropProgram (db : TypeDatabase) (uri : String) :
    (db.dropProgram uri).programs = Assoc.erase uri db.programs := by
  cases h : db.get? uri with
  | none => rw [dropProgram_of_absent h, Assoc.erase_of_get?_eq_none h]
  | some info => rw [dropProgram_of_stored h]

@[simp] theorem budget_dropProgram (db : TypeDatabase) (uri : String) :
    (db.dropProgram uri).budget = db.budget := by
  cases h : db.get? uri with
  | none => rw [dropProgram_of_absent h]
  | some info => rw [dropProgram_of_stored h]

/-- The sum over a map without one of its keys.  By it the total stays right when a program goes. -/
theorem sum_erase {β : Type} (f : β → Int) {key : String} {value : β} {entries : List (String × β)}
    (distinct : (Assoc.keys entries).Nodup) (h : Assoc.get? key entries = some value) :
    ((Assoc.erase key entries).map fun e => f e.2).sum =
    (entries.map fun e => f e.2).sum - f value := by
  induction entries with
  | nil => cases h
  | cons e rest ih =>
    obtain ⟨k, v⟩ := e
    obtain ⟨hk, hrest⟩ := List.nodup_cons.mp distinct
    by_cases hkey : k = key
    · subst hkey
      have hv : v = value := by simpa [Assoc.get?] using h
      have hgone : Assoc.erase k rest = rest :=
        Assoc.erase_of_get?_eq_none (Assoc.get?_eq_none_iff.mpr hk)
      have herase : Assoc.erase k ((k, v) :: rest) = Assoc.erase k rest := by simp [Assoc.erase]
      rw [herase, hgone, hv, List.map_cons, List.sum_cons]
      ring
    · have hget : Assoc.get? key rest = some value := by simpa [Assoc.get?, hkey] using h
      have herase : Assoc.erase key ((k, v) :: rest) = (k, v) :: Assoc.erase key rest := by
        simp [Assoc.erase, hkey]
      rw [herase, List.map_cons, List.sum_cons, ih hrest hget, List.map_cons, List.sum_cons]
      ring

theorem Aligned.dropProgram (h : db.Aligned) (uri : String) : (db.dropProgram uri).Aligned := by
  cases hget : db.get? uri with
  | none => rwa [dropProgram_of_absent hget]
  | some info =>
    rw [dropProgram_of_stored hget]
    refine
      { distinct := ?_
        filed := fun e he => h.filed e (Assoc.mem_erase.mp he).1
        total := ?_
        inserted := ?_
        named := ?_
        closed := fun u hu => ?_
        ascending := h.ascending.sublist (List.filter_sublist.map _)
        counted := fun e he => h.counted e (Assoc.mem_erase.mp he).1 }
    · rw [Assoc.keys_erase]
      exact h.distinct.filter _
    · rw [h.total]
      exact (sum_erase (·.sizeBytes) h.distinct hget).symm
    · rw [Assoc.keys_erase, Assoc.keys_erase, h.inserted]
    · rw [h.named]
      exact Assoc.erase_map (·.2.names) uri db.programs
    · obtain ⟨hu, hne⟩ := List.mem_filter.mp hu
      rw [Assoc.keys_erase]
      exact List.mem_filter.mpr ⟨h.closed u hu, by simpa using hne⟩

/-! ## Storing a program -/

theorem Aligned.insert (h : db.Aligned) (absent : db.get? info.uri = none) :
    (db.insert info).Aligned := by
  -- The key is new in all three lists, so that to set it is to append it.
  have hkey : info.uri ∉ Assoc.keys db.programs := Assoc.get?_eq_none_iff.mp absent
  have hprograms : Assoc.set info.uri info db.programs = db.programs ++ [(info.uri, info)] :=
    Assoc.set_of_get?_eq_none absent info
  have hinserted : Assoc.set info.uri (db.counter + 1) db.inserted =
      db.inserted ++ [(info.uri, db.counter + 1)] := by
    refine Assoc.set_of_get?_eq_none (Assoc.get?_eq_none_iff.mpr ?_) _
    rwa [h.inserted]
  have hnamed : Assoc.set info.uri info.names db.namesByUri =
      db.namesByUri ++ [(info.uri, info.names)] := by
    refine Assoc.set_of_get?_eq_none (Assoc.get?_eq_none_iff.mpr ?_) _
    rw [h.named, Assoc.keys, List.map_map]
    exact hkey
  refine
    { distinct := ?_
      filed := fun e he => ?_
      total := ?_
      inserted := ?_
      named := ?_
      closed := fun u hu => ?_
      ascending := ?_
      counted := fun e he => ?_ }
  · change (Assoc.keys (Assoc.set info.uri info db.programs)).Nodup
    rw [hprograms, Assoc.keys_append]
    refine List.nodup_append.mpr ⟨h.distinct, List.nodup_singleton _, ?_⟩
    rintro u hu u' hu' rfl
    obtain rfl := List.mem_singleton.mp hu'
    exact hkey hu
  · change e ∈ Assoc.set info.uri info db.programs at he
    rcases Assoc.mem_set he with rfl | he
    · rfl
    · exact h.filed e he
  · change db.totalBytes + info.sizeBytes = ((Assoc.set info.uri info db.programs).map _).sum
    rw [hprograms, h.total]
    simp
  · change Assoc.keys (Assoc.set info.uri (db.counter + 1) db.inserted) =
      Assoc.keys (Assoc.set info.uri info db.programs)
    rw [hinserted, hprograms, Assoc.keys_append, Assoc.keys_append, h.inserted]
    rfl
  · change Assoc.set info.uri info.names db.namesByUri = (Assoc.set info.uri info db.programs).map _
    rw [hnamed, hprograms, h.named]
    simp
  · change u ∈ Assoc.keys (Assoc.set info.uri info db.programs)
    rw [hprograms, Assoc.keys_append]
    exact List.mem_append_left _ (h.closed u (List.mem_filter.mp hu).1)
  · change ((Assoc.set info.uri (db.counter + 1) db.inserted).map (·.2)).Pairwise (· < ·)
    rw [hinserted, List.map_append, List.pairwise_append]
    refine ⟨h.ascending, List.pairwise_singleton _ _, fun n hn n' hn' => ?_⟩
    obtain ⟨e, he, rfl⟩ := List.mem_map.mp hn
    obtain rfl := List.mem_singleton.mp hn'
    exact Nat.lt_succ_of_le (h.counted e he)
  · change e ∈ Assoc.set info.uri (db.counter + 1) db.inserted at he
    rcases Assoc.mem_set he with rfl | he
    · exact Nat.le_refl _
    · exact Nat.le_succ_of_le (h.counted e he)

theorem Aligned.evict (h : db.Aligned) (uris : List String) : (db.evict uris).Aligned := by
  induction uris generalizing db with
  | nil => exact h
  | cons u rest ih =>
    unfold TypeDatabase.evict
    split
    · exact h
    · have hdropped := h.dropProgram u
      exact ih { hdropped with }

theorem Aligned.enforceBudget (h : db.Aligned) (keep : String) :
    (db.enforceBudget keep).Aligned := by
  unfold TypeDatabase.enforceBudget
  split
  · exact h
  · exact h.evict _

theorem Aligned.set (h : db.Aligned) (info : ProgramInfo) : (db.set info).1.Aligned := by
  unfold TypeDatabase.set
  split
  · exact h
  · split
    · exact h
    · have habsent : (db.dropProgram info.uri).get? info.uri = none := by simp [get?]
      exact ((h.dropProgram info.uri).insert habsent).enforceBudget info.uri

/-! ## Opening and closing -/

theorem Aligned.markOpen (h : db.Aligned) (uri : String) : (db.markOpen uri).Aligned :=
  { h with }

/-- Reopening a document marks it open, and may drop its program when it is no longer among those
closed. -/
theorem reopen_cases {P : TypeDatabase → Prop} (marked : P (db.markOpen uri))
    (dropped : ∀ closed, (∀ u ∈ closed, u ∈ db.closed) →
      P (TypeDatabase.dropProgram { db.markOpen uri with closed } uri)) : P (db.reopen uri).1 := by
  unfold TypeDatabase.reopen
  dsimp only
  split
  · exact dropped _ fun u hu => (List.mem_filter.mp hu).1
  · exact marked

theorem Aligned.withClosed (h : db.Aligned) (uri : String) {closed : List String}
    (subset : ∀ u ∈ closed, u ∈ db.closed) : Aligned { db.markOpen uri with closed } :=
  { h with closed := fun u hu => h.closed u (subset u hu) }

theorem Aligned.reopen (h : db.Aligned) (uri : String) : (db.reopen uri).1.Aligned :=
  reopen_cases (h.markOpen uri) fun _ subset => (h.withClosed uri subset).dropProgram uri

theorem Aligned.markClosed (h : db.Aligned) (uri : String) : (db.markClosed uri).Aligned := by
  refine { h with closed := fun u hu => ?_ }
  unfold TypeDatabase.markClosed at hu
  dsimp only at hu
  split at hu
  · next hstored =>
    rcases List.mem_append.mp hu with hu | hu
    · exact h.closed u hu
    · rw [List.mem_singleton.mp hu]
      exact Assoc.mem_keys_iff_has.mpr (Bool.and_eq_true_iff.mp hstored).1
  · exact h.closed u hu

theorem aligned_of_no_programs (budget : Int) (counter : Nat) :
    ({ budget, counter } : TypeDatabase).Aligned where
  distinct := .nil
  filed := nofun
  total := rfl
  inserted := rfl
  named := rfl
  closed := nofun
  ascending := .nil
  counted := nofun

theorem Aligned.perform (h : db.Aligned) (op : Operation) : (db.perform op).Aligned := by
  cases op with
  | set info => exact h.set info
  | remove uri => exact h.dropProgram uri
  | markOpen uri => exact h.markOpen uri
  | markClosed uri => exact h.markClosed uri
  | reopen uri => exact h.reopen uri
  | clear => exact aligned_of_no_programs _ _

theorem Aligned.foldl_perform (h : db.Aligned) (ops : List Operation) :
    (ops.foldl TypeDatabase.perform db).Aligned := by
  induction ops generalizing db with
  | nil => exact h
  | cons op rest ih => exact ih (h.perform op)

theorem aligned_run (budget : Int) (ops : List Operation) : (run budget ops).Aligned :=
  (aligned_of_no_programs budget 0).foldl_perform ops

/-! ## The budget -/

/-- No program has a negative size, and together they are within the budget.  Sizes are estimates of
numbers of symbols and so never negative; without that a program that is evicted could make the
total grow. -/
structure Fits (db : TypeDatabase) : Prop where
  sized : ∀ e ∈ db.programs, 0 ≤ e.2.sizeBytes
  within : db.totalBytes ≤ db.budget

theorem Fits.dropProgram (h : db.Fits) (uri : String) : (db.dropProgram uri).Fits := by
  cases hget : db.get? uri with
  | none => rwa [dropProgram_of_absent hget]
  | some info =>
    have hsize := h.sized _ (Assoc.mem_of_get? hget)
    have hwithin := h.within
    rw [dropProgram_of_stored hget]
    refine ⟨fun e he => h.sized e (Assoc.mem_erase.mp he).1, ?_⟩
    dsimp only at hsize ⊢
    omega

/-- What is left when all programs but one may go is that one, and it is within the budget by
itself. -/
theorem within_evict {uris : List String} (keep : String) (aligned : db.Aligned)
    (budget : 0 ≤ db.budget) (others : ∀ e ∈ db.programs, e.1 ≠ keep → e.1 ∈ uris)
    (kept : ∀ e ∈ db.programs, e.1 = keep → e.2.sizeBytes ≤ db.budget) :
    (db.evict uris).totalBytes ≤ (db.evict uris).budget := by
  induction uris generalizing db with
  | nil =>
    -- All others have gone, and keys are distinct, so at most one program is left.
    have hkeep : ∀ e ∈ db.programs, e.1 = keep := fun e he => by
      by_contra hne
      exact List.not_mem_nil (others e he hne)
    change db.totalBytes ≤ db.budget
    rw [aligned.total]
    cases hprograms : db.programs with
    | nil => simpa using budget
    | cons e rest =>
      cases rest with
      | nil => simpa using kept e (by simp [hprograms]) (hkeep e (by simp [hprograms]))
      | cons f more =>
        have hdistinct := aligned.distinct
        rw [hprograms] at hdistinct
        have he := hkeep e (by simp [hprograms])
        have hf := hkeep f (by simp [hprograms])
        simp [Assoc.keys, he, hf] at hdistinct
  | cons u rest ih =>
    unfold TypeDatabase.evict
    split
    · next hfits => exact hfits
    · have hdropped := aligned.dropProgram u
      have haligned : Aligned { db.dropProgram u with evictions := db.evictions + 1 } :=
        { hdropped with }
      refine ih haligned ?_ ?_ ?_
      · simpa using budget
      · intro e he hne
        have he : e ∈ Assoc.erase u db.programs := by simpa using he
        obtain ⟨hmem, hu⟩ := Assoc.mem_erase.mp he
        exact (List.mem_cons.mp (others e hmem hne)).resolve_left hu
      · intro e he hkeep
        have he : e ∈ Assoc.erase u db.programs := by simpa using he
        simpa using kept e (Assoc.mem_erase.mp he).1 hkeep

theorem budget_evict (db : TypeDatabase) (uris : List String) :
    (db.evict uris).budget = db.budget := by
  induction uris generalizing db with
  | nil => rfl
  | cons u rest ih =>
    unfold evict
    split
    · rfl
    · rw [ih]
      exact budget_dropProgram db u

theorem mem_of_mem_evict {uris : List String} {e : String × ProgramInfo}
    (h : e ∈ (db.evict uris).programs) : e ∈ db.programs := by
  induction uris generalizing db with
  | nil => exact h
  | cons u rest ih =>
    unfold evict at h
    split at h
    · exact h
    · have hdropped : e ∈ Assoc.erase u db.programs := by simpa using ih h
      exact (Assoc.mem_erase.mp hdropped).1

theorem mem_victims {e : String × ProgramInfo} (h : e ∈ db.programs) (hne : e.1 ≠ keep) :
    e.1 ∈ db.victims keep := by
  refine List.mem_map_of_mem (List.mem_mergeSort.mpr (List.mem_filter.mpr ⟨h, ?_⟩))
  simpa using hne

theorem Fits.set (h : db.Fits) (aligned : db.Aligned) (budget : 0 ≤ db.budget)
    (size : 0 ≤ info.sizeBytes) : (db.set info).1.Fits := by
  unfold TypeDatabase.set
  split
  · exact h
  · split
    · exact h
    · next hlarge =>
      have habsent : (db.dropProgram info.uri).get? info.uri = none := by simp [get?]
      have haligned := (aligned.dropProgram info.uri).insert habsent
      have hsized : ∀ e ∈ ((db.dropProgram info.uri).insert info).programs, 0 ≤ e.2.sizeBytes := by
        intro e he
        rcases Assoc.mem_set he with rfl | he
        · exact size
        · exact (h.dropProgram info.uri).sized e he
      have hbudget : ((db.dropProgram info.uri).insert info).budget = db.budget :=
        budget_dropProgram db info.uri
      dsimp only [enforceBudget]
      split
      · next hwithin => exact ⟨hsized, hwithin⟩
      · refine ⟨fun e he => hsized e (mem_of_mem_evict he), ?_⟩
        refine within_evict info.uri haligned (by rwa [hbudget])
          (fun e he hne => mem_victims he hne) fun e he hkeep => ?_
        rw [hbudget]
        rcases Assoc.mem_set he with rfl | he
        · exact Int.not_lt.mp hlarge
        · simp [hkeep] at he

/-! ## Every history -/

/-- A program that is stored has a size that is not negative. -/
def Operation.Sized : Operation → Prop
  | .set info => 0 ≤ info.sizeBytes
  | _ => True

@[simp] theorem budget_perform (db : TypeDatabase) (op : Operation) :
    (db.perform op).budget = db.budget := by
  cases op with
  | set info =>
    change (db.set info).1.budget = db.budget
    unfold set
    split
    · rfl
    · split
      · rfl
      · have hinserted : ((db.dropProgram info.uri).insert info).budget = db.budget :=
          budget_dropProgram db info.uri
        dsimp only [enforceBudget]
        split
        · exact hinserted
        · rw [budget_evict, hinserted]
  | remove uri => exact budget_dropProgram db uri
  | reopen uri =>
    change (db.reopen uri).1.budget = db.budget
    unfold reopen
    dsimp only
    split
    · exact budget_dropProgram _ uri
    · rfl
  | markOpen | markClosed | clear => rfl

theorem Fits.perform (h : db.Fits) (aligned : db.Aligned) (budget : 0 ≤ db.budget) {op : Operation}
    (sized : op.Sized) : (db.perform op).Fits := by
  cases op with
  | set info => exact h.set aligned budget sized
  | remove uri => exact h.dropProgram uri
  | reopen uri =>
    refine reopen_cases ⟨h.sized, h.within⟩ fun closed _ => ?_
    have hmarked : Fits { db.markOpen uri with closed } := ⟨h.sized, h.within⟩
    exact hmarked.dropProgram uri
  | markOpen | markClosed => exact ⟨h.sized, h.within⟩
  | clear => exact ⟨nofun, budget⟩

theorem fits_run {budget : Int} (enough : 0 ≤ budget) {ops : List Operation}
    (sized : ∀ op ∈ ops, op.Sized) : (run budget ops).Fits ∧ (run budget ops).budget = budget := by
  have hfold : ∀ db : TypeDatabase, db.Aligned → db.Fits → db.budget = budget →
      (ops.foldl perform db).Fits ∧ (ops.foldl perform db).budget = budget := by
    induction ops with
    | nil => exact fun db _ hfits hbudget => ⟨hfits, hbudget⟩
    | cons op rest ih =>
      intro db haligned hfits hbudget
      refine ih (fun o ho => sized o (List.mem_cons_of_mem _ ho)) _ (haligned.perform op) ?_ ?_
      · exact hfits.perform haligned (by rwa [hbudget]) (sized op List.mem_cons_self)
      · rw [budget_perform, hbudget]
  exact hfold _ (aligned_of_no_programs budget 0) ⟨nofun, enough⟩ rfl

/-- What holds of a database between two operations.  It is stated in terms of what a caller can ask
for, and follows from `Aligned` and `Fits`, which speak of the fields of the record. -/
structure Consistent (budget : Int) (db : TypeDatabase) : Prop where
  total : db.totalBytes = (db.all.map (·.sizeBytes)).sum
  within : db.totalBytes ≤ budget
  inserted : Assoc.keys db.inserted = Assoc.keys db.programs
  named : Assoc.keys db.namesByUri = Assoc.keys db.programs
  /-- Each document has one program, which is its own. -/
  uris : (Assoc.keys db.programs).Nodup ∧ Assoc.keys db.programs = db.all.map (·.uri)
  closed : ∀ uri ∈ db.closed, db.contains uri = true
  counters : (db.inserted.map (·.2)).Nodup

/-- Whatever is done to an empty database, in whatever order and with whatever evictions, it agrees
with itself and is within its budget.  What is asked of the operations is that no program is given a
negative size; versions, repeated addresses and operations on documents that are not there are all
among them. -/
theorem consistent_after_operations {budget : Int} (enough : 0 ≤ budget) {ops : List Operation}
    (sized : ∀ op ∈ ops, op.Sized) : Consistent budget (run budget ops) := by
  have haligned := aligned_run budget ops
  obtain ⟨hfits, hbudget⟩ := fits_run enough sized
  refine
    { total := ?_
      within := hfits.within.trans_eq hbudget
      inserted := haligned.inserted
      named := ?_
      uris := ⟨haligned.distinct, ?_⟩
      closed := fun uri huri => Assoc.mem_keys_iff_has.mp (haligned.closed uri huri)
      counters := haligned.ascending.imp Nat.ne_of_lt }
  · rw [haligned.total, all, List.map_map]
    rfl
  · rw [haligned.named, Assoc.keys, List.map_map]
    rfl
  · rw [Assoc.keys, all, List.map_map]
    exact List.map_congr_left fun e he => (haligned.filed e he).symm

/-- A program of a document with one symbol. -/
def oneSymbol (uri : String) (version size : Int) : ProgramInfo :=
  { uri
    version
    symbols := [("f", { name := "f", kind := .method })]
    compiledAt := version
    sizeBytes := size }

/-- A program is replaced by a larger one, for which the one of a closed document has to go. -/
theorem consistent_after_eviction :
    let ops := [.set (oneSymbol "a" 1 40), .set (oneSymbol "b" 2 40), .markClosed "a",
      .set (oneSymbol "b" 3 80)]
    (0 : Int) ≤ 100 ∧ (∀ op ∈ ops, Operation.Sized op) ∧
      Assoc.keys (run 100 ops).programs = ["b"] ∧ Consistent 100 (run 100 ops) := by
  have hsized : ∀ op ∈ [.set (oneSymbol "a" 1 40), .set (oneSymbol "b" 2 40), .markClosed "a",
      .set (oneSymbol "b" 3 80)], Operation.Sized op := by
    simp [Operation.Sized, oneSymbol]
  exact ⟨by decide, hsized, by decide +kernel, consistent_after_operations (by decide) hsized⟩

end PikeAnalysis.TypeDatabase
