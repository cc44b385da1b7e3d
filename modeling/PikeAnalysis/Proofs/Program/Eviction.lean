import Mathlib
import PikeAnalysis.Proofs.Program.Consistency
import PikeAnalysis.Proofs.ShortestPrefix

/-!
# Which programs are evicted

When a program is stored, others may have to go.  They are ranked: those of closed documents before
those of open ones, then the older before the newer, then those stored earlier.  The ranks are all
different, so there is one queue of the others, and what goes is its shortest prefix without which
the rest and the new program are within the budget (`set_evicts_shortest_prefix`).

An order of eviction has to be total for the statement to be exact, and it is: no two programs were
stored at the same count, which is the last part of the rank.  The queue is then the list of the
other programs sorted by rank, and what goes is a prefix of it, the shortest that will do.  Whether
documents are open is looked up before the new program comes.
-/

namespace PikeAnalysis

namespace TypeDatabase

variable {db : TypeDatabase} {uri keep : String} {info : ProgramInfo}

/-- The bytes of some programs. -/
def bytesOf (programs : List (String × ProgramInfo)) : Int :=
  (programs.map (·.2.sizeBytes)).sum

@[simp] theorem bytesOf_append (xs ys : List (String × ProgramInfo)) :
    bytesOf (xs ++ ys) = bytesOf xs + bytesOf ys := by
  simp [bytesOf]

@[simp] theorem bytesOf_singleton (e : String × ProgramInfo) : bytesOf [e] = e.2.sizeBytes := by
  simp [bytesOf]

theorem bytesOf_perm {xs ys : List (String × ProgramInfo)} (h : xs.Perm ys) :
    bytesOf xs = bytesOf ys :=
  (h.map _).sum_eq

/-! ## The order of eviction -/

/-- What decides when a stored program goes: whether its document is open, when it was compiled, and
how many programs had been stored when it was.  Ranks are compared part by part, in this order. -/
def rank (db : TypeDatabase) (e : String × ProgramInfo) : Bool ×ₗ Instant ×ₗ Nat :=
  toLex (db.isOpen e.1, toLex (e.2.compiledAt, (Assoc.get? e.1 db.inserted).getD 0))

theorem evictedBefore_iff {a b : String × ProgramInfo} :
    db.evictedBefore a b = true ↔ db.rank a ≤ db.rank b := by
  simp only [evictedBefore, rank, Prod.Lex.toLex_le_toLex]
  cases db.isOpen a.1 <;> cases db.isOpen b.1 <;>
    by_cases hage : a.2.compiledAt = b.2.compiledAt <;> simp [hage]

theorem isOpen_of_rank_le {a b : String × ProgramInfo} (h : db.rank a ≤ db.rank b)
    (hopen : db.isOpen a.1 = true) : db.isOpen b.1 = true := by
  have hle : db.isOpen a.1 ≤ db.isOpen b.1 := Prod.Lex.monotone_fst _ _ h
  rw [hopen] at hle
  exact top_le_iff.1 hle

/-- No two stored programs have the same rank.  So which program is the first to be evicted is
always decided. -/
theorem Aligned.rank_injective (h : db.Aligned) {a b : String × ProgramInfo} (ha : a ∈ db.programs)
    (hb : b ∈ db.programs) (hrank : db.rank a = db.rank b) : a.1 = b.1 := by
  obtain ⟨-, hrest⟩ := Prod.ext_iff.1 (toLex.injective hrank)
  obtain ⟨-, hcount⟩ := Prod.ext_iff.1 (toLex.injective hrest)
  have hstored : ∀ e ∈ db.programs, ∃ n, Assoc.get? e.1 db.inserted = some n := fun e he => by
    have hkey : e.1 ∈ Assoc.keys db.inserted := h.inserted ▸ Assoc.mem_keys_of_mem he
    exact Option.ne_none_iff_exists'.1 fun hnone => Assoc.get?_eq_none_iff.1 hnone hkey
  obtain ⟨n, hn⟩ := hstored a ha
  obtain ⟨n', hn'⟩ := hstored b hb
  have hsame : n = n' := by simpa [hn, hn'] using hcount
  have hnodup : (db.inserted.map (·.2)).Nodup := h.ascending.imp Nat.ne_of_lt
  have hentry : (a.1, n) = (b.1, n') :=
    List.inj_on_of_nodup_map hnodup (Assoc.mem_of_get? hn) (Assoc.mem_of_get? hn') hsame
  exact (Prod.ext_iff.1 hentry).1

/-- The programs other than the protected one, ranked.  The one that is being stored is protected,
whatever its rank. -/
def queue (db : TypeDatabase) (keep : String) : List (String × ProgramInfo) :=
  (db.programs.filter (·.1 != keep)).mergeSort (evictedBefore db)

theorem Aligned.queue_ascends (h : db.Aligned) (keep : String) :
    (db.queue keep).Pairwise (db.rank · < db.rank ·) := by
  have hperm := List.mergeSort_perm (db.programs.filter (·.1 != keep)) (evictedBefore db)
  have hsorted : (db.queue keep).Pairwise fun a b => db.evictedBefore a b = true := by
    refine List.pairwise_mergeSort (fun a b c hab hbc => ?_) (fun a b => ?_) _
    · exact evictedBefore_iff.2 ((evictedBefore_iff.1 hab).trans (evictedBefore_iff.1 hbc))
    · rw [Bool.or_eq_true, evictedBefore_iff, evictedBefore_iff]
      exact le_total _ _
  have hdistinct : (db.queue keep).Pairwise fun a b => a.1 ≠ b.1 := by
    have hkeys : ((db.programs.filter (·.1 != keep)).map (·.1)).Nodup :=
      h.distinct.sublist (List.filter_sublist.map _)
    exact List.pairwise_map.1 ((hperm.map Prod.fst).nodup_iff.2 hkeys)
  refine (hsorted.and hdistinct).imp_of_mem fun {a b} ha hb hab => ?_
  have hmem : ∀ e ∈ db.queue keep, e ∈ db.programs := fun e he =>
    (List.mem_filter.1 (hperm.mem_iff.1 he)).1
  refine lt_of_le_of_ne (evictedBefore_iff.1 hab.1) fun hrank => hab.2 ?_
  exact h.rank_injective (hmem a ha) (hmem b hb) hrank

/-! ## Evicting -/

theorem evict_of_fits (h : db.totalBytes ≤ db.budget) (uris : List String) :
    db.evict uris = db := by
  cases uris with
  | nil => rfl
  | cons u rest => rw [evict, if_pos h]

theorem enforceBudget_eq (db : TypeDatabase) (keep : String) :
    db.enforceBudget keep = db.evict (Assoc.keys (db.queue keep)) := by
  unfold enforceBudget
  split
  · next hfits => exact (evict_of_fits hfits _).symm
  · rfl

/-- The database after one program was evicted.  Evictions are counted, and nothing else tells them
from removals. -/
def evictOne (db : TypeDatabase) (uri : String) : TypeDatabase :=
  { db.dropProgram uri with evictions := db.evictions + 1 }

@[simp] theorem programs_evictOne (db : TypeDatabase) (uri : String) :
    (db.evictOne uri).programs = Assoc.erase uri db.programs :=
  programs_dropProgram db uri

@[simp] theorem budget_evictOne (db : TypeDatabase) (uri : String) :
    (db.evictOne uri).budget = db.budget :=
  budget_dropProgram db uri

@[simp] theorem evictions_evictOne (db : TypeDatabase) (uri : String) :
    (db.evictOne uri).evictions = db.evictions + 1 := rfl

theorem Aligned.evictOne (h : db.Aligned) (uri : String) : (db.evictOne uri).Aligned :=
  have hdropped := h.dropProgram uri
  { hdropped with }

theorem evict_of_exceeds (h : ¬db.totalBytes ≤ db.budget) (uri : String) (rest : List String) :
    db.evict (uri :: rest) = (db.evictOne uri).evict rest := by
  rw [evict, if_neg h]
  rfl

theorem Aligned.total_of_perm (h : db.Aligned) {queue kept : List (String × ProgramInfo)}
    (programs : db.programs.Perm (queue ++ kept)) :
    db.totalBytes = bytesOf queue + bytesOf kept := by
  rw [h.total, ← bytesOf_append]
  exact bytesOf_perm programs

/-- What evicting the programs of a queue leaves, given that what is not in it fits. -/
theorem Aligned.evict_spec (h : db.Aligned) (queue kept : List (String × ProgramInfo))
    (programs : db.programs.Perm (queue ++ kept)) (fits : bytesOf kept ≤ db.budget) :
    ∃ gone left, ShortestPrefix (fun left => bytesOf left + bytesOf kept ≤ db.budget) queue
      gone left ∧
      (db.evict (Assoc.keys queue)).programs = db.programs.filter (·.1 ∉ Assoc.keys gone) ∧
      (db.evict (Assoc.keys queue)).totalBytes = bytesOf left + bytesOf kept ∧
      (db.evict (Assoc.keys queue)).evictions = db.evictions + gone.length := by
  -- By induction on the queue.  The programs that stay keep their order, whatever that of the queue
  -- is.
  induction queue generalizing db with
  | nil =>
    refine ⟨[], [], .nil ?_, ?_, h.total_of_perm programs, rfl⟩
    · simpa [bytesOf] using fits
    · change db.programs = _
      simp [Assoc.keys]
  | cons e queue ih =>
    have htotal := h.total_of_perm programs
    by_cases hfits : db.totalBytes ≤ db.budget
    · rw [evict_of_fits hfits]
      exact ⟨[], e :: queue, .nil (htotal ▸ hfits), by simp [Assoc.keys], htotal, rfl⟩
    · have hevict : db.evict (Assoc.keys (e :: queue)) =
        (db.evictOne e.1).evict (Assoc.keys queue) :=
        evict_of_exceeds hfits e.1 _
      -- A key stands once, so to drop the first of the queue leaves the others.
      have hgone : e.1 ∉ Assoc.keys (queue ++ kept) := by
        have hnodup := (programs.map Prod.fst).nodup_iff.1 h.distinct
        exact (List.nodup_cons.1 hnodup).1
      have hrest : (Assoc.erase e.1 db.programs).Perm (queue ++ kept) := by
        have herase := programs.filter fun f => decide (f.1 ≠ e.1)
        have hsame := Assoc.erase_of_get?_eq_none (Assoc.get?_eq_none_iff.2 hgone)
        rw [List.cons_append, List.filter_cons_of_neg (by simp)] at herase
        exact hsame ▸ herase
      obtain ⟨gone, left, hshortest, hstored, htotal', hcount⟩ :=
        ih (h.evictOne e.1) (by simpa using hrest) (by simpa using fits)
      rw [hevict]
      rw [budget_evictOne] at hshortest
      refine ⟨e :: gone, left, hshortest.cons fun hfine => hfits (htotal ▸ hfine), ?_, htotal', ?_⟩
      · rw [hstored, programs_evictOne, Assoc.erase, List.filter_filter]
        refine List.filter_congr fun f _ => Bool.eq_iff_iff.2 ?_
        have hkeys : Assoc.keys (e :: gone) = e.1 :: Assoc.keys gone := rfl
        rw [Bool.and_eq_true, decide_eq_true_iff, decide_eq_true_iff, decide_eq_true_iff, hkeys,
          List.mem_cons, not_or, and_comm]
      · rw [hcount, evictions_evictOne, List.length_cons]
        omega

/-! ## Storing -/

/-- The database with a program in place of the one of the same document. -/
def replace (db : TypeDatabase) (info : ProgramInfo) : TypeDatabase :=
  (db.dropProgram info.uri).insert info

theorem programs_replace (db : TypeDatabase) (info : ProgramInfo) :
    (db.replace info).programs = Assoc.erase info.uri db.programs ++ [(info.uri, info)] := by
  change Assoc.set info.uri info (db.dropProgram info.uri).programs = _
  rw [programs_dropProgram]
  exact Assoc.set_of_get?_eq_none (Assoc.get?_erase_self _ _) info

theorem Aligned.replace (h : db.Aligned) (info : ProgramInfo) : (db.replace info).Aligned :=
  (h.dropProgram info.uri).insert (by simp [get?])

/-- Dropping a program changes no other program's rank. -/
theorem rank_dropProgram {e : String × ProgramInfo} (hne : e.1 ≠ uri) :
    (db.dropProgram uri).rank e = db.rank e := by
  cases h : db.get? uri with
  | none => rw [dropProgram_of_absent h]
  | some info => simp [dropProgram_of_stored h, rank, isOpen, Assoc.get?_erase_of_ne hne]

theorem rank_replace {e : String × ProgramInfo} (hne : e.1 ≠ info.uri) :
    (db.replace info).rank e = db.rank e := by
  have hinsert : ((db.dropProgram info.uri).insert info).rank e =
    (db.dropProgram info.uri).rank e := by
    simp [rank, isOpen, insert, Assoc.get?_set_of_ne hne]
  exact hinsert.trans (rank_dropProgram hne)

theorem evictions_replace (db : TypeDatabase) (info : ProgramInfo) :
    (db.replace info).evictions = db.evictions := by
  change (db.dropProgram info.uri).evictions = db.evictions
  cases h : db.get? info.uri with
  | none => rw [dropProgram_of_absent h]
  | some info => rw [dropProgram_of_stored h]

theorem set_of_stored (stored : (db.set info).2 = .stored) :
    info.sizeBytes ≤ db.budget ∧
      (db.set info).1 = (db.replace info).evict
      (Assoc.keys ((db.replace info).queue info.uri)) := by
  unfold set at stored ⊢
  split at stored
  · cases stored
  · split at stored
    · cases stored
    · next hstale hlarge =>
      rw [if_neg hstale, if_neg hlarge]
      exact ⟨Int.not_lt.1 hlarge, enforceBudget_eq _ _⟩

theorem queue_replace_perm (db : TypeDatabase) (info : ProgramInfo) :
    ((db.replace info).queue info.uri).Perm (Assoc.erase info.uri db.programs) := by
  have hothers : (db.replace info).programs.filter (·.1 != info.uri) =
      Assoc.erase info.uri db.programs := by
    rw [programs_replace, List.filter_append, List.filter_cons_of_neg (by simp), List.filter_nil,
      List.append_nil, Assoc.erase, List.filter_filter]
    exact List.filter_congr fun e _ => by simp [bne]
  exact (List.mergeSort_perm _ _).trans (.of_eq hothers)

theorem budget_run (budget : Int) (ops : List Operation) : (run budget ops).budget = budget := by
  have hfold : ∀ db : TypeDatabase, (ops.foldl perform db).budget = db.budget := by
    induction ops with
    | nil => exact fun db => rfl
    | cons op rest ih => exact fun db => (ih (db.perform op)).trans (budget_perform db op)
  exact hfold _

/-- A program that is accepted is stored.  Of the others, ranked before it came, the shortest prefix
goes without which the rest and the new program are within the budget: no program of an open
document while one of a closed document stays, and none at all if all are within the budget. -/
theorem set_evicts_shortest_prefix (budget : Int) (ops : List Operation) (info : ProgramInfo)
    (stored : ((run budget ops).set info).2 = .stored) :
    let db := run budget ops
    let after := (db.set info).1
    let others := Assoc.erase info.uri db.programs
    after.get? info.uri = some info ∧
      ∃ queue gone left, queue.Perm others ∧ queue.Pairwise (db.rank · < db.rank ·) ∧
        ShortestPrefix (fun rest => bytesOf rest + info.sizeBytes ≤ budget) queue gone left ∧
        after.programs = others.filter (·.1 ∉ Assoc.keys gone) ++ [(info.uri, info)] ∧
        after.totalBytes = bytesOf left + info.sizeBytes ∧
        after.evictions = db.evictions + gone.length ∧
        (∀ e ∈ gone, db.isOpen e.1 = true → ∀ e' ∈ left, db.isOpen e'.1 = true) ∧
        (bytesOf others + info.sizeBytes ≤ budget → gone = []) := by
  intro db after others
  have haligned : db.Aligned := aligned_run budget ops
  have hbudget : db.budget = budget := budget_run budget ops
  obtain ⟨hsize, hafter⟩ := set_of_stored stored
  have hperm : ((db.replace info).queue info.uri).Perm others := queue_replace_perm db info
  have hother : ∀ e ∈ (db.replace info).queue info.uri, e.1 ≠ info.uri := fun e he =>
    (Assoc.mem_erase.1 (hperm.mem_iff.1 he)).2
  -- Ranks are those from before the program came, since no other changes its own.
  have hsorted : ((db.replace info).queue info.uri).Pairwise (db.rank · < db.rank ·) := by
    refine ((haligned.replace info).queue_ascends info.uri).imp_of_mem fun {a b} ha hb hab => ?_
    rwa [rank_replace (hother a ha), rank_replace (hother b hb)] at hab
  have hreplaced : (db.replace info).budget = budget :=
    (budget_dropProgram db info.uri).trans hbudget
  obtain ⟨gone, left, hshortest, hprograms, htotal, hcount⟩ :=
    (haligned.replace info).evict_spec ((db.replace info).queue info.uri) [(info.uri, info)]
      (by rw [programs_replace]; exact (hperm.append_right _).symm)
      (by rw [bytesOf_singleton, hreplaced]; exact hsize.trans_eq hbudget)
  rw [hreplaced] at hshortest
  rw [bytesOf_singleton] at hshortest htotal
  rw [evictions_replace] at hcount
  -- The new program is in no case among those that go.
  have hstored : after.programs =
      others.filter (·.1 ∉ Assoc.keys gone) ++ [(info.uri, info)] := by
    have hnew : info.uri ∉ Assoc.keys gone := fun hmem => by
      obtain ⟨e, he, hkey⟩ := List.mem_map.1 hmem
      exact hother e (hshortest.split ▸ List.mem_append_left _ he) hkey
    have hkept : [(info.uri, info)].filter (·.1 ∉ Assoc.keys gone) = [(info.uri, info)] :=
      List.filter_cons_of_pos (by simpa using hnew)
    rw [← hkept, ← List.filter_append, ← programs_replace, ← hprograms, ← hafter]
  have hopen : ∀ e ∈ gone, db.isOpen e.1 = true → ∀ e' ∈ left, db.isOpen e'.1 = true := by
    intro e he hopen e' he'
    rw [hshortest.split] at hsorted
    exact isOpen_of_rank_le ((List.pairwise_append.1 hsorted).2.2 e he e' he').le hopen
  refine ⟨?_, _, gone, left, hperm, hsorted, hshortest, hstored, ?_, ?_, hopen, fun hfits => ?_⟩
  · have habsent : info.uri ∉ Assoc.keys (others.filter (·.1 ∉ Assoc.keys gone)) := fun hmem => by
      obtain ⟨e, he, hkey⟩ := List.mem_map.1 hmem
      exact (Assoc.mem_erase.1 (List.mem_filter.1 he).1).2 hkey
    rw [get?, hstored, Assoc.get?_append, Assoc.get?_eq_none_iff.2 habsent]
    simp [Assoc.get?]
  · rw [← htotal, ← hafter]
  · rw [← hcount, ← hafter]
  · exact hshortest.eq_nil (by rwa [bytesOf_perm hperm])

/-- The older of two programs belongs to an open document, so the newer one goes. -/
theorem newer_program_evicted_before_open :
    let ops := [.set (oneSymbol "a" 1 40), .set (oneSymbol "b" 2 40), .markOpen "a"]
    let c := oneSymbol "c" 3 50
    ((run 100 ops).set c).2 = .stored ∧
      Assoc.keys ((run 100 ops).set c).1.programs = ["a", "c"] ∧
      ∃ queue gone left, ShortestPrefix (fun rest => bytesOf rest + 50 ≤ 100) queue gone left ∧
        ((run 100 ops).set c).1.totalBytes = bytesOf left + 50 ∧ gone.length = 1 := by
  intro ops c
  have hstored : ((run 100 ops).set c).2 = .stored := by cbv
  have hevictions : ((run 100 ops).set c).1.evictions = 1 := by cbv
  have hnone : (run 100 ops).evictions = 0 := by cbv
  obtain ⟨-, queue, gone, left, -, -, hshortest, -, htotal, hcount, -⟩ :=
    set_evicts_shortest_prefix 100 ops c hstored
  refine ⟨hstored, by cbv, queue, gone, left, hshortest, htotal, ?_⟩
  rwa [hevictions, hnone, Nat.zero_add, eq_comm] at hcount

end TypeDatabase

end PikeAnalysis
