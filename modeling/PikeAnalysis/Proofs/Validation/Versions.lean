import Mathlib.Data.List.Induction
import Mathlib.Data.List.Nodup
import PikeAnalysis.Proofs.Program.Eviction
import PikeAnalysis.Proofs.Validation.Coherence

/-!
# Versions do not go back

Entries and programs are written in whatever order validations end.  Of all that has been written
about a document since it was last deleted, the document cache holds the last entry of the highest
version, so with distinct versions the order does not matter.  The type database lets a document's
version go back only where its program is that of a closed document, and a program that it does not
store changes nothing (`versions_are_guarded`).

A cache that takes the later version is a running maximum, and a running maximum does not depend on
order as long as no two versions are equal; with equal ones the later write wins, which is why the
statement is about the last of the highest version.  A deletion starts over.  Of the database less
can be said, since it may refuse or evict a program: a version goes back only where the document was
closed, and what is refused leaves no trace.
-/

namespace PikeAnalysis

/-! ## Histories of the document cache -/

namespace DocumentCache

/-- What can be done to a cache.  Histories of these two, in any order and with any versions, are
what the theorems about the cache are about. -/
inductive Operation where
  | set (entry : DocumentEntry)
  | delete (uri : String)

/-- The cache after an operation. -/
def perform (c : DocumentCache) : Operation → DocumentCache
  | .set entry => (c.set entry).1
  | .delete uri => (c.delete uri).1

/-- What becomes of an empty cache. -/
def run (ops : List Operation) : DocumentCache :=
  ops.foldl perform .empty

/-- What has been written about a document since it was last deleted, with one operation more. -/
def noteWrite (uri : String) (written : List DocumentEntry) : Operation → List DocumentEntry
  | .set entry => if entry.uri = uri then written ++ [entry] else written
  | .delete other => if other = uri then [] else written

/-- What has been written about a document since it was last deleted, in order. -/
def writes (uri : String) (ops : List Operation) : List DocumentEntry :=
  ops.foldl (noteWrite uri) []

/-- Of some entries, the last whose version is the highest.  Among those of the highest version it
is the one that was written last. -/
def IsLatest (written : List DocumentEntry) (e : DocumentEntry) : Prop :=
  ∃ earlier later, written = earlier ++ e :: later ∧ (∀ d ∈ earlier, d.version ≤ e.version) ∧
    ∀ d ∈ later, d.version < e.version

/-- The entry of a document with one write more.  An equal version replaces what is there. -/
def newer (current : Option DocumentEntry) (entry : DocumentEntry) : Option DocumentEntry :=
  if current.any (entry.version < ·.version) then current else some entry

variable {c : DocumentCache} {uri : String} {written : List DocumentEntry} {e entry : DocumentEntry}

theorem isStale_eq (c : DocumentCache) (entry : DocumentEntry) :
    c.isStale entry = (c.get? entry.uri).any (entry.version < ·.version) := by
  unfold isStale
  cases c.get? entry.uri <;> rfl

theorem get?_set (c : DocumentCache) (entry : DocumentEntry) (uri : String) :
    (c.set entry).1.get? uri = if entry.uri = uri then newer (c.get? uri) entry
      else c.get? uri := by
  split
  · next h =>
    subst h
    rw [newer, ← isStale_eq]
    split
    · next hstale => rw [set, if_pos hstale]
    · next hfresh => exact get?_set_self (Bool.not_eq_true _ ▸ hfresh)
  · next h => exact get?_set_of_ne (Ne.symm h)

/-- The cache holds what is left of the writes.  Writes of other documents have no say in it. -/
theorem get?_run (ops : List Operation) (uri : String) :
    (run ops).get? uri = (writes uri ops).foldl newer none := by
  induction ops using List.reverseRecOn with
  | nil => rfl
  | append_singleton ops op ih =>
    have hrun : run (ops ++ [op]) = (run ops).perform op := by simp [run]
    have hwrites : writes uri (ops ++ [op]) = noteWrite uri (writes uri ops) op := by simp [writes]
    rw [hrun, hwrites]
    cases op with
    | set entry =>
      rw [perform, get?_set, noteWrite, ih]
      split
      · rw [List.foldl_concat]
      · rfl
    | delete other =>
      rw [perform, get?_delete, noteWrite, ih]
      by_cases h : uri = other
      · rw [if_pos h, if_pos h.symm]
        rfl
      · rw [if_neg h, if_neg (Ne.symm h)]

theorem foldl_newer_eq_none_iff : written.foldl newer none = none ↔ written = [] := by
  cases written using List.reverseRecOn with
  | nil => simp
  | append_singleton init entry _ =>
    rw [List.foldl_concat, newer]
    split
    · next h =>
      have hsome : init.foldl newer none ≠ none := by
        intro hnone
        rw [hnone] at h
        cases h
      simpa using hsome
    · simp

theorem IsLatest.highest (h : IsLatest written e) :
    e ∈ written ∧ ∀ d ∈ written, d.version ≤ e.version := by
  obtain ⟨earlier, later, rfl, hearlier, hlater⟩ := h
  refine ⟨by simp, fun d hd => ?_⟩
  rcases List.mem_append.mp hd with hd | hd
  · exact hearlier d hd
  rcases List.mem_cons.mp hd with rfl | hd
  · exact Int.le_refl _
  · exact Int.le_of_lt (hlater d hd)

theorem isLatest_concat_iff :
    IsLatest (written ++ [entry]) e ↔ (e = entry ∧ ∀ d ∈ written, d.version ≤ entry.version) ∨
      (IsLatest written e ∧ entry.version < e.version) := by
  constructor
  · rintro ⟨earlier, later, hsplit, hearlier, hlater⟩
    cases later using List.reverseRecOn with
    | nil =>
      obtain ⟨rfl, hlast⟩ := List.append_inj' hsplit rfl
      obtain rfl := List.singleton_inj.mp hlast
      exact .inl ⟨rfl, hearlier⟩
    | append_singleton later last _ =>
      rw [← List.cons_append, ← List.append_assoc] at hsplit
      obtain ⟨rfl, hlast⟩ := List.append_inj' hsplit rfl
      obtain rfl := List.singleton_inj.mp hlast
      obtain ⟨hlater, hlast⟩ := List.forall_mem_append.mp hlater
      exact .inr ⟨⟨earlier, later, rfl, hearlier, hlater⟩, hlast entry (by simp)⟩
  · rintro (⟨rfl, hall⟩ | ⟨⟨earlier, later, rfl, hearlier, hlater⟩, hlast⟩)
    · exact ⟨written, [], rfl, hall, nofun⟩
    · refine ⟨earlier, later ++ [entry], by simp, hearlier, List.forall_mem_append.mpr ⟨hlater, ?_⟩⟩
      simpa using hlast

/-- What is left of writes is the last of the highest version. -/
theorem foldl_newer_eq_some_iff : written.foldl newer none = some e ↔ IsLatest written e := by
  induction written using List.reverseRecOn generalizing e with
  | nil => simp [IsLatest]
  | append_singleton written entry ih =>
    -- The last write stands if nothing before it is of a higher version, and what is left of the
    -- writes before it is of their highest one.
    rw [List.foldl_concat, isLatest_concat_iff, ← ih]
    cases hleft : written.foldl newer none with
    | none =>
      obtain rfl := foldl_newer_eq_none_iff.mp hleft
      simp [newer, eq_comm]
    | some current =>
      obtain ⟨hmem, hhighest⟩ := (ih.mp hleft).highest
      by_cases hstale : entry.version < current.version
      · have hkept : newer (some current) entry = some current := if_pos (by simpa using hstale)
        rw [hkept]
        constructor
        · intro h
          obtain rfl := Option.some.inj h
          exact .inr ⟨rfl, hstale⟩
        · rintro (⟨-, hall⟩ | ⟨h, -⟩)
          · exact absurd (hall current hmem) (Int.not_le.mpr hstale)
          · exact h
      · have hwritten : newer (some current) entry = some entry := if_neg (by simpa using hstale)
        rw [hwritten]
        constructor
        · intro h
          obtain rfl := Option.some.inj h
          exact .inl ⟨rfl, fun d hd => Int.le_trans (hhighest d hd) (Int.not_lt.mp hstale)⟩
        · rintro (⟨rfl, -⟩ | ⟨h, hlt⟩)
          · rfl
          · obtain rfl := Option.some.inj h
            exact absurd hlt hstale

/-- In whatever order entries of distinct versions are written, the same is left of them. -/
theorem foldl_newer_perm {other : List DocumentEntry} (perm : other.Perm written)
    (distinct : (written.map (·.version)).Nodup) :
    other.foldl newer none = written.foldl newer none := by
  cases hleft : other.foldl newer none with
  | none =>
    obtain rfl := foldl_newer_eq_none_iff.mp hleft
    rw [← perm.nil_eq]
    rfl
  | some e =>
    cases hright : written.foldl newer none with
    | none =>
      obtain rfl := foldl_newer_eq_none_iff.mp hright
      rw [perm.eq_nil] at hleft
      cases hleft
    | some d =>
      obtain ⟨he, hleast⟩ := (foldl_newer_eq_some_iff.mp hleft).highest
      obtain ⟨hd, hhighest⟩ := (foldl_newer_eq_some_iff.mp hright).highest
      have he := perm.subset he
      have hversion := Int.le_antisymm (hhighest e he) (hleast d (perm.symm.subset hd))
      exact congrArg some (List.inj_on_of_nodup_map distinct he hd hversion)

end DocumentCache

/-! ## Versions in the type database -/

namespace TypeDatabase

variable {db : TypeDatabase} {uri : String} {p q info : ProgramInfo}

/-- Nothing but the storing of another program changes what the program of a document is; it may
go. -/
theorem get?_perform (op : Operation) (other : ∀ info, op = .set info → uri ≠ info.uri) :
    (db.perform op).get? uri = db.get? uri ∨ (db.perform op).get? uri = none := by
  have dropped (db : TypeDatabase) (u : String) :
      (db.dropProgram u).get? uri = db.get? uri ∨ (db.dropProgram u).get? uri = none := by
    rw [get?_dropProgram]
    exact (ite_eq_or_eq _ _ _).symm
  cases op with
  | set info => exact db.get?_set_of_ne (other info rfl)
  | remove u => exact dropped db u
  | markOpen u => exact .inl rfl
  | markClosed u => exact .inl rfl
  | reopen u =>
    exact reopen_cases (P := fun after => after.get? uri = db.get? uri ∨ after.get? uri = none)
      (.inl rfl)
      fun closed _ => dropped { db.markOpen u with closed } u
  | clear => exact .inr rfl

/-- A program that is not stored changes nothing. -/
theorem set_of_not_stored (h : (db.set info).2 ≠ .stored) : (db.set info).1 = db := by
  unfold set at h ⊢
  split
  · rfl
  · split
    · rfl
    · next hfresh hfits => simp [hfresh, hfits] at h

/-- The program of a document is no older than the one in whose place it is stored, unless that
guards the document no longer. -/
theorem version_le_of_set (before : db.get? info.uri = some p) (guards : info.uri ∉ db.closed)
    (after : (db.set info).1.get? info.uri = some q) : p.version ≤ q.version := by
  by_cases stored : (db.set info).2 = .stored
  swap
  · rw [set_of_not_stored stored, before] at after
    obtain rfl := Option.some.inj after
    exact Int.le_refl _
  have fresh : ¬ info.version < p.version := by
    intro hlt
    have hstale : db.isStale info = true := isStale_iff.mpr ⟨p, ⟨before, guards⟩, hlt⟩
    simp [set, hstale] at stored
  have hself : (db.replace info).get? info.uri = some info := Assoc.get?_set_self info.uri info _
  rw [(set_of_stored stored).2] at after
  rcases get?_evict (db.replace info) (Assoc.keys ((db.replace info).queue info.uri))
    info.uri with h | h
  · obtain rfl := Option.some.inj (hself.symm.trans (h.symm.trans after))
    exact Int.not_lt.mp fresh
  · cases h.symm.trans after

end TypeDatabase

/-- After any history of the document cache its entry of a document is, of those written since the
document was last deleted, the last one of the highest version, and there is none only if none was
written; with distinct versions it does not depend on the order of the writes.  In any type database
no operation takes the version of a document back that has a program before and after it, but one
that stores a program of the document while it is among those closed; and a program that is not
stored leaves the database as it is. -/
theorem versions_are_guarded :
    (∀ (ops : List DocumentCache.Operation) (uri : String),
      (∀ e, (DocumentCache.run ops).get? uri = some e ↔
        DocumentCache.IsLatest (DocumentCache.writes uri ops) e) ∧
      ((DocumentCache.run ops).get? uri = none ↔ DocumentCache.writes uri ops = []) ∧
      ∀ other, (DocumentCache.writes uri other).Perm (DocumentCache.writes uri ops) →
        ((DocumentCache.writes uri ops).map (·.version)).Nodup →
        (DocumentCache.run other).get? uri = (DocumentCache.run ops).get? uri) ∧
    (∀ (db : TypeDatabase) (op : TypeDatabase.Operation) (uri : String) (p q : ProgramInfo),
      db.get? uri = some p → (db.perform op).get? uri = some q →
        p.version ≤ q.version ∨ ∃ info, op = .set info ∧ info.uri = uri ∧ uri ∈ db.closed) ∧
    ∀ (db : TypeDatabase) (info : ProgramInfo), (db.set info).2 ≠ .stored →
      (db.set info).1 = db := by
  refine ⟨fun ops uri => ⟨fun e => ?_, ?_, fun other perm distinct => ?_⟩,
    fun db op uri p q before after => ?_, fun db info => TypeDatabase.set_of_not_stored⟩
  · rw [DocumentCache.get?_run]
    exact DocumentCache.foldl_newer_eq_some_iff
  · rw [DocumentCache.get?_run]
    exact DocumentCache.foldl_newer_eq_none_iff
  · rw [DocumentCache.get?_run, DocumentCache.get?_run]
    exact DocumentCache.foldl_newer_perm perm distinct
  · -- Of all operations only storing a program of the document changes its entry without deleting
    -- it.
    by_cases own : ∃ info, op = .set info ∧ info.uri = uri
    · obtain ⟨info, rfl, rfl⟩ := own
      by_cases closed : info.uri ∈ db.closed
      · exact .inr ⟨info, rfl, rfl, closed⟩
      · exact .inl (TypeDatabase.version_le_of_set before closed after)
    · have other : ∀ info, op = .set info → uri ≠ info.uri :=
        fun info hset huri => own ⟨info, hset, huri.symm⟩
      rcases TypeDatabase.get?_perform op other with h | h
      · rw [h, before] at after
        obtain rfl := Option.some.inj after
        exact .inl (Int.le_refl _)
      · cases h.symm.trans after

/-- An entry of a document without symbols. -/
def bareEntry (version : Int) (text : String) : DocumentEntry :=
  { uri := "a", version, table := .empty, text }

/-- A program of a document without symbols. -/
def bareProgram (version : Int) (sizeBytes : Int) : ProgramInfo :=
  { uri := "a", version, symbols := [], compiledAt := 0, sizeBytes }

/-- A database that takes a version of a document, with a limit of a hundred bytes. -/
def holding (version : Int) : TypeDatabase :=
  TypeDatabase.run 100 [.set (bareProgram version 10)]

/-- Two versions are written in either order; a program is replaced by a later one, and one that is
too large changes nothing. -/
theorem later_version_is_kept :
    (DocumentCache.run [.set (bareEntry 2 "new"), .set (bareEntry 1 "old")]).get? "a" =
      (DocumentCache.run [.set (bareEntry 1 "old"), .set (bareEntry 2 "new")]).get? "a" ∧
    (∃ p q, (holding 3).get? "a" = some p ∧
      ((holding 3).perform (.set (bareProgram 4 20))).get? "a" = some q ∧ p.version ≤ q.version) ∧
    ((holding 3).set (bareProgram 5 200)).1 = holding 3 := by
  refine ⟨?_, ⟨bareProgram 3 10, bareProgram 4 20, by cbv, by cbv, ?_⟩, ?_⟩
  · refine (versions_are_guarded.1 _ "a").2.2 _ ?_ ?_
    · exact List.Perm.swap _ _ _
    · decide
  · have h := versions_are_guarded.2.1 (holding 3) (.set (bareProgram 4 20)) "a" (bareProgram 3 10)
      (bareProgram 4 20) (by cbv) (by cbv)
    refine h.resolve_right ?_
    rintro ⟨_, -, -, closed⟩
    have none : (holding 3).closed = [] := by cbv
    rw [none] at closed
    cases closed
  · refine versions_are_guarded.2.2 _ _ ?_
    cbv
    intro kept
    cases kept

end PikeAnalysis
