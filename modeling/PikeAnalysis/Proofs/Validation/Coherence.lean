import Mathlib.Tactic.Common
import PikeAnalysis.Program.Database
import PikeAnalysis.Proofs.Validation.Stores

/-!
# The stores agree on versions

The document cache forgets a document when it is closed, the type database keeps its program but
lets it guard nothing any more.  Between them a program never guards a document but for an entry
that is at least as new (`Stores.Coherent`), so a draft whose entry the cache takes is not too old
for the database either (`Stores.Coherent.programs_not_stale`).

Two stores with two rules about versions could contradict each other: the cache takes an entry of a
document that was closed and opened again with a lower version, and the database might refuse the
program that goes with it.  It does not, because a program guards its document only until that is
closed.  The invariant compares the two for every document, and committing a draft, opening and
closing keep it.
-/

/-!
## Which programs guard their documents

A stored program keeps earlier versions of its document out, unless the document has been closed
since.  No operation makes a program guard its document but the one that stores it.
-/

namespace PikeAnalysis.TypeDatabase

/-- A program keeps earlier versions of its document out.  Once the document has been closed it does
so no longer, and a run that was void all the same would have to be kept out by the count of
closings. -/
structure Guards (db : TypeDatabase) (uri : String) (p : ProgramInfo) : Prop where
  stored : db.get? uri = some p
  unclosed : uri ∉ db.closed

variable {db : TypeDatabase} {uri u : String} {p info : ProgramInfo}

/-- A program is stale exactly if one of a later version guards its document. -/
theorem isStale_iff : db.isStale info = true ↔ ∃ p, db.Guards info.uri p ∧
    info.version < p.version := by
  unfold isStale
  constructor
  · intro h
    cases hget : db.get? info.uri with
    | none =>
      rw [hget] at h
      cases h
    | some p =>
      rw [hget] at h
      obtain ⟨hclosed, hversion⟩ := Bool.and_eq_true_iff.mp h
      exact ⟨p, ⟨hget, by simpa using hclosed⟩, of_decide_eq_true hversion⟩
  · rintro ⟨p, ⟨hget, hclosed⟩, hversion⟩
    rw [hget]
    simp [hclosed, hversion]

namespace Guards

theorem dropProgram (h : (db.dropProgram u).Guards uri p) : uri ≠ u ∧ db.Guards uri p := by
  obtain ⟨hstored, hunclosed⟩ := h
  unfold TypeDatabase.dropProgram at hstored hunclosed
  cases hget : db.get? u with
  | none =>
    rw [hget] at hstored hunclosed
    refine ⟨?_, hstored, hunclosed⟩
    rintro rfl
    cases hget.symm.trans hstored
  | some info =>
    rw [hget] at hstored hunclosed
    obtain ⟨hne, hstored⟩ := Assoc.of_get?_erase hstored
    exact ⟨hne, hstored, fun hmem => hunclosed (List.mem_filter.mpr ⟨hmem, by simpa using hne⟩)⟩

theorem evict {uris : List String} (h : (db.evict uris).Guards uri p) : db.Guards uri p := by
  induction uris generalizing db with
  | nil => exact h
  | cons u rest ih =>
    unfold TypeDatabase.evict at h
    split at h
    · exact h
    · have hdropped : (db.dropProgram u).Guards uri p := ⟨(ih h).stored, (ih h).unclosed⟩
      exact hdropped.dropProgram.2

theorem enforceBudget {keep : String} (h : (db.enforceBudget keep).Guards uri p) :
    db.Guards uri p := by
  unfold TypeDatabase.enforceBudget at h
  split at h
  · exact h
  · exact h.evict

/-- A program that guards its document after one has been stored is that one or did so before. -/
theorem set (h : (db.set info).1.Guards uri p) : (uri = info.uri ∧ p = info) ∨ db.Guards uri p := by
  unfold TypeDatabase.set at h
  split at h
  · exact .inr h
  split at h
  · exact .inr h
  obtain ⟨hstored, hunclosed⟩ := h.enforceBudget
  by_cases huri : uri = info.uri
  · subst huri
    have hself : ((db.dropProgram info.uri).insert info).get? info.uri = some info :=
      Assoc.get?_set_self info.uri info _
    exact .inl ⟨rfl, Option.some.inj (hstored.symm.trans hself)⟩
  · have hother : ((db.dropProgram info.uri).insert info).get? uri =
      (db.dropProgram info.uri).get? uri :=
      Assoc.get?_set_of_ne huri info _
    have hdropped : (db.dropProgram info.uri).Guards uri p := by
      refine ⟨hother ▸ hstored, fun hmem => hunclosed ?_⟩
      exact List.mem_filter.mpr ⟨hmem, by simpa using huri⟩
    exact .inr hdropped.dropProgram.2

theorem reopen (h : (db.reopen u).1.Guards uri p) : db.Guards uri p := by
  unfold TypeDatabase.reopen at h
  dsimp only at h
  split at h
  · obtain ⟨hne, hstored, hunclosed⟩ := h.dropProgram
    exact ⟨hstored, fun hmem => hunclosed (List.mem_filter.mpr ⟨hmem, by simpa using hne⟩)⟩
  · exact ⟨h.stored, h.unclosed⟩

/-- The program of a closed document guards it no longer. -/
theorem markClosed (h : (db.markClosed u).Guards uri p) : uri ≠ u ∧ db.Guards uri p := by
  have hstored : db.get? uri = some p := h.stored
  have hunclosed := h.unclosed
  unfold TypeDatabase.markClosed at hunclosed
  dsimp only at hunclosed
  have hkept : uri ∉ db.closed := by
    intro hmem
    split at hunclosed
    · exact hunclosed (List.mem_append_left _ hmem)
    · exact hunclosed hmem
  refine ⟨?_, hstored, hkept⟩
  rintro rfl
  have hcontains : db.contains uri = true := by
    change (db.get? uri).isSome = true
    rw [hstored]
    rfl
  rw [if_pos (by simp [hcontains, hkept])] at hunclosed
  exact hunclosed (by simp)

end Guards

end PikeAnalysis.TypeDatabase

/-! ## The cache and the database -/

namespace PikeAnalysis

namespace DocumentCache

theorem version_le_of_set {c documents : DocumentCache} {entry e : DocumentEntry}
    (set : c.set entry = (documents, true)) (h : c.get? entry.uri = some e) :
    e.version ≤ entry.version := by
  unfold DocumentCache.set at set
  split at set
  · cases set
  · next hfresh =>
    rw [isStale, h, decide_eq_true_eq] at hfresh
    exact Int.not_lt.mp hfresh

end DocumentCache

namespace Stores

/-- Each program that guards a document is no newer than the document's entry.  A program of a
closed document may be newer than anything. -/
def Coherent (s : Stores) : Prop :=
  ∀ uri p, s.programs.Guards uri p → ∃ e, s.documents.get? uri = some e ∧ p.version ≤ e.version

variable {s s' : Stores} {d : Validation.Draft} {positions : PositionIndex} {now : Instant}

/-- What has been stored nowhere is coherent. -/
theorem coherent_of_no_programs (h : s.programs.programs = []) : s.Coherent := by
  rintro uri p ⟨hstored, -⟩
  rw [TypeDatabase.get?, h] at hstored
  cases hstored

namespace Coherent

theorem congr (h : s.Coherent) (documents : s'.documents = s.documents)
    (programs : s'.programs = s.programs) : s'.Coherent := by
  intro uri p hguards
  rw [programs] at hguards
  rw [documents]
  exact h uri p hguards

theorem opened (h : s.Coherent) (uri : String) : (s.opened uri).Coherent :=
  fun other p hguards => h other p hguards.reopen

theorem closed (h : s.Coherent) (uri : String) : (s.closed uri).Coherent := by
  intro other p hguards
  obtain ⟨hne, hbefore⟩ := hguards.markClosed
  obtain ⟨e, he, hle⟩ := h other p hbefore
  have hkept := DocumentCache.get?_delete s.documents uri other
  rw [if_neg hne] at hkept
  exact ⟨e, hkept.trans he, hle⟩

/-- Whatever guards a document when the program of a draft has been stored is that program, or did
so before. -/
theorem guards_storeProgram {uri : String} {p : ProgramInfo}
    (h : (Validation.storeProgram s d now).1.programs.Guards uri p) :
    (uri = d.target.uri ∧ p.version = d.target.version) ∨ s.programs.Guards uri p := by
  unfold Validation.storeProgram at h
  split at h
  · exact .inr h
  · next i _ =>
    refine h.set.imp_left ?_
    rintro ⟨huri, rfl⟩
    exact ⟨huri, rfl⟩

theorem commit (h : s.Coherent) {log : List LogEntry}
    (stored : Validation.commit s d positions now = .stored s' log) : s'.Coherent := by
  obtain ⟨documents, hset, hstore⟩ := Validation.commit_stored stored
  intro uri p hguards
  have hguards : (Validation.storeProgram { s with documents } d now).1.programs.Guards uri p := by
    rw [hstore]
    exact hguards
  by_cases huri : uri = d.target.uri
  · subst huri
    refine ⟨d.entry positions, Validation.commit_self stored, ?_⟩
    rcases guards_storeProgram hguards with ⟨-, hversion⟩ | hbefore
    · exact Int.le_of_eq hversion
    · obtain ⟨e, he, hle⟩ := h _ p hbefore
      exact Int.le_trans hle (DocumentCache.version_le_of_set hset he)
  · have hbefore := (guards_storeProgram hguards).resolve_left fun hsame => huri hsame.1
    obtain ⟨e, he, hle⟩ := h uri p hbefore
    exact ⟨e, (Validation.commit_of_ne huri stored).1.trans he, hle⟩

/-- A program is not too old for the database when the cache takes the entry of its draft. -/
theorem programs_not_stale (h : s.Coherent) {documents : DocumentCache}
    (taken : s.documents.set (d.entry positions) = (documents, true)) (i : Wire.Introspection) :
    (s.programs.set (d.programInfo i now)).2 ≠ .stale := by
  have hfresh : s.programs.isStale (d.programInfo i now) = false := by
    refine Bool.eq_false_iff.mpr fun hstale => ?_
    obtain ⟨p, hguards, hlt⟩ := TypeDatabase.isStale_iff.mp hstale
    obtain ⟨e, he, hle⟩ := h _ p hguards
    have hentry := DocumentCache.version_le_of_set taken he
    exact absurd (Int.le_trans hle hentry) (Int.not_le.mpr hlt)
  unfold TypeDatabase.set
  rw [if_neg (by simp [hfresh])]
  split <;> nofun

end Coherent

end Stores

end PikeAnalysis
