import Mathlib.Tactic.Common
import Mathlib.Tactic.SplitIfs
import PikeAnalysis.Validation.Run

/-!
# What becomes of the stores

A document's entry and its program change only when something is stored or dropped under its own
address; a program may also go when the budget is exceeded.  A draft is stored exactly if its
document has not been closed since the validation began and no later version is there
(`commit_stored_iff`).

These are the frame lemmas of the stores: what an operation leaves alone.  Everything that is
claimed of documents is claimed of one document at a time, so for each operation there is one lemma
about its own document and one about others.  Eviction is the one way in which an operation on one
document changes what is stored of another.
-/

namespace PikeAnalysis

namespace DocumentCache

theorem get?_delete (c : DocumentCache) (uri other : String) :
    (c.delete uri).1.get? other = if other = uri then none else c.get? other :=
  Assoc.get?_erase uri other c.entries

theorem get?_set_self {c : DocumentCache} {entry : DocumentEntry} (h : c.isStale entry = false) :
    (c.set entry).1.get? entry.uri = some entry := by
  unfold set
  rw [if_neg (by simp [h])]
  exact Assoc.get?_set_self entry.uri entry c.entries

theorem get?_set_of_ne {c : DocumentCache} {entry : DocumentEntry} {uri : String}
    (h : uri ≠ entry.uri) : (c.set entry).1.get? uri = c.get? uri := by
  unfold set
  split
  · rfl
  · exact Assoc.get?_set_of_ne h entry c.entries

end DocumentCache

namespace TypeDatabase

variable (db : TypeDatabase) {uri : String}

theorem get?_dropProgram (uri other : String) :
    (db.dropProgram uri).get? other = if other = uri then none else db.get? other := by
  unfold dropProgram
  split
  · next hnone =>
    split
    · next h => rw [h, hnone]
    · rfl
  · exact Assoc.get?_erase uri other db.programs

/-- A program that is neither stored nor dropped by name stays, unless it is evicted. -/
theorem get?_evict (uris : List String) (uri : String) :
    (db.evict uris).get? uri = db.get? uri ∨ (db.evict uris).get? uri = none := by
  induction uris generalizing db with
  | nil => exact .inl rfl
  | cons u rest ih =>
    unfold evict
    split
    · exact .inl rfl
    · rcases ih { db.dropProgram u with evictions := db.evictions + 1 } with h | h
      · rw [h]
        have hdrop := db.get?_dropProgram u uri
        by_cases hu : uri = u
        · rw [if_pos hu] at hdrop
          exact .inr hdrop
        · rw [if_neg hu] at hdrop
          exact .inl hdrop
      · exact .inr h

theorem get?_enforceBudget (keep uri : String) :
    (db.enforceBudget keep).get? uri = db.get? uri ∨ (db.enforceBudget keep).get? uri = none := by
  unfold enforceBudget
  split
  · exact .inl rfl
  · exact db.get?_evict _ uri

theorem get?_set_of_ne {info : ProgramInfo} (h : uri ≠ info.uri) :
    (db.set info).1.get? uri = db.get? uri ∨ (db.set info).1.get? uri = none := by
  unfold set
  split
  · exact .inl rfl
  · split
    · exact .inl rfl
    · have hstored : ((db.dropProgram info.uri).insert info).get? uri = db.get? uri := by
        refine (Assoc.get?_set_of_ne h info _).trans ?_
        exact (db.get?_dropProgram info.uri uri).trans (if_neg h)
      rw [← hstored]
      exact get?_enforceBudget _ info.uri uri

theorem get?_reopen_of_ne {u : String} (h : uri ≠ u) : (db.reopen u).1.get? uri = db.get? uri := by
  unfold reopen
  dsimp only
  split
  · refine (get?_dropProgram _ u uri).trans ?_
    rw [if_neg h]
    rfl
  · rfl

end TypeDatabase

namespace Stores

theorem closingsOf_closed (s : Stores) (uri other : String) :
    (s.closed uri).closingsOf other = s.closingsOf other + if other = uri then 1 else 0 := by
  have hget : (s.closed uri).closingsOf other =
      (Assoc.get? other (Assoc.set uri (s.closingsOf uri + 1) s.closings)).getD 0 := rfl
  rw [hget, Assoc.get?_set]
  split
  · next h => rw [h, Option.getD_some]
  · rfl

theorem closingsOf_congr {s s' : Stores} (h : s'.closings = s.closings) (uri : String) :
    s'.closingsOf uri = s.closingsOf uri := by
  rw [closingsOf, closingsOf, h]

end Stores

namespace Validation

variable {s : Stores} {d : Draft} {positions : PositionIndex} {now : Instant}

/-- Without an analysis nothing is stored. -/
theorem missed_eq (s : Stores) (miss : Miss) :
    (missed s miss).1.documents = s.documents ∧ (missed s miss).1.programs = s.programs ∧
      (missed s miss).1.closings = s.closings := by
  cases miss with
  | timedOut => exact ⟨rfl, rfl, rfl⟩
  | failed why =>
    unfold missed
    dsimp only
    split
    · split <;> exact ⟨rfl, rfl, rfl⟩
    · exact ⟨rfl, rfl, rfl⟩

theorem completed_missed (s : Stores) (miss : Miss) :
    (missed s miss).1.completed = s.completed := by
  cases miss with
  | timedOut => rfl
  | failed why =>
    unfold missed
    dsimp only
    split_ifs <;> rfl

/-- A draft is stored exactly if its document was not closed since the validation began and no later
version of it is there.  Nothing else is looked at, whatever the draft contains. -/
theorem commit_stored_iff :
    (∃ s' log, commit s d positions now = .stored s' log) ↔
      s.closingsOf d.target.uri = d.target.closings ∧
        s.documents.isStale (d.entry positions) = false := by
  unfold commit
  by_cases hclosed : s.closingsOf d.target.uri = d.target.closings
  · rw [if_neg (not_not_intro hclosed)]
    cases hstale : s.documents.isStale (d.entry positions) with
    | true => simp [DocumentCache.set, hstale]
    | false => simp [DocumentCache.set, hstale, hclosed]
  · rw [if_pos hclosed]
    simp [hclosed]

theorem commit_of_closed (h : s.closingsOf d.target.uri ≠ d.target.closings) :
    commit s d positions now = .discarded := by
  cases hc : commit s d positions now with
  | discarded => rfl
  | stored s' log => exact absurd (commit_stored_iff.mp ⟨s', log, hc⟩).1 h

/-- Storing a program writes to the database only. -/
theorem storeProgram_eq (s : Stores) (d : Draft) (now : Instant) :
    (storeProgram s d now).1.documents = s.documents ∧
      (storeProgram s d now).1.closings = s.closings := by
  unfold storeProgram
  split <;> exact ⟨rfl, rfl⟩

theorem storeProgram_of_ne (s : Stores) (now : Instant) {uri : String} (h : uri ≠ d.target.uri) :
    (storeProgram s d now).1.programs.get? uri = s.programs.get? uri ∨
      (storeProgram s d now).1.programs.get? uri = none := by
  unfold storeProgram
  split
  · exact .inl rfl
  · exact s.programs.get?_set_of_ne h

/-- What is left of a draft that is stored. -/
theorem commit_stored {s' : Stores} {log : List LogEntry}
    (stored : commit s d positions now = .stored s' log) :
    ∃ documents, s.documents.set (d.entry positions) = (documents, true) ∧
      storeProgram { s with documents } d now = (s', log) := by
  unfold commit at stored
  split at stored
  · cases stored
  · split at stored
    · cases stored
    · next documents hset =>
      cases stored
      exact ⟨documents, hset, rfl⟩

theorem closings_commit {s' : Stores} {log : List LogEntry}
    (stored : commit s d positions now = .stored s' log) : s'.closings = s.closings := by
  obtain ⟨documents, -, hstore⟩ := commit_stored stored
  have hclosings := (storeProgram_eq { s with documents } d now).2
  rwa [hstore] at hclosings

theorem completed_commit {s' : Stores} {log : List LogEntry}
    (stored : commit s d positions now = .stored s' log) : s'.completed = s.completed := by
  obtain ⟨documents, -, hstore⟩ := commit_stored stored
  unfold storeProgram at hstore
  split at hstore
  · cases hstore
    rfl
  · cases hstore
    rfl

/-- A draft that is stored brings its program along, if it has one. -/
theorem programs_commit {s' : Stores} {log : List LogEntry}
    (stored : commit s d positions now = .stored s' log) :
    s'.programs = s.programs ∨
      ∃ i, d.program = some i ∧ s'.programs = (s.programs.set (d.programInfo i now)).1 := by
  obtain ⟨documents, -, hstore⟩ := commit_stored stored
  unfold storeProgram at hstore
  split at hstore
  · cases hstore
    exact .inl rfl
  · next i hprogram =>
    cases hstore
    exact .inr ⟨i, hprogram, rfl⟩

theorem commit_self {s' : Stores} {log : List LogEntry}
    (stored : commit s d positions now = .stored s' log) :
    s'.documents.get? d.target.uri = some (d.entry positions) := by
  obtain ⟨-, hstale⟩ := commit_stored_iff.mp ⟨s', log, stored⟩
  obtain ⟨documents, hset, hprogram⟩ := commit_stored stored
  have hdocuments : s'.documents = documents := by
    obtain ⟨hsame, -⟩ := storeProgram_eq { s with documents } d now
    rw [hprogram] at hsame
    exact hsame
  have hself := DocumentCache.get?_set_self hstale
  rw [hset] at hself
  rw [hdocuments]
  exact hself

/-- What is known of other documents stays when a draft is stored, unless their programs are
evicted. -/
theorem commit_of_ne {uri : String} (h : uri ≠ d.target.uri) {s' : Stores} {log : List LogEntry}
    (stored : commit s d positions now = .stored s' log) :
    s'.documents.get? uri = s.documents.get? uri ∧
      (s'.programs.get? uri = s.programs.get? uri ∨ s'.programs.get? uri = none) := by
  obtain ⟨documents, hset, hstore⟩ := commit_stored stored
  have hprograms := storeProgram_of_ne { s with documents } now h
  have hdocuments := (storeProgram_eq { s with documents } d now).1
  have hget : (s.documents.set (d.entry positions)).1.get? uri = s.documents.get? uri :=
    DocumentCache.get?_set_of_ne h
  rw [hstore] at hprograms hdocuments
  rw [hset] at hget
  exact ⟨(congrArg (·.get? uri) hdocuments).trans hget, hprograms⟩

end Validation

end PikeAnalysis
