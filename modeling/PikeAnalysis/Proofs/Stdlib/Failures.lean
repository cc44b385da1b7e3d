import PikeAnalysis.Proofs.Stdlib.Limits

/-!
# What is remembered of modules that could not be loaded

A failure counts until its time is over or the worker is another one (`counts_iff`).  An index that
has noted one (`StdlibIndex.Remembers`) keeps it as long as it counts, whatever is asked for and
stored meanwhile: it is dropped when somebody asks for the module after that, or with everything
else.  Asking for the module therefore ends at once exactly as long as the failure counts
(`Remembers.absent`, `Remembers.unknown`).

Time and the number of the worker only grow, so a failure that does not count any more never counts
again (`Counts.earlier`), and dropping it makes no difference.  `Remembers` is therefore stated with
what was remembered and not with what is in the index: the entry may be there although it does not
count, or be gone because it did not.
-/

namespace PikeAnalysis.StdlibIndex

variable {x : StdlibIndex} {path : String} {known : Option MissingModule} {cleared : Prop}
  {now now' : Instant} {generation generation' : Nat}

/-! ## Counting -/

/-- What is remembered of a module keeps others from asking for it.  Nothing is remembered of a
module that was never asked for. -/
def Counts (known : Option MissingModule) (now : Instant) (generation : Nat) : Prop :=
  (known.any fun f => MissingModule.counts f now generation) = true

theorem not_counts_none : ¬ Counts none now generation :=
  Bool.false_ne_true

/-- A failure counts before its time is over, and under the same worker. -/
theorem counts_iff {f : MissingModule} :
    Counts (some f) now generation ↔ (∀ t, f.expiresAt = some t → now < t) ∧
      generation = f.generation := by
  have same : f.generation = generation ↔ generation = f.generation := eq_comm
  unfold Counts MissingModule.counts
  cases expires : f.expiresAt <;> simp [same, expires]

/-- What does not count any more never will, as time goes on and workers come one after the
other. -/
theorem Counts.earlier (h : Counts known now' generation') (time : now ≤ now')
    (worker : generation ≤ generation')
    (noted : ∀ f, known = some f → f.generation ≤ generation) : Counts known now generation := by
  cases known with
  | none => exact absurd h not_counts_none
  | some f =>
    obtain ⟨open_, same⟩ := counts_iff.1 h
    have before := noted f rfl
    exact counts_iff.2 ⟨fun t ht => Int.lt_of_le_of_lt time (open_ t ht), by omega⟩

/-! ## Remembering -/

/-- An index does not have a module, and knows of it what was remembered last, or nothing once that
does not count any more or the index has been cleared. -/
structure Remembers (x : StdlibIndex) (path : String) (known : Option MissingModule)
    (cleared : Prop) (now : Instant) (generation : Nat) : Prop where
  modules : Assoc.get? path x.modules = none
  failures : Assoc.get? path x.failures = known ∨
    Assoc.get? path x.failures = none ∧ (cleared ∨ ¬ Counts known now generation)

namespace Remembers

/-- Whoever asks for the module while the failure counts is told so, and changes nothing. -/
theorem absent (h : x.Remembers path known cleared now generation) (kept : ¬ cleared)
    (counts : Counts known now generation) :
    x.ask now generation path = ({ x with negativeHits := x.negativeHits + 1 }, .absent) := by
  have hfailures : Assoc.get? path x.failures = known :=
    h.failures.resolve_right fun ⟨_, gone⟩ => gone.elim kept fun not => not counts
  have known_counts : (known.any fun f => MissingModule.counts f now generation) = true := counts
  rw [ask, h.modules]
  simp only [hfailures, known_counts, if_true]

/-- Whoever asks for the module when no failure counts joins the task that loads it, or loads it. -/
theorem unknown (h : x.Remembers path known cleared now generation)
    (idle : ¬ Counts known now generation) :
    (x.ask now generation path).2 =
      match Assoc.get? path x.loading with
      | some task => .join task
      | none => .load := by
  have unknown : ¬ Counts (Assoc.get? path x.failures) now generation := by
    rcases h.failures with same | ⟨dropped, -⟩
    · rwa [same]
    · rw [dropped]
      exact not_counts_none
  have passes : ((Assoc.get? path x.failures).any fun f => MissingModule.counts f now generation) =
    false :=
    Bool.eq_false_iff.2 unknown
  rw [ask, h.modules]
  simp only [passes, Bool.false_eq_true, if_false]
  cases Assoc.get? path x.loading <;> rfl

/-! ## Operations -/

/-- Whoever asks for a module drops its failure at most, and only if that does not count any
more. -/
theorem ask (h : x.Remembers path known cleared now generation) (other : String) :
    (x.ask now generation other).1.Remembers path known cleared now generation := by
  by_cases same : other = path
  · subst same
    -- A failure that counts is told and kept; one that does not is dropped.
    by_cases counts : Counts (Assoc.get? other x.failures) now generation
    · have noted : x.Remembers other (Assoc.get? other x.failures) False now generation :=
        ⟨h.modules, .inl rfl⟩
      rw [noted.absent id counts]
      exact ⟨h.modules, h.failures⟩
    · have gone : cleared ∨ ¬ Counts known now generation := by
        rcases h.failures with same | ⟨-, gone⟩
        · exact .inr (same ▸ counts)
        · exact gone
      have passes :
          ((Assoc.get? other x.failures).any fun f => MissingModule.counts f now generation) =
          false := Bool.eq_false_iff.2 counts
      rw [StdlibIndex.ask, h.modules]
      simp only [passes, Bool.false_eq_true, if_false]
      cases Assoc.get? other x.loading <;> exact ⟨h.modules, .inr ⟨Assoc.get?_erase_self _ _, gone⟩⟩
  · have elsewhere : Assoc.get? path (Assoc.erase other x.failures) = Assoc.get? path x.failures :=
      Assoc.get?_erase_of_ne (Ne.symm same) _
    rcases ask_cases x now generation other with
      ⟨m, -, -, he⟩ | ⟨-, -, -, he⟩ | ⟨t, -, -, -, he⟩ | ⟨-, -, -, he⟩ <;>
      rw [he]
    · refine ⟨?_, h.failures⟩
      rw [get?_moved, if_neg (Ne.symm same)]
      exact h.modules
    · exact ⟨h.modules, h.failures⟩
    · exact ⟨h.modules, by rw [elsewhere]; exact h.failures⟩
    · exact ⟨h.modules, by rw [elsewhere]; exact h.failures⟩

theorem noteLoading (h : x.Remembers path known cleared now generation)
    (other : String) (task : Nat) :
    (x.noteLoading other task).Remembers path known cleared now generation :=
  ⟨h.modules, h.failures⟩

theorem endLoading (h : x.Remembers path known cleared now generation) (other : String) :
    (x.endLoading other).Remembers path known cleared now generation :=
  ⟨h.modules, h.failures⟩

theorem store (h : x.Remembers path known cleared now generation) {m : StdlibModule}
    (other : m.path ≠ path) :
    (x.store m).Remembers path known cleared now generation := by
  refine ⟨?_, by rw [store_eq x m]; exact h.failures⟩
  by_contra stored
  obtain ⟨found, hfound⟩ := Option.ne_none_iff_exists'.1 stored
  rcases of_get?_store hfound with ⟨same, -⟩ | hold
  · exact other same.symm
  · rw [h.modules] at hold
    cases hold

theorem rememberFailure (h : x.Remembers path known cleared now generation) {other : String}
    (ne : other ≠ path) (time : Instant) (worker : Nat) :
    (x.rememberFailure time worker other).Remembers path known cleared now generation := by
  refine ⟨h.modules, ?_⟩
  rw [StdlibIndex.rememberFailure, Assoc.get?_set_of_ne (Ne.symm ne)]
  exact h.failures

/-- An index that is cleared knows nothing. -/
theorem clear (x : StdlibIndex) (known : Option MissingModule) (now : Instant) (generation : Nat)
    (gone : cleared) : x.clear.Remembers path known cleared now generation :=
  ⟨rfl, .inr ⟨rfl, .inl gone⟩⟩

/-- Time goes on, and workers come one after the other. -/
theorem later (h : x.Remembers path known cleared now generation) (time : now ≤ now')
    (worker : generation ≤ generation') (noted : ∀ f, known = some f → f.generation ≤ generation) :
    x.Remembers path known cleared now' generation' :=
  ⟨h.modules, h.failures.imp_right fun ⟨dropped, gone⟩ =>
    ⟨dropped, gone.imp_right fun not counts => not (counts.earlier time worker noted)⟩⟩

end Remembers

end PikeAnalysis.StdlibIndex
