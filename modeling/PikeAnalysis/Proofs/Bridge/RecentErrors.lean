import Mathlib.Data.List.DropRight
import PikeAnalysis.Engine.Run
import PikeAnalysis.Proofs.Bridge.Correlation

/-!
# The error lines that are remembered

A line of a worker's error stream is kept if it speaks of an error and if it announces the end of
the worker, and the last few that were kept are shown.  The two tests are made one after the other,
so a line that passes both is kept twice and pushes an older one out.  What is remembered is
therefore the end of the lines read, each as often as it passed (`recentErrors_eq`), and
`recentErrors_are_last_errors` says exactly when these are the last error lines themselves: behind
every line that passed both tests, the last one that counts aside, comes the same line again.

Nothing else that happens to the bridge touches them, so workers may come and go in between.

The claim in words is that the last few error lines are shown, and that is true of some histories
only.  What is proved is an equivalence: the shown lines are the last error lines exactly if no line
that was kept twice pushed out one that should be there.  It comes down to a fact about lists in
which some entries are repeated on the spot (`take_repeated_eq_iff`), and that is why such lists are
looked at first.
-/

namespace PikeAnalysis

/-! ## Repeated entries

A list in which some entries are repeated on the spot begins like the list itself only if the
entries behind the first of them are the same anyhow. -/

namespace Repetition

variable {α : Type} (times : α → Nat)

/-- Every entry as often as it is to be there.  Copies of an entry stand next to one another, where
the entry stood. -/
def repeated (xs : List α) : List α :=
  xs.flatMap fun x => List.replicate (times x) x

variable {times} {xs : List α} {x : α} {n : Nat}

theorem repeated_cons (x : α) (xs : List α) :
    repeated times (x :: xs) = List.replicate (times x) x ++ repeated times xs :=
  List.flatMap_cons

theorem reverse_repeated (xs : List α) :
    (repeated times xs).reverse = repeated times xs.reverse := by
  simp [repeated, List.reverse_flatMap, Function.comp_def]

theorem take_eq_replicate_iff : xs.take n = List.replicate n x ↔ ∀ i < n, xs[i]? = some x := by
  constructor
  · intro h i hi
    have hget := congrArg (·[i]?) h
    simpa [List.getElem?_take, List.getElem?_replicate, hi] using hget
  · intro h
    refine List.ext_getElem? fun i => ?_
    rw [List.getElem?_take, List.getElem?_replicate]
    split
    · next hi => exact h i hi
    · rfl

/-- Copies in front of a list that does not notice them are copies of all that follows. -/
theorem take_eq_replicate_of_copies (hx : 1 ≤ times x) {copies : Nat} (hcopies : 1 ≤ copies)
    (h : (List.replicate copies x ++ repeated times xs).take n = xs.take n) :
    xs.take n = List.replicate n x := by
  induction n generalizing xs copies with
  | zero => rfl
  | succ n ih =>
    obtain ⟨more, rfl⟩ := Nat.exists_eq_add_of_le' hcopies
    cases xs with
    | nil => simp [List.replicate_succ] at h
    | cons y rest =>
      rw [List.replicate_succ, List.cons_append, List.take_succ_cons, List.take_succ_cons,
        List.cons.injEq] at h
      obtain ⟨rfl, htail⟩ := h
      rw [repeated_cons, ← List.append_assoc, List.replicate_append_replicate] at htail
      rw [List.take_succ_cons, ih (Nat.le_add_left_of_le hx) htail, List.replicate_succ]

theorem take_copies_of_eq_replicate (hx : 1 ≤ times x) (copies : Nat)
    (h : xs.take n = List.replicate n x) :
    (List.replicate copies x ++ repeated times xs).take n = List.replicate n x := by
  induction n generalizing xs copies with
  | zero => rfl
  | succ n ih =>
    cases xs with
    | nil => simp [List.replicate_succ] at h
    | cons y rest =>
      rw [List.take_succ_cons, List.replicate_succ, List.cons.injEq] at h
      obtain ⟨rfl, htail⟩ := h
      obtain ⟨more, hmore⟩ : ∃ more, copies + times y = more + 1 :=
        Nat.exists_eq_add_of_le' (Nat.le_add_left_of_le hx)
      rw [repeated_cons, ← List.append_assoc, List.replicate_append_replicate, hmore,
        List.replicate_succ, List.cons_append, List.take_succ_cons, ih more htail,
          List.replicate_succ]

/-- Repeating entries leaves the first `n` as they are exactly if every entry that is repeated, the
last of them aside, is followed by itself. -/
theorem take_repeated_eq_iff (some_times : ∀ x ∈ xs, 1 ≤ times x) :
    (repeated times xs).take n = xs.take n ↔
      ∀ i, i + 1 < n → ∀ x, xs[i]? = some x → 2 ≤ times x → xs[i + 1]? = some x := by
  -- By the list: if the first entry is not repeated both sides lose it, and if it is, all of the
  -- first `n` have to be the same.
  induction xs generalizing n with
  | nil => simp [repeated]
  | cons x rest ih =>
    have hx := some_times x List.mem_cons_self
    have hrest := ih (n := n - 1) fun y hy => some_times y (List.mem_cons_of_mem x hy)
    cases n with
    | zero => simp
    | succ n =>
      rw [Nat.add_sub_cancel] at hrest
      by_cases htwice : 2 ≤ times x
      · -- from here on all entries are the same, whichever side is given
        obtain ⟨more, hmore⟩ := Nat.exists_eq_add_of_le' htwice
        have hsame : (repeated times (x :: rest)).take (n + 1) = (x :: rest).take (n + 1) ↔
            rest.take n = List.replicate n x := by
          rw [repeated_cons, hmore, List.replicate_succ, List.cons_append, List.take_succ_cons,
            List.take_succ_cons, List.cons.injEq]
          constructor
          · exact fun h => take_eq_replicate_of_copies hx (Nat.le_add_left 1 more) h.2
          · exact fun h => ⟨rfl, (take_copies_of_eq_replicate hx _ h).trans h.symm⟩
        rw [hsame, take_eq_replicate_iff]
        constructor
        · intro h i hi y hy _
          have hxy : x = y := by
            cases i with
            | zero => simpa using hy
            | succ j =>
              rw [List.getElem?_cons_succ, h j (by omega), Option.some.injEq] at hy
              exact hy
          rw [List.getElem?_cons_succ, h i (by omega), hxy]
        · intro h i hi
          induction i with
          | zero => simpa using h 0 (by omega) x rfl htwice
          | succ j hj => simpa using h (j + 1) (by omega) x (by simpa using hj (by omega)) htwice
      · have hone : times x = 1 := by omega
        rw [repeated_cons, hone, List.replicate_one, List.singleton_append, List.take_succ_cons,
          List.take_succ_cons, List.cons.injEq, and_iff_right rfl, hrest]
        constructor
        · intro h i hi y hy hy2
          cases i with
          | zero =>
            obtain rfl : x = y := by simpa using hy
            exact absurd hy2 htwice
          | succ j => simpa using h j (by omega) y (by simpa using hy) hy2
        · intro h i hi y hy hy2
          simpa using h (i + 1) (by omega) y (by simpa using hy) hy2

end Repetition

namespace Bridge

open Repetition

/-! ## What is kept of a line -/

/-- Whether a line speaks of an error. -/
def saysError (line : String) : Bool :=
  Text.containsLowered "error" line.toList

/-- How many of the two tests a line passes.  A line that announces the end of the worker and speaks
of an error passes both. -/
def timesKept (line : String) : Nat :=
  (saysError line).toNat + (isFatalLine line).toNat

/-- The lines of error streams that were read.  Which worker printed a line makes no difference, as
there is one list for all of them. -/
def linesRead (past : List Occurrence) : List String :=
  past.filterMap fun o =>
    match o.event with
    | .stderrLine _ line => some line
    | _ => none

/-- The error lines among them. -/
def errorLines (past : List Occurrence) : List String :=
  (linesRead past).filter isErrorLine

theorem isErrorLine_iff {line : String} : isErrorLine line = true ↔ 1 ≤ timesKept line := by
  unfold isErrorLine timesKept saysError
  cases Text.containsLowered "error" line.toList <;> cases isFatalLine line <;> decide

theorem timesKept_eq_two {line : String} :
    2 ≤ timesKept line ↔ saysError line = true ∧ isFatalLine line = true := by
  unfold timesKept
  cases saysError line <;> cases isFatalLine line <;> decide

theorem repeated_filter (lines : List String) :
    repeated timesKept (lines.filter isErrorLine) = repeated timesKept lines := by
  induction lines with
  | nil => rfl
  | cons line rest ih =>
    by_cases h : isErrorLine line = true
    · rw [List.filter_cons_of_pos h, repeated_cons, repeated_cons, ih]
    · have hzero : timesKept line = 0 := by
        rw [isErrorLine_iff] at h
        omega
      rw [List.filter_cons_of_neg h, ih, repeated_cons, hzero, List.replicate_zero, List.nil_append]

/-! ## Steps that remember nothing -/

namespace State

/-- What the bridge remembers of error streams, and how much of it.  Most steps leave this part of
the state alone, which is all that has to be shown of them here. -/
def memory (s : State) : Nat × List String :=
  (s.recentMax, s.recentErrors)

variable (s : State) (env : Outside) (g : Gate) (t : Nat) (job : Job) (id w : Nat)

theorem memory_thenDo (p : Step) (f : State → Step) :
    (thenDo p f).1.memory = (f p.1).1.memory := rfl

theorem memory_setLock (l : Lock) : (s.setLock g l).memory = s.memory := by
  cases g <;> rfl

theorem memory_release : (s.release g).1.memory = s.memory :=
  memory_setLock s g _

/-- A thread that has a lock gives it back and does something that remembers nothing. -/
theorem memory_leave {f : State → Step} (next : ∀ u, (f u).1.memory = u.memory) :
    (thenDo (s.release g) f).1.memory = s.memory :=
  (next _).trans (memory_release s g)

theorem memory_draw : (s.draw g).memory = s.memory := by
  cases g <;> rfl

theorem memory_acquire {stage : Nat → Stage} {go : State → Step}
    (next : ∀ u, (go u).1.memory = u.memory) :
    (s.acquire env g t job stage go).1.memory = s.memory := by
  unfold acquire
  split
  · exact (next _).trans (memory_setLock s g _)
  · exact memory_draw s g

theorem memory_enter (n : Nat) (how : Resume) {go : State → Step}
    (next : ∀ u, (go u).1.memory = u.memory) :
    (s.enter g t n how go).1.memory = s.memory := by
  unfold enter
  dsimp only
  split
  · rw [memory_thenDo]
    split <;> exact memory_setLock s g _
  · exact (next _).trans ((memory_setLock _ g _).trans (memory_setLock s g _))

theorem memory_crash (why : String → BridgeFailure) : (s.crash w why).1.memory = s.memory := by
  unfold crash
  split <;> rfl

theorem memory_unwritten (method : String) : (s.unwritten t id w method).1.memory = s.memory := by
  unfold unwritten
  split <;> rfl

theorem memory_written : (s.written t job id).1.memory = s.memory :=
  memory_leave s .write fun _ => rfl

theorem memory_write : (s.write env t job id w).1.memory = s.memory := by
  unfold write
  split
  · split
    · exact memory_written _ t _ id
    · rfl
    · exact memory_leave s .write fun u => memory_unwritten u t id w _
  · exact memory_leave s .write fun _ => rfl

theorem memory_pipeOver (how : Resume) : (s.pipeOver t job id w how).1.memory = s.memory := by
  unfold pipeOver
  split
  · exact memory_leave s .write fun _ => rfl
  · exact memory_leave s .write fun u => memory_unwritten u t id w _
  · exact memory_written s t job id

theorem memory_ask (method : String) (params : List (String × Json)) :
    (s.ask env t job method params).1.memory = s.memory := by
  unfold ask
  split
  · rfl
  · exact memory_acquire _ env .write t job fun u => memory_write u env t job _ _

theorem memory_started : (s.started env t job).1.memory = s.memory := by
  cases job with
  | request method params => exact memory_ask s env t _ method params
  | start | stop => rfl

theorem memory_launched (command : List String) (outcome : Launch) :
    (s.launched env t job command outcome).1.memory = s.memory := by
  cases outcome with
  | notFound | refused => rfl
  | started pid => exact memory_started _ env t job

theorem memory_spawn : (s.spawn env t job).1.memory = s.memory := by
  unfold spawn
  split
  · rfl
  · rw [memory_thenDo]
    split
    · rfl
    · exact memory_launched s env t job _ _

theorem memory_startLocked : (s.startLocked env t job).1.memory = s.memory := by
  unfold startLocked
  split
  · exact memory_leave s .start fun u => memory_started u env t job
  · split
    · exact memory_spawn s env t job
    · next w _ =>
      rw [memory_thenDo, ← memory_crash s w fun method => .exited (s.exitCode? w) (some method)]
      split
      · exact memory_spawn _ env t job
      · rfl

theorem memory_drain : (s.drain t).1.memory = s.memory := by
  unfold drain
  split <;> rfl

theorem memory_stopLocked : (s.stopLocked t).1.memory = s.memory := by
  unfold stopLocked
  split
  · rfl
  · rw [memory_thenDo]
    split
    · rfl
    · exact memory_drain _ t

theorem memory_haveLock : (s.haveLock env t job).1.memory = s.memory := by
  cases job with
  | stop => exact memory_stopLocked s t
  | request | start => exact memory_startLocked s env t _

theorem memory_startOrStop : (s.startOrStop env t job).1.memory = s.memory :=
  memory_acquire s env .start t job fun u => memory_haveLock u env t job

theorem memory_begin : (s.begin env t job).1.memory = s.memory := by
  cases job with
  | request method params =>
    unfold State.begin
    dsimp only
    split
    · exact memory_ask s env t _ method params
    · split
      · rfl
      · exact memory_startOrStop s env t _
  | start | stop => exact memory_startOrStop s env t _

theorem memory_resume (how : Resume) : (s.resume env t how).1.memory = s.memory := by
  unfold resume
  split
  · rfl
  · next thread _ =>
    split
    · exact memory_enter s .start t _ how fun u => memory_haveLock u env t thread.job
    · split
      · rfl
      · exact memory_spawn s env t thread.job
    · split
      · rfl
      · exact memory_launched s env t thread.job _ _
    · exact memory_enter s .write t _ how fun u => memory_write u env t thread.job _ _
    · exact memory_pipeOver s t thread.job _ _ how
    · rfl
    · split
      · rfl
      · rfl
      · exact memory_drain s t
    · split
      · rfl
      · exact memory_drain s t
    · split <;> rfl

end State

/-- Only lines of error streams are remembered.  So what the memory holds is settled by those lines
and their order alone. -/
theorem memory_step (s : State) (env : Outside) {e : Event}
    (other : ∀ w line, e ≠ .stderrLine w line) :
    (s.step env e).1.memory = s.memory := by
  cases e with
  | begin t job => exact s.memory_begin env t job
  | resume t how => exact s.memory_resume env t how
  | stderrLine w line => exact absurd rfl (other w line)
  | stdoutEnded w => exact s.memory_crash w _
  | join key t => rfl
  | forget key t =>
    dsimp only [State.step]
    split <;> rfl
  | stdoutLine w line =>
    dsimp only [State.step, State.stdoutLine]
    split <;> rfl
  | exited w code =>
    dsimp only [State.step, State.exited]
    split <;> rfl

/-! ## Lines -/

theorem rtake_append_rtake {α : Type} (xs ys : List α) (n : Nat) :
    (xs.rtake n ++ ys).rtake n = (xs ++ ys).rtake n := by
  simp only [List.rtake_eq_reverse_take_reverse, List.reverse_append, List.reverse_reverse]
  rw [List.take_append, List.take_append, List.take_take, List.length_reverse]
  congr 3
  omega

theorem recentErrors_remember (s : State) (line : String) :
    (s.remember line).recentErrors = (s.recentErrors ++ [line]).rtake s.recentMax := rfl

/-- A line is put behind what is remembered once for each test that it passes. -/
theorem recentErrors_stderrLine (s : State) (w : Nat) (line : String)
    (full : s.recentErrors.rtake s.recentMax = s.recentErrors) :
    (s.stderrLine w line).1.memory = (s.recentMax,
      (s.recentErrors ++ List.replicate (timesKept line) line).rtake s.recentMax) := by
  unfold State.stderrLine timesKept saysError
  cases hsays : Text.containsLowered "error" line.toList <;> cases hfatal : isFatalLine line
  · simp [State.memory, full]
  · simp only [if_true, Bool.false_eq_true, if_false]
    rw [State.memory_thenDo, State.memory_crash]
    rfl
  · rfl
  · simp only [if_true]
    rw [State.memory_thenDo, State.memory_crash]
    refine Prod.ext rfl ?_
    change ((s.remember line).recentErrors ++ [line]).rtake s.recentMax = _
    rw [recentErrors_remember, rtake_append_rtake, List.append_assoc]
    rfl

variable {past : List Occurrence} {s : State}

theorem linesRead_append (past : List Occurrence) (o : Occurrence) :
    linesRead (past ++ [o]) = linesRead past ++ (match o.event with
      | .stderrLine _ line => [line]
      | _ => []) := by
  rw [linesRead, List.filterMap_append, linesRead]
  obtain ⟨e, effects⟩ := o
  cases e <;> rfl

/-- What is remembered is the end of all lines read, each as often as it was kept. -/
theorem recentErrors_eq (h : History past s) :
    s.recentErrors = (repeated timesKept (linesRead past)).rtake s.recentMax := by
  induction h with
  | start recentMax => exact (List.rtake_nil _).symm
  | @occurs past s h env e ih =>
    by_cases hline : ∃ w line, e = .stderrLine w line
    · obtain ⟨w, line, rfl⟩ := hline
      have full : s.recentErrors.rtake s.recentMax = s.recentErrors := by
        have htwice := rtake_append_rtake (repeated timesKept (linesRead past)) [] s.recentMax
        rw [List.append_nil, List.append_nil, ← ih] at htwice
        exact htwice
      obtain ⟨hmax, hrecent⟩ := Prod.mk.inj (recentErrors_stderrLine s w line full)
      have hmore : repeated timesKept (linesRead past ++ [line]) =
          repeated timesKept (linesRead past) ++ List.replicate (timesKept line) line := by
        simp [repeated]
      change (s.stderrLine w line).1.recentErrors = _
      rw [hrecent, linesRead_append, hmore]
      change _ = List.rtake _ (s.stderrLine w line).1.recentMax
      rw [hmax, ← rtake_append_rtake (repeated _ _), ← ih]
    · have other : ∀ w line, e ≠ .stderrLine w line := fun w line he => hline ⟨w, line, he⟩
      obtain ⟨hmax, hrecent⟩ := Prod.mk.inj (memory_step s env other)
      have hread : linesRead (past ++ [⟨e, (s.step env e).2⟩]) = linesRead past := by
        rw [linesRead_append]
        cases e with
        | stderrLine w line => exact absurd rfl (other w line)
        | _ => exact List.append_nil _
      rw [hread, hrecent, hmax, ih]

/-- The error lines that are shown, out of all that were read.  The first field is what the worker
does, and the second says when that is what was promised.  The two differ as a line that passes both
tests is taken down twice, and takes the place of an older line by that. -/
structure Recalls (past : List Occurrence) (limit : Nat) (recent : List String) : Prop where
  /-- The end of all lines read, each once for every test that it passed. -/
  kept : recent = (repeated timesKept (linesRead past)).rtake limit
  /-- They are the last error lines, each once, exactly if of the error lines, counted back from the
  last one up to but not including the one that would be shown first, every one that passed both
  tests comes behind the same line. -/
  exact : recent = (errorLines past).rtake limit ↔
    ∀ i, i + 1 < limit → ∀ line, (errorLines past).reverse[i]? = some line →
      saysError line = true → isFatalLine line = true →
        (errorLines past).reverse[i + 1]? = some line

/-- Whichever workers have come and gone and whatever else has happened to the bridge, its health
shows the last lines that were kept, and these are the last error lines unless one of them was kept
twice.  `Recalls` has both halves, the second of them as an equivalence. -/
theorem recentErrors_are_last_errors {e : Engine.State} (h : History past e.bridge) :
    Recalls past e.bridge.recentMax (Engine.bridgeHealth e).recentErrors := by
  have kept :
      e.bridge.recentErrors = (repeated timesKept (linesRead past)).rtake e.bridge.recentMax :=
    recentErrors_eq h
  have often : ∀ line ∈ (errorLines past).reverse, 1 ≤ timesKept line := fun line hline =>
    isErrorLine_iff.mp (List.mem_filter.mp (List.mem_reverse.mp hline)).2
  refine ⟨kept, ?_⟩
  change e.bridge.recentErrors = _ ↔ _
  rw [kept, ← repeated_filter, List.rtake_eq_reverse_take_reverse,
    List.rtake_eq_reverse_take_reverse, List.reverse_inj, reverse_repeated]
  change (repeated timesKept (errorLines past).reverse).take _ = _ ↔ _
  rw [take_repeated_eq_iff often]
  simp only [timesKept_eq_two, and_imp]

/-- Of two error lines, the second announces the worker's end and is kept twice: under a limit of
two it is all that is shown. -/
theorem fatal_line_is_shown_twice :
    ∃ (e : Engine.State) (past : List Occurrence), History past e.bridge ∧ e.bridge.recentMax = 2 ∧
      errorLines past = ["Error: first", "Fatal error: lost"] ∧
      (Engine.bridgeHealth e).recentErrors = ["Fatal error: lost", "Fatal error: lost"] ∧
      (Engine.bridgeHealth e).recentErrors ≠ (errorLines past).rtake 2 := by
  have started := (History.start 2).occurs willing (.begin 0 .start)
  have first := started.occurs willing (.stderrLine 0 "Error: first")
  have lost := first.occurs willing (.stderrLine 0 "Fatal error: lost")
  let host : Host := { surroundings := { tree := { cwd := Path.ofText "/desk" }, home := "/desk" } }
  let idle : Engine.State := .initial {} 0 0 host .absent
  have recalls := recentErrors_are_last_errors (e := { idle with bridge := _ }) lost
  refine ⟨{ idle with bridge := _ }, _, lost, by decide +kernel, by decide +kernel, ?_, ?_⟩
  · rw [recalls.kept]
    decide +kernel
  · intro equal
    have follows := recalls.exact.mp equal 0 (by decide +kernel) "Fatal error: lost"
    revert follows
    decide +kernel

end Bridge

end PikeAnalysis
