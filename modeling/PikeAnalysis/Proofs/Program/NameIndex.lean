import PikeAnalysis.Proofs.Program.Consistency

/-!
# The index of names

The holders of each name are kept up to date as programs come and go.  They are at any time what a
scan of the programs would find (`Scanned`, kept by every operation), so a query by name needs no
scan (`find_after_operations`).

An index that is kept by differences can go wrong in two ways: it forgets a holder, or it keeps one
that is none any more.  Both are excluded by an equation with a scan (`Scanned`), which also fixes
the order of the holders, as a query lists them in it.  The lemmas about dropping and adding holders
mirror the two functions of the database.
-/

namespace PikeAnalysis.TypeDatabase

/-- The holders of a name, found by looking through the programs in order. -/
def scan (name : String) (programs : List (String × ProgramInfo)) : List (String × Symbol) :=
  programs.filterMap fun e => (Assoc.get? name e.2.symbols).map fun s => (e.1, s)

/-- The holders of a name in an index. -/
def holdersOf (name : String) (index : List (String × List (String × Symbol))) :
    List (String × Symbol) :=
  (Assoc.get? name index).getD []

/-- The index says what a scan would, and no name is kept without holders.  `scan` goes through the
programs in the order in which they were stored and collects their symbols of the name, so the order
of the holders is part of the statement. -/
structure Scanned (db : TypeDatabase) : Prop where
  holders : ∀ name, db.find name = scan name db.programs
  held : ∀ e ∈ db.byName, e.2 ≠ []

variable {db : TypeDatabase} {uri name : String} {info : ProgramInfo}
  {programs : List (String × ProgramInfo)} {index : List (String × List (String × Symbol))}

/-! ## Scans -/

@[simp] theorem scan_append (name : String) (programs more : List (String × ProgramInfo)) :
    scan name (programs ++ more) = scan name programs ++ scan name more :=
  List.filterMap_append

theorem mem_keys_of_mem_keys_scan (h : uri ∈ Assoc.keys (scan name programs)) :
    uri ∈ Assoc.keys programs := by
  obtain ⟨f, hf, rfl⟩ := List.mem_map.mp h
  obtain ⟨e, he, hs⟩ := List.mem_filterMap.mp hf
  obtain ⟨s, -, rfl⟩ := Option.map_eq_some_iff.mp hs
  exact Assoc.mem_keys_of_mem he

theorem scan_erase (name uri : String) (programs : List (String × ProgramInfo)) :
    scan name (Assoc.erase uri programs) = Assoc.erase uri (scan name programs) := by
  induction programs with
  | nil => rfl
  | cons e rest ih =>
    by_cases huri : e.1 = uri <;> cases hs : Assoc.get? name e.2.symbols <;>
      simp_all [scan, Assoc.erase]

/-- A document whose program does not declare a name is no holder of it. -/
theorem erase_scan_of_undeclared (distinct : (Assoc.keys programs).Nodup)
    (stored : Assoc.get? uri programs = some info) (undeclared : name ∉ info.names) :
    Assoc.erase uri (scan name programs) = scan name programs := by
  refine Assoc.erase_of_get?_eq_none (Assoc.get?_eq_none_iff.mpr fun hmem => ?_)
  obtain ⟨f, hf, rfl⟩ := List.mem_map.mp hmem
  obtain ⟨e, he, hs⟩ := List.mem_filterMap.mp hf
  obtain ⟨s, hget, rfl⟩ := Option.map_eq_some_iff.mp hs
  have hinfo : e.2 = info :=
    Option.some.inj ((Assoc.get?_of_mem_of_nodup distinct he).symm.trans stored)
  rw [hinfo] at hget
  exact undeclared (Assoc.mem_keys_iff.mpr (by simp [hget]))

/-! ## Dropping holders -/

theorem holdersOf_dropHolder (uri dropped name : String)
    (index : List (String × List (String × Symbol))) :
    holdersOf name (dropHolder uri index dropped) =
      if name = dropped then Assoc.erase uri (holdersOf name index) else holdersOf name index := by
  unfold dropHolder
  split
  · next hnone =>
    split
    · next h =>
      rw [h, holdersOf, hnone]
      rfl
    · rfl
  · next holders hfound =>
    have hself : holdersOf dropped index = holders := by rw [holdersOf, hfound, Option.getD_some]
    dsimp only
    split
    · next hempty =>
      rw [holdersOf, Assoc.get?_erase]
      split
      · next h => rw [h, hself, List.isEmpty_iff.mp hempty, Option.getD_none]
      · rfl
    · rw [holdersOf, Assoc.get?_set]
      split
      · next h => rw [h, hself, Option.getD_some]
      · rfl

theorem held_dropHolder (held : ∀ e ∈ index, e.2 ≠ []) (uri dropped : String) :
    ∀ e ∈ dropHolder uri index dropped, e.2 ≠ [] := by
  intro e he
  unfold dropHolder at he
  split at he
  · exact held e he
  · next holders _ =>
    dsimp only at he
    split at he
    · exact held e (Assoc.mem_erase.mp he).1
    · next hleft =>
      rcases Assoc.mem_set he with rfl | he
      · simpa using hleft
      · exact held e he

theorem holdersOf_foldl_dropHolder (uri name : String) (names : List String)
    (index : List (String × List (String × Symbol))) :
    holdersOf name (names.foldl (dropHolder uri) index) =
      if name ∈ names then Assoc.erase uri (holdersOf name index) else holdersOf name index := by
  induction names generalizing index with
  | nil => simp
  | cons dropped rest ih =>
    rw [List.foldl_cons, ih, holdersOf_dropHolder]
    have htwice : Assoc.erase uri (Assoc.erase uri (holdersOf name index)) =
        Assoc.erase uri (holdersOf name index) :=
      Assoc.erase_of_get?_eq_none (Assoc.get?_erase_self uri _)
    by_cases hname : name = dropped
    · subst hname
      simp [htwice]
    · simp [hname]

theorem held_foldl_dropHolder (held : ∀ e ∈ index, e.2 ≠ []) (uri : String) (names : List String) :
    ∀ e ∈ names.foldl (dropHolder uri) index, e.2 ≠ [] := by
  induction names generalizing index with
  | nil => exact held
  | cons dropped rest ih => exact ih (held_dropHolder held uri dropped)

theorem Scanned.dropProgram (h : db.Scanned) (aligned : db.Aligned) (uri : String) :
    (db.dropProgram uri).Scanned := by
  cases hget : db.get? uri with
  | none => rwa [dropProgram_of_absent hget]
  | some info =>
    have hnames : (Assoc.get? uri db.namesByUri).getD [] = info.names := by
      have hmem : (uri, info.names) ∈ db.namesByUri := by
        rw [aligned.named]
        exact List.mem_map_of_mem (f := fun e => (e.1, e.2.names)) (Assoc.mem_of_get? hget)
      have hkeys : (Assoc.keys db.namesByUri).Nodup := by
        rw [aligned.named, Assoc.keys, List.map_map]
        exact aligned.distinct
      have hfound := Assoc.get?_of_mem_of_nodup hkeys hmem
      rw [hfound, Option.getD_some]
    rw [dropProgram_of_stored hget, hnames]
    refine ⟨fun name => ?_, held_foldl_dropHolder h.held uri info.names⟩
    change holdersOf name (info.names.foldl (dropHolder uri) db.byName) =
      scan name (Assoc.erase uri db.programs)
    have hbefore : holdersOf name db.byName = scan name db.programs := h.holders name
    rw [holdersOf_foldl_dropHolder, scan_erase, hbefore]
    split
    · rfl
    · next hundeclared => exact (erase_scan_of_undeclared aligned.distinct hget hundeclared).symm

/-! ## Adding holders -/

theorem holdersOf_addHolder (uri name : String) (index : List (String × List (String × Symbol)))
    (entry : String × Symbol) :
    holdersOf name (addHolder uri index entry) =
      if name = entry.1 then Assoc.set uri entry.2 (holdersOf name index)
        else holdersOf name index := by
  rw [addHolder, holdersOf, Assoc.get?_set]
  split
  · next h =>
    rw [h]
    rfl
  · rfl

theorem set_ne_nil (uri : String) (s : Symbol) (holders : List (String × Symbol)) :
    Assoc.set uri s holders ≠ [] := by
  intro hnil
  have hself := Assoc.get?_set_self uri s holders
  rw [hnil] at hself
  cases hself

theorem holdersOf_foldl_addHolder (uri name : String) {symbols : List (String × Symbol)}
    (distinct : (Assoc.keys symbols).Nodup) (index : List (String × List (String × Symbol))) :
    holdersOf name (symbols.foldl (addHolder uri) index) =
      match Assoc.get? name symbols with
      | some s => Assoc.set uri s (holdersOf name index)
      | none => holdersOf name index := by
  induction symbols generalizing index with
  | nil => rfl
  | cons e rest ih =>
    obtain ⟨k, s⟩ := e
    obtain ⟨hk, hrest⟩ := List.nodup_cons.mp distinct
    rw [List.foldl_cons, ih hrest, holdersOf_addHolder]
    by_cases hname : name = k
    · subst hname
      have hnone : Assoc.get? name rest = none := Assoc.get?_eq_none_iff.mpr hk
      simp [Assoc.get?, hnone]
    · simp [Assoc.get?, hname, Ne.symm hname]

theorem held_foldl_addHolder (held : ∀ e ∈ index, e.2 ≠ []) (uri : String)
    (symbols : List (String × Symbol)) : ∀ e ∈ symbols.foldl (addHolder uri) index, e.2 ≠ [] := by
  induction symbols generalizing index with
  | nil => exact held
  | cons entry rest ih =>
    refine ih fun e he => ?_
    rcases Assoc.mem_set he with rfl | he
    · exact set_ne_nil uri entry.2 _
    · exact held e he

theorem Scanned.insert (h : db.Scanned) (absent : db.get? info.uri = none)
    (names : info.names.Nodup) : (db.insert info).Scanned := by
  refine ⟨fun name => ?_, held_foldl_addHolder h.held info.uri info.symbols⟩
  change holdersOf name (info.symbols.foldl (addHolder info.uri) db.byName) =
    scan name (Assoc.set info.uri info db.programs)
  have hbefore : holdersOf name db.byName = scan name db.programs := h.holders name
  have hfresh : Assoc.get? info.uri (scan name db.programs) = none :=
    Assoc.get?_eq_none_iff.mpr fun hmem =>
      Assoc.get?_eq_none_iff.mp absent (mem_keys_of_mem_keys_scan hmem)
  rw [holdersOf_foldl_addHolder info.uri name names, hbefore, Assoc.set_of_get?_eq_none absent,
    scan_append]
  cases hs : Assoc.get? name info.symbols with
  | none => simp [scan, hs]
  | some s =>
    dsimp only
    rw [Assoc.set_of_get?_eq_none hfresh]
    simp [scan, hs]

/-! ## Every history -/

theorem Scanned.evict (h : db.Scanned) (aligned : db.Aligned) (uris : List String) :
    (db.evict uris).Scanned := by
  induction uris generalizing db with
  | nil => exact h
  | cons u rest ih =>
    unfold TypeDatabase.evict
    split
    · exact h
    · have hdropped := h.dropProgram aligned u
      have haligned := aligned.dropProgram u
      exact ih { hdropped with } { haligned with }

theorem Scanned.set (h : db.Scanned) (aligned : db.Aligned) (names : info.names.Nodup) :
    (db.set info).1.Scanned := by
  unfold TypeDatabase.set
  split
  · exact h
  · split
    · exact h
    · have habsent : (db.dropProgram info.uri).get? info.uri = none := by simp [get?]
      have hinserted := (h.dropProgram aligned info.uri).insert habsent names
      have haligned := (aligned.dropProgram info.uri).insert habsent
      dsimp only [enforceBudget]
      split
      · exact hinserted
      · exact hinserted.evict haligned _

theorem Scanned.reopen (h : db.Scanned) (aligned : db.Aligned) (uri : String) :
    (db.reopen uri).1.Scanned := by
  refine reopen_cases { h with } fun closed subset => ?_
  have hmarked : Scanned { db.markOpen uri with closed } := { h with }
  exact hmarked.dropProgram (aligned.withClosed uri subset) uri

/-- The symbols of a program that is stored have names of their own. -/
def Operation.Named : Operation → Prop
  | .set info => info.names.Nodup
  | _ => True

theorem Scanned.perform (h : db.Scanned) (aligned : db.Aligned) {op : Operation}
    (named : op.Named) :
    (db.perform op).Scanned := by
  cases op with
  | set info => exact h.set aligned named
  | remove uri => exact h.dropProgram aligned uri
  | reopen uri => exact h.reopen aligned uri
  | markOpen | markClosed => exact { h with }
  | clear => exact ⟨fun _ => rfl, nofun⟩

theorem scanned_run (budget : Int) {ops : List Operation} (named : ∀ op ∈ ops, op.Named) :
    (run budget ops).Scanned := by
  have hfold : ∀ db : TypeDatabase, db.Aligned → db.Scanned → (ops.foldl perform db).Scanned := by
    induction ops with
    | nil => exact fun db _ hscanned => hscanned
    | cons op rest ih =>
      intro db haligned hscanned
      refine ih (fun o ho => named o (List.mem_cons_of_mem _ ho)) _ (haligned.perform op) ?_
      exact hscanned.perform haligned (named op List.mem_cons_self)
  exact hfold _ (aligned_of_no_programs budget 0) ⟨fun _ => rfl, nofun⟩

/-- After any operations a query by name yields what a look at each stored program would, in the
order of the programs, and no name is kept that no program declares.  The right-hand side does not
look at the index at all.  A program has to name each of its symbols once (`named`), as every
program does that is built from declarations. -/
theorem find_after_operations (budget : Int) {ops : List Operation} (named : ∀ op ∈ ops, op.Named) :
    (∀ name, (run budget ops).find name = (run budget ops).all.filterMap fun p =>
      (Assoc.get? name p.symbols).map fun s => (p.uri, s)) ∧
    ∀ e ∈ (run budget ops).byName, e.2 ≠ [] := by
  have hscanned := scanned_run budget named
  refine ⟨fun name => ?_, hscanned.held⟩
  rw [hscanned.holders name, scan, all, List.filterMap_map]
  refine List.filterMap_congr fun e he => ?_
  rw [Function.comp_apply, (aligned_run budget ops).filed e he]

/-- A program is replaced by a larger one, for which another has to go, and a third comes. -/
theorem find_after_eviction :
    let ops := [.set (oneSymbol "a" 1 40), .set (oneSymbol "b" 2 40), .set (oneSymbol "b" 3 70),
      .set (oneSymbol "c" 4 10)]
    (∀ op ∈ ops, Operation.Named op) ∧ ((run 100 ops).find "f").map (·.1) = ["b", "c"] ∧
      (run 100 ops).find "f" = (run 100 ops).all.filterMap fun p =>
        (Assoc.get? "f" p.symbols).map fun s => (p.uri, s) := by
  have hnamed : ∀ op ∈ [.set (oneSymbol "a" 1 40), .set (oneSymbol "b" 2 40),
      .set (oneSymbol "b" 3 70), .set (oneSymbol "c" 4 10)], Operation.Named op := by
    simp [Operation.Named, oneSymbol, ProgramInfo.names, Assoc.keys]
  exact ⟨hnamed, by decide +kernel, (find_after_operations 100 hnamed).1 "f"⟩

end PikeAnalysis.TypeDatabase
