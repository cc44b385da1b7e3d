import PikeAnalysis.Proofs.Positions.Identifiers
import PikeAnalysis.Proofs.Symbol.Merging
import PikeAnalysis.Validation.Run

/-!
# Tokens in a text

A token counts if the text has it at its place, with no word character on either side.  Only a token
without text can lie beyond its line, and such tokens are never looked up, as no name in a table is
empty: the worker's declarations without a name are left out, and neither merging nor flattening
makes one.  So the index of the tokens is always there, and lists the tokens that stand in the text
where they say (`tokens_are_listed_where_they_stand`).

That an index always comes of the tokens is not obvious, since a token that lies beyond its line
would make the reading fail.  The proof goes back to where names come from: what the parser declares
has a name, what introspection adds has one, and merging and flattening keep it.  So no name that is
looked up is empty, and a token with a text that is there lies within its line.
-/

namespace PikeAnalysis

/-! ## Tables have no empty names -/

namespace Symbol

variable {s t : Symbol}

mutual

theorem named_ofWire? : ∀ (w : Wire.Symbol) (s : Symbol), ofWire? w = some s → s.Named
  | .mk none _ _ _ _ _ _ _, _, h => nomatch h
  | .mk (some n) _ _ _ _ children _ _, s, h => by
    obtain ⟨hname, hsymbol⟩ := Option.ite_none_left_eq_some.mp h
    obtain rfl := Option.some.inj hsymbol
    exact ⟨by simpa using hname, named_ofWireList children⟩

/-- Declarations of the parser have names, and so has all that is inside them. -/
theorem named_ofWireList : ∀ ws : List Wire.Symbol, ∀ s ∈ ofWireList ws, s.Named
  | [], _, hs => nomatch hs
  | w :: rest, s, hs => by
    rw [ofWireList] at hs
    split at hs
    · next found =>
      rcases List.mem_cons.mp hs with rfl | hs
      · exact named_ofWire? w s found
      · exact named_ofWireList rest s hs
    · exact named_ofWireList rest s hs

end

theorem named_ofIntrospected? {w : Wire.Introspected} (h : ofIntrospected? w = some s) :
    s.Named := by
  obtain ⟨hname, hchildren⟩ := name_and_children_of_ofIntrospected? h
  exact ⟨hname, by simp [hchildren]⟩

theorem Named.redeclares (h : s.Named) (again : Redeclares s t) : t.Named := by
  cases h with
  | mk name children => exact ⟨again.name ▸ name, again.children ▸ children⟩

theorem named_merge {parsed introspected : List Symbol} (hparsed : ∀ s ∈ parsed, s.Named)
    (hintrospected : ∀ s ∈ introspected, s.Named) : ∀ s ∈ merge parsed introspected, s.Named := by
  intro s hs
  rcases List.mem_append.mp hs with hs | hs
  · obtain ⟨t, ht, rfl⟩ := List.mem_map.mp hs
    exact (hparsed t ht).redeclares (redeclares_complete _ t)
  · exact hintrospected s ((added_sublist parsed introspected).subset hs)

end Symbol

theorem SymbolTable.empty_notMem_names {roots : List Symbol} (named : ∀ s ∈ roots, s.Named) :
    "" ∉ (ofRoots roots).names := by
  rw [names_ofRoots, List.mem_eraseDups]
  intro h
  obtain ⟨e, he, hname⟩ := List.mem_map.mp h
  exact Symbol.path_of_named named he _ (Symbol.name_mem_path he) hname

namespace Validation

/-- The tables that validations draft, one after the other: each from an analysis and what was known
before.  It begins with nothing known, and each further one may fall back on what was known
before. -/
inductive Drafted : SymbolTable → Prop
  | of (a : Wire.Analysis) (previous : Option DocumentEntry)
    (kept : ∀ e ∈ previous, Drafted e.table) :
    Drafted (tableOf a previous)

theorem named_symbolMap (declarations : List Wire.Introspected) :
    ∀ s ∈ (StdlibModule.symbolMap declarations).map (·.2), s.Named := by
  intro s hs
  have hlisted := (Symbol.map_snd_firstByName_sublist _).subset hs
  obtain ⟨w, -, hw⟩ := List.mem_filterMap.mp hlisted
  exact Symbol.named_ofIntrospected? hw

theorem Drafted.empty_notMem_names {table : SymbolTable} (drafted : Drafted table) :
    "" ∉ table.names := by
  induction drafted with
  | of a previous kept ih =>
    unfold tableOf
    split
    · exact ih _ rfl
    · apply SymbolTable.empty_notMem_names
      apply Symbol.named_merge
      · cases a.parse with
        | none => simp
        | some parse =>
          intro s hs
          obtain ⟨w, -, hw⟩ := List.mem_filterMap.mp hs
          exact Symbol.named_ofWire? w s hw
      · cases a.introspect with
        | none => simp
        | some i => exact named_symbolMap i.symbols

end Validation

namespace PositionIndex

open Text

variable {lines : List (List Char)} {row name : List Char} {names : List String}
  {t : Wire.Token} {n k : Nat}

/-! ## One token -/

/-- A name stands at a place of the lines, with no word character on either side. -/
def StandsAlone (lines : List (List Char)) (name : String) (p : Position) : Prop :=
  ∃ (n : Nat) (before after : List Char), lines[n]? = some (before ++ name.toList ++ after) ∧
    p = ⟨n, before.length⟩ ∧ Apart before ∧ Ends after

/-- Where a token says that it is.  Lines of tokens count from one, and characters from zero. -/
def placeOf (t : Wire.Token) : Position :=
  ⟨t.line - 1, t.character⟩

/-- There is a word character right before or right behind `m` characters of a row. -/
def joins (row : List Char) (k m : Nat) : Bool :=
  (if k = 0 then none else row[k - 1]?).any isWord || row[k + m]?.any isWord

theorem any_eq_false_iff {o : Option Char} : o.any isWord = false ↔ ∀ c ∈ o, isWord c = false := by
  cases o <;> simp

theorem joins_eq_false_iff (within : k ≤ row.length) (m : Nat) :
    joins row k m = false ↔ Apart (row.take k) ∧ Ends (row.drop (k + m)) := by
  have hbefore : (row.take k).getLast? = if k = 0 then none else row[k - 1]? := by
    rw [List.getLast?_take]
    split
    · rfl
    · rw [List.getElem?_eq_getElem (by omega)]
      rfl
  rw [joins, Bool.or_eq_false_iff, any_eq_false_iff, any_eq_false_iff, Apart, Ends,
    hbefore, List.head?_drop]

/-- A nonempty name that is at a character of a row lies within it. -/
theorem within_of_take_drop_eq (hname : name ≠ []) (h : (row.drop k).take name.length = name) :
    k ≤ row.length ∧ row = row.take k ++ name ++ row.drop (k + name.length) := by
  constructor
  · by_contra hbeyond
    rw [List.drop_eq_nil_of_le (by omega), List.take_nil] at h
    exact hname h.symm
  · conv =>
      lhs; rw [← List.take_append_drop k row, ← List.take_append_drop name.length (row.drop k), h]
    rw [List.drop_drop, List.append_assoc]

/-- What a token says of the row where it is. -/
theorem tokenPlace_eq (hline : t.line - 1 = (n : Int)) (hcharacter : t.character = (k : Int))
    (hrow : lines[n]? = some row) :
    tokenPlace lines t =
      if (row.drop k).take t.text.toList.length ≠ t.text.toList then .elsewhere
      else if k > 0 ∧ row.length < k then .beyond
      else if joins row k t.text.toList.length then .elsewhere
      else .at (placeOf t) := by
  have hsigns : ¬ (t.character < 0 ∨ t.line - 1 < 0) := by omega
  rw [tokenPlace, if_neg hsigns, hline, hcharacter, Int.toNat_natCast, hrow]
  simp only [Int.toNat_natCast, placeOf, hline, hcharacter, joins]

theorem tokenPlace_of_standsAlone (h : StandsAlone lines t.text (placeOf t)) :
    tokenPlace lines t = .at (placeOf t) := by
  obtain ⟨n, before, after, hrow, hplace, apart, ends⟩ := h
  obtain ⟨hline, hcharacter⟩ := Position.mk.inj hplace
  have hlength : before.length ≤ (before ++ t.text.toList ++ after).length := by simp
  have hjoins := (joins_eq_false_iff hlength t.text.toList.length).mpr
    ⟨by simpa using apart, by simpa [← List.drop_drop] using ends⟩
  rw [tokenPlace_eq hline hcharacter hrow, if_neg (by simp), if_neg (by omega), hjoins]
  rfl

theorem standsAlone_of_row (hline : t.line - 1 = (n : Int)) (hcharacter : t.character = (k : Int))
    (hrow : lines[n]? = some row) (within : k ≤ row.length)
    (hparts : row = row.take k ++ t.text.toList ++ row.drop (k + t.text.toList.length))
    (apart : Apart (row.take k)) (ends : Ends (row.drop (k + t.text.toList.length))) :
    StandsAlone lines t.text (placeOf t) := by
  refine ⟨n, _, _, hrow.trans (congrArg some hparts), ?_, apart, ends⟩
  rw [placeOf, hline, hcharacter, List.length_take_of_le within]

/-- A token that has a text is where it says, and is listed there, or is passed over. -/
theorem tokenPlace_cases (lines : List (List Char)) (named : t.text ≠ "") :
    tokenPlace lines t = .at (placeOf t) ∧ StandsAlone lines t.text (placeOf t) ∨
      tokenPlace lines t = .elsewhere ∧ ¬ StandsAlone lines t.text (placeOf t) := by
  by_cases h : StandsAlone lines t.text (placeOf t)
  · exact .inl ⟨tokenPlace_of_standsAlone h, h⟩
  refine .inr ⟨?_, h⟩
  by_cases hsigns : t.character < 0 ∨ t.line - 1 < 0
  · rw [tokenPlace, if_pos hsigns]
  obtain ⟨n, hline⟩ := Int.eq_ofNat_of_zero_le (a := t.line - 1) (by omega)
  obtain ⟨k, hcharacter⟩ := Int.eq_ofNat_of_zero_le (a := t.character) (by omega)
  cases hrow : lines[n]? with
  | none => rw [tokenPlace, if_neg hsigns, hline, Int.toNat_natCast, hrow]
  | some row =>
    rw [tokenPlace_eq hline hcharacter hrow]
    split
    · rfl
    · next hslice =>
      have hname : t.text.toList ≠ [] := by simpa using named
      obtain ⟨within, hparts⟩ := within_of_take_drop_eq hname (Decidable.not_not.mp hslice)
      rw [if_neg (by omega)]
      split
      · rfl
      · next hjoins =>
        obtain ⟨apart, ends⟩ := (joins_eq_false_iff within _).mp (Bool.eq_false_iff.mpr hjoins)
        exact absurd (standsAlone_of_row hline hcharacter hrow within hparts apart ends) h

/-! ## All tokens -/

/-- The index with what one more token adds.  An empty token that begins beyond the end of its line
makes the whole index fail. -/
def noteToken (lines : List (List Char)) (names : List String)
    (index : PositionIndex) (t : Wire.Token) :
    Option PositionIndex :=
  if names.contains t.text then
    match tokenPlace lines t with
    | .elsewhere => some index
    | .at p => some (note t.text p index)
    | .beyond => none
  else some index

theorem ofTokens?_eq (text : List Char) (names : List String) (tokens : List Wire.Token) :
    ofTokens? text names tokens = tokens.foldlM (noteToken (Text.lines text) names) [] :=
  rfl

/-- A token puts a name at a place.  All four are needed: the name is asked for, the token is that
name, its place is the one it gives, and in the text the name really stands there by itself. -/
structure Puts (lines : List (List Char)) (names : List String) (t : Wire.Token)
    (name : String) (p : Position) :
    Prop where
  wanted : name ∈ names
  text : t.text = name
  place : placeOf t = p
  alone : StandsAlone lines name p

theorem noteToken_spec (lines : List (List Char)) (named : "" ∉ names)
    (index : PositionIndex) (t : Wire.Token) :
    ∃ next, noteToken lines names index t = some next ∧
      ((Assoc.keys index).Nodup → (Assoc.keys next).Nodup) ∧
      ∀ name p, p ∈ next.places name ↔ p ∈ index.places name ∨ Puts lines names t name p := by
  unfold noteToken
  by_cases hwanted : t.text ∈ names
  · rw [if_pos (by simpa using hwanted)]
    have hname : t.text ≠ "" := fun h => named (h ▸ hwanted)
    -- A token that is wanted is listed if it stands alone in its line; else the index is left as it
    -- is.
    rcases tokenPlace_cases lines hname with ⟨hplace, alone⟩ | ⟨hplace, notAlone⟩
    · refine ⟨note t.text (placeOf t) index, by rw [hplace],
        fun distinct => Assoc.nodup_keys_set distinct _ _, fun name p => ?_⟩
      rw [places_note, List.mem_append]
      refine or_congr_right ?_
      constructor
      · intro h
        split at h
        · next hname =>
          obtain rfl := List.mem_singleton.mp h
          exact ⟨hname ▸ hwanted, hname, rfl, hname ▸ alone⟩
        · cases h
      · rintro ⟨-, hname, rfl, -⟩
        rw [if_pos hname]
        exact List.mem_singleton_self _
    · refine ⟨index, by rw [hplace], id, fun name p => (or_iff_left ?_).symm⟩
      rintro ⟨-, rfl, rfl, alone⟩
      exact notAlone alone
  · rw [if_neg (by simpa using hwanted)]
    refine ⟨index, rfl, id, fun name p => (or_iff_left ?_).symm⟩
    rintro ⟨wanted, rfl, -, -⟩
    exact hwanted wanted

theorem foldlM_noteToken (lines : List (List Char)) (named : "" ∉ names) (tokens : List Wire.Token)
    (index : PositionIndex) :
    ∃ result, tokens.foldlM (noteToken lines names) index = some result ∧
      ((Assoc.keys index).Nodup → (Assoc.keys result).Nodup) ∧
      ∀ name p, p ∈ result.places name ↔ p ∈ index.places name ∨
        ∃ t ∈ tokens, Puts lines names t name p := by
  induction tokens generalizing index with
  | nil => exact ⟨index, rfl, id, by simp⟩
  | cons t rest ih =>
    obtain ⟨next, hnext, hkeys, hplaces⟩ := noteToken_spec lines named index t
    obtain ⟨result, hresult, hallKeys, hallPlaces⟩ := ih next
    refine ⟨result, ?_, fun distinct => hallKeys (hkeys distinct), fun name p => ?_⟩
    · rw [List.foldlM_cons, hnext]
      exact hresult
    · rw [hallPlaces, hplaces, List.exists_mem_cons_iff, or_assoc]

/-- With the names of a table that validations draft, there is an index for every text and all
tokens, with one entry for a name.  It lists a place of a name of the table exactly if some token
with this text is there, the text has the name at this place, and no word character comes right
before or right after it. -/
theorem tokens_are_listed_where_they_stand {table : SymbolTable}
    (drafted : Validation.Drafted table) (text : List Char) (tokens : List Wire.Token) :
    ∃ index, ofTokens? text table.names tokens = some index ∧ (Assoc.keys index).Nodup ∧
      ∀ name p, p ∈ index.places name ↔
        name ∈ table.names ∧ (∃ t ∈ tokens, t.text = name ∧ p = ⟨t.line - 1, t.character⟩) ∧
          StandsAlone (Text.lines text) name p := by
  rw [ofTokens?_eq]
  obtain ⟨index, hindex, hkeys, hplaces⟩ :=
    foldlM_noteToken (Text.lines text) drafted.empty_notMem_names tokens []
  refine ⟨index, hindex, hkeys .nil, fun name p => ?_⟩
  rw [hplaces]
  constructor
  · rintro (hnothing | ⟨t, ht, puts⟩)
    · cases hnothing
    · exact ⟨puts.wanted, ⟨t, ht, puts.text, puts.place.symm⟩, puts.alone⟩
  · rintro ⟨wanted, ⟨t, ht, htext, rfl⟩, alone⟩
    exact .inr ⟨t, ht, wanted, htext, rfl, alone⟩

/-- Were a name empty, a token far beyond its line would leave no index. -/
example : ofTokens? ['x'] [""] [{ text := "", line := 1, character := 9 }] = none := by decide

/-- An analysis that declares `x` inside something without a name, and `y` with something nameless
in it. -/
def halfNamed : Wire.Analysis :=
  { parse := some
      { symbols :=
          [.mk none "class" [] none none [.mk (some "x") "variable" [] none none [] none none]
            none none,
           .mk (some "y") "method" [] none none
             [.mk (some "") "variable" [] none none [] none none] none none]
        diagnostics := []
        tokens := none } }

/-- Tokens at a place where `y` stands and at places where it does not, and an empty one far beyond
its line. -/
def tokensOfY : List Wire.Token :=
  [{ text := "y", line := 1, character := 4 }, { text := "y", line := 2, character := 0 },
   { text := "y", line := 2, character := 900 }, { text := "y", line := -3, character := -1 },
   { text := "", line := 1, character := 900 }, { text := "x", line := 1, character := 0 }]

/-- Only the token at `y` itself is listed: the `y` on the second line goes on. -/
theorem y_is_listed_once :
    ∃ index, ofTokens? "int y;\ny2;".toList (Validation.tableOf halfNamed none).names tokensOfY =
      some index ∧
      index.places "y" = [⟨0, 4⟩] ∧ StandsAlone (Text.lines "int y;\ny2;".toList) "y" ⟨0, 4⟩ := by
  have drafted : Validation.Drafted (Validation.tableOf halfNamed none) := .of _ _ nofun
  obtain ⟨index, hindex, -, hplaces⟩ :=
    tokens_are_listed_where_they_stand drafted "int y;\ny2;".toList tokensOfY
  have hlisted : index.places "y" = [⟨0, 4⟩] := by
    have hcomputed :
        ofTokens? "int y;\ny2;".toList (Validation.tableOf halfNamed none).names tokensOfY =
        some [("y", [⟨0, 4⟩])] := by decide +kernel
    obtain rfl := Option.some.inj (hindex.symm.trans hcomputed)
    rfl
  refine ⟨index, hindex, hlisted, ((hplaces "y" ⟨0, 4⟩).mp ?_).2.2⟩
  rw [hlisted]
  exact List.mem_singleton_self _

end PositionIndex

end PikeAnalysis
