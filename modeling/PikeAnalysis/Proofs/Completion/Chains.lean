import Mathlib.Data.List.Induction
import Mathlib.Data.List.TakeWhile
import PikeAnalysis.Completion.FromText
import PikeAnalysis.Completion.FromTokens
import PikeAnalysis.Proofs.Text.Roundtrips
import PikeAnalysis.Proofs.Text.Trimming

/-!
# Access chains

The text and the tokens in front of a cursor are read by two classifiers that share no code: one
takes runs of characters off the end of a line, the other walks back over tokens.  On a chain of
names behind a stop they agree, for chains of every length and whatever stands before them.

An `AccessChain` holds the names, the operator and the typed part; its text, its tokens and its
context are computed from these.  `ofText_append_chain` reads the context off the text,
`ofTokens_append_chain` off the tokens.

What may stand in front of a chain is left open as far as can be: on the line anything that ends,
blanks aside, with a character that ends an expression; and on the lines before anything at all.
Where something else stands in front, such as another name or a closing bracket, the two readings
may differ, and the claim does not cover it.

The tokens are those that the worker gives of words without blanks in between, together with any
earlier ones.  So the theorem has two halves with the same right-hand side, and that the classifiers
agree is read off them.
-/

namespace PikeAnalysis.CompletionContext

open Text

/-! ## Chains -/

/-- The words of a path: its names, and the dots between them. -/
def pathWords (first : List Char) (more : List (List Char)) : List (List Char) :=
  first :: more.flatMap fun name => [['.'], name]

/-- Names joined by dots, an operator, and the part of a name that is typed behind it.  There is at
least one name, and the part that is typed may be empty. -/
structure AccessChain where
  first : List Char
  more : List (List Char)
  operator : List Char
  typed : List Char
  isIdentifier_first : isIdentifier first
  isIdentifier_more : ∀ name ∈ more, isIdentifier name
  isOperator : operator = ['-', '>'] ∨ operator = ['.'] ∨ operator = [':', ':']
  isIdentifier_typed : typed ≠ [] → isIdentifier typed

namespace AccessChain

/-- The path of names. -/
def object (c : AccessChain) : List Char :=
  joinWith ['.'] (c.first :: c.more)

/-- The chain as it is written. -/
def text (c : AccessChain) : List Char :=
  c.object ++ c.operator ++ c.typed

/-- The words of the chain.  A chain whose last name has not been begun ends with the operator, as
there is no empty token. -/
def words (c : AccessChain) : List (List Char) :=
  pathWords c.first c.more ++ c.operator :: if c.typed = [] then [] else [c.typed]

/-- The context at the end of the chain.  It is written down from the parts of the chain and does
not refer to either way of finding it. -/
def context (c : AccessChain) : CompletionContext :=
  ⟨if c.operator = [':', ':'] then .scopeAccess else .memberAccess, c.object, c.typed, c.operator⟩

end AccessChain

/-- The tokens of words that follow each other without blanks, from a place on a line. -/
def tokensFrom (line : Int) : Int → List (List Char) → List Wire.Token
  | _, [] => []
  | column, word :: more =>
    ⟨String.ofList word, line + 1, column⟩ :: tokensFrom line (column + word.length) more

/-- The characters that end what stands in front of a chain.  Behind each of them an expression can
begin, and none of them can be part of the object of an access. -/
def stops : List Char := [';', '{', '}', '(', ',', '=']

/-! ## Classes of characters -/

theorem isWord_of_isNameStart {c : Char} (h : isNameStart c = true) : isWord c = true := by
  simp only [isNameStart, isWord, isAlnum, Char.isAlphanum, Bool.or_eq_true] at h ⊢
  rcases h with h | h
  · exact .inl h
  · have hlt : c.toNat < 128 := by
      rcases Bool.or_eq_true_iff.1 h with h | h
      · have upper : c.val ≥ 'A'.val ∧ c.val ≤ 'Z'.val := of_decide_eq_true h
        exact Nat.lt_of_le_of_lt (UInt32.le_iff_toNat_le.1 upper.2) (by decide)
      · have lower : decide (c.val ≤ 'z'.val) = true := (Bool.and_eq_true_iff.1 h).2
        exact Nat.lt_of_le_of_lt (UInt32.le_iff_toNat_le.1 (of_decide_eq_true lower)) (by decide)
    simp [hlt, h]

theorem isWord_of_mem_isIdentifier {word : List Char} (h : isIdentifier word = true) :
    ∀ c ∈ word, isWord c = true := by
  cases word with
  | nil => simp
  | cons c rest =>
    simp only [isIdentifier, Bool.and_eq_true, List.all_eq_true] at h
    simpa using ⟨isWord_of_isNameStart h.1, h.2⟩

theorem ne_nil_of_isIdentifier {word : List Char} (h : isIdentifier word = true) : word ≠ [] := by
  rintro rfl
  cases h

/-! ## The ends of texts -/

theorem trailing_append {p : Char → Bool} {s t : List Char} (hs : ∀ c ∈ s.getLast?, p c = false)
    (ht : ∀ c ∈ t, p c = true) : trailing p (s ++ t) = t := by
  have hrun : (t.reverse ++ s.reverse).takeWhile p = t.reverse ++ s.reverse.takeWhile p :=
    List.takeWhile_append_of_pos (by simpa using ht)
  have hstop : s.reverse.takeWhile p = [] := by
    rw [← List.head?_reverse] at hs
    cases hr : s.reverse with
    | nil => rfl
    | cons c rest => exact List.takeWhile_cons_of_neg (by simpa using hs c (by simp [hr]))
  simp [trailing, hrun, hstop]

theorem dropEnd_append (s t : List Char) : dropEnd t.length (s ++ t) = s := by
  simp [dropEnd]

theorem withoutSuffix?_append (s t : List Char) : withoutSuffix? t (s ++ t) = some s := by
  simp [withoutSuffix?, dropEnd_append]

theorem trimRight_append_of_forall {p : Char → Bool} {s t : List Char} (ht : t ≠ [])
    (h : ∀ c ∈ t, p c = false) : trimRight p (s ++ t) = s ++ t := by
  have hlast : ∀ c ∈ (s ++ t).getLast?, p c = false := by
    rw [List.getLast?_append_of_ne_nil _ ht]
    exact fun c hc => h c (List.mem_of_mem_getLast? hc)
  simpa [trimRight] using trimRight_append (r := []) hlast

/-- What stands in front of a chain ends with a blank or a stop. -/
theorem getLast?_of_stops {pre : List Char}
    (h : ∀ c ∈ (trimRight isBlank pre).getLast?, c ∈ stops) :
    ∀ c ∈ pre.getLast?, isBlank c = true ∨ c ∈ stops := by
  intro c hc
  rcases hb : isBlank c with _ | _
  · right
    apply h
    obtain ⟨init, rfl⟩ := List.getLast?_eq_some_iff.1 hc
    rw [trimRight_append_of_forall (by simp) (by simpa using hb)]
    exact hc
  · exact .inl rfl

/-! ## Paths -/

variable {first : List Char} {more : List (List Char)}

theorem pathWords_concat (first : List Char) (more : List (List Char)) (name : List Char) :
    pathWords first (more ++ [name]) = pathWords first more ++ [['.'], name] := by
  simp [pathWords]

theorem flatten_pathWords (first : List Char) (more : List (List Char)) :
    (pathWords first more).flatten = joinWith ['.'] (first :: more) := by
  induction more generalizing first with
  | nil => simp [pathWords, joinWith]
  | cons name rest ih =>
    have hrest := ih name
    simp only [pathWords, List.flatten_cons] at hrest
    simp [pathWords, joinWith, hrest]

theorem joinWith_concat (first : List Char) (more : List (List Char)) (name : List Char) :
    joinWith ['.'] (first :: (more ++ [name])) = joinWith ['.'] (first :: more) ++ '.' :: name := by
  simp [← flatten_pathWords, pathWords_concat]

theorem not_mem_of_isIdentifier {c : Char} {word : List Char} (hc : isWord c = false)
    (h : isIdentifier word = true) : c ∉ word := by
  intro hmem
  rw [isWord_of_mem_isIdentifier h c hmem] at hc
  cases hc

namespace AccessChain

variable (c : AccessChain)

theorem isIdentifier_name : ∀ name ∈ c.first :: c.more, isIdentifier name := by
  simpa using ⟨c.isIdentifier_first, c.isIdentifier_more⟩

theorem isWord_typed : ∀ x ∈ c.typed, isWord x = true := by
  by_cases h : c.typed = []
  · simp [h]
  · exact isWord_of_mem_isIdentifier (c.isIdentifier_typed h)

theorem flatten_words : c.words.flatten = c.text := by
  have htyped : (if c.typed = [] then [] else [c.typed]).flatten = c.typed := by
    split <;> simp_all
  rw [words, List.flatten_append, List.flatten_cons, htyped, flatten_pathWords, text, object,
    List.append_assoc]

theorem isWord_or_dot_of_mem_object : ∀ x ∈ c.object, (isWord x || x == '.') = true := by
  have key : ∀ word ∈ pathWords c.first c.more, ∀ x ∈ word, (isWord x || x == '.') = true := by
    simp only [pathWords, List.mem_cons, List.mem_flatMap, List.not_mem_nil, or_false]
    rintro word (rfl | ⟨name, hname, rfl | rfl⟩) x hx
    · simp [isWord_of_mem_isIdentifier c.isIdentifier_first x hx]
    · simpa using .inr (List.mem_singleton.1 hx)
    · simp [isWord_of_mem_isIdentifier (c.isIdentifier_more _ hname) x hx]
  intro x hx
  rw [object, ← flatten_pathWords, List.mem_flatten] at hx
  obtain ⟨word, hword, hx⟩ := hx
  exact key word hword x hx

/-- The path ends in a character of a name. -/
theorem object_eq_append : ∃ init last, c.object = init ++ [last] ∧ isWord last = true := by
  obtain ⟨words, name, hwords, hname⟩ :
      ∃ words name, pathWords c.first c.more = words ++ [name] ∧ isIdentifier name := by
    rcases List.eq_nil_or_concat c.more with hmore | ⟨init, name, hmore⟩
    · exact ⟨[], c.first, by simp [pathWords, hmore], c.isIdentifier_first⟩
    · refine ⟨pathWords c.first init ++ [['.']], name, ?_,
        c.isIdentifier_more name (by simp [hmore])⟩
      rw [hmore, List.concat_eq_append, pathWords_concat]
      simp
  rcases List.eq_nil_or_concat name with rfl | ⟨letters, last, rfl⟩
  · cases hname
  · refine ⟨words.flatten ++ letters, last, ?_, isWord_of_mem_isIdentifier hname _ (by simp)⟩
    rw [object, ← flatten_pathWords, hwords]
    simp

end AccessChain

/-! ## Chains in text -/

section FromText

variable {pre : List Char} (c : AccessChain)
  (hpre : ∀ s ∈ (trimRight isBlank pre).getLast?, s ∈ stops)

include hpre

theorem trailing_object :
    trailing (fun x => isWord x || x == '.') (pre ++ c.object) = c.object := by
  refine trailing_append (fun x hx => ?_) c.isWord_or_dot_of_mem_object
  rcases getLast?_of_stops hpre x hx with hb | hs
  · have hne : x ≠ '.' := by rintro rfl; exact absurd hb (by decide)
    simp [isWord_of_isBlank hb, hne]
  · have apart : stops.all (fun x => !(isWord x || x == '.')) := by decide
    simpa using List.all_eq_true.1 apart x hs

theorem trailingPath_object : trailingPath (pre ++ c.object) = c.object := by
  have hdots : ∀ name ∈ c.first :: c.more, '.' ∉ name := fun name hname =>
    not_mem_of_isIdentifier (by decide) (c.isIdentifier_name name hname)
  have hfull : ((c.first :: c.more).reverse.takeWhile (!·.isEmpty)).reverse =
    c.first :: c.more := by
    rw [List.takeWhile_eq_self_iff.2, List.reverse_reverse]
    intro name hname
    simpa using ne_nil_of_isIdentifier (c.isIdentifier_name name (List.mem_reverse.1 hname))
  simp only [trailingPath, trailing_object c hpre]
  rw [AccessChain.object, splitOn_joinWith hdots, hfull]

omit hpre in
theorem text_parts (pre : List Char) :
    trailing isWord (pre ++ c.text) = c.typed ∧
      dropEnd c.typed.length (pre ++ c.text) = pre ++ c.object ++ c.operator := by
  have hop : ∀ x ∈ (pre ++ c.object ++ c.operator).getLast?, isWord x = false := by
    rcases c.isOperator with h | h | h <;> rw [h] <;> simp <;> decide
  have hparts : pre ++ c.text = pre ++ c.object ++ c.operator ++ c.typed := by
    simp [AccessChain.text]
  rw [hparts]
  exact ⟨trailing_append hop c.isWord_typed, dropEnd_append ..⟩

omit hpre in
theorem trimRight_object (pre : List Char) :
    trimRight isBlank (pre ++ c.object) = pre ++ c.object := by
  obtain ⟨init, last, hobject, hlast⟩ := c.object_eq_append
  rw [hobject, ← List.append_assoc,
    trimRight_append_of_forall (by simp) (by simpa using isBlank_of_isWord hlast)]

omit hpre in
theorem object_ne_nil : c.object ≠ [] := by
  obtain ⟨init, last, hobject, -⟩ := c.object_eq_append
  simp [hobject]

theorem scopeAccess?_chain (hop : c.operator = [':', ':']) :
    scopeAccess? (pre ++ c.text) = some c.context := by
  obtain ⟨htyped, hrest⟩ := text_parts c pre
  simp only [scopeAccess?, htyped, hrest, hop, withoutSuffix?_append, Option.map_some,
    trailing_object c hpre, AccessChain.context, if_true]

omit hpre in
theorem scopeAccess?_chain_of_ne (hop : c.operator ≠ [':', ':']) :
    scopeAccess? (pre ++ c.text) = none := by
  obtain ⟨htyped, hrest⟩ := text_parts c pre
  have hnot : withoutSuffix? [':', ':'] (pre ++ c.object ++ c.operator) = none := by
    rcases c.isOperator with h | h | h
    · simp [withoutSuffix?, h]
    · simp [withoutSuffix?, h]
    · exact absurd h hop
  simp only [scopeAccess?, htyped, hrest, hnot, Option.map_none]

theorem memberAccess?_chain (hop : c.operator ≠ [':', ':']) :
    memberAccess? (pre ++ c.text) = some c.context := by
  obtain ⟨htyped, hrest⟩ := text_parts c pre
  have htrim : trimRight isBlank (pre ++ c.object ++ c.operator) = pre ++
    c.object ++ c.operator := by
    have hblank : c.operator.all (fun x => !isBlank x) := by
      rcases c.isOperator with h | h | h <;> rw [h] <;> decide
    refine trimRight_append_of_forall ?_ fun x hx => by simpa using List.all_eq_true.1 hblank x hx
    rcases c.isOperator with h | h | h <;> simp [h]
  have hpath : trailingPath (trimRight isBlank (pre ++ c.object)) = c.object := by
    rw [trimRight_object, trailingPath_object c hpre]
  have hne : c.object.isEmpty = false := by simpa using object_ne_nil c
  rcases c.isOperator with h | h | h
  · have hsplit : withoutSuffix? ['-', '>'] (pre ++ c.object ++ c.operator) =
      some (pre ++ c.object) := by
      rw [h, withoutSuffix?_append]
    simp only [memberAccess?, htyped, hrest, htrim, hsplit, Option.bind_some, hpath, hne]
    simp [AccessChain.context, h]
  · have hnot : withoutSuffix? ['-', '>'] (pre ++ c.object ++ c.operator) = none := by
      simp [withoutSuffix?, h]
    have hsplit : withoutSuffix? ['.'] (pre ++ c.object ++ c.operator) =
      some (pre ++ c.object) := by
      rw [h, withoutSuffix?_append]
    simp only [memberAccess?, htyped, hrest, htrim, hnot, hsplit, Option.map_some,
      Option.bind_some, hpath, hne]
    simp [AccessChain.context, h]
  · exact absurd h hop

/-- The context that the text of a line gives, with the cursor at the end of a chain. -/
theorem ofText_append_chain {text : List Char} {line : Nat}
    (hline : (lines text)[line]? = some (pre ++ c.text)) :
    ofText text line (pre ++ c.text).length = c.context := by
  have hfront : upTo ((pre ++ c.text).length : Int) (pre ++ c.text) = pre ++ c.text := by
    rw [upTo, if_pos (Int.natCast_nonneg _), Int.toNat_natCast, List.take_length]
  have hblank : allBlank (pre ++ c.text) = false := by
    obtain ⟨init, last, hobject, hlast⟩ := c.object_eq_append
    simp [allBlank, AccessChain.text, hobject, isBlank_of_isWord hlast]
  have hline0 : ¬ (line : Int) < 0 := by omega
  simp only [ofText, hline0, if_false, Int.toNat_natCast, hline, hfront, hblank, Bool.and_false,
    Bool.false_eq_true]
  by_cases hop : c.operator = [':', ':']
  · simp only [scopeAccess?_chain c hpre hop]
  · simp only [scopeAccess?_chain_of_ne c hop, memberAccess?_chain c hpre hop]

end FromText

/-! ## Chains in tokens -/

/-- The tokens that count of words that follow each other without blanks. -/
def lexemesFrom (line : Int) : Int → List (List Char) → List Lexeme
  | _, [] => []
  | column, word :: more =>
    ⟨word, line, column⟩ :: lexemesFrom line (column + word.length) more

section Lexemes

variable (line : Int)

@[simp] theorem map_text_lexemesFrom (column : Int) (words : List (List Char)) :
    (lexemesFrom line column words).map (·.text) = words := by
  induction words generalizing column with
  | nil => rfl
  | cons word more ih => simp [lexemesFrom, ih]

theorem lexemesFrom_append (column : Int) (words rest : List (List Char)) :
    lexemesFrom line column (words ++ rest) =
      lexemesFrom line column words ++ lexemesFrom line (column + words.flatten.length) rest := by
  induction words generalizing column with
  | nil => simp [lexemesFrom]
  | cons word more ih => simp [lexemesFrom, ih, Int.add_assoc]

theorem significant_tokensFrom {column : Int} {words : List (List Char)} (hcolumn : 0 ≤ column)
    (hwords : ∀ word ∈ words, isTrivia word = false) :
    significant (tokensFrom line column words) = lexemesFrom line column words := by
  induction words generalizing column with
  | nil => rfl
  | cons word more ih =>
    have hpos : 0 ≤ column + word.length := by omega
    have hmore := ih hpos fun w hw => hwords w (List.mem_cons_of_mem _ hw)
    have hword := hwords word List.mem_cons_self
    simp only [significant] at hmore
    simp [significant, tokensFrom, lexemesFrom, hword, hcolumn, hmore]

/-- Every token starts on the line, in front of the end of the last word. -/
theorem place_of_mem_lexemesFrom {column : Int} {words : List (List Char)}
    (hwords : [] ∉ words) {t : Lexeme} (ht : t ∈ lexemesFrom line column words) :
    t.line = line ∧ t.character < column + words.flatten.length := by
  induction words generalizing column with
  | nil => cases ht
  | cons word more ih =>
    rw [List.mem_cons, not_or] at hwords
    have hpos : 0 < word.length := List.length_pos_iff.2 (Ne.symm hwords.1)
    simp only [lexemesFrom, List.mem_cons] at ht
    simp only [List.flatten_cons, List.length_append]
    rcases ht with rfl | ht
    · exact ⟨rfl, by simp only; omega⟩
    · have := ih hwords.2 ht
      omega

end Lexemes

theorem opener?_of_isIdentifier {word : List Char} (h : isIdentifier word = true) :
    opener? word = none := by
  have hne : ∀ bracket : Char, isWord bracket = false → word ≠ [bracket] := by
    rintro bracket hb rfl
    exact not_mem_of_isIdentifier hb h List.mem_cons_self
  simp [opener?, hne ')' (by decide), hne ']' (by decide)]

/-- Walking back over the words of a path gives the path, whatever stands in front of it. -/
theorem pathTexts_append {path rest : List Lexeme} (hfirst : isIdentifier first)
    (hmore : ∀ name ∈ more, isIdentifier name) (hpath : path.map (·.text) = pathWords first more)
    (hrest : ∀ t ∈ rest.head?, t.text ≠ ['.']) :
    pathTexts (path.reverse ++ rest) = joinWith ['.'] (first :: more) := by
  induction more using List.reverseRecOn generalizing path with
  | nil =>
    obtain ⟨t, rfl, rfl⟩ : ∃ t, path = [t] ∧ t.text = first := by
      simpa [pathWords, List.map_eq_singleton_iff] using hpath
    cases rest with
    | nil => simp [pathTexts, opener?_of_isIdentifier hfirst, hfirst, joinWith]
    | cons d rest =>
      have hd : d.text ≠ ['.'] := hrest d rfl
      simp [pathTexts, opener?_of_isIdentifier hfirst, hfirst, hd, joinWith]
  | append_singleton init name ih =>
    rw [pathWords_concat, List.map_eq_append_iff] at hpath
    obtain ⟨front, tail, rfl, hfront, htail⟩ := hpath
    obtain ⟨d, t, rfl, hd, rfl⟩ : ∃ d t, tail = [d, t] ∧ d.text = ['.'] ∧ t.text = name := by
      simpa [List.map_eq_cons_iff] using htail
    have hname : isIdentifier t.text := hmore _ (by simp)
    have hinit := ih (fun n hn => hmore n (by simp [hn])) hfront
    rw [joinWith_concat, ← hinit]
    simp [pathTexts, opener?_of_isIdentifier hname, hname, hd]

theorem objectBefore_append {path earlier : List Lexeme} (c : AccessChain)
    (hpath : path.map (·.text) = pathWords c.first c.more)
    (hearlier : ∀ t ∈ earlier.getLast?, ∃ s ∈ stops, t.text = [s]) :
    objectBefore (earlier ++ path) = c.object := by
  have hstop : ∀ t ∈ earlier.reverse.head?, t.text ≠ ['.'] := by
    rw [List.head?_reverse]
    rintro t ht hdot
    obtain ⟨s, hs, htext⟩ := hearlier t ht
    rw [htext, List.cons.injEq] at hdot
    rw [hdot.1] at hs
    exact absurd hs (by decide)
  have hwalk := pathTexts_append c.isIdentifier_first c.isIdentifier_more hpath hstop
  have hnodot : c.object.dropWhile (· == '.') = c.object := by
    obtain ⟨x, name, hfirst⟩ :=
      List.exists_cons_of_ne_nil (ne_nil_of_isIdentifier c.isIdentifier_first)
    have hx : x ≠ '.' := by
      rintro rfl
      exact not_mem_of_isIdentifier (c := '.') (by decide) c.isIdentifier_first (by simp [hfirst])
    rw [AccessChain.object, ← flatten_pathWords, pathWords, hfirst, List.flatten_cons,
      List.cons_append, List.dropWhile_cons_of_neg (by simpa using hx)]
  rw [objectBefore, List.reverse_append, hwalk]
  exact hnodot

theorem accessKind?_operator (c : AccessChain) :
    accessKind? c.operator =
      some (if c.operator = [':', ':'] then .scopeAccess else .memberAccess) := by
  rcases c.isOperator with h | h | h <;> rw [h] <;> decide

/-- Behind an operator nothing is typed.  The object is what stands in front of the operator, and
the prefix is empty. -/
theorem classifyBefore_operator {before : List Lexeme} {op : Lexeme} {kind : ContextKind}
    (hkind : accessKind? op.text = some kind) (line character : Int) :
    classifyBefore (before ++ [op]) line character = ⟨kind, objectBefore before, [], op.text⟩ := by
  have hop : isIdentifier op.text = false := by
    cases hid : isIdentifier op.text with
    | false => rfl
    | true =>
      have hnot : ∀ word : List Char, isIdentifier word = false → op.text ≠ word := by
        rintro word hword rfl
        rw [hid] at hword
        cases hword
      rw [accessKind?, if_neg (by simp [hnot ['-', '>'] (by decide), hnot ['.'] (by decide)]),
        if_neg (hnot [':', ':'] (by decide))] at hkind
      cases hkind
  simp [classifyBefore, hop, hkind]

/-- A name behind an operator is typed up to a cursor at its end. -/
theorem classifyBefore_typed {before : List Lexeme} {op : Lexeme} {kind : ContextKind}
    (hkind : accessKind? op.text = some kind) (line column : Int) {name : List Char}
    (hname : isIdentifier name = true) :
    classifyBefore (before ++ [op, ⟨name, line, column⟩]) line (column + name.length) =
      ⟨kind, objectBefore before, name, op.text⟩ := by
  have hassoc : before ++ [op, ⟨name, line, column⟩] =
      (before ++ [op]) ++ [⟨name, line, column⟩] := by simp
  have htake : column + name.length - column = (name.length : Int) := by omega
  rw [hassoc]
  simp [classifyBefore, hname, hkind, htake]

theorem isTrivia_of_isIdentifier {word : List Char} (h : isIdentifier word = true) :
    isTrivia word = false := by
  obtain ⟨x, name, rfl⟩ := List.exists_cons_of_ne_nil (ne_nil_of_isIdentifier h)
  have hword : isWord x = true := isWord_of_mem_isIdentifier h x (by simp)
  have hstart : ∀ y z : Char, isWord y = false → [y, z].isPrefixOf (x :: name) = false := by
    intro y z hy
    have hne : y ≠ x := by
      rintro rfl
      rw [hword] at hy
      cases hy
    simp [List.isPrefixOf, hne]
  simp [isTrivia, allBlank, isBlank_of_isWord hword, hstart '/' _ (by decide),
    hstart '#' _ (by decide)]

theorem isTrivia_of_mem_words (c : AccessChain) : ∀ word ∈ c.words, isTrivia word = false := by
  have hop : isTrivia c.operator = false := by
    rcases c.isOperator with h | h | h <;> rw [h] <;> decide
  have hpath : ∀ word ∈ pathWords c.first c.more, isTrivia word = false := by
    simp only [pathWords, List.mem_cons, List.mem_flatMap, List.not_mem_nil, or_false]
    rintro word (rfl | ⟨name, hname, rfl | rfl⟩)
    · exact isTrivia_of_isIdentifier c.isIdentifier_first
    · decide
    · exact isTrivia_of_isIdentifier (c.isIdentifier_more _ hname)
  intro word hword
  rw [AccessChain.words, List.mem_append, List.mem_cons] at hword
  rcases hword with hword | rfl | hword
  · exact hpath word hword
  · exact hop
  · split at hword
    · cases hword
    · next htyped =>
      rw [List.mem_singleton.1 hword]
      exact isTrivia_of_isIdentifier (c.isIdentifier_typed htyped)

/-- The context that the tokens give, with the cursor at the end of a chain. -/
theorem ofTokens_append_chain {earlier : List Wire.Token} {pre : List Char} {line : Int}
    (c : AccessChain)
    (hplace : ∀ t ∈ significant earlier, t.line < line ∨ t.line = line ∧ t.character < pre.length)
    (hlast : ∀ t ∈ (significant earlier).getLast?, ∃ s ∈ stops, t.text = [s]) :
    ofTokens (earlier ++ tokensFrom line pre.length c.words) line (pre ++ c.text).length =
      c.context := by
  have htrivia := isTrivia_of_mem_words c
  have hnil : [] ∉ c.words := fun h => absurd (htrivia [] h) (by decide)
  have hsignificant : significant (earlier ++ tokensFrom line pre.length c.words) =
      significant earlier ++ lexemesFrom line pre.length c.words := by
    rw [← significant_tokensFrom line (Int.natCast_nonneg _) htrivia]
    simp [significant]
  -- All tokens stand before the cursor, so none is left out.
  have hfront : ∀ t ∈ significant earlier ++ lexemesFrom line pre.length c.words,
      (t.line < line || (t.line == line && t.character < ((pre ++ c.text).length : Int))) =
        true := by
    intro t ht
    simp only [Bool.or_eq_true, Bool.and_eq_true, decide_eq_true_eq, beq_iff_eq,
      List.length_append, ← c.flatten_words]
    rcases List.mem_append.1 ht with ht | ht
    · have := hplace t ht
      omega
    · have := place_of_mem_lexemesFrom line hnil ht
      omega
  have hkind := accessKind?_operator c
  have hpath := map_text_lexemesFrom line pre.length (pathWords c.first c.more)
  rw [ofTokens, hsignificant, List.filter_eq_self.2 hfront, AccessChain.words, lexemesFrom_append,
    ← List.append_assoc]
  -- With nothing typed the operator is the last token; otherwise it is the last but one.
  by_cases htyped : c.typed = []
  · simp only [htyped, if_true, lexemesFrom]
    rw [classifyBefore_operator hkind, objectBefore_append c hpath hlast,
      AccessChain.context, htyped]
  · simp only [htyped, if_false, lexemesFrom]
    have hend : ((pre ++ c.text).length : Int) =
        pre.length + (pathWords c.first c.more).flatten.length + c.operator.length
          + c.typed.length := by
      simp [AccessChain.text, AccessChain.object, flatten_pathWords, Int.add_assoc]
    rw [hend, classifyBefore_typed hkind line _ (c.isIdentifier_typed htyped),
      objectBefore_append c hpath hlast, AccessChain.context]

/-! ## Agreement -/

/-- On a chain behind a stop the text and the tokens give the same context: the chain's own.  What
stands before the chain is arbitrary but for its end, a character behind which an expression begins;
the chain itself has any number of links and any spacing of its operators.  Earlier tokens have to
lie before the chain, and the last of them has to be such a stop. -/
theorem ofText_ofTokens_of_chain (text pre : List Char) (line : Nat) (earlier : List Wire.Token)
    (c : AccessChain) (hline : (lines text)[line]? = some (pre ++ c.text))
    (hpre : ∀ s ∈ (trimRight isBlank pre).getLast?, s ∈ stops)
    (hplace : ∀ t ∈ significant earlier, t.line < line ∨ t.line = line ∧ t.character < pre.length)
    (hlast : ∀ t ∈ (significant earlier).getLast?, ∃ s ∈ stops, t.text = [s]) :
    ofText text line (pre ++ c.text).length = c.context ∧
      ofTokens (earlier ++ tokensFrom line pre.length c.words) line (pre ++ c.text).length =
        c.context :=
  ⟨ofText_append_chain c hpre hline, ofTokens_append_chain c hplace hlast⟩

/-- A cursor behind `Stdio.File->re` in the second line, with the tokens of both lines. -/
theorem ofText_ofTokens_of_assigned_chain :
    ofText "int x;\n  a = Stdio.File->re".toList 1 20 =
        ⟨.memberAccess, "Stdio.File".toList, "re".toList, "->".toList⟩ ∧
      ofTokens [⟨"int", 1, 0⟩, ⟨" ", 1, 3⟩, ⟨"x", 1, 4⟩, ⟨";", 1, 5⟩, ⟨"\n  ", 1, 6⟩, ⟨"a", 2, 2⟩,
          ⟨" ", 2, 3⟩, ⟨"=", 2, 4⟩, ⟨" ", 2, 5⟩, ⟨"Stdio", 2, 6⟩, ⟨".", 2, 11⟩, ⟨"File", 2, 12⟩,
          ⟨"->", 2, 16⟩, ⟨"re", 2, 18⟩] 1 20 =
        ⟨.memberAccess, "Stdio.File".toList, "re".toList, "->".toList⟩ := by
  have hpre : (trimRight isBlank "  a = ".toList).getLast? = some '=' := by decide +kernel
  have hlast : (significant [⟨"int", 1, 0⟩, ⟨" ", 1, 3⟩, ⟨"x", 1, 4⟩, ⟨";", 1, 5⟩, ⟨"\n  ", 1, 6⟩,
      ⟨"a", 2, 2⟩, ⟨" ", 2, 3⟩, ⟨"=", 2, 4⟩, ⟨" ", 2, 5⟩]).getLast? = some ⟨['='], 1, 4⟩ := by
    decide +kernel
  refine ofText_ofTokens_of_chain _ "  a = ".toList 1
    [⟨"int", 1, 0⟩, ⟨" ", 1, 3⟩, ⟨"x", 1, 4⟩, ⟨";", 1, 5⟩, ⟨"\n  ", 1, 6⟩, ⟨"a", 2, 2⟩, ⟨" ", 2, 3⟩,
      ⟨"=", 2, 4⟩, ⟨" ", 2, 5⟩]
    ⟨"Stdio".toList, ["File".toList], "->".toList, "re".toList, by decide, by decide, by decide,
      fun _ => by decide⟩
    (by decide +kernel) (fun s hs => ?_) (by decide +kernel) fun t ht => ?_
  · rw [hpre] at hs
    obtain rfl := Option.some.inj hs
    decide
  · rw [hlast] at ht
    obtain rfl := Option.some.inj ht
    exact ⟨'=', by decide, rfl⟩

end PikeAnalysis.CompletionContext
