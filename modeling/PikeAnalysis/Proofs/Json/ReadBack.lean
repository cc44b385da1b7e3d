import Mathlib.Tactic.SplitIfs
import PikeAnalysis.Proofs.Json.FieldOrder
import PikeAnalysis.Proofs.Json.Numbers

/-!
# Reading back what was written

The reader takes the compact text of a value back to that value, and leaves what follows the text.
Every part of a value reads back on its own: an escaped character, a string, a number, the items of
an array, the fields of an object.  So no two values share a text.

Every lemma has the same form: the text of a part, followed by anything that does not go on with it,
is read as that part and leaves what follows.  In this form the parts can be put together, and the
recursion of the writer is all the structure that the main proof has.  Fuel is part of the
statements, as the reader takes as much of it as there are characters left.

Objects that name a field twice have to be left out (`Regular`).  They are written as they stand,
and the reader keeps one of the two, so what comes back is another value.  No reader or parser makes
such an object; it would have to be put together by hand.
-/

namespace PikeAnalysis.Json

/-! ## Escapes -/

theorem hexDigit?_digitChar : ∀ n < 16, hexDigit? (Nat.digitChar n) = some n := by
  decide

/-- The four digits of a sixteen-bit unit. -/
theorem hex4_eq {n : Nat} (h : n < 0x10000) :
    hex4 n = [Nat.digitChar (n / 0x1000), Nat.digitChar (n / 0x100 % 16),
      Nat.digitChar (n / 0x10 % 16), Nat.digitChar (n % 16)] := by
  have more {m : Nat} (hm : 16 ≤ m) :
      Nat.toDigits 16 m = Nat.toDigits 16 (m / 16) ++ [Nat.digitChar (m % 16)] :=
    Nat.toDigits_of_base_le (by decide) hm
  have last {m : Nat} (hm : m < 16) : Nat.toDigits 16 m = [Nat.digitChar m] :=
    Nat.toDigits_of_lt_base hm
  -- by the number of digits that are not padding
  rcases (by omega : n < 0x10 ∨ (0x10 ≤ n ∧ n < 0x100) ∨ (0x100 ≤ n ∧ n < 0x1000) ∨ 0x1000 ≤ n)
    with h1 | h2 | h3 | h4
  · rw [hex4, last h1, show n / 0x1000 = 0 by omega, show n / 0x100 % 16 = 0 by omega,
      show n / 0x10 % 16 = 0 by omega, Nat.mod_eq_of_lt h1]
    rfl
  · rw [hex4, more h2.1, last (by omega), show n / 0x1000 = 0 by omega,
      show n / 0x100 % 16 = 0 by omega, show n / 0x10 % 16 = n / 16 by omega]
    rfl
  · rw [hex4, more (by omega), more (by omega), last (by omega), show n / 0x1000 = 0 by omega,
      show n / 0x100 % 16 = n / 16 / 16 by omega]
    rfl
  · rw [hex4, more (by omega), more (by omega), more (by omega), last (by omega),
      show n / 0x1000 = n / 16 / 16 / 16 by omega, show n / 0x100 % 16 = n / 16 / 16 % 16 by omega]
    rfl

theorem hex4?_hex4 {n : Nat} (h : n < 0x10000) (rest : List Char) :
    hex4? (hex4 n ++ rest) = some (n, rest) := by
  have digit (m : Nat) : hexDigit? (Nat.digitChar (m % 16)) = some (m % 16) :=
    hexDigit?_digitChar _ (Nat.mod_lt _ (by decide))
  have first : hexDigit? (Nat.digitChar (n / 0x1000)) = some (n / 0x1000) :=
    hexDigit?_digitChar _ (by omega)
  rw [hex4_eq h]
  simp only [List.cons_append, List.nil_append, hex4?, first, digit, Option.bind_eq_bind,
    Option.bind_some, Option.some.injEq, Prod.mk.injEq, and_true]
  omega

/-- The forms in which a character is written: behind a backslash as a letter, as it is, as a unit,
or as two units that are halves of a surrogate pair.  Each character has one form in which it is
written, but several are read. -/
inductive Escapes : Char → List Char → Prop
  | letter {e c : Char} (meaning : escapeMeaning? e = some c) : Escapes c ['\\', e]
  | printable {c : Char} (quote : c ≠ '"') (backslash : c ≠ '\\')
    (low : 32 ≤ c.toNat) : Escapes c [c]
  | unit {n : Nat} (h : n < 0x10000) (whole : n < 0xD800 ∨ 0xE000 ≤ n) :
      Escapes (Char.ofNat n) (unitEscape n)
  | surrogates {high low : Nat} (hh : high < 0x400) (hl : low < 0x400) :
      Escapes (Char.ofNat (0x10000 + high * 0x400 + low))
        (unitEscape (0xD800 + high) ++ unitEscape (0xDC00 + low))

theorem escapes_escapeChar (c : Char) : Escapes c (escapeChar c) := by
  have hvalid : c.toNat < 0xD800 ∨ (0xDFFF < c.toNat ∧ c.toNat < 0x110000) := c.valid
  unfold escapeChar
  split_ifs with quote backslash newline carriage tab feed back printable unit
  · exact .letter (by rw [quote]; rfl)
  · exact .letter (by rw [backslash]; rfl)
  · exact .letter (by rw [newline]; rfl)
  · exact .letter (by rw [carriage]; rfl)
  · exact .letter (by rw [tab]; rfl)
  · exact .letter (by rw [feed]; rfl)
  · exact .letter (by rw [back]; rfl)
  · exact .printable quote backslash printable.1
  · have h := Escapes.unit unit (by omega)
    rwa [Char.ofNat_toNat] at h
  · have h := Escapes.surrogates (show (c.toNat - 0x10000) / 0x400 < 0x400 by omega)
      (show (c.toNat - 0x10000) % 0x400 < 0x400 by omega)
    rwa [show 0x10000 + (c.toNat - 0x10000) / 0x400 * 0x400 + (c.toNat - 0x10000) % 0x400 = c.toNat
      by omega, Char.ofNat_toNat] at h

/-- Each form reads as the character it stands for.  It takes one step of fuel, however many
characters the form has. -/
theorem Escapes.readString {c : Char} {t : List Char} (escapes : Escapes c t) (fuel : Nat)
    (rest : List Char) :
    readString (fuel + 1) (t ++ rest) = (readString fuel rest).map fun p => (c :: p.1, p.2) := by
  cases escapes with
  | @letter e _ meaning =>
    have hu : e = 'u' → False := by
      rintro rfl
      cases meaning
    simp only [List.cons_append, List.nil_append, Json.readString, meaning, Option.bind_eq_bind,
      Option.bind_some, Option.map_eq_bind]
    rfl
  | printable quote backslash low =>
    have hplain : ¬(c = '\\' ∨ c.toNat < 32) := not_or.mpr ⟨backslash, Nat.not_lt.mpr low⟩
    rw [List.singleton_append, Json.readString, if_neg hplain, Option.map_eq_bind]
    · rfl
    · exact quote
    · exact fun _ hc _ => backslash hc
    · exact fun _ _ hc _ => backslash hc
  | @unit n h whole =>
    have hchar : unitChar n = Char.ofNat n := if_neg (by omega)
    -- A character of one unit is no half of a pair, so it is read without what follows.
    have hhigh : ¬(0xD800 ≤ n ∧ n < 0xDC00) := by omega
    simp only [unitEscape, List.cons_append, Json.readString, hex4?_hex4 h, Option.bind_eq_bind,
      Option.bind_some, if_neg hhigh, hchar, Option.map_eq_bind]
    split
    · next hpair => split at hpair <;> cases hpair
    · rfl
  | @surrogates high low hh hl =>
    have hhigh : 0xD800 ≤ 0xD800 + high ∧ 0xD800 + high < 0xDC00 := by omega
    have hlow : 0xDC00 ≤ 0xDC00 + low ∧ 0xDC00 + low < 0xE000 := by omega
    simp only [unitEscape, List.cons_append, List.append_assoc, Json.readString,
      hex4?_hex4 (show 0xD800 + high < 0x10000 by omega),
      hex4?_hex4 (show 0xDC00 + low < 0x10000 by omega), Option.bind_eq_bind, Option.bind_some,
      if_pos hhigh, if_pos hlow, Option.map_eq_bind, Nat.add_sub_cancel_left]
    rfl

theorem Escapes.length_pos {c : Char} {t : List Char} (escapes : Escapes c t) : 0 < t.length := by
  cases escapes <;> simp [unitEscape]

/-! ## Strings -/

theorem length_le_length_flatMap_escapeChar (s : List Char) :
    s.length ≤ (s.flatMap escapeChar).length := by
  induction s with
  | nil => exact Nat.zero_le _
  | cons c s ih =>
    have hc := (escapes_escapeChar c).length_pos
    rw [List.flatMap_cons, List.length_append, List.length_cons]
    omega

/-- An escaped string reads back up to its closing quote.  What follows the quote is left alone. -/
theorem readString_flatMap (s : List Char) {fuel : Nat} (enough : s.length < fuel)
    (rest : List Char) :
    readString fuel (s.flatMap escapeChar ++ '"' :: rest) = some (s, rest) := by
  induction s generalizing fuel with
  | nil =>
    obtain ⟨n, rfl⟩ := Nat.exists_eq_add_of_lt enough
    rw [List.flatMap_nil, List.nil_append, readString]
  | cons c s ih =>
    cases fuel with
    | zero => cases enough
    | succ fuel =>
      rw [List.flatMap_cons, List.append_assoc, (escapes_escapeChar c).readString,
        ih (by simpa using enough), Option.map_some]

/-- A quoted string reads back with the fuel that the reader gives it. -/
theorem readString_quoted (s : String) (rest : List Char) :
    ∃ body, quoted s ++ rest = '"' :: body ∧
      readString (body.length + 1) body = some (s.toList, rest) := by
  refine ⟨s.toList.flatMap escapeChar ++ '"' :: rest, by simp [quoted],
    readString_flatMap _ ?_ rest⟩
  have h := length_le_length_flatMap_escapeChar s.toList
  rw [List.length_append]
  omega

/-! ## Single values -/

/-- A value whose objects, at every depth, name each field once.  Its numbers may be doubles.  Every
value that the reader returns is regular; an object that names a field twice has to be left out,
since it is written as it stands and comes back with the later value. -/
inductive Regular : Json → Prop
  | null : Regular .null
  | bool (b : Bool) : Regular (.bool b)
  | int (n : Int) : Regular (.int n)
  | float (x : Float) : Regular (.float x)
  | str (s : String) : Regular (.str s)
  | arr {items : List Json} (parts : ∀ v ∈ items, Regular v) : Regular (.arr items)
  | obj {fields : List (String × Json)} (distinct : (Assoc.keys fields).Nodup)
      (parts : ∀ f ∈ fields, Regular f.2) : Regular (.obj fields)

theorem Plain.regular {v : Json} (plain : Plain v) : Regular v := by
  induction plain with
  | null => exact .null
  | bool b => exact .bool b
  | int n => exact .int n
  | str s => exact .str s
  | arr _ ih => exact .arr ih
  | obj distinct _ ih => exact .obj distinct ih

theorem skipSpace_cons {c : Char} (h : isSpace c = false) (rest : List Char) :
    skipSpace (c :: rest) = c :: rest :=
  List.dropWhile_cons_of_neg (by rw [h]; decide)

theorem isSpace_of_isDigit {c : Char} (digit : c.isDigit) : isSpace c = false := by
  have ne {x : Char} (hx : x.isDigit = false) : c ≠ x := ne_of_isDigit digit hx
  simp [isSpace, ne (x := ' ') rfl, ne (x := '\t') rfl, ne (x := '\n') rfl, ne (x := '\r') rfl]

theorem readValue_of_digit {c : Char} (digit : c.isDigit) (fuel : Nat) (rest : List Char) :
    readValue (fuel + 1) (c :: rest) = readNumber (c :: rest) := by
  have ne {x : Char} (hx : x.isDigit = false) : c ≠ x := ne_of_isDigit digit hx
  simp [readValue, skipSpace_cons (isSpace_of_isDigit digit), ne (x := '"') rfl, ne (x := '[') rfl,
    ne (x := '{') rfl, afterWord?, List.isPrefixOf, (ne (x := 'n') rfl).symm,
    (ne (x := 't') rfl).symm, (ne (x := 'f') rfl).symm, (ne (x := 'N') rfl).symm,
    (ne (x := 'I') rfl).symm, (ne (x := '-') rfl).symm]

theorem readValue_of_minus {c : Char} (digit : c.isDigit) (fuel : Nat) (rest : List Char) :
    readValue (fuel + 1) ('-' :: c :: rest) = readNumber ('-' :: c :: rest) := by
  simp [readValue, skipSpace_cons (c := '-') rfl, afterWord?, List.isPrefixOf,
    (ne_of_isDigit digit (x := 'I') rfl).symm]

theorem readValue_intText (n : Int) (fuel : Nat) (rest : List Char) :
    readValue (fuel + 1) (intText n ++ rest) = readNumber (intText n ++ rest) := by
  cases n with
  | ofNat m =>
    obtain ⟨d, ds, hd, digit, _⟩ := exists_toDigits_eq_cons m
    rw [Int.ofNat_eq_natCast, intText_ofNat, hd]
    exact readValue_of_digit digit fuel _
  | negSucc m =>
    obtain ⟨d, ds, hd, digit, _⟩ := exists_toDigits_eq_cons (m + 1)
    rw [intText_negSucc, hd]
    exact readValue_of_minus digit fuel _

theorem readValue_floatText (x : Float) (fuel : Nat) {rest : List Char} (ends : EndsNumber rest) :
    readValue (fuel + 1) (floatText x ++ rest) = some (.float x, rest) := by
  cases floatForm x with
  | nan text value =>
    rw [text, value]
    simp [readValue, skipSpace_cons (c := 'N') rfl, afterWord?, List.isPrefixOf]
    rfl
  | infinite negative text value =>
    rw [text, value]
    cases negative with
    | false =>
      simp [signText, readValue, skipSpace_cons (c := 'I') rfl, afterWord?, List.isPrefixOf]
      rfl
    | true =>
      simp [signText, readValue, skipSpace_cons (c := '-') rfl, afterWord?, List.isPrefixOf]
      rfl
  | finite negative c body text digit read =>
    rw [← read rest ends, text]
    cases negative with
    | false => exact readValue_of_digit digit fuel _
    | true => exact readValue_of_minus digit fuel _

/-- No text of a value starts with a blank or a closing bracket. -/
theorem Regular.exists_write_eq_cons {v : Json} (regular : Regular v) :
    ∃ c t, write .compact v = c :: t ∧ isSpace c = false ∧ c ≠ ']' := by
  cases regular with
  | null => exact ⟨'n', _, by rw [write], by decide, by decide⟩
  | bool b => cases b <;> exact ⟨_, _, by rw [write], by decide, by decide⟩
  | int n =>
    cases n with
    | ofNat m =>
      obtain ⟨d, ds, hd, digit, _⟩ := exists_toDigits_eq_cons m
      exact ⟨d, ds, by rw [write, Int.ofNat_eq_natCast, intText_ofNat, hd],
        isSpace_of_isDigit digit, ne_of_isDigit digit rfl⟩
    | negSucc m => exact ⟨'-', _, by rw [write, intText_negSucc], by decide, by decide⟩
  | float x =>
    rw [write]
    cases floatForm x with
    | nan text _ => exact ⟨'N', _, text, by decide, by decide⟩
    | infinite negative text _ =>
      cases negative with
      | false => exact ⟨'I', _, text, by decide, by decide⟩
      | true => exact ⟨'-', _, text, by decide, by decide⟩
    | finite negative c body text digit _ =>
      cases negative with
      | false => exact ⟨c, body, text, isSpace_of_isDigit digit, ne_of_isDigit digit rfl⟩
      | true => exact ⟨'-', _, text, by decide, by decide⟩
  | str s => exact ⟨'"', _, by rw [write, quoted]; rfl, by decide, by decide⟩
  | @arr items => cases items <;> exact ⟨'[', _, by rw [write]; try rfl, by decide, by decide⟩
  | @obj fields => cases fields <;> exact ⟨'{', _, by rw [write]; try rfl, by decide, by decide⟩

/-- A value reads back from its text, whatever follows that does not go on with a number.  The
condition on what follows is needed for numbers only. -/
def ReadsBack (v : Json) : Prop :=
  ∀ (fuel : Nat) (rest : List Char), (write .compact v).length ≤ fuel → EndsNumber rest →
    readValue fuel (write .compact v ++ rest) = some (v, rest)

theorem Regular.readsBack_of_succ {v : Json} (regular : Regular v)
    (back : ∀ (fuel : Nat) (rest : List Char), (write .compact v).length ≤ fuel + 1 →
      EndsNumber rest → readValue (fuel + 1) (write .compact v ++ rest) = some (v, rest)) :
    ReadsBack v := by
  intro fuel rest enough ends
  cases fuel with
  | zero =>
    obtain ⟨c, t, htext, _⟩ := regular.exists_write_eq_cons
    rw [htext] at enough
    cases enough
  | succ fuel => exact back fuel rest enough ends

/-! ## Items and fields -/

theorem readItems_write {x : Json} {xs : List Json} (back : ∀ v ∈ x :: xs, ReadsBack v)
    {fuel : Nat} (enough : (write .compact x ++ writeItems .compact xs).length < fuel)
    (rest : List Char) :
    readItems fuel (write .compact x ++ writeItems .compact xs ++ ']' :: rest) =
      some (x :: xs, rest) := by
  induction xs generalizing x fuel with
  | nil =>
    cases fuel with
    | zero => cases enough
    | succ fuel =>
    rw [writeItems, List.append_nil] at enough
    have hx := back x List.mem_cons_self fuel (']' :: rest) (by omega)
      (endsNumber_cons (by decide) rest)
    rw [writeItems, List.append_nil, readItems, hx]
    rfl
  | cons y ys ih =>
    cases fuel with
    | zero => cases enough
    | succ fuel =>
    have hcomma : Spacing.compact.item.length = 1 := rfl
    simp only [writeItems, List.length_append] at enough
    let more := write .compact y ++ writeItems .compact ys ++ ']' :: rest
    have hx := back x List.mem_cons_self fuel (',' :: more) (by omega)
      (endsNumber_cons (by decide) _)
    -- The rest is shorter by an item and a comma, which pays for the unit of fuel.
    have room : (write .compact y ++ writeItems .compact ys).length < fuel := by
      rw [List.length_append]
      omega
    have hys := ih (fun v hv => back v (List.mem_cons_of_mem _ hv)) room
    have htext : write .compact x ++ writeItems .compact (y :: ys) ++ ']' :: rest =
        write .compact x ++ ',' :: more := by
      simp [writeItems, Spacing.compact, more]
    rw [htext, readItems, hx]
    simp only [Option.bind_eq_bind, Option.bind_some, skipSpace_cons (c := ',') rfl, more, hys]

theorem readPairs_write {k : String} {v : Json} {fs : List (String × Json)}
    (back : ∀ f ∈ (k, v) :: fs, ReadsBack f.2) {fuel : Nat}
    (enough : (quoted k ++ ':' :: write .compact v ++ writeFields .compact fs).length < fuel)
    (rest : List Char) :
    readPairs fuel (quoted k ++ ':' :: write .compact v ++ writeFields .compact fs ++ '}' :: rest) =
      some ((k, v) :: fs, rest) := by
  induction fs generalizing k v fuel with
  | nil =>
    cases fuel with
    | zero => cases enough
    | succ fuel =>
    simp only [List.length_append, List.length_cons] at enough
    have hv := back (k, v) List.mem_cons_self fuel ('}' :: rest)
      (show (write .compact v).length ≤ fuel by omega) (endsNumber_cons (by decide) rest)
    obtain ⟨body, hbody, hread⟩ := readString_quoted k (':' :: write .compact v ++ '}' :: rest)
    have htext : quoted k ++ ':' :: write .compact v ++ writeFields .compact [] ++ '}' :: rest =
        '"' :: body := by
      simp [writeFields, ← hbody]
    rw [htext, readPairs]
    simp only [skipSpace_cons (c := '"') rfl, hread, List.cons_append, Option.bind_eq_bind,
      Option.bind_some, skipSpace_cons (c := ':') rfl, hv, skipSpace_cons (c := '}') rfl,
      String.ofList_toList]
  | cons f fs ih =>
    obtain ⟨k', v'⟩ := f
    cases fuel with
    | zero => cases enough
    | succ fuel =>
    have hcomma : Spacing.compact.item.length = 1 := rfl
    have hcolon : Spacing.compact.key.length = 1 := rfl
    simp only [writeFields, List.length_append, List.length_cons] at enough
    let more := quoted k' ++ ':' :: write .compact v' ++ writeFields .compact fs ++ '}' :: rest
    have hv := back (k, v) List.mem_cons_self fuel (',' :: more)
      (show (write .compact v).length ≤ fuel by omega) (endsNumber_cons (by decide) _)
    -- The rest is shorter by a field and a comma, which pays for the unit of fuel.
    have room : (quoted k' ++ ':' :: write .compact v' ++ writeFields .compact fs).length <
      fuel := by
      simp only [List.length_append, List.length_cons]
      omega
    have hfs := ih (fun f hf => back f (List.mem_cons_of_mem _ hf)) room
    obtain ⟨body, hbody, hread⟩ := readString_quoted k (':' :: write .compact v ++ ',' :: more)
    have htext : quoted k ++ ':' :: write .compact v ++ writeFields .compact ((k', v') :: fs) ++
        '}' :: rest = '"' :: body := by
      simp [writeFields, ← hbody, more, Spacing.compact]
    rw [htext, readPairs]
    simp only [skipSpace_cons (c := '"') rfl, hread, List.cons_append, Option.bind_eq_bind,
      Option.bind_some, skipSpace_cons (c := ':') rfl, hv, skipSpace_cons (c := ',') rfl, more, hfs,
      String.ofList_toList]

/-- Fields with distinct keys are kept as they were read.  Only a repeated key would replace what
was read before. -/
theorem fieldsOfPairs_eq_self {fields : List (String × Json)}
    (distinct : (Assoc.keys fields).Nodup) : fieldsOfPairs fields = fields := by
  have go (fs acc : List (String × Json)) (h : (Assoc.keys (acc ++ fs)).Nodup) :
      fs.foldl (fun fields p => setField p.1 p.2 fields) acc = acc ++ fs := by
    induction fs generalizing acc with
    | nil => exact (List.append_nil acc).symm
    | cons f fs ih =>
      have hnew : Assoc.get? f.1 acc = none := by
        rw [Assoc.get?_eq_none_iff]
        intro hmem
        rw [Assoc.keys_append] at h
        exact (List.nodup_append.mp h).2.2 _ hmem _ (Assoc.mem_keys_of_mem List.mem_cons_self) rfl
      rw [List.foldl_cons, setField_eq_set, Assoc.set_of_get?_eq_none hnew, ih _ (by simpa using h),
        List.append_assoc]
      rfl
  exact go fields [] distinct

/-! ## All values -/

theorem readValue_arr {x : Json} {xs : List Json} (regular : Regular x) {fuel : Nat}
    {rest : List Char}
    (h : readItems fuel (write .compact x ++ writeItems .compact xs ++ ']' :: rest) =
      some (x :: xs, rest)) :
    readValue (fuel + 1) (write .compact (.arr (x :: xs)) ++ rest) =
      some (.arr (x :: xs), rest) := by
  obtain ⟨c, t, hx, space, bracket⟩ := regular.exists_write_eq_cons
  have htext : write .compact (.arr (x :: xs)) ++ rest =
      '[' :: c :: (t ++ (writeItems .compact xs ++ ']' :: rest)) := by
    simp [write, hx]
  rw [hx, List.append_assoc, List.cons_append] at h
  rw [htext]
  simp [readValue, skipSpace_cons (c := '[') rfl, skipSpace_cons space, bracket, h]

theorem readValue_obj {k : String} {v : Json} {fs : List (String × Json)}
    (distinct : (Assoc.keys ((k, v) :: fs)).Nodup) {fuel : Nat} {rest : List Char}
    (h : readPairs fuel (quoted k ++ ':' :: write .compact v ++ writeFields .compact fs ++
      '}' :: rest) = some ((k, v) :: fs, rest)) :
    readValue (fuel + 1) (write .compact (.obj ((k, v) :: fs)) ++ rest) =
      some (.obj ((k, v) :: fs), rest) := by
  obtain ⟨body, hbody, _⟩ :=
    readString_quoted k (':' :: write .compact v ++ writeFields .compact fs ++ '}' :: rest)
  have hpairs : quoted k ++ ':' :: write .compact v ++ writeFields .compact fs ++ '}' :: rest =
      '"' :: body := by
    simpa using hbody
  have htext : write .compact (.obj ((k, v) :: fs)) ++ rest = '{' :: '"' :: body := by
    rw [← hpairs]
    simp [write, Spacing.compact]
  rw [hpairs] at h
  rw [htext]
  simp [readValue, skipSpace_cons (c := '{') rfl, skipSpace_cons (c := '"') rfl, h,
    fieldsOfPairs_eq_self distinct]

/-- Every regular value reads back. -/
theorem Regular.readsBack {v : Json} (regular : Regular v) : ReadsBack v := by
  -- By induction on the value.  The text of a part is shorter than the text that it stands in, so
  -- what is enough fuel for the whole is enough for the parts.
  induction regular with
  | null =>
    refine Regular.null.readsBack_of_succ fun fuel rest _ _ => ?_
    simp [write, readValue, skipSpace_cons (c := 'n') rfl, afterWord?]
    rfl
  | bool b =>
    refine (Regular.bool b).readsBack_of_succ fun fuel rest _ _ => ?_
    cases b with
    | false =>
      simp [write, readValue, skipSpace_cons (c := 'f') rfl, afterWord?]
      rfl
    | true =>
      simp [write, readValue, skipSpace_cons (c := 't') rfl, afterWord?]
      rfl
  | int n =>
    refine (Regular.int n).readsBack_of_succ fun fuel rest _ ends => ?_
    rw [write, readValue_intText]
    exact readNumber_intText n ends
  | float x =>
    refine (Regular.float x).readsBack_of_succ fun fuel rest _ ends => ?_
    rw [write]
    exact readValue_floatText x fuel ends
  | str s =>
    refine (Regular.str s).readsBack_of_succ fun fuel rest _ _ => ?_
    obtain ⟨body, hbody, hread⟩ := readString_quoted s rest
    rw [write, hbody]
    simp [readValue, skipSpace_cons (c := '"') rfl, hread]
  | @arr items parts ih =>
    refine (Regular.arr parts).readsBack_of_succ fun fuel rest enough _ => ?_
    cases items with
    | nil => simp [write, readValue, skipSpace_cons (c := '[') rfl, skipSpace_cons (c := ']') rfl]
    | cons x xs =>
      have room : (write .compact x ++ writeItems .compact xs).length < fuel := by
        simp only [write, List.length_append, List.length_cons, List.length_nil] at enough ⊢
        omega
      exact readValue_arr (parts x List.mem_cons_self) (readItems_write ih room rest)
  | @obj fields distinct parts ih =>
    refine (Regular.obj distinct parts).readsBack_of_succ fun fuel rest enough _ => ?_
    cases fields with
    | nil =>
      simp [write, readValue, skipSpace_cons (c := '{') rfl, skipSpace_cons (c := '}') rfl]
    | cons f fs =>
      obtain ⟨k, v⟩ := f
      have hcolon : Spacing.compact.key.length = 1 := rfl
      have room : (quoted k ++ ':' :: write .compact v ++ writeFields .compact fs).length <
        fuel := by
        simp only [write, List.length_append, List.length_cons, List.length_nil] at enough ⊢
        omega
      exact readValue_obj distinct (readPairs_write ih room rest)

/-- The compact text of a regular value is read as that value. -/
theorem Regular.read?_compact {v : Json} (regular : Regular v) :
    read? v.compact.toList = some v := by
  have h := regular.readsBack ((write .compact v).length + 2) [] (by omega) endsNumber_nil
  rw [List.append_nil] at h
  rw [read?, compact, String.toList_ofList, h]
  rfl

/-- No two plain values share a text. -/
theorem Plain.eq_of_compact_eq {v w : Json} (hv : Plain v) (hw : Plain w)
    (same : v.compact = w.compact) : v = w := by
  have h := hv.regular.read?_compact
  rw [same, hw.regular.read?_compact, Option.some.injEq] at h
  exact h.symm

end PikeAnalysis.Json
