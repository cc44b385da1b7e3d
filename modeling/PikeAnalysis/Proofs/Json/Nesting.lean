import PikeAnalysis.Proofs.Json.ReadBack

/-!
# Objects at the end of a text

A scan of a text keeps track of strings and of open brackets.  Outside strings the text of a value
leaves a scan where it was; inside a string it cannot end the scan outside, since its own quotes
come in pairs and its escapes are no text.  So the text of an object never ends with the text of
another one: what stands before would have to leave a bracket open, or a string.

It is needed for the keys of requests.  A key is a method, a colon and the text of an object, and a
method may contain anything, so a key could be read in two ways if the text of an object could end
with a colon and the text of another.  `Place` is a small machine that reads a text character by
character, and the statement that texts of values leave it where it was (`Balanced`) is shown by the
same recursion by which they are written (`Spreads`).
-/

namespace PikeAnalysis.Json

/-! ## Scanning -/

/-- Where a scan stands: how many brackets are open, and whether it is in a string, perhaps behind a
backslash.  A scan is stuck at what no text has outside strings.  Depth is counted without regard to
the kind of bracket. -/
inductive Place
  | outside (depth : Nat)
  | inside (depth : Nat)
  | escaped (depth : Nat)
  | stuck

namespace Place

/-- The place one bracket further out.  There is none outside the outermost bracket, and the scan is
stuck for good. -/
def closed : Nat → Place
  | 0 => .stuck
  | depth + 1 => .outside depth

/-- The place after one more character.  A quote ends a string unless a backslash stands before
it. -/
def next : Place → Char → Place
  | .outside depth, c =>
    if c = '"' then .inside depth
    else if c = '\\' then .stuck
    else if c = '[' ∨ c = '{' then .outside (depth + 1)
    else if c = ']' ∨ c = '}' then closed depth
    else .outside depth
  | .inside depth, c =>
    if c = '"' then .outside depth
    else if c = '\\' then .escaped depth
    else .inside depth
  | .escaped depth, _ => .inside depth
  | .stuck, _ => .stuck

/-- The place after a text. -/
def scan (p : Place) (text : List Char) : Place :=
  text.foldl next p

@[simp] theorem scan_nil (p : Place) : p.scan [] = p := rfl

@[simp] theorem scan_cons (p : Place) (c : Char) (text : List Char) :
    p.scan (c :: text) = (p.next c).scan text := rfl

theorem scan_append (p : Place) (s t : List Char) : p.scan (s ++ t) = (p.scan s).scan t :=
  List.foldl_append

@[simp] theorem scan_stuck (text : List Char) : stuck.scan text = stuck := by
  induction text with
  | nil => rfl
  | cons c text ih => exact ih

/-- The same place below one more bracket. -/
def deeper : Place → Place
  | .outside depth => .outside (depth + 1)
  | .inside depth => .inside (depth + 1)
  | .escaped depth => .escaped (depth + 1)
  | .stuck => .stuck

theorem next_deeper {p : Place} {c : Char} (h : p.next c ≠ .stuck) :
    p.deeper.next c = (p.next c).deeper := by
  cases p with
  | outside depth =>
    simp only [next, deeper] at h ⊢
    split_ifs at h ⊢ with quote backslash opens closes
    · rfl
    · exact absurd rfl h
    · rfl
    · cases depth with
      | zero => exact absurd rfl h
      | succ depth => rfl
    · rfl
  | inside depth =>
    simp only [next, deeper]
    split_ifs <;> rfl
  | escaped depth => rfl
  | stuck => rfl

/-- A scan that does not get stuck goes on alike below one more bracket. -/
theorem scan_deeper {p : Place} {text : List Char} (h : p.scan text ≠ .stuck) :
    p.deeper.scan text = (p.scan text).deeper := by
  induction text generalizing p with
  | nil => rfl
  | cons c text ih =>
    have hc : p.next c ≠ .stuck := by
      intro hstuck
      rw [scan_cons, hstuck] at h
      exact h (scan_stuck text)
    rw [scan_cons, scan_cons, next_deeper hc]
    exact ih h

/-- Whether a scan stands in a string, if anywhere. -/
def Within (p : Place) : Prop :=
  p = .stuck ∨ ∃ depth, p = .inside depth

/-- Whether a scan stands outside strings, if anywhere. -/
def Without (p : Place) : Prop :=
  p = .stuck ∨ ∃ depth, p = .outside depth

theorem Without.next {p : Place} (h : p.Without) {c : Char} (quote : c ≠ '"') :
    (p.next c).Without := by
  rcases h with rfl | ⟨depth, rfl⟩
  · exact .inl rfl
  · simp only [Place.next, if_neg quote]
    split_ifs
    · exact .inl rfl
    · exact .inr ⟨_, rfl⟩
    · cases depth with
      | zero => exact .inl rfl
      | succ depth => exact .inr ⟨depth, rfl⟩
    · exact .inr ⟨_, rfl⟩

end Place

/-! ## Ordinary characters -/

/-- A character that a scan passes by wherever it stands. -/
def Ordinary (c : Char) : Prop :=
  c ∉ ['"', '\\', '[', ']', '{', '}']

instance (c : Char) : Decidable (Ordinary c) :=
  inferInstanceAs (Decidable (c ∉ _))

theorem ordinary_digitChar (n : Nat) : Ordinary (Nat.digitChar n) := by
  simp [Ordinary]

theorem ordinary_of_isDigit {c : Char} (digit : c.isDigit) : Ordinary c := by
  have ne {x : Char} (hx : x.isDigit = false) : c ≠ x := ne_of_isDigit digit hx
  simp [Ordinary, ne (x := '"') rfl, ne (x := '\\') rfl, ne (x := '[') rfl, ne (x := ']') rfl,
    ne (x := '{') rfl, ne (x := '}') rfl]

theorem ordinary_of_mem_hex4 {n : Nat} (h : n < 0x10000) {c : Char} (hc : c ∈ hex4 n) :
    Ordinary c := by
  rw [hex4_eq h] at hc
  simp only [List.mem_cons, List.not_mem_nil, or_false] at hc
  rcases hc with rfl | rfl | rfl | rfl <;> exact ordinary_digitChar _

theorem ordinary_of_mem_intText {n : Int} {c : Char} (hc : c ∈ intText n) : Ordinary c := by
  cases n with
  | ofNat m =>
    rw [Int.ofNat_eq_natCast, intText_ofNat] at hc
    exact ordinary_of_isDigit (isDigit_of_mem_toDigits hc)
  | negSucc m =>
    rw [intText_negSucc, List.mem_cons] at hc
    rcases hc with rfl | hc
    · decide
    · exact ordinary_of_isDigit (isDigit_of_mem_toDigits hc)

/-! ## What texts are made of -/

/-- A property of texts that holds of a value's text if it holds of the parts.  It is closed under
how texts of arrays and objects are made. -/
structure Spreads (good : List Char → Prop) : Prop where
  nil : good []
  append : ∀ {s t : List Char}, good s → good t → good (s ++ t)
  ordinary : ∀ {c : Char}, Ordinary c → good [c]
  quoted : ∀ s : String, good (quoted s)
  brackets : ∀ {t : List Char}, good t → good ('[' :: t ++ [']'])
  braces : ∀ {t : List Char}, good t → good ('{' :: t ++ ['}'])

namespace Spreads

variable {good : List Char → Prop} (spreads : Spreads good)

include spreads

theorem cons {c : Char} (hc : Ordinary c) {t : List Char} (ht : good t) : good (c :: t) :=
  spreads.append (spreads.ordinary hc) ht

theorem of_ordinary {t : List Char} (h : ∀ c ∈ t, Ordinary c) : good t := by
  induction t with
  | nil => exact spreads.nil
  | cons c t ih =>
    exact spreads.cons (h c List.mem_cons_self) (ih fun d hd => h d (List.mem_cons_of_mem _ hd))

theorem word {t : List Char} (h : t.all fun c => decide (Ordinary c)) : good t :=
  spreads.of_ordinary fun c hc => of_decide_eq_true (List.all_eq_true.mp h c hc)

theorem items {xs : List Json} (parts : ∀ v ∈ xs, good (write .compact v)) :
    good (writeItems .compact xs) := by
  induction xs with
  | nil => exact spreads.nil
  | cons x xs ih =>
    have hx := spreads.cons (c := ',') (by decide) (parts x List.mem_cons_self)
    exact spreads.append hx (ih fun v hv => parts v (List.mem_cons_of_mem _ hv))

theorem field (k : String) {v : Json} (part : good (write .compact v)) :
    good (Json.quoted k ++ ':' :: write .compact v) :=
  spreads.append (spreads.quoted k) (spreads.cons (by decide) part)

theorem fields {fs : List (String × Json)} (parts : ∀ f ∈ fs, good (write .compact f.2)) :
    good (writeFields .compact fs) := by
  induction fs with
  | nil => exact spreads.nil
  | cons f fs ih =>
    obtain ⟨k, v⟩ := f
    have hf := spreads.cons (c := ',') (by decide) (spreads.field k (parts _ List.mem_cons_self))
    have hfs := ih fun f hf => parts f (List.mem_cons_of_mem _ hf)
    simpa [writeFields, Spacing.compact] using spreads.append hf hfs

/-- The text of an object is a good text between braces. -/
theorem obj {fs : List (String × Json)} (parts : ∀ f ∈ fs, good (write .compact f.2)) :
    ∃ body, good body ∧ write .compact (.obj fs) = '{' :: body ++ ['}'] := by
  cases fs with
  | nil => exact ⟨[], spreads.nil, by simp [write]⟩
  | cons f fs =>
    obtain ⟨k, v⟩ := f
    have hf := spreads.field k (parts _ List.mem_cons_self)
    have hfs := spreads.fields fun f hf => parts f (List.mem_cons_of_mem _ hf)
    exact ⟨_, spreads.append hf hfs, by simp [write, Spacing.compact]⟩

theorem write {v : Json} (plain : Plain v) : good (write .compact v) := by
  induction plain with
  | null => exact spreads.word (by rw [Json.write]; rfl)
  | bool b => cases b <;> exact spreads.word (by rw [Json.write]; rfl)
  | int n =>
    rw [Json.write]
    exact spreads.of_ordinary fun c hc => ordinary_of_mem_intText hc
  | str s =>
    rw [Json.write]
    exact spreads.quoted s
  | @arr items parts ih =>
    cases items with
    | nil =>
      rw [Json.write]
      exact spreads.brackets spreads.nil
    | cons x xs =>
      have hx := ih x List.mem_cons_self
      have hxs := spreads.items fun v hv => ih v (List.mem_cons_of_mem _ hv)
      rw [Json.write]
      exact spreads.brackets (spreads.append hx hxs)
  | obj distinct parts ih =>
    obtain ⟨body, hbody, htext⟩ := spreads.obj ih
    rw [htext]
    exact spreads.braces hbody

end Spreads

/-! ## Texts outside strings -/

/-- A text that leaves a scan outside strings where it was.  Values are written as such texts, which
is why the bracket that ends one is found by counting. -/
def Balanced (text : List Char) : Prop :=
  ∀ depth, (Place.outside depth).scan text = .outside depth

theorem scan_inside_of_ordinary (depth : Nat) {t : List Char} (h : ∀ c ∈ t, Ordinary c) :
    (Place.inside depth).scan t = .inside depth := by
  induction t with
  | nil => rfl
  | cons c t ih =>
    have hc := h c List.mem_cons_self
    simp only [Ordinary, List.mem_cons, not_or] at hc
    rw [Place.scan_cons, Place.next, if_neg hc.1, if_neg hc.2.1]
    exact ih fun d hd => h d (List.mem_cons_of_mem _ hd)

theorem scan_inside_unitEscape (depth : Nat) {n : Nat} (h : n < 0x10000) :
    (Place.inside depth).scan (unitEscape n) = .inside depth := by
  rw [unitEscape, Place.scan_cons, Place.scan_cons]
  exact scan_inside_of_ordinary depth fun _ hc => ordinary_of_mem_hex4 h hc

theorem Escapes.scan_inside {c : Char} {t : List Char} (escapes : Escapes c t) (depth : Nat) :
    (Place.inside depth).scan t = .inside depth := by
  cases escapes with
  | letter => rfl
  | printable quote backslash =>
    rw [Place.scan_cons, Place.next, if_neg quote, if_neg backslash, Place.scan_nil]
  | unit h => exact scan_inside_unitEscape depth h
  | surrogates hh hl =>
    rw [Place.scan_append, scan_inside_unitEscape depth (by omega),
      scan_inside_unitEscape depth (by omega)]

theorem balanced_quoted (s : String) : Balanced (quoted s) := by
  intro depth
  have body (cs : List Char) : (Place.inside depth).scan (cs.flatMap escapeChar) =
    .inside depth := by
    induction cs with
    | nil => rfl
    | cons c cs ih =>
      rw [List.flatMap_cons, Place.scan_append, (escapes_escapeChar c).scan_inside, ih]
  rw [quoted, List.cons_append, Place.scan_cons, Place.scan_append, Place.next, if_pos rfl, body]
  rfl

theorem Balanced.append {s t : List Char} (hs : Balanced s) (ht : Balanced t) :
    Balanced (s ++ t) := by
  intro depth
  rw [Place.scan_append, hs, ht]

theorem Balanced.between {t : List Char} (ht : Balanced t) {o c : Char}
    (opens : o = '[' ∨ o = '{') (closes : c = ']' ∨ c = '}') : Balanced (o :: t ++ [c]) := by
  intro depth
  have ho : (Place.outside depth).next o = .outside (depth + 1) := by
    rcases opens with rfl | rfl <;> rfl
  have hc : (Place.outside (depth + 1)).next c = .outside depth := by
    rcases closes with rfl | rfl <;> rfl
  rw [List.cons_append, Place.scan_cons, ho, Place.scan_append, ht, Place.scan_cons, hc,
    Place.scan_nil]

theorem balanced_spreads : Spreads Balanced where
  nil _ := rfl
  append := Balanced.append
  ordinary {c} hc depth := by
    simp only [Ordinary, List.mem_cons, List.not_mem_nil, or_false, not_or] at hc
    simp [Place.next, hc]
  quoted := balanced_quoted
  brackets ht := ht.between (.inl rfl) (.inl rfl)
  braces ht := ht.between (.inr rfl) (.inr rfl)

/-! ## Texts inside a string -/

/-- A text that, read inside a string, does not end outside.  The inside of a quoted string is such
a text, since its quotes are escaped. -/
def Enclosed (text : List Char) : Prop :=
  ∀ p : Place, p.Within → (p.scan text).Within

/-- Outside strings a scan is stuck at every escape. -/
theorem Escapes.scan_without {c : Char} {t : List Char} (escapes : Escapes c t) {p : Place}
    (h : p.Without) : (p.scan t).Without := by
  rcases h with rfl | ⟨depth, rfl⟩
  · exact .inl (Place.scan_stuck _)
  · cases escapes with
    | letter => exact .inl (Place.scan_stuck _)
    | printable quote => exact Place.Without.next (.inr ⟨depth, rfl⟩) quote
    | unit => exact .inl (Place.scan_stuck _)
    | surrogates => exact .inl (Place.scan_stuck _)

theorem enclosed_quoted (s : String) : Enclosed (quoted s) := by
  intro p hp
  have opened : (p.next '"').Without := by
    rcases hp with rfl | ⟨depth, rfl⟩
    · exact .inl rfl
    · exact .inr ⟨depth, rfl⟩
  have body (cs : List Char) {q : Place} (hq : q.Without) :
      (q.scan (cs.flatMap escapeChar)).Without := by
    induction cs generalizing q with
    | nil => exact hq
    | cons c cs ih =>
      rw [List.flatMap_cons, Place.scan_append]
      exact ih ((escapes_escapeChar c).scan_without hq)
  rw [quoted, List.cons_append, Place.scan_cons, Place.scan_append]
  rcases body s.toList opened with hstuck | ⟨depth, houtside⟩
  · exact .inl (by rw [hstuck]; rfl)
  · exact .inr ⟨depth, by rw [houtside]; rfl⟩

theorem Enclosed.append {s t : List Char} (hs : Enclosed s) (ht : Enclosed t) :
    Enclosed (s ++ t) := by
  intro p hp
  rw [Place.scan_append]
  exact ht _ (hs p hp)

theorem enclosed_singleton {c : Char} (quote : c ≠ '"') (backslash : c ≠ '\\') : Enclosed [c] := by
  rintro p (rfl | ⟨depth, rfl⟩)
  · exact .inl rfl
  · exact .inr ⟨depth, by simp [Place.next, quote, backslash]⟩

theorem enclosed_spreads : Spreads Enclosed where
  nil _ hp := hp
  append := Enclosed.append
  ordinary {c} hc := by
    simp only [Ordinary, List.mem_cons, not_or] at hc
    exact enclosed_singleton hc.1 hc.2.1
  quoted := enclosed_quoted
  brackets ht := ((enclosed_singleton (by decide) (by decide)).append ht).append
    (enclosed_singleton (by decide) (by decide))
  braces ht := ((enclosed_singleton (by decide) (by decide)).append ht).append
    (enclosed_singleton (by decide) (by decide))

/-! ## Objects at the end -/

/-- The text of an object does not end with the text of an object, unless it is nothing else. -/
theorem Plain.eq_nil_of_write_obj_eq_append {fs gs : List (String × Json)} (hf : Plain (.obj fs))
    (hg : Plain (.obj gs)) {front : List Char}
    (h : write .compact (.obj fs) = front ++ write .compact (.obj gs)) : front = [] := by
  cases hf with | obj _ fparts =>
  cases hg with | obj gdistinct gparts =>
  obtain ⟨body, hbody, hfs⟩ := balanced_spreads.obj fun f hf => balanced_spreads.write (fparts f hf)
  obtain ⟨inner, _, hgs⟩ := balanced_spreads.obj fun g hg => balanced_spreads.write (gparts g hg)
  have hbalanced : Balanced (write .compact (.obj gs)) :=
    balanced_spreads.write (.obj gdistinct gparts)
  have henclosed : Enclosed (write .compact (.obj gs)) :=
    enclosed_spreads.write (.obj gdistinct gparts)
  cases front with
  | nil => rfl
  | cons c front =>
    exfalso
    have hfront : body ++ ['}'] = front ++ write .compact (.obj gs) := by
      rw [hfs, List.cons_append, List.cons_append] at h
      exact (List.cons.inj h).2
    have hbody' : body = front ++ '{' :: inner := by
      rw [hgs, ← List.append_assoc] at hfront
      exact List.append_cancel_right hfront
    -- the scan ends outside, with every bracket closed
    have hend : ((Place.outside 1).scan front).scan (write .compact (.obj gs)) = .outside 0 := by
      rw [← Place.scan_append, ← hfront, Place.scan_append, hbody 1]
      rfl
    -- but before the last bracket one is open
    have hopen : (Place.outside 1).scan front = ((Place.outside 0).scan front).deeper := by
      refine Place.scan_deeper (p := .outside 0) fun hstuck => ?_
      have hwhole := hbody 0
      rw [hbody', Place.scan_append, hstuck, Place.scan_stuck] at hwhole
      cases hwhole
    have hnever : ¬(Place.outside 0).Within := by
      rintro (hp | ⟨depth, hp⟩) <;> cases hp
    rw [hopen] at hend
    cases hp : (Place.outside 0).scan front with
    | outside depth =>
      rw [hp, Place.deeper, hbalanced] at hend
      cases hend
    | inside depth =>
      rw [hp] at hend
      exact hnever (hend ▸ henclosed _ (.inr ⟨depth + 1, rfl⟩))
    | escaped depth =>
      -- the backslash takes away the opening brace, which a string does not look at anyway
      have hsame : (Place.escaped (depth + 1)).scan (write .compact (.obj gs)) =
          (Place.inside (depth + 1)).scan (write .compact (.obj gs)) := by
        rw [hgs]
        rfl
      rw [hp, Place.deeper, hsame] at hend
      exact hnever (hend ▸ henclosed _ (.inr ⟨depth + 1, rfl⟩))
    | stuck =>
      rw [hp, Place.deeper, Place.scan_stuck] at hend
      cases hend

end PikeAnalysis.Json
