import Mathlib.Data.List.SplitBy
import PikeAnalysis.Document.Uri
import PikeAnalysis.Proofs.Json.ReadBack
import PikeAnalysis.Proofs.Text.Roundtrips

/-!
# Addresses of paths

A document is filed under the address of its path, and the path is read off the address again.  The
two are inverse on every absolute path in its shortest form, whatever characters its names hold: an
address is ASCII without the delimiters at which it is taken apart, its escapes give the bytes of
the path, and these are UTF-8.

There are three inverses one inside the other.  Text and bytes are inverse by UTF-8, bytes and
escapes by the two digits of each escape, and paths and addresses by the way in which an address is
taken apart: at the first colon, at a double slash, at question mark and number sign.  None of these
stands in an escaped path, so the parts are found where they were put.  A path that is not in its
shortest form has the address of the one that is, and does not come back.
-/

namespace PikeAnalysis

open Text

/-! ## Paths in their shortest form -/

namespace Path

/-- A name in a path: not empty, without slashes, and neither one dot nor two.  These are the names
a normalized path is made of: reading its text and resolving it in any directory give the same names
back. -/
structure IsName (name : List Char) : Prop where
  nonempty : name ≠ []
  noSlash : '/' ∉ name
  notDot : name ≠ ['.']
  notDots : name ≠ ['.', '.']

/-- An absolute path in its shortest form.  It has one slash before each name and none at its end,
unless it is the root. -/
def IsNormal (path : String) : Prop :=
  ∃ names, (∀ name ∈ names, IsName name) ∧ path.toList = '/' :: joinWith ['/'] names

section Names

variable {names : List (List Char)}

theorem rootOf_names (h : ∀ name ∈ names, IsName name) :
    rootOf ('/' :: joinWith ['/'] names) = ['/'] := by
  cases names with
  | nil => rfl
  | cons name more =>
    have hname := h name List.mem_cons_self
    obtain ⟨c, rest, rfl⟩ := List.exists_cons_of_ne_nil hname.nonempty
    have hc : c ≠ '/' := fun hc => hname.noSlash (hc ▸ List.mem_cons_self)
    obtain ⟨tail, htail⟩ : ∃ tail, joinWith ['/'] ((c :: rest) :: more) = c :: tail := by
      cases more <;> exact ⟨_, rfl⟩
    rw [htail]
    unfold rootOf
    split <;> simp_all

theorem ofText_names {path : String} (h : ∀ name ∈ names, IsName name)
    (hpath : path.toList = '/' :: joinWith ['/'] names) : ofText path = ⟨['/'], names⟩ := by
  have hsplit : (splitOn '/' ('/' :: joinWith ['/'] names)).filter
      (fun p => !p.isEmpty && p != ['.']) = names := by
    have hnames : names.filter (fun p => !p.isEmpty && p != ['.']) = names := by
      refine List.filter_eq_self.mpr fun name hname => ?_
      simp [(h name hname).nonempty, (h name hname).notDot]
    cases names with
    | nil => rfl
    | cons name more =>
      have hslash : ∀ name' ∈ name :: more, '/' ∉ name' :=
        fun name' hname' => (h name' hname').noSlash
      rw [splitOn, if_pos rfl, splitOn_joinWith hslash]
      simpa using hnames
  rw [ofText, hpath, rootOf_names h, hsplit]

theorem climb_names (h : ∀ name ∈ names, name ≠ ['.', '.']) (done : List (List Char)) :
    climb done names = done ++ names := by
  induction names generalizing done with
  | nil => rw [climb, List.append_nil]
  | cons name more ih =>
    rw [climb, ih fun other hother => h other (List.mem_cons_of_mem name hother), List.append_assoc,
      List.singleton_append]
    exact h name List.mem_cons_self

theorem resolve_names (h : ∀ name ∈ names, IsName name) (base : Path) :
    resolve base ⟨['/'], names⟩ = ⟨['/'], names⟩ := by
  have habsolute : (⟨['/'], names⟩ : Path).isAbsolute = true := rfl
  rw [resolve, join, if_pos habsolute, climb_names fun name hname => (h name hname).notDots,
    List.nil_append]

theorem text_names (names : List (List Char)) :
    (text ⟨['/'], names⟩).toList = '/' :: joinWith ['/'] names := by
  rw [text, if_neg (by simp), String.toList_ofList]
  rfl

end Names

theorem IsNormal.resolve_text {path : String} (normal : IsNormal path) (base : Path) :
    (resolve base (ofText path)).text = path := by
  obtain ⟨names, h, hpath⟩ := normal
  rw [ofText_names h hpath, resolve_names h, ← String.toList_inj, text_names, hpath]

end Path

namespace Uri

/-! ## Escapes -/

/-- A character that stays where it is in the path of an address.  Taking an address apart ends the
path at a question mark or a number sign and drops tabs and line ends, so a path can come back only
if none of them is left in it.  Every character that encoding writes is safe. -/
structure IsSafe (c : Char) : Prop where
  ascii : c.toNat < 128
  noQuery : c ≠ '?'
  noFragment : c ≠ '#'
  noBreak : c ≠ '\t' ∧ c ≠ '\r' ∧ c ≠ '\n'

instance (c : Char) : Decidable (IsSafe c) :=
  decidable_of_iff (c.toNat < 128 ∧ c ≠ '?' ∧ c ≠ '#' ∧ c ≠ '\t' ∧ c ≠ '\r' ∧ c ≠ '\n')
    ⟨fun ⟨ascii, query, fragment, breaks⟩ => ⟨ascii, query, fragment, breaks⟩,
      fun h => ⟨h.ascii, h.noQuery, h.noFragment, h.noBreak⟩⟩

/-- The digit of an escape. -/
def escapeDigit (n : Nat) : Char :=
  (Nat.digitChar n).toUpper

theorem hexDigit?_escapeDigit : ∀ n < 16, Json.hexDigit? (escapeDigit n) = some n := by
  decide

theorem isSafe_escapeDigit : ∀ n < 16, IsSafe (escapeDigit n) := by
  decide

theorem isSafe_of_isPlain {n : UInt8} (plain : isPlain n = true) :
    IsSafe (Char.ofNat n.toNat) ∧ Char.ofNat n.toNat ≠ '%' ∧ n.toNat < 128 := by
  have check : ∀ m < 128, isPlain (UInt8.ofNat m) = true →
      IsSafe (Char.ofNat m) ∧ Char.ofNat m ≠ '%' := by decide
  have small : n.toNat < 128 := by
    simp only [isPlain, Bool.and_eq_true, decide_eq_true_eq] at plain
    exact UInt8.lt_iff_toNat_lt.mp plain.1
  have hn : isPlain (UInt8.ofNat n.toNat) = true := by rwa [UInt8.ofNat_toNat]
  obtain ⟨safe, hpercent⟩ := check n.toNat small hn
  exact ⟨safe, hpercent, small⟩

theorem hexDigits_two {n : Nat} (h : n < 256) :
    Json.hexDigits 2 n = [Nat.digitChar (n / 16), Nat.digitChar (n % 16)] := by
  by_cases hsmall : n < 16
  · rw [Json.hexDigits, Nat.toDigits_of_lt_base hsmall, show n / 16 = 0 by omega,
      Nat.mod_eq_of_lt hsmall]
    rfl
  · rw [Json.hexDigits, Nat.toDigits_of_base_le (by decide) (Nat.not_lt.mp hsmall),
      Nat.toDigits_of_lt_base (by omega)]
    rfl

theorem escapeByte_of_plain {n : UInt8} (plain : isPlain n = true) :
    escapeByte n = [Char.ofNat n.toNat] :=
  if_pos plain

theorem escapeByte_of_not_plain {n : UInt8} (plain : ¬ isPlain n = true) :
    escapeByte n = ['%', escapeDigit (n.toNat / 16), escapeDigit (n.toNat % 16)] := by
  rw [escapeByte, if_neg plain, hexDigits_two n.toNat_lt]
  rfl

theorem isSafe_of_mem_escapeByte {n : UInt8} {c : Char} (h : c ∈ escapeByte n) : IsSafe c := by
  have hn := n.toNat_lt
  by_cases plain : isPlain n = true
  · rw [escapeByte_of_plain plain, List.mem_singleton] at h
    exact h ▸ (isSafe_of_isPlain plain).1
  · rw [escapeByte_of_not_plain plain] at h
    simp only [List.mem_cons, List.not_mem_nil, or_false] at h
    rcases h with rfl | rfl | rfl
    · decide
    · exact isSafe_escapeDigit _ (by omega)
    · exact isSafe_escapeDigit _ (by omega)

theorem isSafe_of_mem_encode {s : List Char} {c : Char} (h : c ∈ encode s) : IsSafe c := by
  obtain ⟨n, _, hc⟩ := List.mem_flatMap.mp h
  exact isSafe_of_mem_escapeByte hc

theorem unescape_cons {c : Char} (h : c ≠ '%') (rest : List Char) :
    unescape (c :: rest) = c.toNat.toUInt8 :: unescape rest := by
  rw [unescape]
  rintro a b more rfl
  exact absurd rfl h

/-- Every byte comes back from its escape.  Bytes that need no escape stand for themselves. -/
theorem unescape_escapeByte (n : UInt8) (rest : List Char) :
    unescape (escapeByte n ++ rest) = n :: unescape rest := by
  have hn := n.toNat_lt
  by_cases plain : isPlain n = true
  · obtain ⟨-, hpercent, hsmall⟩ := isSafe_of_isPlain plain
    have hchar : (Char.ofNat n.toNat).toNat = n.toNat := by
      rw [Char.toNat_ofNat, if_pos (.inl (by omega))]
    rw [escapeByte_of_plain plain, List.singleton_append, unescape_cons hpercent, hchar]
    congr 1
    exact UInt8.ofNat_toNat
  · have hbyte : hexByte? (escapeDigit (n.toNat / 16)) (escapeDigit (n.toNat % 16)) = some n := by
      rw [hexByte?, hexDigit?_escapeDigit _ (by omega), hexDigit?_escapeDigit _ (by omega)]
      simp only [Option.bind_eq_bind, Option.bind_some, Nat.div_add_mod]
      congr 1
      exact UInt8.ofNat_toNat
    rw [escapeByte_of_not_plain plain]
    simp only [List.cons_append, List.nil_append, unescape, hbyte]

theorem unescape_encode (s : List Char) : unescape (encode s) = utf8Encode s := by
  rw [encode]
  induction utf8Encode s with
  | nil => rfl
  | cons n rest ih => rw [List.flatMap_cons, unescape_escapeByte, ih]

/-! ## Decoding -/

theorem utf8Encode_ascii {s : List Char} (h : ∀ c ∈ s, c.toNat < 128) :
    utf8Encode s = s.map fun c => c.toNat.toUInt8 := by
  induction s with
  | nil => rfl
  | cons c rest ih =>
    have hc : c.toNat ≤ 0x7F := Nat.le_of_lt_succ (h c List.mem_cons_self)
    have hchar : String.utf8EncodeChar c = [c.toNat.toUInt8] := by
      rw [String.utf8EncodeChar, Char.toNat_val, if_pos hc]
    rw [utf8Encode, List.flatMap_cons, hchar, List.map_cons,
      ← ih fun d hd => h d (List.mem_cons_of_mem c hd)]
    rfl

theorem unescape_of_not_mem {s : List Char} (h : '%' ∉ s) :
    unescape s = s.map fun c => c.toNat.toUInt8 := by
  induction s with
  | nil => rfl
  | cons c rest ih =>
    rw [List.mem_cons, not_or] at h
    rw [unescape_cons (Ne.symm h.1), ih h.2, List.map_cons]

/-- An ASCII text is one run, so all its bytes are decoded together. -/
theorem decode_ascii {s : List Char} (h : ∀ c ∈ s, c.toNat < 128) :
    decode s = utf8Decode (unescape s) := by
  by_cases hpercent : '%' ∈ s
  · have hrun : s.splitBy sameSide = [s] := by
      refine List.splitBy_of_isChain (List.ne_nil_of_mem hpercent) (List.Pairwise.isChain ?_)
      refine List.pairwise_iff_forall_sublist.mpr fun {a b} hab => ?_
      have ha := h a (hab.subset (by simp))
      have hb := h b (hab.subset (by simp))
      simp [sameSide, ha, hb]
    obtain ⟨c, rest, rfl⟩ := List.exists_cons_of_ne_nil (List.ne_nil_of_mem hpercent)
    rw [decode, if_pos (List.contains_iff_mem.mpr hpercent), hrun]
    simp [h c List.mem_cons_self]
  · rw [unescape_of_not_mem hpercent, ← utf8Encode_ascii h, utf8Decode_utf8Encode, decode,
      if_neg (by simpa using hpercent)]

/-- Every text comes back from its escapes.  Letters outside ASCII are escaped byte by byte, and
their bytes decoded together. -/
theorem decode_encode (s : List Char) : decode (encode s) = s := by
  rw [decode_ascii fun c hc => (isSafe_of_mem_encode hc).ascii, unescape_encode,
    utf8Decode_utf8Encode]

/-! ## Taking an address apart -/

theorem encode_slash (s : List Char) : encode ('/' :: s) = '/' :: encode s := by
  have hslash : String.utf8EncodeChar '/' = [47] := by decide
  have hplain : escapeByte 47 = ['/'] := by decide
  rw [encode, utf8Encode, List.flatMap_cons, hslash, List.singleton_append,
    List.flatMap_cons, hplain]
  rfl

theorem takeWhile_ne_of_not_mem {c : Char} {s : List Char} (h : c ∉ s) :
    s.takeWhile (· != c) = s :=
  List.takeWhile_eq_self_iff.mpr fun _ hd => bne_iff_ne.mpr fun hdc => h (hdc ▸ hd)

/-- The address of an absolute path has no authority, and its path ends where the address ends. -/
theorem parts_file {s : List Char} (h : ∀ c ∈ '/' :: s, IsSafe c) :
    parts ("file://" ++ String.ofList ('/' :: s)) = .ok ⟨"file".toList, '/' :: s⟩ := by
  have htext : ("file://" ++ String.ofList ('/' :: s)).toList = "file://".toList ++ '/' :: s :=
    String.toList_append.trans (congrArg _ String.toList_ofList)
  have hblanks : ("file://".toList ++ '/' :: s).dropWhile isControlOrSpace =
      "file://".toList ++ '/' :: s := rfl
  have hbreaks :
      ("file://".toList ++ '/' :: s).filter (fun c => c != '\t' && c != '\r' && c != '\n') =
      "file://".toList ++ '/' :: s := by
    have hpath : ('/' :: s).filter (fun c => c != '\t' && c != '\r' && c != '\n') = '/' :: s :=
      List.filter_eq_self.mpr fun c hc => by simp [(h c hc).noBreak]
    rw [List.filter_append, hpath]
    rfl
  have hscheme : splitScheme ("file://".toList ++ '/' :: s) =
      ("file".toList, '/' :: '/' :: '/' :: s) := rfl
  have hauthority : splitAuthority ('/' :: s) = ([], '/' :: s) := rfl
  have hfragment : ('/' :: s).takeWhile (· != '#') = '/' :: s :=
    takeWhile_ne_of_not_mem fun hc => (h '#' hc).noFragment rfl
  have hquery : ('/' :: s).takeWhile (· != '?') = '/' :: s :=
    takeWhile_ne_of_not_mem fun hc => (h '?' hc).noQuery rfl
  have hbrackets : checkBrackets [] = .ok () := rfl
  have hdisguised : checkDisguised [] = .ok () := rfl
  simp only [parts, htext, hblanks, hbreaks, hscheme, hauthority, hbrackets]
  change Except.ok
    (Parts.mk "file".toList ((('/' :: s).takeWhile (· != '#')).takeWhile (· != '?'))) = _
  rw [hfragment, hquery]

/-! ## The round trip -/

/-- The path of a document is read off its address, and so is the name under which it is imported.
The path is any normalized one, whatever characters its names hold; it is absolute, so the directory
`base` that a relative path would be seen from makes no difference. -/
theorem toPath_ofPath {path : String} (normal : Path.IsNormal path) (base : Path) :
    toPath (ofPath base path) = .ok path ∧
      stem (ofPath base path) = .ok (Path.ofText path).stem := by
  obtain ⟨names, -, hpath⟩ := id normal
  have haddress : ofPath base path = "file://" ++
    String.ofList ('/' :: encode (joinWith ['/'] names)) := by
    rw [ofPath, normal.resolve_text, hpath, encode_slash]
  have hsafe : ∀ c ∈ '/' :: encode (joinWith ['/'] names), IsSafe c := fun c hc =>
    isSafe_of_mem_encode (encode_slash _ ▸ hc)
  have hread : toPath (ofPath base path) = .ok path := by
    have hdecoded : String.ofList (decode ('/' :: encode (joinWith ['/'] names))) = path := by
      rw [← encode_slash, decode_encode, ← hpath, String.ofList_toList]
    rw [toPath, haddress, parts_file hsafe]
    change Except.ok (String.ofList (decode ('/' :: encode (joinWith ['/'] names)))) = _
    rw [hdecoded]
  refine ⟨hread, ?_⟩
  rw [stem, hread]
  rfl

/-- Blanks, a percent sign in front of two digits, delimiters, a line end and letters outside
ASCII. -/
theorem toPath_ofPath_delimiters :
    Path.IsNormal "/my src/50%41?#;/naïve\n模😀.v2.pike" ∧
      toPath (ofPath ⟨[], []⟩ "/my src/50%41?#;/naïve\n模😀.v2.pike") =
        .ok "/my src/50%41?#;/naïve\n模😀.v2.pike" ∧
      stem (ofPath ⟨[], []⟩ "/my src/50%41?#;/naïve\n模😀.v2.pike") =
        .ok "naïve\n模😀.v2" := by
  have normal : Path.IsNormal "/my src/50%41?#;/naïve\n模😀.v2.pike" := by
    refine ⟨["my src".toList, "50%41?#;".toList, "naïve\n模😀.v2.pike".toList], ?_, rfl⟩
    intro name hname
    simp only [List.mem_cons, List.not_mem_nil, or_false] at hname
    rcases hname with rfl | rfl | rfl <;> constructor <;> decide
  obtain ⟨hread, hstem⟩ := toPath_ofPath normal ⟨[], []⟩
  exact ⟨normal, hread, hstem.trans rfl⟩

end Uri

end PikeAnalysis
