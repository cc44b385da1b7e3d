import PikeAnalysis.Bridge.LineReader
import PikeAnalysis.Bridge.Request
import PikeAnalysis.Proofs.Json.Ascii

/-!
# Framing

Requests that are written one after the other are read as one line each.  The writer and the reader
meet in three facts: the text of a value is printable, so the newline behind it is the only one;
bytes up to a newline are one line, and nothing of it is trimmed; and the text of a value reads back
as that value.

Bytes up to a newline are a line whatever they are, so the reader's part is about lists of bytes
alone (`splitBytes_lines`).  The writer's part is that the text of a request is printable, as the
writer escapes every character outside of ASCII and every control character.  The third fact, that
reading undoes writing, is that of the reader of values (`Proofs/Json`), and holds for values whose
objects name no field twice.

The limit on lines is a premise: a request that is longer than the reader has room for is not read.
-/

namespace PikeAnalysis.Bridge

open Json (Printable PrintableText Regular)

/-! ## Bytes of printable text -/

/-- The byte of a character of ASCII. -/
def asciiByte (c : Char) : UInt8 :=
  c.toNat.toUInt8

theorem toNat_asciiByte {c : Char} (h : Printable c) : (asciiByte c).toNat = c.toNat := by
  have small : c.toNat < 256 := Nat.lt_trans h.2 (by decide)
  rw [asciiByte, Nat.toUInt8_eq, UInt8.toNat_ofNat']
  exact Nat.mod_eq_of_lt small

theorem utf8Encode_printable {s : List Char} (h : PrintableText s) :
    Text.utf8Encode s = s.map asciiByte := by
  induction s with
  | nil => rfl
  | cons c s ih =>
    rw [PrintableText.cons_iff] at h
    have single : String.utf8EncodeChar c = [asciiByte c] := by
      have small : c.toNat ≤ 127 := h.1.2.le
      simp [String.utf8EncodeChar, small, asciiByte]
    rw [Text.utf8Encode, List.flatMap_cons, single, List.map_cons, ← ih h.2]
    rfl

theorem utf8Decode_printable {s : List Char} (h : PrintableText s) :
    Text.utf8Decode (s.map asciiByte) = s := by
  rw [Text.utf8Decode]
  induction s with
  | nil => rfl
  | cons c s ih =>
    rw [PrintableText.cons_iff] at h
    have small : c.toNat < 0x80 := Nat.lt_trans h.1.2 (by decide)
    rw [List.map_cons, Text.utf8DecodeFrom, toNat_asciiByte h.1]
    simp [Text.utf8Step, Text.utf8Open, Text.Utf8Partial.open?, small, ih h.2]

theorem asciiByte_bounds {c : Char} (h : Printable c) : asciiByte c < 128 ∧ asciiByte c ≠ 10 := by
  have value := toNat_asciiByte h
  obtain ⟨low, high⟩ := h
  constructor
  · show (asciiByte c).toNat < 128
    omega
  · intro newline
    rw [newline] at value
    have : (10 : UInt8).toNat = 10 := rfl
    omega

/-! ## Splitting -/

/-- Bytes up to a newline are a line. -/
theorem splitBytes_line {body : List UInt8} (h : 10 ∉ body) (front rest : List UInt8) :
    splitBytes front (body ++ 10 :: rest) =
      ((front.reverse ++ body) :: (splitBytes [] rest).1, (splitBytes [] rest).2) := by
  -- What has been read of the line so far is kept in front, in reverse.
  induction body generalizing front with
  | nil => simp [splitBytes]
  | cons b body ih =>
    rw [List.mem_cons, not_or] at h
    rw [List.cons_append, splitBytes, ih h.2]
    · simp
    · exact fun hb => h.1 hb.symm

/-- A stream of lines is split into those lines, and nothing is left of it.  No byte of a body is a
newline, so the cuts are where they were made. -/
theorem splitBytes_lines {bodies : List (List UInt8)} (h : ∀ body ∈ bodies, 10 ∉ body) :
    splitBytes [] (bodies.flatMap (· ++ [10])) = (bodies, []) := by
  induction bodies with
  | nil => rfl
  | cons body bodies ih =>
    rw [List.flatMap_cons, List.append_assoc, List.singleton_append,
      splitBytes_line (h body List.mem_cons_self), ih fun b hb => h b (List.mem_cons_of_mem _ hb)]
    simp

/-! ## One line -/

/-- A printable line within the limit is yielded as it was written. -/
theorem itemOfBytes_printable {limit : Nat} {s : List Char} (h : PrintableText s)
    (nonempty : s ≠ []) (room : s.length ≤ limit) :
    itemOfBytes limit (s.map asciiByte) = some (.line (String.ofList s)) := by
  have text : lineText (s.map asciiByte) = s := by
    obtain ⟨front, last, rfl⟩ := (List.eq_nil_or_concat' s).resolve_left nonempty
    -- the last character is printable, so it is no line end and nothing is trimmed
    have kept : ¬((last == '\r' || last == '\n') = true) := by
      have low := (h last (by simp)).1
      rw [Bool.or_eq_true, beq_iff_eq, beq_iff_eq]
      rintro (rfl | rfl)
      · exact absurd low (by decide)
      · exact absurd low (by decide)
    rw [lineText, utf8Decode_printable h, List.reverse_append, List.reverse_singleton,
      List.singleton_append, List.dropWhile_cons_of_neg (p := fun c => c == '\r' || c == '\n') kept,
      List.reverse_cons, List.reverse_reverse]
  have within : ¬ (s.map asciiByte).length > limit := by
    rw [List.length_map]
    omega
  have full : s.isEmpty = false := by
    rw [List.isEmpty_eq_false_iff]
    exact nonempty
  rw [itemOfBytes, if_neg within, text]
  simp [full]

/-! ## Requests -/

/-- The text of a request, without its newline.  It is written compactly, so it holds no character
that a line could be broken at. -/
def Request.text (r : Request) : List Char :=
  r.toJson.write .compact

theorem Request.text_printable (r : Request) : PrintableText r.text :=
  Json.printable_write _

theorem Request.text_ne_nil (r : Request) : r.text ≠ [] := by
  rw [text, toJson, Json.write]
  simp

/-- A request is written as its text, a byte a character, and a newline. -/
theorem Request.encode_eq (r : Request) : r.encode = r.text.map asciiByte ++ [10] := by
  rw [encode, line, Json.compact, String.toList_append, String.toList_ofList, Text.utf8Encode,
    List.flatMap_append]
  congr 1
  exact utf8Encode_printable r.text_printable

theorem Request.newline_notMem (r : Request) : 10 ∉ r.text.map asciiByte := by
  intro h
  obtain ⟨c, hc, newline⟩ := List.mem_map.mp h
  exact (asciiByte_bounds (r.text_printable c hc)).2 newline

/-- The lines of a stream of requests.  They come in the order in which they were written, and none
is given up as long as there is room for each. -/
theorem readLines_encode {limit : Nat} {rs : List Request}
    (room : ∀ r ∈ rs, r.encode.length ≤ limit) :
    readLines limit (rs.flatMap Request.encode) =
      rs.map fun r => .line (String.ofList r.text) := by
  have bodies : ∀ body ∈ rs.map (fun r => r.text.map asciiByte), 10 ∉ body := by
    intro body hbody
    obtain ⟨r, _, rfl⟩ := List.mem_map.mp hbody
    exact r.newline_notMem
  have split := splitBytes_lines bodies
  rw [List.flatMap_map, List.flatMap_congr fun r _ => (Request.encode_eq r).symm] at split
  have nothing : itemOfBytes limit [] = none := by
    simp [itemOfBytes, lineText, Text.utf8Decode, Text.utf8DecodeFrom]
  have items : ∀ r ∈ rs, itemOfBytes limit (r.text.map asciiByte) =
      some (.line (String.ofList r.text)) := by
    intro r hr
    have hroom := room r hr
    rw [Request.encode_eq, List.length_append, List.length_map, List.length_singleton] at hroom
    exact itemOfBytes_printable r.text_printable r.text_ne_nil (by omega)
  rw [readLines, split]
  dsimp only
  rw [List.filterMap_append, List.filterMap_map, List.reverse_nil, List.filterMap_cons, nothing,
    List.filterMap_nil, List.append_nil]
  exact (List.filterMap_congr items).trans (congrFun List.filterMap_eq_map rs)

/-! ## Round trip -/

/-- A line that reads as an object with the id, the method and the parameters of a request.  The
line is read with the same reader that the worker's answers are read with. -/
def Carries (line : String) (r : Request) : Prop :=
  ∃ v, Json.read? line.toList = some v ∧ v.field? "id" = some (.int r.id) ∧
    v.field? "method" = some (.str r.method) ∧ v.field? "params" = some (.obj r.params)

/-- The text of a request carries it. -/
theorem carries_text {r : Request} (params : Regular (.obj r.params)) :
    Carries (String.ofList r.text) r := by
  have regular : Regular r.toJson := by
    refine .obj (by simp [Assoc.keys]) ?_
    intro f hf
    simp only [List.mem_cons, List.not_mem_nil, or_false] at hf
    rcases hf with rfl | rfl | rfl
    · exact .int r.id
    · exact .str r.method
    · exact params
  exact ⟨r.toJson, regular.read?_compact, rfl, rfl, rfl⟩

/-- Whatever requests are written one after the other, each of them is a line of ASCII whose only
newline is its last byte, and a reader with room for the longest of them yields one line for each,
in their order, that carries it.  Methods and parameters may hold any characters, newlines and
quotes among them.  Parameters are regular if they were built field by field; an object with two
fields of one name could not come back as it was. -/
theorem requests_survive_framing (rs : List Request) (limit : Nat)
    (params : ∀ r ∈ rs, Regular (.obj r.params)) (room : ∀ r ∈ rs, r.encode.length ≤ limit) :
    (∀ r ∈ rs, ∃ body, r.encode = body ++ [10] ∧ ∀ b ∈ body, b < 128 ∧ b ≠ 10) ∧
      ∃ lines : List String, readLines limit (rs.flatMap Request.encode) = lines.map .line ∧
        List.Forall₂ Carries lines rs := by
  constructor
  · intro r _
    refine ⟨_, r.encode_eq, ?_⟩
    intro b hb
    obtain ⟨c, hc, rfl⟩ := List.mem_map.mp hb
    exact asciiByte_bounds (r.text_printable c hc)
  · refine ⟨rs.map fun r => String.ofList r.text, ?_, ?_⟩
    · rw [readLines_encode room, List.map_map]
      rfl
    · rw [List.forall₂_map_left_iff, List.forall₂_same]
      exact fun r hr => carries_text (params r hr)

/-- A request with line ends, quotes, control characters and characters of four bytes in it, and
with a double that has no short decimal. -/
def awkwardRequest : Request :=
  ⟨-7, "analyze\r\n", [("code", .str "int x;\r\n\"\\\x01\t😀"),
    ("weights",
      .arr [.float (Decimal.ofBits true 0x3FB999999999999A), .float (Decimal.ofBits false 1)]),
    ("options", .obj [("", .null), ("\u2028", .bool true)])]⟩

/-- Written twice, it is read twice. -/
theorem awkward_requests_survive_framing :
    ∃ lines : List String,
      readLines 200 ([awkwardRequest, awkwardRequest].flatMap Request.encode) = lines.map .line ∧
        List.Forall₂ Carries lines [awkwardRequest, awkwardRequest] := by
  have params : Regular (.obj awkwardRequest.params) := by
    refine .obj (by decide) ?_
    simp only [awkwardRequest, List.forall_mem_cons, List.not_mem_nil, false_implies, forall_const,
      and_true]
    refine ⟨.str _, .arr ?_, .obj (by decide) ?_⟩
    · simp only [List.forall_mem_cons, List.not_mem_nil, false_implies, forall_const, and_true]
      exact ⟨.float _, .float _⟩
    · simp only [List.forall_mem_cons, List.not_mem_nil, false_implies, forall_const, and_true]
      exact ⟨.null, .bool _⟩
  have room : awkwardRequest.encode.length ≤ 200 := by
    rw [Request.encode_eq, List.length_append, List.length_map]
    decide +kernel
  exact (requests_survive_framing [awkwardRequest, awkwardRequest] 200
    (by simp [params]) (by simp [room])).2

end PikeAnalysis.Bridge
