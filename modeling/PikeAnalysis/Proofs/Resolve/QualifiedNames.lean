import Mathlib.Data.List.Basic
import PikeAnalysis.Engine.Queries
import PikeAnalysis.Proofs.Text.Trimming
import PikeAnalysis.Text.Word

/-!
# Qualified names as they are written

A qualified name is a part and, behind it, links of an operator and a part.  Written down it has
blanks around it and around its operators, as many as one likes.  Splitting gives the parts and the
operators back whatever the blanks are, and a lookup reads nothing else of the name, so it does not
depend on them either (`split_and_lookup_of_spacing`).

What is quantified over is the written form: a name with its operators, and for each place where
blanks may stand a run of them.  Parts are made of the characters of words, and none is empty; that
is what the types of `NamePart` and `QualifiedName` say, so that blanks and operators can be told
from them wherever they stand.

That a lookup is the same is then no statement about sources: two texts that split alike are asked
about alike, whatever is asked of the outside.
-/

namespace PikeAnalysis.Resolve

open Text

/-! ## Names and spacings -/

/-- The characters of an operator. -/
def Access.text : Access → List Char
  | .arrow => ['-', '>']
  | .scope => [':', ':']
  | .dot => ['.']

/-- A part of a qualified name.  The characters are those of names in source text, so neither blanks
nor any of the operators can occur in it, and the text between two operators is one part. -/
structure NamePart where
  text : List Char
  ne_nil : text ≠ []
  isWord : ∀ c ∈ text, isWord c = true

/-- At least two parts with an operator between each and the next.  This is the name without its
spelling: how much blank there is around the operators is a matter of `Spacing`, and the theorems
are for every spacing. -/
structure QualifiedName where
  first : NamePart
  links : List (Access × NamePart)
  ne_nil : links ≠ []

/-- The blanks around a qualified name, and those before and behind each operator.  The operators
are counted from the first, and each has its own two runs of blanks, any of which may be empty. -/
structure Spacing where
  lead : Run isBlank
  trail : Run isBlank
  before : Nat → Run isBlank
  behind : Nat → Run isBlank

/-- Links as they are written; `i` counts the operators in front of them. -/
def writtenLinks (w : Spacing) : Nat → List (Access × NamePart) → List Char
  | _, [] => []
  | i, (op, part) :: more =>
    (w.before i).text ++ op.text ++ (w.behind i).text ++ part.text ++ writtenLinks w (i + 1) more

namespace QualifiedName

/-- The parts of a name. -/
def parts (n : QualifiedName) : List (List Char) :=
  n.first.text :: n.links.map (·.2.text)

/-- The operators of a name. -/
def operators (n : QualifiedName) : List Access :=
  n.links.map (·.1)

/-- A name without the blanks around it.  Blanks inside it are those around its operators. -/
def body (n : QualifiedName) (w : Spacing) : List Char :=
  n.first.text ++ writtenLinks w 0 n.links

/-- A name as it is written. -/
def written (n : QualifiedName) (w : Spacing) : String :=
  String.ofList (w.lead.text ++ n.body w ++ w.trail.text)

end QualifiedName

/-! ## Operators -/

theorem accessAt?_text (op : Access) (rest : List Char) :
    accessAt? (op.text ++ rest) = some (op, rest) := by
  cases op <;> rfl

/-- An operator starts with none of the characters of parts and blanks. -/
theorem accessAt?_eq_none {c : Char} (rest : List Char) (h : isWord c = true ∨ isBlank c = true) :
    accessAt? (c :: rest) = none := by
  unfold accessAt?
  split
  case h_4 => rfl
  all_goals
    rename_i heq
    obtain ⟨rfl, -⟩ := List.cons_eq_cons.1 heq
    exact absurd h (by decide)

theorem hasAccess_append_right {s t : List Char} (h : hasAccess t = true) :
    hasAccess (s ++ t) = true := by
  induction s with
  | nil => exact h
  | cons c rest ih => simp [hasAccess, ih]

theorem hasAccess_text (op : Access) (rest : List Char) : hasAccess (op.text ++ rest) = true := by
  cases op <;> rfl

/-! ## Splitting -/

/-- Characters that belong to no operator are read into the part. -/
theorem splitFrom_append {piece run rest : List Char}
    (h : ∀ c ∈ run, isWord c = true ∨ isBlank c = true) :
    splitFrom piece (run ++ rest) = splitFrom (run.reverse ++ piece) rest := by
  induction run generalizing piece with
  | nil => rfl
  | cons c run ih =>
    have hnone := accessAt?_eq_none (run ++ rest) (h c (by simp))
    rw [List.cons_append, splitFrom]
    split
    case h_1 heq =>
      rw [hnone] at heq
      cases heq
    case h_2 =>
      rw [ih fun x hx => h x (by simp [hx])]
      simp

/-- An operator ends a part, without the blanks on either side of it. -/
theorem splitFrom_text (piece rest : List Char) (op : Access) :
    splitFrom piece (op.text ++ rest) =
      ((piece.dropWhile isBlank).reverse,
        (op, (splitFrom [] (trimLeft isBlank rest)).1) ::
          (splitFrom [] (trimLeft isBlank rest)).2) := by
  have hop := accessAt?_text op rest
  obtain ⟨c, more, htext⟩ : ∃ c more, op.text ++ rest = c :: more := by
    cases op <;> exact ⟨_, _, rfl⟩
  rw [htext] at hop ⊢
  rw [splitFrom]
  split
  case h_1 heq =>
    rw [hop] at heq
    cases heq
    rfl
  case h_2 heq =>
    rw [hop] at heq
    cases heq

namespace NamePart

variable (p : NamePart)

theorem trimmed : Trimmed isBlank p.text :=
  ⟨fun c hc => isBlank_of_isWord (p.isWord c (List.mem_of_mem_head? hc)),
    fun c hc => isBlank_of_isWord (p.isWord c (List.mem_of_mem_getLast? hc))⟩

/-- The blanks in front of a part are not read. -/
theorem trimLeft_append (blanks : Run isBlank) (rest : List Char) :
    trimLeft isBlank (blanks.text ++ (p.text ++ rest)) = p.text ++ rest := by
  have hfirst : ∀ c ∈ (p.text ++ rest).head?, isBlank c = false := by
    rw [List.head?_append_of_ne_nil _ p.ne_nil]
    exact p.trimmed.1
  rw [Text.trimLeft_append hfirst, blanks.trimLeft_eq_nil, List.nil_append]

/-- The blanks behind a part do not belong to it. -/
theorem dropWhile_reverse (blanks : Run isBlank) :
    ((blanks.text.reverse ++ p.text.reverse).dropWhile isBlank).reverse = p.text := by
  have hlast := trimRight_append (r := blanks.text) p.trimmed.2
  rwa [blanks.trimRight_eq_nil, List.append_nil, trimRight, List.reverse_append] at hlast

end NamePart

/-- Behind the first part of a name every link is read as it stands there. -/
theorem splitFrom_writtenLinks (w : Spacing) (links : List (Access × NamePart)) (first : NamePart)
    (i : Nat) :
    splitFrom first.text.reverse (writtenLinks w i links) =
      (first.text, links.map fun l => (l.1, l.2.text)) := by
  induction links generalizing first i with
  | nil => simp [writtenLinks, splitFrom]
  | cons link more ih =>
    obtain ⟨op, part⟩ := link
    have hnext : splitFrom [] (part.text ++ writtenLinks w (i + 1) more) =
        (part.text, more.map fun l => (l.1, l.2.text)) := by
      rw [splitFrom_append fun c hc => .inl (part.isWord c hc), List.append_nil, ih]
    simp only [writtenLinks, List.append_assoc]
    rw [splitFrom_append fun c hc => .inr ((w.before i).mem c hc), splitFrom_text,
      part.trimLeft_append, hnext, first.dropWhile_reverse]
    rfl

/-- A written name ends with a part. -/
theorem exists_append_part (w : Spacing) (links : List (Access × NamePart))
    (first : NamePart) (i : Nat) :
    ∃ (init : List Char) (last : NamePart),
      first.text ++ writtenLinks w i links = init ++ last.text := by
  induction links generalizing first i with
  | nil => exact ⟨[], first, by simp [writtenLinks]⟩
  | cons link more ih =>
    obtain ⟨init, last, hmore⟩ := ih link.2 (i + 1)
    refine ⟨first.text ++ (w.before i).text ++ link.1.text ++ (w.behind i).text ++ init, last, ?_⟩
    simp only [writtenLinks, List.append_assoc, hmore]

namespace QualifiedName

variable (n : QualifiedName) (w : Spacing)

theorem trimmed_body : Trimmed isBlank (n.body w) := by
  constructor
  · rw [body, List.head?_append_of_ne_nil _ n.first.ne_nil]
    exact n.first.trimmed.1
  · obtain ⟨init, last, hend⟩ := exists_append_part w n.links n.first 0
    rw [body, hend, List.getLast?_append_of_ne_nil _ last.ne_nil]
    exact last.trimmed.2

theorem hasAccess_written : hasAccess (n.written w).toList = true := by
  obtain ⟨⟨op, part⟩, more, hlinks⟩ := List.exists_cons_of_ne_nil n.ne_nil
  simp only [written, body, String.toList_ofList, hlinks, writtenLinks, List.append_assoc]
  refine hasAccess_append_right (hasAccess_append_right (hasAccess_append_right ?_))
  exact hasAccess_text op _

theorem splitAccess_written :
    splitAccess (n.written w).toList = (n.first.text, n.links.map fun l => (l.1, l.2.text)) := by
  rw [written, String.toList_ofList, splitAccess, trimBlanks,
    trim_runs w.lead w.trail (n.trimmed_body w), body,
    splitFrom_append fun c hc => .inl (n.first.isWord c hc), List.append_nil]
  exact splitFrom_writtenLinks w n.links n.first 0

end QualifiedName

/-! ## Lookups -/

/-- Only the parts and operators of a qualified name are looked at. -/
theorem lookup_congr {m : Type → Type} [Monad m] (src : Sources m) (c : Context)
    {name name' : String}
    (access : hasAccess name.toList = true) (access' : hasAccess name'.toList = true)
    (same : splitAccess name.toList = splitAccess name'.toList) :
    lookup src c name = lookup src c name' := by
  have hqualified : qualified src c name = qualified src c name' := by
    simp only [qualified, same]
  simp only [lookup, if_pos access, if_pos access', hqualified]

/-- A qualified name splits into its parts and operators however it is spaced, and looking it up
means the same.  The sources and the document are arbitrary.  So it is with the operators: which of
them stands between two parts is read off the text, and the spacing next to it is not. -/
theorem split_and_lookup_of_spacing (n : QualifiedName) (w : Spacing) :
    (splitAccess (n.written w).toList).1 :: (splitAccess (n.written w).toList).2.map (·.2) =
      n.parts ∧
    (splitAccess (n.written w).toList).2.map (·.1) = n.operators ∧
    ∀ w' : Spacing,
      (∀ {m : Type → Type} [Monad m] (src : Sources m) (c : Context),
        lookup src c (n.written w) = lookup src c (n.written w')) ∧
      ∀ uri, Engine.resolve (n.written w) uri = Engine.resolve (n.written w') uri := by
  rw [n.splitAccess_written w]
  refine ⟨by simp [QualifiedName.parts], by simp [QualifiedName.operators], fun w' => ?_⟩
  have hlookup {m : Type → Type} [Monad m] (src : Sources m) (c : Context) :
      lookup src c (n.written w) = lookup src c (n.written w') :=
    lookup_congr src c (n.hasAccess_written w) (n.hasAccess_written w')
      (by rw [n.splitAccess_written, n.splitAccess_written])
  refine ⟨hlookup, fun uri => ?_⟩
  simp only [Engine.resolve, hlookup]

end PikeAnalysis.Resolve
