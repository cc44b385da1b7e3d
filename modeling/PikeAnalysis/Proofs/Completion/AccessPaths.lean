import Mathlib.Data.List.Basic
import Mathlib.Data.List.Induction
import PikeAnalysis.Proofs.Completion.Chains

/-!
# The object of an access

The object in front of an access operator is read backward, token by token.  An `AccessPath` is what
can be read there: segments joined by dots, each a name with bracket groups behind it, where the
first segment may lack its name, and be empty if the path is cut off at a dot.  The object is the
text of the longest path that the tokens end with, without leading dots (`object_is_longest_path`);
there is one such path only.

The grammar says nothing of the walk that the code makes: a path is a tree of segments, its tokens
and its text are computed from it, and that some tokens end with it is the ordinary notion of a
suffix.  So the statement compares the code with a description that could have been written without
it.  Bracket groups are described by counting: a group is the shortest run of tokens that ends with
the bracket and has as many opening as closing ones of its kind.

The proof goes back over the tokens one at a time, and at each token asks how a path can end there
(`suffix_concat_cases`): with a group, with a name behind a dot, with a name alone, or not at all.
-/

namespace PikeAnalysis.CompletionContext

open Text

/-! ## Groups -/

/-- How many tokens have a text. -/
def countText (text : List Char) (tokens : List Lexeme) : Nat :=
  tokens.countP (·.text = text)

/-- Tokens from an opening to a closing bracket, with as many of the one as of the other.  Nothing
is said about other kinds of brackets between the two, since a group is found by counting its own
kind alone. -/
structure Balances (opener closer : List Char) (tokens : List Lexeme) : Prop where
  opens : tokens.head?.map (·.text) = some opener
  closes : tokens.getLast?.map (·.text) = some closer
  even : countText opener tokens = countText closer tokens

/-- A bracket group goes from a closing bracket back to the nearest opening one that balances it,
where only brackets of its own kind count.  Brackets of other kinds inside need not balance. -/
def IsGroup (tokens : List Lexeme) : Prop :=
  ∃ opener closer, opener? closer = some opener ∧ Balances opener closer tokens ∧
    ∀ shorter, shorter <:+ tokens → Balances opener closer shorter → shorter = tokens

/-- In tokens read backward, `depth` brackets that have been closed and those that are closed on the
way are opened, the last of them by the last token. -/
structure Opens (opener closer : List Char) (depth : Nat) (rev : List Lexeme) : Prop where
  even : countText opener rev = depth + countText closer rev
  not_before : ∀ p, p <+: rev → p ≠ rev → countText opener p < depth + countText closer p

section Groups

variable {opener closer text : List Char} {t : Lexeme} {rest rev g r p : List Lexeme} {depth : Nat}

@[simp] theorem countText_nil : countText text [] = 0 := rfl

theorem countText_cons :
    countText text (t :: p) = countText text p + if t.text = text then 1 else 0 := by
  simp [countText, List.countP_cons]

theorem countText_concat :
    countText text (p ++ [t]) = countText text p + if t.text = text then 1 else 0 := by
  simp [countText]

@[simp] theorem countText_reverse : countText text p.reverse = countText text p :=
  List.countP_reverse

theorem opener?_ne (h : opener? closer = some opener) : closer ≠ opener := by
  rintro rfl
  unfold opener? at h
  split at h
  · simp_all
  · split at h <;> simp_all

/-- A proper start of a list with a first element is empty or has that element, too. -/
theorem proper_prefix_cons_iff {α : Type} {a : α} {xs ys : List α} :
    (ys <+: a :: xs ∧ ys ≠ a :: xs) ↔ ys = [] ∨ ∃ zs, ys = a :: zs ∧ zs <+: xs ∧ zs ≠ xs := by
  cases ys with
  | nil => simp
  | cons b zs =>
    rw [List.cons_prefix_cons]
    constructor
    · rintro ⟨⟨rfl, hstart⟩, hne⟩
      exact .inr ⟨zs, rfl, hstart, fun he => hne (by rw [he])⟩
    · rintro (h | ⟨zs', he, hstart, hne⟩)
      · cases h
      · obtain ⟨rfl, rfl⟩ := List.cons.inj he
        exact ⟨⟨rfl, hstart⟩, fun he => hne (List.cons.inj he).2⟩

/-- What one token does to the brackets that are to be opened.  The walk goes backward, so a closing
bracket is one more to be opened and an opening one is one less. -/
theorem opens_cons {next : Nat}
    (step : depth + (if t.text = closer then 1 else 0) = next + if t.text = opener then 1 else 0) :
    Opens opener closer depth (t :: g) ↔ 0 < depth ∧ Opens opener closer next g := by
  constructor
  · rintro ⟨heven, hbefore⟩
    have hempty := hbefore [] List.nil_prefix (by simp)
    refine ⟨by simpa using hempty, ⟨?_, fun p hp hne => ?_⟩⟩
    · rw [countText_cons, countText_cons] at heven
      omega
    · obtain ⟨hstart, hshort⟩ := proper_prefix_cons_iff.mpr (.inr ⟨p, rfl, hp, hne⟩)
      have hp := hbefore (t :: p) hstart hshort
      rw [countText_cons, countText_cons] at hp
      omega
  · rintro ⟨hdepth, heven, hbefore⟩
    refine ⟨?_, fun p hp hne => ?_⟩
    · rw [countText_cons, countText_cons]
      omega
    · rcases proper_prefix_cons_iff.mp ⟨hp, hne⟩ with rfl | ⟨q, rfl, hq, hshort⟩
      · simpa using hdepth
      · have hq := hbefore q hq hshort
        rw [countText_cons, countText_cons]
        omega

theorem Opens.ne_nil (h : Opens opener closer (depth + 1) rev) : rev ≠ [] := by
  rintro rfl
  have heven := h.even
  simp only [countText_nil] at heven
  omega

theorem map_cons_eq_some_iff {split : Option (List Lexeme × List Lexeme)} :
    split.map (fun (g, r) => (t :: g, r)) = some (g, r) ↔ ∃ g', split = some (g', r) ∧
      g = t :: g' := by
  cases split with
  | none => simp
  | some found =>
    obtain ⟨g', r'⟩ := found
    simp only [Option.map_some, Option.some.injEq, Prod.mk.injEq]
    constructor
    · rintro ⟨rfl, rfl⟩
      exact ⟨g', ⟨rfl, rfl⟩, rfl⟩
    · rintro ⟨g'', ⟨rfl, rfl⟩, rfl⟩
      exact ⟨rfl, rfl⟩

/-- Behind closed brackets the tokens are split where the last of these is opened. -/
theorem splitGroup_eq_some_iff (hne : closer ≠ opener) :
    splitGroup closer opener (depth + 1) rev = some (g, r) ↔
      rev = g ++ r ∧ Opens opener closer (depth + 1) g := by
  induction rev generalizing depth g with
  | nil =>
    refine ⟨nofun, ?_⟩
    rintro ⟨h, hopens⟩
    exact absurd (List.append_eq_nil_iff.mp h.symm).1 hopens.ne_nil
  | cons t rest ih =>
    -- What is split off begins with the token in front.
    have hcons {next : Nat} (step : depth + 1 + (if t.text = closer then 1 else 0) =
        next + 1 + if t.text = opener then 1 else 0) :
        (splitGroup closer opener (next + 1) rest).map (fun (g, r) => (t :: g, r)) = some (g, r) ↔
          t :: rest = g ++ r ∧ Opens opener closer (depth + 1) g := by
      rw [map_cons_eq_some_iff]
      constructor
      · rintro ⟨g', hsplit, rfl⟩
        obtain ⟨rfl, hopens⟩ := ih.mp hsplit
        exact ⟨rfl, (opens_cons step).mpr ⟨Nat.succ_pos _, hopens⟩⟩
      · rintro ⟨happend, hopens⟩
        obtain ⟨u, g', rfl⟩ := List.exists_cons_of_ne_nil hopens.ne_nil
        obtain ⟨rfl, rfl⟩ := List.cons.inj happend
        exact ⟨g', ih.mpr ⟨rfl, ((opens_cons step).mp hopens).2⟩, rfl⟩
    rw [splitGroup]
    by_cases hcloser : t.text = closer
    · have hopener : t.text ≠ opener := hcloser ▸ hne
      rw [if_pos hcloser]
      exact hcons (by rw [if_pos hcloser, if_neg hopener])
    rw [if_neg hcloser]
    by_cases hopener : t.text = opener
    swap
    · rw [if_neg hopener]
      exact hcons (by rw [if_neg hcloser, if_neg hopener])
    rw [if_pos hopener]
    cases depth with
    | succ depth => exact hcons (by rw [if_neg hcloser, if_pos hopener])
    | zero =>
      have step : 0 + 1 + (if t.text = closer then 1 else 0) = 0 + if t.text = opener then 1
        else 0 := by
        rw [if_neg hcloser, if_pos hopener]
      rw [if_pos (Nat.le_refl 1), Option.some.injEq, Prod.mk.injEq]
      constructor
      · rintro ⟨rfl, rfl⟩
        refine ⟨rfl, (opens_cons step).mpr ⟨Nat.one_pos, rfl, fun p hp hshort => ?_⟩⟩
        exact absurd (List.prefix_nil.mp hp) hshort
      · rintro ⟨happend, hopens⟩
        obtain ⟨u, g', rfl⟩ := List.exists_cons_of_ne_nil hopens.ne_nil
        obtain ⟨rfl, rfl⟩ := List.cons.inj happend
        have hlast := ((opens_cons step).mp hopens).2
        have hnil : g' = [] := by
          by_contra hmore
          exact absurd (hlast.not_before [] List.nil_prefix (Ne.symm hmore)) (by simp)
        subst hnil
        exact ⟨rfl, rfl⟩

/-- Where no shorter run of tokens is balanced, the closing brackets stay ahead up to the end. -/
theorem opens_of_nearest (hne : t.text ≠ opener)
    (even : countText opener g = 1 + countText t.text g)
    (nearest : ∀ p, p <+: g → Balances opener t.text (t :: p).reverse → p = g) :
    Opens opener t.text 1 g := by
  refine ⟨even, fun p hp hshort => ?_⟩
  induction p using List.reverseRecOn with
  | nil => simp
  | append_singleton p u ih =>
    have hlonger : p ≠ g := by
      rintro rfl
      exact absurd hp.length_le (by simp)
    have ahead := ih ((List.prefix_append p [u]).trans hp) hlonger
    rw [countText_concat, countText_concat]
    by_cases hu : u.text = opener
    · have hother : u.text ≠ t.text := fun he => hne (he.symm.trans hu)
      rw [if_pos hu, if_neg hother]
      by_contra hbalanced
      refine hshort (nearest _ hp ⟨by simp [hu], by rw [List.getLast?_reverse]; rfl, ?_⟩)
      rw [countText_reverse, countText_reverse, countText_cons, countText_cons, countText_concat,
        countText_concat, if_pos hu, if_neg hother, if_neg hne, if_pos rfl]
      omega
    · rw [if_neg hu]
      omega

/-- A group read backward opens the bracket that it begins with, and no sooner than at its end. -/
theorem isGroup_reverse_iff (h : opener? t.text = some opener) :
    IsGroup (t :: g).reverse ↔ Opens opener t.text 1 g := by
  have hne := opener?_ne h
  have hcount (p : List Lexeme) : countText opener (t :: p).reverse =
    countText t.text (t :: p).reverse ↔
      countText opener p = 1 + countText t.text p := by
    rw [countText_reverse, countText_reverse, countText_cons, countText_cons,
      if_neg hne, if_pos rfl]
    omega
  constructor
  · rintro ⟨opener', closer, hcloses, ⟨-, hends, heven⟩, hnearest⟩
    obtain rfl : t.text = closer := by simpa using hends
    obtain rfl : opener = opener' := Option.some.inj (h.symm.trans hcloses)
    refine opens_of_nearest hne ((hcount g).mp heven) fun p hp hbalances => ?_
    have hsuffix : (t :: p).reverse <:+ (t :: g).reverse :=
      List.reverse_suffix.mpr (List.cons_prefix_cons.mpr ⟨rfl, hp⟩)
    exact (List.cons.inj (List.reverse_inj.mp (hnearest _ hsuffix hbalances))).2
  · intro hopens
    refine ⟨opener, t.text, h, ⟨?_, by simp, (hcount g).mpr hopens.even⟩, ?_⟩
    · -- The last token opens, since up to it the closing brackets are ahead.
      cases g using List.reverseRecOn with
      | nil => exact absurd rfl hopens.ne_nil
      | append_singleton p u _ =>
        have ahead := hopens.not_before p (List.prefix_append _ _) (by simp)
        have heven := hopens.even
        rw [countText_concat, countText_concat] at heven
        by_cases hu : u.text = opener
        · simp [hu]
        · rw [if_neg hu] at heven
          omega
    · rintro shorter hsuffix ⟨-, hends, hbalanced⟩
      obtain ⟨p, rfl⟩ : ∃ p, shorter = p.reverse := ⟨shorter.reverse, by simp⟩
      cases p with
      | nil => cases hends
      | cons u p =>
        obtain ⟨rfl, hp⟩ := List.cons_prefix_cons.mp (List.reverse_suffix.mp hsuffix)
        by_contra hshort
        have ahead := hopens.not_before p hp fun he => hshort (by rw [he])
        rw [(hcount p).mp hbalanced] at ahead
        exact Nat.lt_irrefl _ ahead

/-- At a closing bracket the tokens are split in front of its group. -/
theorem splitGroup_closer_iff (h : opener? t.text = some opener) :
    splitGroup t.text opener 0 (t :: rest) = some (g, r) ↔ t :: rest = g ++ r ∧
      IsGroup g.reverse := by
  have hne := opener?_ne h
  rw [splitGroup, if_pos rfl, map_cons_eq_some_iff]
  constructor
  · rintro ⟨g', hsplit, rfl⟩
    obtain ⟨rfl, hopens⟩ := (splitGroup_eq_some_iff hne).mp hsplit
    exact ⟨rfl, (isGroup_reverse_iff h).mpr hopens⟩
  · rintro ⟨happend, hgroup⟩
    cases g with
    | nil =>
      obtain ⟨_, _, -, hbalances, -⟩ := hgroup
      cases hbalances.closes
    | cons u g' =>
      obtain ⟨rfl, rfl⟩ := List.cons.inj happend
      exact ⟨g', (splitGroup_eq_some_iff hne).mpr ⟨rfl, (isGroup_reverse_iff h).mp hgroup⟩, rfl⟩

end Groups

/-! ## Paths -/

/-- A token that is an identifier. -/
abbrev Name := { t : Lexeme // isIdentifier t.text = true }

/-- A token that is a dot. -/
abbrev Dot := { t : Lexeme // t.text = ['.'] }

/-- The tokens of a bracket group. -/
abbrev Group := { tokens : List Lexeme // IsGroup tokens }

/-- Segments joined by dots, each a name with bracket groups behind it.  Only the first segment may
lack its name, so that what follows an expression can still be read. -/
inductive AccessPath where
  /-- The first segment, which may lack its name.  Where the path is cut off at a dot it is
  empty. -/
  | first (name : Option Name) (groups : List Group)
  /-- One more segment behind a dot. -/
  | more (front : AccessPath) (dot : Dot) (name : Name) (groups : List Group)

namespace AccessPath

/-- The tokens of a path.  They are in the order of the text. -/
def tokens : AccessPath → List Lexeme
  | first name groups => (name.map (·.1)).toList ++ groups.flatMap (·.1)
  | more front dot name groups => front.tokens ++ dot.1 :: name.1 :: groups.flatMap (·.1)

/-- The text of a path: names and dots as they are, the tokens of groups joined. -/
def text : AccessPath → List Char
  | first name groups => name.elim [] (·.1.text) ++ groups.flatMap (joinTexts ·.1)
  | more front dot name groups =>
    front.text ++ dot.1.text ++ name.1.text ++ groups.flatMap (joinTexts ·.1)

@[simp] theorem tokens_nothing : (first none []).tokens = [] := rfl

@[simp] theorem tokens_name (name : Name) : (first (some name) []).tokens = [name.1] := rfl

@[simp] theorem tokens_more (p : AccessPath) (d : Dot) (name : Name) :
    (more p d name []).tokens = p.tokens ++ [d.1] ++ [name.1] := by
  simp [tokens]

@[simp] theorem text_name (name : Name) : (first (some name) []).text = name.1.text :=
  List.append_nil _

@[simp] theorem text_more (p : AccessPath) (d : Dot) (name : Name) :
    (more p d name []).text = p.text ++ '.' :: name.1.text := by
  simp [text, d.2]

/-- A path with one more group at its end.  That is how walking backward grows a path: the group is
met before the name it belongs to. -/
def push (g : Group) : AccessPath → AccessPath
  | first name groups => first name (groups ++ [g])
  | more front dot name groups => more front dot name (groups ++ [g])

@[simp] theorem tokens_push (g : Group) (p : AccessPath) : (p.push g).tokens = p.tokens ++ g.1 := by
  cases p <;> simp [push, tokens]

@[simp] theorem text_push (g : Group) (p : AccessPath) :
    (p.push g).text = p.text ++ joinTexts g.1 := by
  cases p <;> simp [push, text]

/-- A path ends with a group, or with a name at its start or behind a dot, or it is empty. -/
theorem last_cases (p : AccessPath) :
    p = first none [] ∨ (∃ name, p = first (some name) []) ∨
      (∃ front dot name, p = more front dot name []) ∨
      ∃ front g, p = push g front := by
  cases p with
  | first name groups =>
    rcases List.eq_nil_or_concat' groups with rfl | ⟨init, g, rfl⟩
    · cases name with
      | none => exact .inl rfl
      | some name => exact .inr (.inl ⟨name, rfl⟩)
    · exact .inr (.inr (.inr ⟨first name init, g, rfl⟩))
  | more front dot name groups =>
    rcases List.eq_nil_or_concat' groups with rfl | ⟨init, g, rfl⟩
    · exact .inr (.inr (.inl ⟨front, dot, name, rfl⟩))
    · exact .inr (.inr (.inr ⟨more front dot name init, g, rfl⟩))

end AccessPath

/-! ## The longest path -/

/-- A path is the longest that some tokens end with: any other is shorter.  The length is counted in
tokens. -/
structure Longest (tokens : List Lexeme) (p : AccessPath) : Prop where
  suffix : p.tokens <:+ tokens
  shorter : ∀ q : AccessPath, q.tokens <:+ tokens → q = p ∨ q.tokens.length < p.tokens.length

section Longest

variable {front : List Lexeme} {t : Lexeme} {opener : List Char} {p q : AccessPath}

/-- A group ends with a closing bracket. -/
theorem IsGroup.last {tokens : List Lexeme} (h : IsGroup tokens) :
    ∃ init t, tokens = init ++ [t] ∧ opener? t.text ≠ none := by
  obtain ⟨opener, closer, hcloses, hbalances, -⟩ := h
  obtain ⟨t, hlast, rfl⟩ := Option.map_eq_some_iff.mp hbalances.closes
  obtain ⟨init, rfl⟩ := List.getLast?_eq_some_iff.mp hlast
  exact ⟨init, t, rfl, by rw [hcloses]; nofun⟩

/-- Where there are no tokens no path can be read but the empty one. -/
theorem longest_nil : Longest [] (.first none []) := by
  refine ⟨List.nil_suffix, fun q hq => .inl ?_⟩
  have hnil : q.tokens = [] := List.suffix_nil.mp hq
  rcases q.last_cases with rfl | ⟨name, rfl⟩ | ⟨p, d, name, rfl⟩ | ⟨p, g, rfl⟩
  · rfl
  · cases hnil
  · simp at hnil
  · obtain ⟨group, t, hgroup, -⟩ := g.2.last
    simp [hgroup] at hnil

/-- How a path ends that takes the last token, by what that token is. -/
theorem suffix_concat_cases (h : q.tokens <:+ front ++ [t]) :
    q = .first none [] ∨
      (∃ name : isIdentifier t.text = true, q = .first (some ⟨t, name⟩) [] ∨
        ∃ p d, q = .more p d ⟨t, name⟩ [] ∧ p.tokens ++ [d.1] <:+ front) ∨
      (opener? t.text ≠ none ∧ ∃ p g, q = .push g p) := by
  rcases q.last_cases with rfl | ⟨name, rfl⟩ | ⟨p, d, name, rfl⟩ | ⟨p, g, rfl⟩
  · exact .inl rfl
  · obtain rfl : name.1 = t := List.singleton_suffix_append_singleton_iff.mp h
    exact .inr (.inl ⟨name.2, .inl rfl⟩)
  · rw [AccessPath.tokens_more] at h
    obtain ⟨init, he, hinit⟩ := (List.suffix_concat_iff.mp h).resolve_left (by simp)
    obtain ⟨rfl, hname⟩ := List.append_inj' he rfl
    obtain rfl : name.1 = t := List.singleton_inj.mp hname
    exact .inr (.inl ⟨name.2, .inr ⟨p, d, rfl, hinit⟩⟩)
  · obtain ⟨group, u, hgroup, hcloses⟩ := g.2.last
    rw [AccessPath.tokens_push, hgroup, ← List.append_assoc] at h
    obtain ⟨init, he, -⟩ := (List.suffix_concat_iff.mp h).resolve_left (by simp)
    obtain rfl : u = t := List.singleton_inj.mp (List.append_inj' he rfl).2
    exact .inr (.inr ⟨hcloses, p, g, rfl⟩)

/-- A path ends with a group where the tokens are split in front of it. -/
theorem push_suffix_iff {rest : List Lexeme} {g : Group} (h : opener? t.text = some opener) :
    (p.push g).tokens <:+ (t :: rest).reverse ↔
      ∃ r, splitGroup t.text opener 0 (t :: rest) = some (g.1.reverse, r) ∧
        p.tokens <:+ r.reverse := by
  have hgroup : IsGroup g.1.reverse.reverse := by
    rw [List.reverse_reverse]
    exact g.2
  rw [AccessPath.tokens_push]
  constructor
  · rintro ⟨earlier, he⟩
    have hsplit : t :: rest = g.1.reverse ++ (p.tokens.reverse ++ earlier.reverse) := by
      rw [← List.reverse_inj, ← he]
      simp
    exact ⟨_, (splitGroup_closer_iff h).mpr ⟨hsplit, hgroup⟩, earlier, by simp⟩
  · rintro ⟨r, hsplit, hp⟩
    obtain ⟨he, -⟩ := (splitGroup_closer_iff h).mp hsplit
    rw [he, List.reverse_append, List.reverse_reverse]
    exact List.suffix_append_self_iff.mpr hp

/-- Behind a token that ends neither a name nor a group no path can be read. -/
theorem Longest.none (name : isIdentifier t.text ≠ true)
    (group : opener? t.text ≠ none → ∀ p g, ¬ (AccessPath.push g p).tokens <:+ front ++ [t]) :
    Longest (front ++ [t]) (.first none []) := by
  refine ⟨List.nil_suffix, fun q hq => .inl ?_⟩
  rcases suffix_concat_cases hq with rfl | ⟨hname, -⟩ | ⟨hcloses, p, g, rfl⟩
  · rfl
  · exact absurd hname name
  · exact absurd hq (group hcloses p g)

theorem Longest.push {rest r : List Lexeme} {g : Group} (h : opener? t.text = some opener)
    (split : splitGroup t.text opener 0 (t :: rest) = some (g.1.reverse, r))
    (longest : Longest r.reverse p) : Longest (t :: rest).reverse (p.push g) := by
  refine ⟨(push_suffix_iff h).mpr ⟨r, split, longest.suffix⟩, fun q hq => ?_⟩
  rcases suffix_concat_cases (List.reverse_cons ▸ hq) with rfl | ⟨name, -⟩ | ⟨-, q', g', rfl⟩
  · obtain ⟨init, u, hgroup, -⟩ := g.2.last
    right
    show 0 < (p.push g).tokens.length
    rw [AccessPath.tokens_push, hgroup]
    exact List.length_pos_iff.mpr (by simp)
  · rw [opener?_of_isIdentifier name] at h
    cases h
  · obtain ⟨r', split', hq'⟩ := (push_suffix_iff h).mp hq
    obtain ⟨hg, rfl⟩ := Prod.mk.inj (Option.some.inj (split.symm.trans split'))
    obtain rfl : g = g' := Subtype.ext (List.reverse_inj.mp hg)
    rcases longest.shorter q' hq' with rfl | hlt
    · exact .inl rfl
    · right
      simpa using hlt

/-- A name behind a dot is read with the path in front of the dot. -/
theorem Longest.more {d : Dot} (name : isIdentifier t.text = true) (longest : Longest front p) :
    Longest (front ++ [d.1] ++ [t]) (.more p d ⟨t, name⟩ []) := by
  refine ⟨?_, fun q hq => ?_⟩
  · rw [AccessPath.tokens_more]
    exact List.suffix_append_self_iff.mpr (List.suffix_append_self_iff.mpr longest.suffix)
  rcases suffix_concat_cases hq with rfl | ⟨-, rfl | ⟨q', d', rfl, hq'⟩⟩ | ⟨hcloses, -⟩
  · right
    simp
  · right
    simp
  · obtain ⟨init, he, hinit⟩ := (List.suffix_concat_iff.mp hq').resolve_left (by simp)
    obtain ⟨rfl, hd⟩ := List.append_inj' he rfl
    obtain rfl : d' = d := Subtype.ext (List.singleton_inj.mp hd)
    rcases longest.shorter q' hinit with rfl | hlt
    · exact .inl rfl
    · right
      simpa using hlt
  · exact absurd (opener?_of_isIdentifier name) hcloses

/-- A name behind anything but a dot is read alone. -/
theorem Longest.name (name : isIdentifier t.text = true)
    (behind : ∀ d ∈ front.getLast?, d.text ≠ ['.']) :
    Longest (front ++ [t]) (.first (some ⟨t, name⟩) []) := by
  refine ⟨List.suffix_append front [t], fun q hq => ?_⟩
  rcases suffix_concat_cases hq with rfl | ⟨-, rfl | ⟨q', d, rfl, hq'⟩⟩ | ⟨hcloses, -⟩
  · right
    simp
  · exact .inl rfl
  · obtain ⟨earlier, rfl⟩ := hq'
    exact absurd d.2 (behind d.1 (by simp))
  · exact absurd (opener?_of_isIdentifier name) hcloses

end Longest

/-! ## Reading -/

section Reading

variable {t : Lexeme} {rest g r : List Lexeme} {opener : List Char}

theorem pathTexts_of_group (h : opener? t.text = some opener)
    (split : splitGroup t.text opener 0 (t :: rest) = some (g, r)) :
    pathTexts (t :: rest) = pathTexts r ++ joinTexts g.reverse := by
  rw [pathTexts.eq_def]
  simp only [h]
  split
  · next split' =>
    obtain ⟨rfl, rfl⟩ := Prod.mk.inj (Option.some.inj (split.symm.trans split'))
    rfl
  · next split' => cases split.symm.trans split'

theorem pathTexts_of_unopened (h : opener? t.text = some opener)
    (split : splitGroup t.text opener 0 (t :: rest) = none) : pathTexts (t :: rest) = [] := by
  rw [pathTexts.eq_def]
  simp only [h]
  split
  · next split' => cases split.symm.trans split'
  · rfl

theorem pathTexts_of_other (h : opener? t.text = none) (name : isIdentifier t.text ≠ true) :
    pathTexts (t :: rest) = [] := by
  rw [pathTexts.eq_def]
  simp [h, name]

end Reading

/-- Walking backward reads the longest path.  So the walk and the property of being the longest path
single out the same text. -/
theorem exists_longest (rev : List Lexeme) : ∃ p, Longest rev.reverse p ∧
    pathTexts rev = p.text := by
  -- The cases are those of the walk: a group that is closed is read as a whole, and before a name a
  -- dot goes on.
  induction rev using pathTexts.induct with
  | case1 => exact ⟨.first none [], longest_nil, by rw [pathTexts]; rfl⟩
  | case2 t rest opener hopener group more hsplit _ ih =>
    obtain ⟨p, longest, htext⟩ := ih
    obtain ⟨-, hgroup⟩ := (splitGroup_closer_iff hopener).mp hsplit
    refine ⟨p.push ⟨group.reverse, hgroup⟩,
      longest.push hopener (by rwa [List.reverse_reverse]), ?_⟩
    rw [pathTexts_of_group hopener hsplit, htext, AccessPath.text_push]
  | case3 t rest opener hopener hsplit =>
    refine ⟨.first none [], ?_, pathTexts_of_unopened hopener hsplit⟩
    rw [List.reverse_cons]
    refine .none (fun name => ?_) fun _ p g hpush => ?_
    · cases hopener.symm.trans (opener?_of_isIdentifier name)
    · rw [← List.reverse_cons] at hpush
      obtain ⟨r, hsome, -⟩ := (push_suffix_iff hopener).mp hpush
      cases hsplit.symm.trans hsome
  | case4 t hopener name d more hdot ih =>
    obtain ⟨p, longest, htext⟩ := ih
    refine ⟨.more p ⟨d, hdot⟩ ⟨t, name⟩ [], ?_, ?_⟩
    · rw [List.reverse_cons, List.reverse_cons]
      exact longest.more (d := ⟨d, hdot⟩) name
    · simp [pathTexts, hopener, name, hdot, htext]
  | case5 t hopener name d more hdot =>
    refine ⟨.first (some ⟨t, name⟩) [], ?_, ?_⟩
    · rw [List.reverse_cons]
      exact .name name (by simpa using hdot)
    · simp [pathTexts, hopener, name, hdot]
  | case6 t hopener name =>
    refine ⟨.first (some ⟨t, name⟩) [], ?_, by simp [pathTexts, hopener, name]⟩
    rw [List.reverse_cons]
    exact .name name fun d none => by cases none
  | case7 t rest hopener name =>
    refine ⟨.first none [], ?_, pathTexts_of_other hopener name⟩
    rw [List.reverse_cons]
    exact .none name fun hcloses => absurd hopener hcloses

/-- For any tokens in front of an access operator, the object is the text of the longest access path
that they end with, without leading dots.  Every other access path that they end with is shorter.
`AccessPath` says what a path is by its parts, without reference to how one is found; the empty path
is one of them, so there is always a longest. -/
theorem object_is_longest_path (tokens : List Lexeme) :
    ∃ p : AccessPath, p.tokens <:+ tokens ∧
      (∀ q : AccessPath, q.tokens <:+ tokens → q = p ∨ q.tokens.length < p.tokens.length) ∧
      objectBefore tokens = p.text.dropWhile (· == '.') := by
  obtain ⟨p, longest, htext⟩ := exists_longest tokens.reverse
  rw [List.reverse_reverse] at longest
  exact ⟨p, longest.suffix, longest.shorter, by rw [objectBefore, htext]⟩

end PikeAnalysis.CompletionContext
