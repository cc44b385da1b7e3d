import PikeAnalysis.Proofs.Resolve.Ancestry
import PikeAnalysis.Proofs.Text.Trimming

/-!
# Targets of directives

The target of a directive is cleaned in five steps, from the outside in.  A step can bring out what
an earlier one has looked for, so a cleaned target is a bare name only if nothing of that is left.
An inherit directive has its target cleaned once more than an import directive: the two name the
same exactly for the targets that are a bare name in a wrapping (`inherited_eq_imported_iff`).

Cleaning takes off blanks, then quotes, then dots and colons, then blanks again, and then the ending
of a file.  Each step is a trimming and changes nothing exactly if the text has nothing of the kind
at its ends, so a bare name is one at which all five find nothing (`Bare`).  A wrapping lists what
can stand around a name for one cleaning to take it all off; every target has one around what
cleaning leaves of it (`exists_around`), and the question is only whether what is left is bare.

The two directives are compared by what they bring in from a library, so that the difference is seen
where a user would see it: in the members of a module.
-/

namespace PikeAnalysis.Resolve

open Text

/-! ## Cleaning -/

/-- Quotes. -/
def isQuote (c : Char) : Bool :=
  c == '"'

/-- What may stand in front of a name.  Only in front: the same characters behind a name are part of
it. -/
def isStop (c : Char) : Bool :=
  c == ':' || c == '.'

/-- The ending of a file. -/
def extension : List Char :=
  ".pike".toList

/-- A text without the ending of a file. -/
def withoutExtension (s : List Char) : List Char :=
  if extension.isSuffixOf s then s.take (s.length - extension.length) else s

/-- A target without blanks, quotes, stops, blanks again, and the ending of a file. -/
def bared (s : List Char) : List Char :=
  withoutExtension (trimBlanks (trimLeft isStop (trim isQuote (trimBlanks s))))

theorem cleanTarget_eq (target : String) :
    cleanTarget target = String.ofList (bared target.toList) :=
  rfl

theorem withoutExtension_append (s : List Char) : withoutExtension (s ++ extension) = s := by
  have hsuffix : extension.isSuffixOf (s ++ extension) = true :=
    List.isSuffixOf_iff_suffix.2 (List.suffix_append _ _)
  rw [withoutExtension, if_pos hsuffix, List.length_append, Nat.add_sub_cancel, List.take_left]

theorem withoutExtension_of_not {s : List Char} (h : ¬ extension <:+ s) : withoutExtension s = s :=
  if_neg (mt List.isSuffixOf_iff_suffix.1 h)

theorem withoutExtension_sublist {s : List Char} : (withoutExtension s).Sublist s := by
  rw [withoutExtension]
  split
  · exact List.take_sublist _ _
  · exact List.Sublist.refl _

/-! ## Bare names -/

/-- A name in which no step of cleaning finds anything.  Cleaning takes off blanks, quotes, leading
dots and colons, and the extension of a source file, each once; a text in which one of these steps
leaves something for another to take off is not bare. -/
structure Bare (s : List Char) : Prop where
  blanks : Trimmed isBlank s
  quotes : Trimmed isQuote s
  stops : ∀ c ∈ s.head?, isStop c = false
  extension : ¬ extension <:+ s

/-- Cleaning only takes away, so it changes nothing only if no step does. -/
theorem bared_eq_self_iff {s : List Char} : bared s = s ↔ Bare s := by
  constructor
  · intro h
    have hextension : (bared s).Sublist _ := withoutExtension_sublist
    have hinner : (trimBlanks (trimLeft isStop (trim isQuote (trimBlanks s)))).Sublist _ :=
      trim_sublist
    have hstops : (trimLeft isStop (trim isQuote (trimBlanks s))).Sublist _ := trimLeft_sublist
    have hquotes : (trim isQuote (trimBlanks s)).Sublist _ := trim_sublist
    have houter : (trimBlanks s).Sublist s := trim_sublist
    rw [h] at hextension
    have outer : trimBlanks s = s :=
      houter.antisymm (((hextension.trans hinner).trans hstops).trans hquotes)
    rw [outer] at hextension hinner hstops hquotes
    have quotes : trim isQuote s = s :=
      hquotes.antisymm ((hextension.trans hinner).trans hstops)
    rw [quotes] at hextension hinner hstops
    have stops : trimLeft isStop s = s := hstops.antisymm (hextension.trans hinner)
    rw [bared, outer, quotes, stops, outer] at h
    refine ⟨trim_eq_self_iff.1 outer, trim_eq_self_iff.1 quotes, ?_, fun hsuffix => ?_⟩
    · rw [← stops]
      exact head?_trimLeft
    · obtain ⟨init, rfl⟩ := hsuffix
      rw [withoutExtension_append] at h
      exact absurd (congrArg List.length h) (by simp [Resolve.extension])
  · intro h
    have outer : trimBlanks s = s := trim_of_trimmed h.blanks
    have stops : trimLeft isStop s = s := trimLeft_append (l := []) h.stops
    rw [bared, outer, trim_of_trimmed h.quotes, stops, outer, withoutExtension_of_not h.extension]

/-! ## Wrappings -/

/-- What can stand around a name in a target, from the outside in.  Each of its parts is a run of
the characters that one step takes off. -/
structure Wrapping where
  lead : Run isBlank
  opening : Run isQuote
  stops : Run isStop
  inner : Run isBlank
  ending : List Char
  innerTrail : Run isBlank
  closing : Run isQuote
  trail : Run isBlank
  ending_eq : ending = [] ∨ ending = extension

namespace Wrapping

variable (w : Wrapping)

/-- What stands in front of the name. -/
def front : List Char :=
  w.lead.text ++ (w.opening.text ++ (w.stops.text ++ w.inner.text))

/-- What stands behind the name and its ending. -/
def back : List Char :=
  w.innerTrail.text ++ w.closing.text ++ w.trail.text

/-- A name in its wrapping.  In front and behind there may be whatever cleaning takes off, in the
order in which it does. -/
def around (name : List Char) : List Char :=
  w.front ++ (name ++ w.ending) ++ w.back

/-- The steps of cleaning take away all that stands in front of a name. -/
theorem front_cleaned :
    trimLeft isBlank (trimLeft isStop (trimLeft isQuote (trimLeft isBlank w.front))) = [] := by
  have hlead : trimLeft isBlank w.front <:+ w.opening.text ++ (w.stops.text ++ w.inner.text) :=
    trimLeft_suffix_of_run w.lead (List.suffix_refl _)
  have hstops := trimLeft_suffix_of_run w.stops (trimLeft_suffix_of_run w.opening hlead)
  exact List.suffix_nil.1 (trimLeft_suffix_of_run w.inner (by simpa using hstops))

/-- The steps of cleaning take away all that stands behind a name and its ending. -/
theorem back_cleaned :
    trimRight isBlank (trimRight isQuote (trimRight isBlank w.back)) = [] := by
  have htrail : trimRight isBlank w.back <+: w.innerTrail.text ++ w.closing.text :=
    trimRight_prefix_of_run w.trail (List.prefix_refl _)
  have hclosing := trimRight_prefix_of_run w.closing htrail
  exact List.prefix_nil.1 (trimRight_prefix_of_run w.innerTrail (by simpa using hclosing))

variable {w} {name : List Char}

/-- The ending of a file is left by every step but the last. -/
theorem trimmed_append_ending {p : Char → Bool} (h : Trimmed p name) (hne : name ≠ [])
    (hp : p 'e' = false) : Trimmed p (name ++ w.ending) := by
  rcases w.ending_eq with hending | hending
  · simpa [hending] using h
  · rw [hending]
    refine ⟨?_, ?_⟩
    · rw [List.head?_append_of_ne_nil _ hne]
      exact h.1
    · rw [List.getLast?_append_of_ne_nil _ (by decide)]
      simpa [extension] using hp

theorem withoutExtension_append_ending (h : ¬ extension <:+ name) :
    withoutExtension (name ++ w.ending) = name := by
  rcases w.ending_eq with hending | hending
  · rw [hending, List.append_nil, withoutExtension_of_not h]
  · rw [hending, withoutExtension_append]

/-- A bare name is found in its wrapping. -/
theorem bared_around (h : Bare name) (hne : name ≠ []) : bared (w.around name) = name := by
  have hmiddle : name ++ w.ending ≠ [] := by simp [hne]
  have hblanks (front back : List Char) : trimBlanks (front ++ (name ++ w.ending) ++ back) =
      trimLeft isBlank front ++ (name ++ w.ending) ++ trimRight isBlank back :=
    trim_around (trimmed_append_ending h.blanks hne (by decide)) hmiddle
  have hquotes (front back : List Char) : trim isQuote (front ++ (name ++ w.ending) ++ back) =
      trimLeft isQuote front ++ (name ++ w.ending) ++ trimRight isQuote back :=
    trim_around (trimmed_append_ending h.quotes hne (by decide)) hmiddle
  have hstops (front back : List Char) : trimLeft isStop (front ++ (name ++ w.ending) ++ back) =
      trimLeft isStop front ++ (name ++ w.ending) ++ back := by
    have hfirst : ∀ c ∈ (name ++ (w.ending ++ back)).head?, isStop c = false := by
      rw [List.head?_append_of_ne_nil _ hne]
      exact h.stops
    simp only [List.append_assoc]
    exact trimLeft_append hfirst
  rw [bared, around, hblanks, hquotes, hstops, hblanks, w.front_cleaned, w.back_cleaned,
    List.nil_append, List.append_nil, withoutExtension_append_ending h.extension]

end Wrapping

theorem exists_withoutExtension_append (s : List Char) :
    ∃ ending, (ending = [] ∨ ending = extension) ∧ s = withoutExtension s ++ ending := by
  by_cases h : extension <:+ s
  · obtain ⟨init, rfl⟩ := h
    exact ⟨extension, .inr rfl, by rw [withoutExtension_append]⟩
  · exact ⟨[], .inl rfl, by rw [withoutExtension_of_not h, List.append_nil]⟩

/-- Every target is what cleaning leaves of it, in a wrapping.  So what is said of bare names in
wrappings is said of all targets. -/
theorem exists_around (s : List Char) : ∃ w : Wrapping, s = w.around (bared s) := by
  have hblanks (t : List Char) : ∃ left right : Run isBlank, t = left.text ++
    trimBlanks t ++ right.text :=
    exists_runs_trim isBlank t
  obtain ⟨lead, trail, houter⟩ := hblanks s
  obtain ⟨opening, closing, hquotes⟩ := exists_runs_trim isQuote (trimBlanks s)
  obtain ⟨stops, hstops⟩ := exists_run_trimLeft isStop (trim isQuote (trimBlanks s))
  obtain ⟨inner, innerTrail, hinner⟩ := hblanks (trimLeft isStop (trim isQuote (trimBlanks s)))
  obtain ⟨ending, hcases, hending⟩ :=
    exists_withoutExtension_append (trimBlanks (trimLeft isStop (trim isQuote (trimBlanks s))))
  rw [← bared] at hending
  refine ⟨⟨lead, opening, stops, inner, ending, innerTrail, closing, trail, hcases⟩, ?_⟩
  rw [hending] at hinner
  rw [hinner] at hstops
  rw [hstops] at hquotes
  rw [hquotes] at houter
  simpa [Wrapping.around, Wrapping.front, Wrapping.back, List.append_assoc] using houter

/-! ## Directives in a library -/

/-- A document that is not known. -/
def unknownContext (uri : String) : Context :=
  { uri, entry := none, program := none }

/-- What an import directive brings in from a library: members, and where they come from. -/
def imported (modules : List StdlibModule) (uri target : String) :
    Except Fault (List (String × List (String × Symbol))) :=
  World.result (importScopes (World.ofModules modules).sources (unknownContext uri)
    [{ name := target, kind := .import }])

/-- The members of a scope, if there is one, and where they come from. -/
def membersOf (scope : Option Scope) : List (String × List (String × Symbol)) :=
  scope.toList.map fun s => (s.origin.getD "", s.members)

/-- An inherit directive. -/
def inheriting (target : String) : Symbol :=
  { name := target, kind := .inherit }

/-- What an inherit directive leads to in a library, told in the same way. -/
def inherited (modules : List StdlibModule) (uri target : String) :
    Except Fault (List (String × List (String × Symbol))) :=
  ((World.ofModules modules).parent (unknownContext uri) (inheriting target)).map membersOf

/-- The members of the module at a path, and where they come from.  A path that is empty is not
asked for. -/
def moduleMembers (modules : List StdlibModule) (path : String) :
    List (String × List (String × Symbol)) :=
  if path.isEmpty then []
  else ((World.ofModules modules).module path).toList.map fun mod => (mod.origin, mod.symbols)

/-- An import directive brings in the module of its target cleaned once. -/
theorem imported_eq (modules : List StdlibModule) (uri target : String) :
    imported modules uri target = .ok (moduleMembers modules (cleanTarget target)) := by
  have htarget : Symbol.directiveTarget { name := target, kind := .import } = target := rfl
  rw [imported, importScopes, htarget, moduleMembers]
  dsimp only
  split
  · rfl
  · rw [World.result_module_bind]
    cases (World.ofModules modules).module (cleanTarget target) <;> rfl

theorem World.find_of_unnamed {w : World} {c : Context} {name : String} {tier : Option Tier}
    (h : (cleanTarget name).isEmpty) : w.find c name tier = .ok none := by
  rw [World.find, findScope]
  dsimp only
  rw [if_pos h]
  rfl

/-- A name refers to the module of the name cleaned once. -/
theorem find_members (modules : List StdlibModule) (uri name : String) :
    ((World.ofModules modules).find (unknownContext uri) name (some .inherited)).map membersOf =
      .ok (moduleMembers modules (cleanTarget name)) := by
  rw [moduleMembers]
  split
  next unnamed =>
    rw [World.find_of_unnamed unnamed]
    rfl
  next named =>
    rw [World.find_ofModules rfl named]
    cases (World.ofModules modules).module (cleanTarget name) <;> rfl

theorem cleanTarget_of_isEmpty {name : String} (h : name.isEmpty) : cleanTarget name = name := by
  rw [String.isEmpty_iff.1 h]
  decide +kernel

/-- An inherit directive leads to what its target refers to once it has been cleaned before. -/
theorem World.parent_inheriting (w : World) (c : Context) (target : String) :
    w.parent c (inheriting target) = w.find c (cleanTarget target) (some .inherited) := by
  have htarget : (inheriting target).directiveTarget = target := rfl
  rw [World.parent, htarget]
  split
  next unnamed => rw [World.find_of_unnamed (by rwa [cleanTarget_of_isEmpty unnamed])]
  next => rfl

/-- An inherit directive leads to the module of its target cleaned twice. -/
theorem inherited_eq (modules : List StdlibModule) (uri target : String) :
    inherited modules uri target =
      .ok (moduleMembers modules (cleanTarget (cleanTarget target))) := by
  rw [inherited, World.parent_inheriting, find_members]

/-! ## Cleaning twice -/

/-- Cleaning a cleaned target changes nothing if and only if it is a bare name. -/
theorem cleanTarget_eq_self_iff {name : String} : cleanTarget name = name ↔ Bare name.toList := by
  rw [cleanTarget_eq, ← bared_eq_self_iff, ← String.toList_inj, String.toList_ofList]

/-- In a library of one module, only its path leads to members. -/
theorem moduleMembers_single {mod : StdlibModule} {path : String} :
    moduleMembers [mod] path ≠ [] ↔ path ≠ "" ∧ mod.path = path := by
  have hmodule : (World.ofModules [mod]).module path = if mod.path = path
    then some mod else none := by
    by_cases hpath : mod.path = path <;> simp [World.ofModules, hpath]
  rw [moduleMembers, hmodule]
  by_cases hempty : path = ""
  · simp [hempty]
  · by_cases hpath : mod.path = path <;> simp [hempty, hpath]

/-- Names that are the same once they are cleaned refer to the same. -/
theorem World.find_congr {a b : String} (h : cleanTarget a = cleanTarget b)
    (w : World) (c : Context) (tier : Option Tier) : w.find c a tier = w.find c b tier := by
  rw [World.find, World.find, findScope, findScope, h]

/-- Cleaning a target again changes nothing if and only if cleaning it leaves no name, or it is a
bare name in a wrapping. -/
theorem cleanTarget_cleanTarget_iff {target : String} :
    cleanTarget (cleanTarget target) = cleanTarget target ↔
      cleanTarget target = "" ∨
        ∃ (w : Wrapping) (name : List Char), name ≠ [] ∧ Bare name ∧
          target.toList = w.around name := by
  constructor
  · intro hfixed
    refine or_iff_not_imp_left.2 fun hne => ?_
    obtain ⟨w, hw⟩ := exists_around target.toList
    have hbare : Bare (bared target.toList) := by
      simpa [cleanTarget_eq] using cleanTarget_eq_self_iff.1 hfixed
    refine ⟨w, _, fun hnil => hne ?_, hbare, hw⟩
    rw [cleanTarget_eq, hnil]
  · rintro (hempty | ⟨w, name, hne, hbare, hw⟩)
    · exact cleanTarget_of_isEmpty (String.isEmpty_iff.2 hempty)
    · rw [cleanTarget_eq target, hw, Wrapping.bared_around hbare hne, cleanTarget_eq_self_iff]
      simpa using hbare

/-- If the directives agree in every library, then in the one that has nothing but the module of
the import directive. -/
theorem cleanTarget_cleanTarget_of_agree {target : String}
    (h : ∀ modules uri, inherited modules uri target = imported modules uri target) :
    cleanTarget (cleanTarget target) = cleanTarget target := by
  by_contra hchanged
  have hne : cleanTarget target ≠ "" := fun hempty =>
    hchanged (cleanTarget_of_isEmpty (String.isEmpty_iff.2 hempty))
  obtain ⟨mod, hpath⟩ : ∃ mod : StdlibModule, mod.path = cleanTarget target :=
    ⟨{ path := cleanTarget target, symbols := [] }, rfl⟩
  have hmembers := h [mod] ""
  rw [inherited_eq, imported_eq, Except.ok.injEq] at hmembers
  have honce : moduleMembers [mod] (cleanTarget target) ≠ [] := moduleMembers_single.2 ⟨hne, hpath⟩
  rw [← hmembers, moduleMembers_single, hpath] at honce
  exact hchanged honce.2.symm

/-- Cleaning the target of a directive again changes nothing if and only if cleaning it leaves no
name, or it is a bare name in a wrapping.  For these targets alone an inherit directive leads in
every world to the class or module that its target refers to, and in every library to what an import
directive brings in.  The library is arbitrary, and may have modules of any paths. -/
theorem inherited_eq_imported_iff (target : String) :
    (cleanTarget (cleanTarget target) = cleanTarget target ↔
      cleanTarget target = "" ∨
        ∃ (w : Wrapping) (name : List Char), name ≠ [] ∧ Bare name ∧
          target.toList = w.around name) ∧
    (cleanTarget (cleanTarget target) = cleanTarget target ↔
      ∀ (w : World) (c : Context), w.parent c (inheriting target) =
        w.find c target (some .inherited)) ∧
    (cleanTarget (cleanTarget target) = cleanTarget target ↔
      ∀ modules uri, inherited modules uri target = imported modules uri target) := by
  refine ⟨cleanTarget_cleanTarget_iff, ⟨fun hfixed w c => ?_, fun hworlds => ?_⟩,
    ⟨fun hfixed modules uri => ?_, cleanTarget_cleanTarget_of_agree⟩⟩
  · rw [World.parent_inheriting]
    exact World.find_congr hfixed w c _
  · refine cleanTarget_cleanTarget_of_agree fun modules uri => ?_
    rw [inherited, hworlds, find_members, imported_eq]
  · rw [inherited_eq, imported_eq, hfixed]

/-- Quotes behind a dot are brought out too late, so one of them is left for the second time. -/
example : cleanTarget ".\"Shape\"" = "\"Shape" ∧ cleanTarget "\"Shape" = "Shape" := by
  decide +kernel

end PikeAnalysis.Resolve
