import PikeAnalysis.Clock
import PikeAnalysis.Symbol.Table
import PikeAnalysis.Text.Character

/-!
# Included files

What an include directive names, and the included files that have been parsed.  A parsed file is
used again for a while.

A directive may come with its keyword, with quotes or with angle brackets, or with none of these;
`targetPath` takes off what is there.  What the path then resolves to is not decided here.  A parsed
file is fresh for as long as the cache's time to live, which may be endless, and an old one is not
removed but parsed again and replaced in place.
-/

namespace PikeAnalysis

/-- An included file and its symbols. -/
structure IncludedFile where
  originalPath : String
  resolvedPath : String
  table : SymbolTable
  loadedAt : Instant

/-- The parsed files by path. -/
structure IncludeCache where
  ttl : Duration := some 30000000
  files : List (String × IncludedFile) := []

namespace IncludeCache

/-! ## Targets -/

/-- A text without the quotes or angle brackets around it, if it is between such. -/
def unwrap (s : List Char) : List Char :=
  match s.head?, s.getLast? with
  | some a, some b =>
    if s.length ≥ 2 ∧ ((a = '"' ∧ b = '"') ∨ (a = '<' ∧ b = '>')) then s.tail.dropLast else s
  | _, _ => s

/-- The path that an include directive names: without the directive itself and what is around the
path. -/
def targetPath (target : String) : String :=
  let s := Text.trimBlanks target.toList
  let word := "#include".toList
  let s := if word.isPrefixOf s then Text.trimBlanks (s.drop word.length) else s
  String.ofList (unwrap (Text.trimBlanks (s.dropWhile (· == '#'))))

/-! ## The cache -/

/-- A parsed file that may be used again. -/
def fresh? (c : IncludeCache) (now : Instant) (path : String) : Option IncludedFile :=
  (Assoc.get? path c.files).filter fun f => Instant.within c.ttl f.loadedAt now

def store (c : IncludeCache) (f : IncludedFile) : IncludeCache :=
  { c with files := Assoc.set f.resolvedPath f c.files }

/-- Forgets a file, or all files. -/
def invalidate (c : IncludeCache) (path : Option String) : IncludeCache :=
  match path with
  | none => { c with files := [] }
  | some p => { c with files := Assoc.erase p c.files }

end IncludeCache

end PikeAnalysis
