import PikeAnalysis.Text.Lines
import PikeAnalysis.Assoc

/-!
# Paths and files

Paths as a root and named parts.  Empty parts and single dots are dropped when a path is read; two
dots are kept until the path is made absolute.  No name is taken for a link.  The files that a
program can see are their bytes and whether they can be run, by absolute path; the directories are
those that files lie in, and further ones that may be empty.

Paths are compared and looked up by their parts, so two spellings of one path are one key.  Making a
path absolute is a matter of the text alone: two dots take back the name before them, whatever that
name is on a disk.
-/

namespace PikeAnalysis

/-- A path: what it starts from and the names below it. -/
structure Path where
  /-- Nothing, one slash, or two. -/
  root : List Char
  parts : List (List Char)
  deriving DecidableEq, Repr, Inhabited

namespace Path

/-- The root that a text starts with.  Exactly two slashes are a root of their own. -/
def rootOf : List Char → List Char
  | '/' :: '/' :: '/' :: _ => ['/']
  | '/' :: '/' :: _ => ['/', '/']
  | '/' :: _ => ['/']
  | _ => []

/-- The path that a text denotes. -/
def ofText (s : String) : Path :=
  { root := rootOf s.toList
    parts := (Text.splitOn '/' s.toList).filter fun p => !p.isEmpty && p != ['.'] }

/-- The shortest text of a path. -/
def text (p : Path) : String :=
  if p.root.isEmpty && p.parts.isEmpty then "."
  else String.ofList (p.root ++ Text.joinWith ['/'] p.parts)

def isAbsolute (p : Path) : Bool :=
  !p.root.isEmpty

/-- The path `q` seen from `p`. -/
def join (p q : Path) : Path :=
  if q.isAbsolute then q else { p with parts := p.parts ++ q.parts }

/-- The last name of a path; empty for a bare root. -/
def name (p : Path) : List Char :=
  p.parts.getLast?.getD []

/-- A name without its last extension.  A dot at either end starts none. -/
def stemOf (name : List Char) : List Char :=
  match Text.cutLast '.' name with
  | some (before, after) => if before.isEmpty || after.isEmpty then name else before
  | none => name

/-- The last name without its extension. -/
def stem (p : Path) : String :=
  String.ofList (stemOf p.name)

/-- The parts with every two dots taken back one name; above the root there is nothing. -/
def climb : List (List Char) → List (List Char) → List (List Char)
  | done, [] => done
  | done, ['.', '.'] :: rest => climb done.dropLast rest
  | done, part :: rest => climb (done ++ [part]) rest

/-- The absolute path without two dots that a path denotes in the directory `base`. -/
def resolve (base p : Path) : Path :=
  { root := ['/'], parts := climb [] (base.join p).parts }

end Path

/-! ## Files -/

/-- A regular file. -/
structure FileContent where
  bytes : List UInt8
  executable : Bool := false

/-- The files below a current directory and elsewhere, by the parts of their absolute path. -/
structure FileTree where
  /-- The directory in which relative paths are looked up. -/
  cwd : Path
  files : List (List (List Char) × FileContent) := []
  directories : List (List (List Char)) := []

namespace FileTree

/-- The parts of the absolute path that a text denotes. -/
def key (t : FileTree) (path : String) : List (List Char) :=
  (Path.resolve t.cwd (Path.ofText path)).parts

/-- The file at a path. -/
def file? (t : FileTree) (path : String) : Option FileContent :=
  Assoc.get? (t.key path) t.files

def isFile (t : FileTree) (path : String) : Bool :=
  (t.file? path).isSome

/-- Whether a path leads to a directory. -/
def isDirectory (t : FileTree) (path : String) : Bool :=
  let k := t.key path
  k.isPrefixOf t.cwd.parts || (t.files.any fun f => k.isPrefixOf f.1 && k != f.1)
    || t.directories.any k.isPrefixOf

def put (t : FileTree) (path : String) (content : FileContent) : FileTree :=
  { t with files := Assoc.set (t.key path) content t.files }

/-- Notes that there is a directory at a path. -/
def putDirectory (t : FileTree) (path : String) : FileTree :=
  { t with directories := t.key path :: t.directories }

def delete (t : FileTree) (path : String) : FileTree :=
  { t with files := Assoc.erase (t.key path) t.files }

end FileTree

end PikeAnalysis
