import PikeAnalysis.Path
import PikeAnalysis.Text.Utf8
import PikeAnalysis.Json.Literal
import PikeAnalysis.Symbol.TypeName
import PikeAnalysis.Text.Lines
import PikeAnalysis.Json.Reader

/-!
# Document addresses

Documents are named by URIs.  A URI of the `file` scheme names a path, percent-decoded; any other
text stands for itself.  Taking one apart fails when its authority is malformed, so the two
notations of numeric host addresses are read, too: four decimal numbers between dots, and eight
hexadecimal groups between colons with at most one run of groups left out.

The ways to and from a path are inverse to each other on normalized paths, for every character that
a name can hold: what is not plain is written as the escapes of its bytes.  In the other direction
an address may be malformed, and then taking it apart is a fault that the caller has to deal with.
-/

namespace PikeAnalysis.HostAddress

/-- A decimal number up to 255 without leading zeros. -/
def isOctet (s : List Char) : Bool :=
  !s.isEmpty && s.all Char.isDigit && s.length ≤ 3 && (s.head? != some '0' || s == ['0'])
    && Json.digitsValue s ≤ 255

/-- Four numbers between dots. -/
def isDotted (s : List Char) : Bool :=
  let octets := Text.splitOn '.' s
  octets.length == 4 && octets.all isOctet

/-- Up to four hexadecimal digits. -/
def isGroup (s : List Char) : Bool :=
  !s.isEmpty && s.length ≤ 4 && s.all fun c => (Json.hexDigit? c).isSome

/-- The groups with a dotted address at the end counted as two; none if that is no address. -/
def withoutDotted (groups : List (List Char)) : Option (List (List Char)) :=
  match groups.getLast? with
  | some last =>
    if last.contains '.' then
      if isDotted last then some (groups.dropLast ++ [['0'], ['0']]) else none
    else some groups
  | none => some groups

/-- Whether the groups stand for eight, with at most one gap between the first and the last. -/
def areEightGroups (groups : List (List Char)) : Bool :=
  let inner := groups.tail.dropLast
  let gaps := inner.countP (·.isEmpty)
  if groups.length > 9 ∨ gaps > 1 then false
  else if gaps = 1 then
    let skip := 1 + inner.findIdx (·.isEmpty)
    let before := groups.take skip
    let after := groups.drop (skip + 1)
    let before := if before == [[]] then [] else before
    let after := if after == [[]] then [] else after
    before.all isGroup && after.all isGroup && before.length + after.length < 8
  else groups.length == 8 && groups.all isGroup

/-- Hexadecimal groups between colons, and possibly a zone behind a percent sign. -/
def isColoned (s : List Char) : Bool :=
  let address := s.takeWhile (· != '%')
  let zone := s.drop address.length
  let zoneOk := match zone with
    | [] => true
    | _ :: name => !name.isEmpty && !name.contains '%'
  let groups := Text.splitOn ':' address
  zoneOk && groups.length ≥ 3 &&
    match withoutDotted groups with
    | some gs => areEightGroups gs
    | none => false

end PikeAnalysis.HostAddress

namespace PikeAnalysis.Uri

/-! ## Taking apart -/

/-- The parts of a URI that matter here. -/
structure Parts where
  scheme : List Char
  path : List Char

/-- Controls and the space. -/
def isControlOrSpace (c : Char) : Bool :=
  c.toNat ≤ 32

def isSchemeChar (c : Char) : Bool :=
  c.isAlphanum || c == '+' || c == '-' || c == '.'

/-- The scheme in lower case and what follows it; no scheme if there is none. -/
def splitScheme (s : List Char) : List Char × List Char :=
  let name := s.takeWhile (· != ':')
  match s.drop name.length, name.head? with
  | _ :: rest, some c =>
    if c.isAlpha && name.all isSchemeChar then (name.map Char.toLower, rest) else ([], s)
  | _, _ => ([], s)

/-- Characters whose compatibility form holds a delimiter. -/
def disguised : List Nat :=
  [0x2047, 0x2048, 0x2049, 0x2100, 0x2101, 0x2105, 0x2106, 0x2A74, 0xFE13, 0xFE16, 0xFE55, 0xFE56,
    0xFE5F, 0xFE6B, 0xFF03, 0xFF0F, 0xFF1A, 0xFF1F, 0xFF20]

/-- A version-numbered address of a kind not known yet. -/
def isFutureAddress : List Char → Bool
  | 'v' :: rest =>
    let version := rest.takeWhile fun c => (Json.hexDigit? c).isSome
    match rest.drop version.length with
    | '.' :: address => !version.isEmpty && !address.isEmpty && !address.contains '\n'
    | _ => false
  | _ => false

/-- The address between the brackets of an authority must be numeric and not dotted. -/
def checkBracketed (host : List Char) : Except Fault Unit :=
  if host.head? = some 'v' then
    if isFutureAddress host then .ok ()
    else .error (.badAddress "IPvFuture address is invalid")
  else if HostAddress.isDotted host then
    .error (.badAddress "An IPv4 address cannot be in brackets")
  else if HostAddress.isColoned host then .ok ()
  else
    .error (.badAddress
      (String.ofList (Json.literalText (String.ofList host))
        ++ " does not appear to be an IPv4 or IPv6 address"))

/-- Brackets in an authority come in pairs around a numeric address. -/
def checkBrackets (authority : List Char) : Except Fault Unit :=
  let opened := authority.contains '['
  let closed := authority.contains ']'
  if opened != closed then .error (.badAddress "Invalid IPv6 URL")
  else if opened then
    checkBracketed (((authority.dropWhile (· != '[')).drop 1).takeWhile (· != ']'))
  else .ok ()

/-- An authority holds no character that stands for a delimiter. -/
def checkDisguised (authority : List Char) : Except Fault Unit :=
  if authority.any fun c => disguised.contains c.toNat then
    .error (.badAddress ("netloc '" ++ String.ofList authority
      ++ "' contains invalid characters under NFKC normalization"))
  else .ok ()

/-- The text before the first delimiter of a class, and the rest. -/
def splitAuthority (s : List Char) : List Char × List Char :=
  s.span fun c => c != '/' && c != '?' && c != '#'

/-- The scheme and path of a URI.  Leading controls and blanks, and tabs and line ends anywhere, do
not count. -/
def parts (uri : String) : Except Fault Parts := do
  let s := (uri.toList.dropWhile isControlOrSpace).filter fun c =>
    c != '\t' && c != '\r' && c != '\n'
  let (scheme, rest) := splitScheme s
  let (authority, rest) ←
    match rest with
    | '/' :: '/' :: more => do
      let (authority, rest) := splitAuthority more
      checkBrackets authority
      pure (authority, rest)
    | _ => pure ([], rest)
  let path := (rest.takeWhile (· != '#')).takeWhile (· != '?')
  checkDisguised authority
  return { scheme, path }

/-! ## Percent encoding -/

/-- The value of two hexadecimal digits. -/
def hexByte? (a b : Char) : Option UInt8 := do
  let x ← Json.hexDigit? a
  let y ← Json.hexDigit? b
  return (16 * x + y).toUInt8

/-- The bytes of an ASCII text with its escapes decoded; a percent sign that starts none is kept. -/
def unescape : List Char → List UInt8
  | [] => []
  | '%' :: a :: b :: rest =>
    match hexByte? a b with
    | some n => n :: unescape rest
    | none => 37 :: unescape (a :: b :: rest)
  | c :: rest => c.toNat.toUInt8 :: unescape rest

/-- Whether two neighbours are both inside ASCII or both outside it. -/
def sameSide (a b : Char) : Bool :=
  decide (a.toNat < 128) == decide (b.toNat < 128)

/-- A text with its escapes decoded.  Each run of ASCII is decoded by itself, and bytes that are no
text become the replacement character. -/
def decode (s : List Char) : List Char :=
  if s.contains '%' then
    (s.splitBy sameSide).flatMap fun run =>
      match run with
      | c :: _ => if c.toNat < 128 then Text.utf8Decode (unescape run) else run
      | [] => []
  else s

/-- Characters that are written as they are. -/
def isPlain (n : UInt8) : Bool :=
  let c := Char.ofNat n.toNat
  n < 128 && (c.isAlphanum || c == '_' || c == '.' || c == '-' || c == '~' || c == '/')

/-- The escape of a byte. -/
def escapeByte (n : UInt8) : List Char :=
  if isPlain n then [Char.ofNat n.toNat]
  else '%' :: (Json.hexDigits 2 n.toNat).map Char.toUpper

/-- A text with everything but the plain characters escaped. -/
def encode (s : List Char) : List Char :=
  (Text.utf8Encode s).flatMap escapeByte

/-! ## Addresses and paths -/

/-- The path that a document address names. -/
def toPath (uri : String) : Except Fault String := do
  let p ← parts uri
  if p.scheme = "file".toList then return String.ofList (decode p.path) else return uri

/-- The address of a path, seen from the directory `base`. -/
def ofPath (base : Path) (path : String) : String :=
  "file://" ++ String.ofList (encode (Path.resolve base (Path.ofText path)).text.toList)

/-- The name under which a document can be imported: its file name without the extension. -/
def stem (uri : String) : Except Fault String := do
  return (Path.ofText (← toPath uri)).stem

end PikeAnalysis.Uri
