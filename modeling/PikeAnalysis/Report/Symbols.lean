import PikeAnalysis.Completion.Context
import PikeAnalysis.Failure
import PikeAnalysis.Positions.Index
import PikeAnalysis.Resolve.Model

/-!
# Reports on names

Symbols, and what is known about names, as JSON values.  A symbol leaves out what it does not have.

A report leaves nothing out that a symbol has and keeps the order of every list.  A field of a
symbol about which there is nothing to say is missing and never `null`; a symbol or a meaning that
does not exist is reported as `null` as a whole.
-/

namespace PikeAnalysis.Report

/-- Texts as a list. -/
def texts (xs : List String) : Json :=
  .arr (xs.map .str)

/-- A position as a pair. -/
def position (p : Position) : Json :=
  .arr [.int p.line, .int p.character]

/-! ## Symbols -/

/-- A field that may be missing. -/
def field? (key : String) (v : Option Json) : List (String × Json) :=
  (v.map fun v => (key, v)).toList

/-- A list of texts that is left out if it is empty. -/
def texts? (xs : List String) : Option Json :=
  if xs.isEmpty then none else some (texts xs)

mutual

/-- A symbol with the symbols inside it.  Fields without a value are left out. -/
def symbol : Symbol → Json
  | ⟨name, kind, place, type, modifiers, children, documentation, classname, qualified, file⟩ =>
    .obj <| [("name", .str name), ("kind", .str kind.text)]
      ++ field? "position" (place.map position)
      ++ field? "modifiers" (texts? modifiers)
      ++ field? "children" (match children with
        | [] => none
        | inner :: more => some (.arr (symbol inner :: symbols more)))
      ++ field? "type" (type.map .obj)
      ++ field? "documentation" (documentation.map .str)
      ++ field? "classname" (classname.map .str)
      ++ field? "qualified_name" (qualified.map .str)
      ++ field? "file" (file.map .str)

/-- The symbols of a list. -/
def symbols : List Symbol → List Json
  | [] => []
  | s :: rest => symbol s :: symbols rest

end

/-- A symbol, if there is one. -/
def symbol? (s : Option Symbol) : Json :=
  s.elim .null symbol

/-- The symbols of an index. -/
def indexed (index : List (String × Symbol)) : Json :=
  .arr (symbols (index.map (·.2)))

/-! ## Contexts and positions -/

/-- What a cursor stands in. -/
def context (c : CompletionContext) : Json :=
  let text (s : List Char) : Json := .str (String.ofList s)
  .obj [("context", .str c.kind.text), ("object", text c.object), ("prefix", text c.typed),
    ("operator", text c.operator)]

/-- The places of each name. -/
def positions (index : PositionIndex) : Json :=
  .arr (index.map fun e => .arr [.str e.1, .arr (e.2.map position)])

/-! ## Meanings -/

/-- What a name means. -/
def resolved (r : ResolvedSymbol) : Json :=
  .obj [("symbol", symbol r.symbol), ("origin", Json.ofText? r.origin),
    ("tier", .str r.tier.text)]

/-- What a name means, if it means anything. -/
def resolved? (r : Option ResolvedSymbol) : Json :=
  r.elim .null resolved

/-- What could not be followed. -/
def warnings (ws : List ResolutionWarning) : Json :=
  .arr (ws.map fun w =>
    .obj [("kind", .str w.kind), ("message", .str w.message), ("chain", texts w.chain)])

/-- What each name means. -/
def offered (r : Resolution) : Json :=
  .arr (r.symbols.map fun e => .arr [.str e.1, resolved e.2])

/-- A module of the standard library. -/
def module (m : StdlibModule) : Json :=
  .obj [("path", .str m.path), ("resolved_path", Json.ofText? m.resolvedPath),
    ("inherits", texts m.inherits), ("symbols", indexed m.symbols),
    ("size_bytes", .int m.sizeBytes)]

end PikeAnalysis.Report
