import PikeAnalysis.Shape.Check

/-!
# Payload models

The shapes of everything that goes over the wire: the request and response envelopes, and the result
of each method of the worker.  Unknown fields are ignored; fields with an alias are taken under the
alias or under their name.

A model is a list of fields, and a few kinds of field cover all of them: required, with a default,
nullable, and a list that may be left out.  The one recursive model is that of a declaration, whose
children are declarations again.  What it means for a value to have the shape of a model, and what
the checked value looks like, is the business of `PikeAnalysis.Shape.Check`.
-/

namespace PikeAnalysis.Wire

/-- The models of the wire format. -/
inductive Model where
  | request | responseError | response
  | position | symbol | introspected | inheritance | token | diagnostic | linePosition
  | uninitialized
  | parse | introspection | uninitializedResult | tokenize | analyzeFailure | analyzeSections
  | analyze | occurrence | occurrences | stdlibResolve | includeResolve | inheritedMembers
  | completionContext | debug
  deriving DecidableEq, Repr

/-- A required field. -/
def required (name : String) (shape : Shape) (rest : Fields) : Fields :=
  .cons name none none shape rest

/-- A field with a default. -/
def defaulted (name : String) (shape : Shape) (fallback : Json) (rest : Fields) : Fields :=
  .cons name none (some fallback) shape rest

/-- A field that is null unless it is given. -/
def nullable (name : String) (shape : Shape) (rest : Fields) : Fields :=
  .cons name none (some .null) (.optional shape) rest

/-- A list that is empty unless it is given. -/
def listed (name : String) (shape : Shape) (rest : Fields) : Fields :=
  .cons name none (some (.arr [])) (.list shape) rest

/-- The name of a model as issues spell it.  It is the name that a reader of the message will look
for. -/
def Model.name : Model → String
  | .request => "WireRequest"
  | .responseError => "WireError"
  | .response => "WireResponse"
  | .position => "WirePosition"
  | .symbol => "WireSymbol"
  | .introspected => "IntrospectedSymbol"
  | .inheritance => "InheritanceInfo"
  | .token => "WireToken"
  | .diagnostic => "WireDiagnostic"
  | .linePosition => "LinePosition"
  | .uninitialized => "UninitializedDiagnostic"
  | .parse => "ParseResult"
  | .introspection => "IntrospectionResult"
  | .uninitializedResult => "UninitializedResult"
  | .tokenize => "TokenizeResult"
  | .analyzeFailure => "AnalyzeFailure"
  | .analyzeSections => "AnalyzeSections"
  | .analyze => "AnalyzeResult"
  | .occurrence => "TokenOccurrence"
  | .occurrences => "FindOccurrencesResult"
  | .stdlibResolve => "StdlibResolveResult"
  | .includeResolve => "IncludeResolveResult"
  | .inheritedMembers => "InheritedMembersResult"
  | .completionContext => "WireCompletionContext"
  | .debug => "DebugResult"

/-- All models. -/
def Model.all : List Model :=
  [.request, .responseError, .response, .position, .symbol, .introspected, .inheritance, .token,
    .diagnostic, .linePosition, .uninitialized, .parse, .introspection, .uninitializedResult,
    .tokenize, .analyzeFailure, .analyzeSections, .analyze, .occurrence, .occurrences,
    .stdlibResolve, .includeResolve, .inheritedMembers, .completionContext, .debug]

/-! ## Fields -/

def responseErrorFields : Fields :=
  required "message" .text <| nullable "code" (.whole []) .nil

/-- A declaration found by introspection; it has no position. -/
def introspectedFields : Fields :=
  nullable "name" .text <|
  defaulted "kind" .text (.str "variable") <|
  nullable "type" (.table .any) <|
  listed "modifiers" .text <|
  nullable "documentation" .tableOrText <|
  nullable "inherited" .flag <|
  .cons "inherited_from" (some "inheritedFrom") (some .null) (.optional .text) .nil

def inheritanceFields : Fields :=
  required "path" .text <| nullable "program_id" .text <| nullable "source_name" .text <|
  nullable "label" .text .nil

/-- A token: its line from one, its character from zero or negative where it is not known. -/
def tokenFields : Fields :=
  required "text" .text <| required "line" (.whole []) <|
  defaulted "character" (.whole []) (.int (-1)) <| nullable "file" .wholeOrText .nil

/-- The position of a diagnostic that names none. -/
def unknownPosition : Json :=
  .obj [("file", .null), ("line", .int 1), ("column", .null)]

def positionShape : Shape := .model "WirePosition" Shape.positionFields

def diagnosticFields : Fields :=
  required "message" .text <| defaulted "severity" .text (.str "error") <|
  defaulted "position" positionShape unknownPosition <|
  .cons "end_position" (some "endPosition") (some .null) (.optional positionShape) .nil

def linePositionFields : Fields :=
  defaulted "line" (.whole []) (.int 1) <| defaulted "character" (.whole []) (.int 0) .nil

def uninitializedFields : Fields :=
  required "message" .text <| defaulted "severity" .text (.str "warning") <|
  nullable "position" (.model "LinePosition" linePositionFields) <|
  nullable "variable" .text <| nullable "type" .text <| nullable "state" .text .nil

def tokenShape : Shape := .model "WireToken" tokenFields

def diagnosticShape : Shape := .model "WireDiagnostic" diagnosticFields

def introspectedShape : Shape := .model "IntrospectedSymbol" introspectedFields

def inheritanceShape : Shape := .model "InheritanceInfo" inheritanceFields

def parseFields : Fields :=
  listed "symbols" .symbol <| listed "diagnostics" diagnosticShape <|
  nullable "tokens" (.list tokenShape) .nil

def introspectionFields : Fields :=
  defaulted "success" .flag (.bool false) <| listed "symbols" introspectedShape <|
  listed "functions" introspectedShape <| listed "variables" introspectedShape <|
  listed "classes" introspectedShape <| listed "inherits" inheritanceShape <|
  listed "diagnostics" diagnosticShape .nil

def uninitializedResultFields : Fields :=
  listed "diagnostics" (.model "UninitializedDiagnostic" uninitializedFields) .nil

def tokenizeFields : Fields :=
  listed "tokens" tokenShape .nil

def analyzeFailureFields : Fields :=
  required "message" .text <| defaulted "kind" .text (.str "") .nil

def analyzeSectionsFields : Fields :=
  nullable "parse" (.model "ParseResult" parseFields) <|
  nullable "introspect" (.model "IntrospectionResult" introspectionFields) <|
  nullable "diagnostics" (.model "UninitializedResult" uninitializedResultFields) <|
  nullable "tokenize" (.model "TokenizeResult" tokenizeFields) .nil

/-- The sections of an answer that has none. -/
def noSections : Json :=
  .obj [("parse", .null), ("introspect", .null), ("diagnostics", .null), ("tokenize", .null)]

def analyzeFields : Fields :=
  defaulted "result" (.model "AnalyzeSections" analyzeSectionsFields) noSections <|
  defaulted "failures" (.table (.model "AnalyzeFailure" analyzeFailureFields)) (.obj []) .nil

def occurrenceFields : Fields :=
  required "text" .text <| required "line" (.whole []) <| required "character" (.whole []) .nil

def occurrencesFields : Fields :=
  listed "occurrences" (.model "TokenOccurrence" occurrenceFields) .nil

def stdlibResolveFields : Fields :=
  defaulted "found" .flag (.bool false) <| nullable "path" .text <| nullable "module" .text <|
  listed "symbols" introspectedShape <| listed "functions" introspectedShape <|
  listed "variables" introspectedShape <| listed "classes" introspectedShape <|
  listed "inherits" inheritanceShape <| nullable "error" .text .nil

def includeResolveFields : Fields :=
  defaulted "path" .text (.str "") <| defaulted "exists" .flag (.bool false) <|
  .cons "original_path" (some "originalPath") (some (.str "")) .text .nil

def inheritedMembersFields : Fields :=
  defaulted "found" .flag (.bool false) <| listed "members" introspectedShape .nil

def completionContextFields : Fields :=
  defaulted "context" (.choice ["none", "global", "member_access", "scope_access", "identifier"])
    (.str "none") <|
  .cons "object_name" (some "objectName") (some (.str "")) .text <|
  defaulted "prefix" .text (.str "") <|
  defaulted "operator" (.choice ["->", ".", "::", ""]) (.str "") .nil

/-- The fields of a model.  One table for all models, so a property of reading is proved once for
shapes and not for each model. -/
def Model.fields : Model → Fields
  | .request =>
    required "id" (.whole []) <| required "method" .text <|
    defaulted "params" (.table .any) (.obj []) .nil
  | .responseError => responseErrorFields
  | .response =>
    required "id" (.whole []) <| defaulted "result" .any .null <|
    nullable "error" (.model "WireError" responseErrorFields) .nil
  | .position => Shape.positionFields
  | .symbol => Shape.symbolFields
  | .introspected => introspectedFields
  | .inheritance => inheritanceFields
  | .token => tokenFields
  | .diagnostic => diagnosticFields
  | .linePosition => linePositionFields
  | .uninitialized => uninitializedFields
  | .parse => parseFields
  | .introspection => introspectionFields
  | .uninitializedResult => uninitializedResultFields
  | .tokenize => tokenizeFields
  | .analyzeFailure => analyzeFailureFields
  | .analyzeSections => analyzeSectionsFields
  | .analyze => analyzeFields
  | .occurrence => occurrenceFields
  | .occurrences => occurrencesFields
  | .stdlibResolve => stdlibResolveFields
  | .includeResolve => includeResolveFields
  | .inheritedMembers => inheritedMembersFields
  | .completionContext => completionContextFields
  | .debug =>
    defaulted "debug_mode" (.whole []) (.int 0) <| defaulted "message" .text (.str "") .nil

/-- The shape of a model. -/
def Model.shape (m : Model) : Shape :=
  .model m.name m.fields

/-- Reads a payload as a model; the result holds every field under its name. -/
def Model.read (m : Model) (v : Json) : Except Issue Json :=
  Shape.check m.shape v

end PikeAnalysis.Wire
