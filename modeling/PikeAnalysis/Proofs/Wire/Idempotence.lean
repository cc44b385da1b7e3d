import Mathlib
import PikeAnalysis.Proofs.Shape.Reading
import PikeAnalysis.Wire.Model

/-!
# Reading payloads

What a payload is read as is itself a payload of its model, with every default filled in and every
number and flag in its own type, and it is read as itself.  What a model does not know changes
nothing, at any depth.

For each model it has to be shown that its shape is regular: keys are distinct, defaults read as
themselves, and the shapes of its fields are regular.  The first two are checked for all models at
once; the last follows the nesting of the models, from those that are only read within others up to
the answers themselves.  Symbols nest in themselves, and are dealt with in
`Proofs/Shape/Reading.lean`.
-/

namespace PikeAnalysis.Wire

open Shape

/-- The fields of a model are told apart by their keys. -/
theorem distinct_keys (m : Model) : (m.fields.list.flatMap Field.keys).Nodup := by
  cases m <;> decide

/-- The position of a diagnostic that names none is a position. -/
theorem check_unknownPosition : check positionShape unknownPosition = .ok unknownPosition := by
  have read : checkFields positionFields [("file", .null), ("line", .int 1), ("column", .null)] =
      .ok [("file", .null), ("line", .int 1), ("column", .null)] := by
    rw [checkFields_eq_ok]
    simp [positionFields, Fields.list, Takes, given?, Json.lookup, check, readWhole]
  rw [positionShape, unknownPosition, check, read]
  rfl

/-- The sections of an answer that has none are sections. -/
theorem check_noSections : check (.model "AnalyzeSections" analyzeSectionsFields) noSections =
    .ok noSections := by
  have read : checkFields analyzeSectionsFields
      [("parse", .null), ("introspect", .null), ("diagnostics", .null), ("tokenize", .null)] =
      .ok [("parse", .null), ("introspect", .null), ("diagnostics", .null),
        ("tokenize", .null)] := by
    rw [checkFields_eq_ok]
    simp [analyzeSectionsFields, nullable, Fields.list, Takes, given?, Json.lookup, check]
  rw [noSections, check, read]
  rfl

/-- Every default has the shape of its field.  So to write a default out is to leave its field
out. -/
theorem check_default (m : Model) :
    ∀ f ∈ m.fields.list, ∀ d, f.fallback = some d → check f.shape d = .ok d := by
  cases m with
  | symbol => exact regular_symbol.defaults
  | position => exact regular_position.defaults
  | diagnostic =>
    simp [Model.fields, diagnosticFields, required, defaulted, Fields.list,
      check_unknownPosition, check]
  | analyze =>
    simp [Model.fields, analyzeFields, defaulted, Fields.list, check_noSections,
      check, checkEntries, Except.map]
  | _ =>
    simp [Model.fields, required, defaulted, nullable, listed, Fields.list, check,
      checkItems, checkEntries,
      Except.map, readWhole, readFlag, responseErrorFields, introspectedFields,
        inheritanceFields, tokenFields,
      linePositionFields, uninitializedFields, parseFields, introspectionFields,
        uninitializedResultFields,
      tokenizeFields, analyzeFailureFields, analyzeSectionsFields,
        occurrenceFields, occurrencesFields,
      stdlibResolveFields, includeResolveFields, inheritedMembersFields, completionContextFields]

/-- A model is regular if what is read under its fields is. -/
theorem regular_of_shapes (m : Model) (shapes : ∀ f ∈ m.fields.list, Regular f.shape) :
    Regular m.shape :=
  .model (distinct_keys m) shapes (check_default m)

/-! ## Models that are read within others -/

theorem regular_positionShape : Regular positionShape :=
  regular_of_shapes .position regular_position.shapes

theorem regular_responseError : Regular (.model "WireError" responseErrorFields) :=
  regular_of_shapes .responseError
    (by simp [Model.fields, responseErrorFields, required, nullable, Fields.list])

theorem regular_introspected : Regular introspectedShape :=
  regular_of_shapes .introspected
    (by simp [Model.fields, introspectedFields, defaulted, nullable, listed, Fields.list])

theorem regular_inheritance : Regular inheritanceShape :=
  regular_of_shapes .inheritance
    (by simp [Model.fields, inheritanceFields, required, nullable, Fields.list])

theorem regular_token : Regular tokenShape :=
  regular_of_shapes .token
    (by simp [Model.fields, tokenFields, required, defaulted, nullable, Fields.list])

theorem regular_diagnostic : Regular diagnosticShape :=
  regular_of_shapes .diagnostic
    (by simp [Model.fields, diagnosticFields, required, defaulted, Fields.list,
      regular_positionShape])

theorem regular_uninitialized : Regular (.model "UninitializedDiagnostic" uninitializedFields) := by
  have position : Regular (.model "LinePosition" linePositionFields) :=
    regular_of_shapes .linePosition
      (by simp [Model.fields, linePositionFields, defaulted, Fields.list])
  exact regular_of_shapes .uninitialized
    (by simp [Model.fields, uninitializedFields, required, defaulted, nullable,
      Fields.list, position])

theorem regular_parse : Regular (.model "ParseResult" parseFields) :=
  regular_of_shapes .parse (by
    simp [Model.fields, parseFields, nullable, listed, Fields.list,
      regular_diagnostic, regular_token])

theorem regular_introspection : Regular (.model "IntrospectionResult" introspectionFields) :=
  regular_of_shapes .introspection (by
    simp [Model.fields, introspectionFields, defaulted, listed, Fields.list, regular_introspected,
      regular_inheritance, regular_diagnostic])

theorem regular_uninitializedResult :
    Regular (.model "UninitializedResult" uninitializedResultFields) :=
  regular_of_shapes .uninitializedResult (by
    simp [Model.fields, uninitializedResultFields, listed, Fields.list, regular_uninitialized])

theorem regular_tokenize : Regular (.model "TokenizeResult" tokenizeFields) :=
  regular_of_shapes .tokenize
    (by simp [Model.fields, tokenizeFields, listed, Fields.list, regular_token])

theorem regular_analyzeSections : Regular (.model "AnalyzeSections" analyzeSectionsFields) :=
  regular_of_shapes .analyzeSections (by
    simp [Model.fields, analyzeSectionsFields, nullable, Fields.list, regular_parse,
      regular_introspection, regular_uninitializedResult, regular_tokenize])

theorem regular_analyzeFailure : Regular (.model "AnalyzeFailure" analyzeFailureFields) :=
  regular_of_shapes .analyzeFailure
    (by simp [Model.fields, analyzeFailureFields, required, defaulted, Fields.list])

theorem regular_occurrence : Regular (.model "TokenOccurrence" occurrenceFields) :=
  regular_of_shapes .occurrence (by simp [Model.fields, occurrenceFields, required, Fields.list])

/-! ## All models -/

theorem regular_shape (m : Model) : Regular m.shape := by
  cases m with
  | responseError => exact regular_responseError
  | position => exact regular_positionShape
  | introspected => exact regular_introspected
  | inheritance => exact regular_inheritance
  | token => exact regular_token
  | diagnostic => exact regular_diagnostic
  | uninitialized => exact regular_uninitialized
  | parse => exact regular_parse
  | introspection => exact regular_introspection
  | uninitializedResult => exact regular_uninitializedResult
  | tokenize => exact regular_tokenize
  | analyzeFailure => exact regular_analyzeFailure
  | analyzeSections => exact regular_analyzeSections
  | occurrence => exact regular_occurrence
  | symbol => exact regular_of_shapes .symbol regular_symbol.shapes
  | request | response | linePosition | analyze | occurrences | stdlibResolve | includeResolve
  | inheritedMembers | completionContext | debug =>
    refine regular_of_shapes _ ?_
    simp [Model.fields, required, defaulted, nullable, listed, Fields.list,
      linePositionFields, analyzeFields,
      occurrencesFields, stdlibResolveFields, includeResolveFields, inheritedMembersFields,
      completionContextFields, regular_responseError, regular_introspected, regular_inheritance,
      regular_analyzeSections, regular_analyzeFailure, regular_occurrence]

/-- What a payload is read as is read as itself, and further keys in it, at any depth where a model
is expected, change nothing.  `m` is any of the models of the wire format, the recursive one of
declarations among them.  `Padded` is about keys that the model does not read, under its names or
its aliases, so the second half says that a newer worker may send more than is known here. -/
theorem reading_is_idempotent (m : Model) {d w : Json} (read : m.read d = .ok w) :
    m.read w = .ok w ∧ ∀ d', Padded m.shape d d' → m.read d' = .ok w :=
  ⟨(regular_shape m).again read, fun _ padded => ((regular_shape m).padded padded w).mp read⟩

/-- What the parser found: a symbol with another inside it, whose fields are as given. -/
def nested (inner : List (String × Json)) : Json :=
  .obj [("symbols", .arr [.obj [("inheritedFrom", .str "base"), ("inherited", .str "Yes"),
    ("position", .obj [("line", .str " 3 ")]), ("children", .arr [.obj inner])]])]

/-- A symbol that is read from its name alone. -/
def symbolNamed (name : String) : Json :=
  .obj [("name", .str name), ("kind", .str "variable"), ("modifiers", .arr []), ("position", .null),
    ("type", .null), ("children", .arr []), ("inherited", .null), ("inherited_from", .null),
    ("classname", .null), ("documentation", .null)]

/-- What `nested` is read as. -/
def nestedRead : Json :=
  .obj [("symbols", .arr [.obj [("name", .null), ("kind", .str "variable"), ("modifiers", .arr []),
    ("position", .obj [("file", .null), ("line", .int 3), ("column", .null)]), ("type", .null),
    ("children", .arr [symbolNamed "f"]), ("inherited", .bool true),
      ("inherited_from", .str "base"),
    ("classname", .null), ("documentation", .null)]]), ("diagnostics", .arr []), ("tokens", .null)]

/-- A key that symbols do not have, in a symbol inside another. -/
theorem nested_symbol_is_read_again :
    Model.parse.read (nested [("name", .str "f")]) = .ok nestedRead ∧
      Model.parse.read nestedRead = .ok nestedRead ∧
      Model.parse.read (nested [("name", .str "f"), ("column", .str "x")]) = .ok nestedRead := by
  have read : Model.parse.read (nested [("name", .str "f")]) = .ok nestedRead := by cbv
  obtain ⟨again, padded⟩ := reading_is_idempotent .parse read
  refine ⟨read, again, padded _ (.single ?_)⟩
  have child :
      Pads .symbol (.obj [("name", .str "f")]) (.obj [("name", .str "f"), ("column", .str "x")]) :=
    .key rfl (by decide) [("name", .str "f")] [] (.str "x")
  have children :=
    Pads.field (s := .symbol) (f := ⟨"children", none, some (.arr []), .list .symbol⟩) rfl
    (by simp [symbolFields, Fields.list]) (List.mem_cons_self (a := "children")) (.item child [] [])
    [("inheritedFrom", .str "base"), ("inherited", .str "Yes"),
      ("position", .obj [("line", .str " 3 ")])] []
  exact .field (f := ⟨"symbols", none, some (.arr []), .list .symbol⟩) rfl
    (by simp [Model.fields, parseFields, listed, Fields.list]) (List.mem_cons_self (a := "symbols"))
    (.item children [] []) [] []

end PikeAnalysis.Wire
