import TypedConfig.Document.Reader
import TypedConfig.Json

/-!
Why a document cannot be bound.  Every failure ends the whole reading; there is no partial result.
An error is a cause with what its wording needs, and with the position it was met at, if it has
one.
-/

namespace TypedConfig

/-- A line and a column, both counted from one. -/
structure Position where
  line : Nat
  column : Nat
deriving DecidableEq, Repr

/-- The position of a span is that of its start. -/
def Span.position (span : Span) : Position := ⟨span.line, span.column⟩

/-- The kinds of errors. -/
inductive ErrorCode where
  | syntaxError
  | schemaError
  | structuralMismatch
  | unknownField
  | typeMismatch
  | numberDecode
  | durationDecode
  | sourceUnreadable
deriving DecidableEq, Repr

def ErrorCode.name : ErrorCode → String
  | .syntaxError => "SyntaxError"
  | .schemaError => "SchemaError"
  | .structuralMismatch => "StructuralMismatch"
  | .unknownField => "UnknownField"
  | .typeMismatch => "TypeMismatch"
  | .numberDecode => "NumberDecode"
  | .durationDecode => "DurationDecode"
  | .sourceUnreadable => "SourceUnreadable"

/-- A cause of failure. -/
inductive ConfigError where
  /-- The text is not a document. -/
  | malformed (message : String) (position : Position)
  /-- A type is declared in a way that no schema can follow. -/
  | invalidSchema (typeName message : String)
  /-- A container stands where something else was expected. -/
  | structure (found expected : String) (position : Position)
  /-- A field has a name that its object does not accept. -/
  | unknownField (name : String) (accepted : List String) (position : Position)
  /-- A value has a type that its place does not accept. -/
  | typeMismatch (actual expected : String) (position : Position)
  /-- The text of a number stands for no value of its kind. -/
  | number (kind text : String) (position : Position)
  /-- The text of a duration stands for no period. -/
  | duration (text : String) (position : Position)
  /-- The source of the text cannot be read. -/
  | unreadable
deriving DecidableEq, Repr

namespace ConfigError

def code : ConfigError → ErrorCode
  | .malformed .. => .syntaxError
  | .invalidSchema .. => .schemaError
  | .structure .. => .structuralMismatch
  | .unknownField .. => .unknownField
  | .typeMismatch .. => .typeMismatch
  | .number .. => .numberDecode
  | .duration .. => .durationDecode
  | .unreadable => .sourceUnreadable

def position : ConfigError → Option Position
  | .malformed _ position => some position
  | .structure _ _ position => some position
  | .unknownField _ _ position => some position
  | .typeMismatch _ _ position => some position
  | .number _ _ position => some position
  | .duration _ position => some position
  | .invalidSchema .. => none
  | .unreadable => none

def placeText (position : Position) : String :=
  toString position.line ++ ":" ++ toString position.column

def message : ConfigError → String
  | .malformed message position =>
    "Unable to parse configuration: " ++ message ++ " (at line:" ++ toString position.line
      ++ " pos:" ++ toString position.column ++ ")"
  | .invalidSchema typeName message =>
    "Invalid configuration schema for type " ++ typeName ++ ": " ++ message
  | .structure found expected position =>
    "Found " ++ found ++ " where " ++ expected ++ " was expected at " ++ placeText position
  | .unknownField name accepted position =>
    "Unexpected option '" ++ name ++ "' at " ++ placeText position ++ ". Expected one of: ["
      ++ ", ".intercalate accepted ++ "]"
  | .typeMismatch actual expected position =>
    "Unexpected type '" ++ actual ++ "' at " ++ placeText position ++ ". Expected: " ++ expected
  | .number kind text position =>
    kind ++ " value " ++ text ++ " can not be parsed (at " ++ placeText position ++ ")"
  | .duration text position =>
    "Unable to parse duration value:'" ++ text ++ "' - Not in a known format (at "
      ++ placeText position ++ ")"
  | .unreadable => "Unable to read configuration data from source"

end ConfigError

def Document.Fault.toError (fault : Document.Fault) : ConfigError :=
  .malformed fault.message ⟨fault.cursor.place.line, fault.cursor.place.column⟩

/-- Reads a text as a document. -/
def Document.parse (text : String) : Except ConfigError Document :=
  (Document.ofText text.toList).mapError Document.Fault.toError

/-!
Diagnostics: errors as tools and people are shown them.
-/

/-- An error as it is shown.  Its severity is always that of an error. -/
structure Diagnostic where
  code : ErrorCode
  message : String
  position : Option Position
deriving DecidableEq, Repr

namespace Diagnostic

def ofError (error : ConfigError) : Diagnostic :=
  ⟨error.code, error.message, error.position⟩

/-- The JSON form of a diagnostic, its members sorted by name. -/
def toJson (diagnostic : Diagnostic) : Json :=
  .object [("code", .string diagnostic.code.name), ("message", .string diagnostic.message),
    ("severity", .string "Error"),
    ("span", match diagnostic.position with
      | some position =>
        .object [("column", .integer position.column), ("line", .integer position.line)]
      | none => .null)]

/-- The two lines that show a diagnostic of a source. -/
def lines (source : String) (diagnostic : Diagnostic) : String :=
  let place := match diagnostic.position with
    | some position => source ++ ":" ++ ConfigError.placeText position
    | none => source
  "error[" ++ diagnostic.code.name ++ "]: " ++ diagnostic.message ++ "\n  --> " ++ place ++ "\n"

end Diagnostic

end TypedConfig
