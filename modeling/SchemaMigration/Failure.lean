import SchemaMigration.Json.Number
import SchemaMigration.Text.Visible

/-!
# Failures

Why a document cannot be read, why a file cannot be read or written, and why SQL cannot be
generated, each with the text that tells it. The faults of a document come in two groups: of syntax,
and of content, where the document is JSON but not what is wanted at that place. Where in its text a
fault shows is not part of the fault; a failure carries it beside the fault, if it is known.
-/

namespace SchemaMigration

namespace Json

/-- What stands where something else is wanted. -/
inductive Found where
  | null
  | bool (value : Bool)
  | number (value : Number)
  | string (value : String)
  | sequence
  | map
deriving DecidableEq

/-- How a message names what was found. -/
def Found.text : Found → String
  | null => "null"
  | bool value => "boolean `" ++ (if value then "true" else "false") ++ "`"
  | number (.integer i h) => "integer `" ++ (Number.integer i h).text ++ "`"
  | number (.real x) => "floating point `" ++ (Number.real x).text ++ "`"
  | string value => "string " ++ Text.cite value
  | sequence => "sequence"
  | map => "map"

/-- Why a document cannot be read. -/
inductive Fault where
  | endInValue
  | endInObject
  | endInList
  | endInString
  | expectedValue
  | expectedWord
  | expectedColon
  | expectedObjectEnd
  | expectedListEnd
  | keyNotString
  | trailingComma
  | trailingCharacters
  | invalidNumber
  | numberOutOfRange
  | controlCharacter
  | invalidEscape
  | loneSurrogate
  | unpairedSurrogate
  | tooDeep
  | wrongType (found : Found) (wanted : String)
  | wrongLength (length : Nat) (wanted : String)
  | missingField (name : String)
  | duplicateField (name : String)
  | unknownVariant (name : String) (known : List String)
  | notAnId
deriving DecidableEq

/-- The text of a fault. -/
def Fault.message : Fault → String
  | endInValue => "EOF while parsing a value"
  | endInObject => "EOF while parsing an object"
  | endInList => "EOF while parsing a list"
  | endInString => "EOF while parsing a string"
  | expectedValue => "expected value"
  | expectedWord => "expected ident"
  | expectedColon => "expected `:`"
  | expectedObjectEnd => "expected `,` or `\x7d`"
  | expectedListEnd => "expected `,` or `]`"
  | keyNotString => "key must be a string"
  | trailingComma => "trailing comma"
  | trailingCharacters => "trailing characters"
  | invalidNumber => "invalid number"
  | numberOutOfRange => "number out of range"
  | controlCharacter => "control character (\\u0000-\\u001F) found while parsing a string"
  | invalidEscape => "invalid escape"
  | loneSurrogate => "lone leading surrogate in hex escape"
  | unpairedSurrogate => "unexpected end of hex escape"
  | tooDeep => "recursion limit exceeded"
  | wrongType found wanted => "invalid type: " ++ found.text ++ ", expected " ++ wanted
  | wrongLength length wanted =>
    "invalid length " ++ toString length ++ ", expected " ++ wanted
  | missingField name => "missing field `" ++ name ++ "`"
  | duplicateField name => "duplicate field `" ++ name ++ "`"
  | unknownVariant name known =>
    "unknown variant `" ++ name ++ "`, expected one of " ++
      ", ".intercalate (known.map fun variant => "`" ++ variant ++ "`")
  | notAnId => "data did not match any variant of untagged enum ObjectId"

/-- A place in the text of a document. -/
structure Position where
  line : Nat
  column : Nat
deriving DecidableEq

/-- The text of a place behind that of a fault. -/
def Position.text (position : Position) : String :=
  " at line " ++ toString position.line ++ " column " ++ toString position.column

end Json

/-- Why a file cannot be read or written. -/
inductive FileFault where
  | notFound
  | isDirectory
  | notDirectory
  | alreadyThere
  | nameTooLong
  | notText
  | other (code : Nat) (details : String)
deriving DecidableEq

/-- The text of a fault, with the number under which the system knows it. -/
def FileFault.message : FileFault → String
  | notFound => "No such file or directory (os error 2)"
  | isDirectory => "Is a directory (os error 21)"
  | notDirectory => "Not a directory (os error 20)"
  | alreadyThere => "File exists (os error 17)"
  | nameTooLong => "File name too long (os error 36)"
  | notText => "stream did not contain valid UTF-8"
  | other code details => details ++ " (os error " ++ toString code ++ ")"

/-- The text that the bytes of a file spell. -/
def FileFault.decode (bytes : ByteArray) : Except FileFault String :=
  match String.fromUTF8? bytes with
  | some text => .ok text
  | none => .error .notText

/-- Why SQL cannot be generated. -/
inductive Failure where
  | noTargets
  | unsupportedTarget (name : String)
  | unsupportedType (type attr model : String)
  | document (fault : Json.Fault) (position : Option Json.Position)
  | file (fault : FileFault)
deriving DecidableEq

/-- The text of a failure. -/
def Failure.message : Failure → String
  | noTargets => "Invalid argument: Targets must contain at least one target"
  | unsupportedTarget name =>
    "Unsupported target '" ++ name ++ "', aborting DDL generation"
  | unsupportedType type attr model =>
    "Unsupported attribute type '" ++ type ++ "' for attribute '" ++ attr ++ "' in model '" ++
      model ++ "'"
  | document fault position =>
    "Serialization error: " ++ fault.message ++ (position.elim "" Json.Position.text)
  | file fault => "IO error: " ++ fault.message

/-- A reading of a document, with its fault as a failure. -/
def Failure.ofDocument {α : Type} (position : Option Json.Position)
    (reading : Except Json.Fault α) : Except Failure α :=
  reading.mapError (.document · position)

end SchemaMigration
