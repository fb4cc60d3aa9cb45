import SchemaMigration.Json.Printer
import SchemaMigration.Json.Record
import SchemaMigration.Schema.Basic

/-!
# Schema documents

How a schema and its parts are written as JSON, and how they are read back. What an attribute does
not have (bounds, a default) is left out when it is written, and may be left out or null when it is
read; flags and lists may be left out too.
-/

namespace SchemaMigration

open Json Json.Scan

/-- An identifier as JSON: a number or a string. -/
def ObjectId.toJson : ObjectId → Value
  | .number value => .number (.integer value.toInt
      ⟨value.minValue_le_toInt, Int.lt_of_le_of_lt value.toInt_le (by decide)⟩)
  | .text value => .string value

/-- A type as JSON: its name. -/
def AttributeType.toJson (type : AttributeType) : Value := .string type.name

/-- A handle as JSON. -/
def Handle.toJson (h : Handle) : Value := .object [("id", h.id.toJson), ("name", .string h.name)]

/-- A member, if there is a value for it. -/
def memberOf (key : String) (value : Option Value) : List (String × Value) :=
  value.toList.map fun v => (key, v)

/-- An attribute as JSON. -/
def Attribute.toJson (a : Attribute) : Value :=
  .object ([("id", a.id.toJson), ("name", .string a.name), ("type", a.type.toJson),
      ("isRequired", .bool a.required), ("isUnique", .bool a.unique)] ++
    memberOf "min" (a.min.map .number) ++ memberOf "max" (a.max.map .number) ++
    memberOf "defaultValue" a.defaultValue)

/-- A model as JSON. -/
def Model.toJson (m : Model) : Value :=
  .object [("id", m.id.toJson), ("name", .string m.name),
    ("attributes", .array (m.attributes.map Attribute.toJson))]

/-- A schema as JSON. -/
def Schema.toJson (s : Schema) : Value :=
  .object [("models", .array (s.models.map Model.toJson))]

/-- The identifier that a value is: a number that 64 bits hold with a sign, or a string. -/
def ObjectId.ofValue? : Value → Option ObjectId
  | .number (.integer i _) =>
    if i ≤ Int64.maxValue.toInt then some (.number (Int64.ofInt i)) else none
  | .string value => some (.text value)
  | _ => none

/-- Reads an identifier. The value is read to its end before it is judged. -/
def ObjectId.read (setting : Setting) : Scan ObjectId := do
  match ObjectId.ofValue? (← value setting.levels) with
  | some id => return id
  | none => throw .notAnId

/-- Reads a name. -/
def Json.Scan.readName : Scan String := stringToken "a string"

/-- Reads a type. -/
def AttributeType.read : Scan AttributeType := AttributeType.ofName <$> Scan.readName

/-- What has been read of a handle. -/
structure HandleDraft where
  id : Option ObjectId := none
  name : Option String := none

/-- Handles of one kind, by what messages call the kind. -/
def Handle.record (title : String) : Record HandleDraft Handle where
  title := title
  fields := [
    ⟨"id", (·.id.isSome), fun setting d => return { d with id := some (← ObjectId.read setting) }⟩,
    ⟨"name", (·.name.isSome), fun _ d => return { d with name := some (← readName) }⟩]
  start := {}
  finish d := do
    let some id := d.id | .error "id"
    let some name := d.name | .error "name"
    return ⟨id, name⟩

/-- The record of a model's handle. -/
def Handle.ofModel : Record HandleDraft Handle := Handle.record "struct ModelRef"

/-- The record of an attribute's handle. -/
def Handle.ofAttribute : Record HandleDraft Handle := Handle.record "struct AttributeRef"

/-- What has been read of an attribute. -/
structure AttributeDraft where
  id : Option ObjectId := none
  name : Option String := none
  type : Option AttributeType := none
  required : Option Bool := none
  unique : Option Bool := none
  min : Option (Option Number) := none
  max : Option (Option Number) := none
  defaultValue : Option (Option Value) := none

/-- The record of an attribute. -/
def Attribute.record : Record AttributeDraft Attribute where
  title := "struct Attribute"
  fields := [
    ⟨"id", (·.id.isSome), fun setting d => return { d with id := some (← ObjectId.read setting) }⟩,
    ⟨"name", (·.name.isSome), fun _ d => return { d with name := some (← readName) }⟩,
    ⟨"type", (·.type.isSome), fun _ d => return { d with type := some (← AttributeType.read) }⟩,
    ⟨"isRequired", (·.required.isSome), fun _ d =>
      return { d with required := some (← boolToken) }⟩,
    ⟨"isUnique", (·.unique.isSome), fun _ d => return { d with unique := some (← boolToken) }⟩,
    ⟨"min", (·.min.isSome), fun _ d => return { d with min := some (← optional numberToken) }⟩,
    ⟨"max", (·.max.isSome), fun _ d => return { d with max := some (← optional numberToken) }⟩,
    ⟨"defaultValue", (·.defaultValue.isSome), fun setting d =>
      return { d with defaultValue := some (← optional (value setting.levels)) }⟩]
  start := {}
  finish d := do
    let some id := d.id | .error "id"
    let some name := d.name | .error "name"
    let some type := d.type | .error "type"
    return {
      id, name, type
      required := d.required.getD false
      unique := d.unique.getD false
      min := d.min.getD none
      max := d.max.getD none
      defaultValue := d.defaultValue.getD none }

/-- What has been read of a model. -/
structure ModelDraft where
  id : Option ObjectId := none
  name : Option String := none
  attributes : Option (List Attribute) := none

/-- The record of a model. -/
def Model.record : Record ModelDraft Model where
  title := "struct Model"
  fields := [
    ⟨"id", (·.id.isSome), fun setting d => return { d with id := some (← ObjectId.read setting) }⟩,
    ⟨"name", (·.name.isSome), fun _ d => return { d with name := some (← readName) }⟩,
    ⟨"attributes", (·.attributes.isSome), fun setting d =>
      return { d with attributes := some (← listOf Attribute.record.read setting) }⟩]
  start := {}
  finish d := do
    let some id := d.id | .error "id"
    let some name := d.name | .error "name"
    return ⟨id, name, d.attributes.getD []⟩

/-- What has been read of a schema. -/
structure SchemaDraft where
  models : Option (List Model) := none

/-- The record of a schema. -/
def Schema.record : Record SchemaDraft Schema where
  title := "struct Schema"
  fields := [
    ⟨"models", (·.models.isSome), fun setting d =>
      return { d with models := some (← listOf Model.record.read setting) }⟩]
  start := {}
  finish d := return ⟨d.models.getD []⟩

/-- The schema that a document holds. -/
def Schema.ofText (document : String) : Except Fault Schema := readText Schema.record.read document

/-- The schema in a file, from what reading the file gave. How the place of a fault is found in a
text is left open. -/
def Schema.ofFile (locate : String → Option Position) (content : Except FileFault String) :
    Except Failure Schema := do
  let document ← content.mapError .file
  Failure.ofDocument (locate document) (Schema.ofText document)

end SchemaMigration
