import SchemaMigration.Operation.Basic
import SchemaMigration.Schema.Document

/-!
# Operation documents

An operation is written as an object of two members: `type`, the name of its kind, and `params`, an
object whose fields depend on the kind. When it is read the two may come in either order and among
other members, or as the two items of a list. Parameters that come before their kind are held, and
read again once the kind is known.
-/

namespace SchemaMigration.Operation

open Json Json.Scan

/-- The parameters of an operation, as members of an object. -/
def params : Operation → List (String × Value)
  | dropModel name => [("name", .string name)]
  | addModel model | changeUnique model => [("model", model.toJson)]
  | renameModel previous current =>
    [("previousName", .string previous), ("currentName", .string current)]
  | addAttribute model attr | changeRequired model attr | modifyAttribute model attr =>
    [("model", model.toJson), ("attribute", attr.toJson)]
  | dropAttribute model attr =>
    [("model", model.toJson), ("attribute", attr.toJson)]
  | renameAttribute model previous current =>
    [("model", model.toJson), ("previousName", .string previous), ("currentName", .string current)]

/-- An operation as JSON. -/
def toJson (op : Operation) : Value :=
  .object [("type", .string op.kind.name), ("params", .object op.params)]

/-- What has been read of the parameters of an operation. -/
structure Draft where
  name : Option String := none
  previous : Option String := none
  current : Option String := none
  wholeModel : Option Model := none
  model : Option Handle := none
  wholeAttribute : Option Attribute := none
  attr : Option Handle := none

namespace Draft

/-- The name of what is dropped. -/
def nameField : RecordField Draft :=
  ⟨"name", (·.name.isSome), fun _ d => return { d with name := some (← readName) }⟩

/-- The name before a change. -/
def previousField : RecordField Draft :=
  ⟨"previousName", (·.previous.isSome), fun _ d => return { d with previous := some (← readName) }⟩

/-- The name after a change. -/
def currentField : RecordField Draft :=
  ⟨"currentName", (·.current.isSome), fun _ d => return { d with current := some (← readName) }⟩

/-- The model with its attributes. -/
def wholeModelField : RecordField Draft :=
  ⟨"model", (·.wholeModel.isSome), fun setting d =>
    return { d with wholeModel := some (← Model.record.read setting) }⟩

/-- The model whose attribute changes. -/
def modelField : RecordField Draft :=
  ⟨"model", (·.model.isSome), fun setting d =>
    return { d with model := some (← Handle.ofModel.read setting) }⟩

/-- The attribute with its properties. -/
def wholeAttributeField : RecordField Draft :=
  ⟨"attribute", (·.wholeAttribute.isSome), fun setting d =>
    return { d with wholeAttribute := some (← Attribute.record.read setting) }⟩

/-- The attribute that is dropped. -/
def attributeField : RecordField Draft :=
  ⟨"attribute", (·.attr.isSome), fun setting d =>
    return { d with attr := some (← Handle.ofAttribute.read setting) }⟩

end Draft

/-- The parameters of an operation that is described by a model and an attribute. -/
def attributeParams (title : String) (make : Handle → Attribute → Operation) :
    Record Draft Operation where
  title := title
  fields := [Draft.modelField, Draft.wholeAttributeField]
  start := {}
  finish d := do
    let some model := d.model | .error "model"
    let some attr := d.wholeAttribute | .error "attribute"
    return make model attr

/-- The parameters of an operation that is described by a model. -/
def modelParams (title : String) (make : Model → Operation) : Record Draft Operation where
  title := title
  fields := [Draft.wholeModelField]
  start := {}
  finish d := do
    let some model := d.wholeModel | .error "model"
    return make model

/-- What messages call the parameters of a kind. -/
def Kind.title : Kind → String
  | .dropModel => "struct variant SchemaOperation::ModelDropped"
  | .addModel => "struct variant SchemaOperation::ModelAdded"
  | .renameModel => "struct variant SchemaOperation::ModelNameChanged"
  | .addAttribute => "struct variant SchemaOperation::AttributeAdded"
  | .dropAttribute => "struct variant SchemaOperation::AttributeDropped"
  | .renameAttribute => "struct variant SchemaOperation::AttributeNameChanged"
  | .changeRequired => "struct variant SchemaOperation::AttributeIsNullChanged"
  | .modifyAttribute => "struct variant SchemaOperation::AttributeModified"
  | .changeUnique => "struct variant SchemaOperation::UniqueConstraintsChanged"

/-- The parameters of a kind. -/
def Kind.params (kind : Kind) : Record Draft Operation :=
  match kind with
  | .dropModel => {
      title := kind.title
      fields := [Draft.nameField]
      start := {}
      finish := fun d => do
        let some name := d.name | .error "name"
        return .dropModel name }
  | .addModel => modelParams kind.title .addModel
  | .renameModel => {
      title := kind.title
      fields := [Draft.previousField, Draft.currentField]
      start := {}
      finish := fun d => do
        let some previous := d.previous | .error "previousName"
        let some current := d.current | .error "currentName"
        return .renameModel previous current }
  | .addAttribute => attributeParams kind.title .addAttribute
  | .dropAttribute => {
      title := kind.title
      fields := [Draft.modelField, Draft.attributeField]
      start := {}
      finish := fun d => do
        let some model := d.model | .error "model"
        let some attr := d.attr | .error "attribute"
        return .dropAttribute model attr }
  | .renameAttribute => {
      title := kind.title
      fields := [Draft.modelField, Draft.previousField, Draft.currentField]
      start := {}
      finish := fun d => do
        let some model := d.model | .error "model"
        let some previous := d.previous | .error "previousName"
        let some current := d.current | .error "currentName"
        return .renameAttribute model previous current }
  | .changeRequired => attributeParams kind.title .changeRequired
  | .modifyAttribute => attributeParams kind.title .modifyAttribute
  | .changeUnique => modelParams kind.title .changeUnique

/-- The kind of a name that was read. -/
def Kind.named (name : String) : Scan Kind :=
  match Kind.ofName? name with
  | some kind => return kind
  | none => throw (.unknownVariant name (Kind.all.map Kind.name))

/-- Reads the name of a kind as a key. An object without a key lacks a value. -/
def Kind.readKey : Scan Kind := do
  match ← look with
  | none => throw .endInObject
  | some '"' => Kind.named (← quoted strictEscape)
  | some '}' => throw .expectedValue
  | some _ => throw .keyNotString

/-- Reads a kind in an object: its name, or an object with its name as the one key and null behind
it. -/
def Kind.read (setting : Setting) : Scan Kind := do
  match ← look with
  | none => throw .endInValue
  | some '"' => Kind.named (← quoted strictEscape)
  | some '{' => deeper setting fun _ => do
    skipChar
    let kind ← Kind.readKey
    colon
    token "unit" fun
      | .null => some ()
      | _ => none
    match ← look with
    | none => throw .endInObject
    | some '}' => skipChar
    | some _ => throw .expectedValue
    return kind
  | some _ => throw .expectedValue

/-- What has been read of an operation: its kind, the text of parameters that came before the kind,
and the operation, once kind and parameters are there. -/
structure Reading where
  kind : Option Kind := none
  held : Option (List Char) := none
  operation : Option Operation := none

/-- Reads the parameters in a held text, which has been read as a value before. -/
def readHeld (setting : Setting) (kind : Kind) (text : List Char) : Scan Operation := do
  let (op, _) ← (kind.params.readOnlyObject setting.again).run text
  return op

/-- Reads the member of an operation behind a key. -/
def readMember (setting : Setting) (key : String) (r : Reading) : Scan Reading := do
  if key = "type" then
    if r.kind.isSome then throw (.duplicateField "type")
    colon
    let kind ← Kind.read setting
    match r.held with
    | none => return { r with kind := some kind }
    | some text =>
      return { r with kind := some kind, operation := some (← readHeld setting kind text) }
  else if key = "params" then
    if r.held.isSome || r.operation.isSome then throw (.duplicateField "params")
    colon
    match r.kind with
    | some kind => return { r with operation := some (← kind.params.readOnlyObject setting) }
    | none =>
      let text ← get
      let _ ← value setting.levels
      return { r with held := some text }
  else
    colon
    skip
    return r

/-- What messages call an operation. -/
def title : String := "adjacently tagged enum SchemaOperation"

/-- Reads an operation that is written as an object. -/
def readObject (setting : Setting) : Scan Operation :=
  deeper setting fun inner => inObject do
    let r ← members (readMember inner) {}
    match r.kind, r.operation with
    | none, _ => throw (.missingField "type")
    | some _, none => throw (.missingField "params")
    | some _, some op => return op

/-- Reads an operation that is written as a list. -/
def readList (setting : Setting) : Scan Operation :=
  deeper setting fun inner => inList do
    if !(← nextItem true) then throw (.wrongLength 0 title)
    let kind ← Kind.named (← stringToken "variant identifier")
    if !(← nextItem false) then throw (.wrongLength 1 title)
    kind.params.readOnlyObject inner

/-- Reads an operation. -/
def read (setting : Setting) : Scan Operation :=
  byShape (readList setting) (readObject setting) fun value =>
    throw (.wrongType (found value) title)

end SchemaMigration.Operation
