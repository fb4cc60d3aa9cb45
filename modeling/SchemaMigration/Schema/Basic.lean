import SchemaMigration.Json.Value

/-!
# Logical schemas

A schema is a list of models, and a model a list of typed attributes; a database shows them as
tables and columns. Identifiers stay the same from one version of a schema to the next and names
need not, which is how a renamed model is told from a new one.

Names and identifiers may repeat. Every look-up takes the first that fits.
-/

namespace SchemaMigration

/-- The identifier of a model or an attribute. -/
inductive ObjectId where
  | number (value : Int64)
  | text (value : String)
deriving DecidableEq

namespace ObjectId

/-- The identifier as plain text. -/
def plain : ObjectId → String
  | number value => toString value.toInt
  | text value => value

/-- Numbers come before texts; each are in their own order. -/
def le : ObjectId → ObjectId → Bool
  | number a, number b => a ≤ b
  | number _, text _ => true
  | text _, number _ => false
  | text a, text b => a = b || a < b

end ObjectId

/-- What an attribute holds. A type that no document format knows keeps its name. -/
inductive AttributeType where
  | autoGenerated
  | boolean
  | computed
  | currency
  | date
  | datetime
  | document
  | integer
  | list
  | location
  | number
  | string
  | text
  | timestamp
  | reference
  | other (name : String)
deriving DecidableEq

namespace AttributeType

/-- The types with a meaning of their own. -/
def known : List AttributeType :=
  [autoGenerated, boolean, computed, currency, date, datetime, document, integer, list, location,
   number, string, text, timestamp, reference]

/-- The name of a type in documents. -/
def name : AttributeType → String
  | autoGenerated => "auto-generated"
  | boolean => "boolean"
  | computed => "computed"
  | currency => "currency"
  | date => "date"
  | datetime => "datetime"
  | document => "document"
  | integer => "integer"
  | list => "list"
  | location => "location"
  | number => "number"
  | string => "string"
  | text => "text"
  | timestamp => "timestamp"
  | reference => "reference"
  | other name => name

/-- The type of a name. -/
def ofName (name : String) : AttributeType := (known.find? (·.name = name)).getD (other name)

/-- A type and the type of its name have the same name. -/
theorem name_ofName (n : String) : (ofName n).name = n := by
  unfold ofName
  cases h : known.find? (·.name = n) with
  | none => rfl
  | some type => simpa using List.find?_some h

/-- The type has a meaning of its own. -/
def isKnown : AttributeType → Bool
  | other _ => false
  | _ => true

end AttributeType

/-- The identifier and the name of a model or an attribute. -/
structure Handle where
  id : ObjectId
  name : String
deriving DecidableEq

/-- An attribute of a model. The bounds limit its values; the default is what it holds at first. -/
structure Attribute where
  id : ObjectId
  name : String
  type : AttributeType
  required : Bool := false
  unique : Bool := false
  min : Option Json.Number := none
  max : Option Json.Number := none
  defaultValue : Option Json.Value := none
deriving DecidableEq

namespace Attribute

/-- The attribute of this name identifies the rows of its model. -/
def isPrimaryKey (a : Attribute) : Bool := a.name = "id"

/-- The attribute takes part in the unique constraint of its model. -/
def inUnique (a : Attribute) : Bool := !a.isPrimaryKey && a.unique

/-- The identifier and the name of an attribute. -/
def handle (a : Attribute) : Handle := ⟨a.id, a.name⟩

/-- Two attributes are written alike. -/
def alike (a b : Attribute) : Bool :=
  a.id = b.id && a.name = b.name && a.type = b.type && a.required = b.required &&
    a.unique = b.unique && alikeOr Json.Number.alike a.min b.min &&
    alikeOr Json.Number.alike a.max b.max && alikeOr Json.Value.alike a.defaultValue b.defaultValue
where
  /-- Both are absent, or both are there and alike. -/
  alikeOr {α : Type} (alike : α → α → Bool) : Option α → Option α → Bool
    | none, none => true
    | some x, some y => alike x y
    | _, _ => false

end Attribute

/-- A model of a schema. -/
structure Model where
  id : ObjectId
  name : String
  attributes : List Attribute := []
deriving DecidableEq

namespace Model

/-- The identifier and the name of a model. -/
def handle (m : Model) : Handle := ⟨m.id, m.name⟩

/-- The first attribute with an identifier. -/
def byId? (m : Model) (id : ObjectId) : Option Attribute := m.attributes.find? (·.id = id)

/-- The first attribute with a name. -/
def byName? (m : Model) (name : String) : Option Attribute := m.attributes.find? (·.name = name)

/-- The attribute that identifies the rows, if the model has one. -/
def primaryKey? (m : Model) : Option Attribute := m.attributes.find? (·.isPrimaryKey)

/-- The names under the unique constraint, in the order of declaration, without the primary key. -/
def uniqueNames (m : Model) : List String := (m.attributes.filter (·.inUnique)).map (·.name)

/-- The same names are under the unique constraint, in whatever order. -/
def sameUnique (previous current : Model) : Bool :=
  previous.uniqueNames.all (· ∈ current.uniqueNames) &&
    current.uniqueNames.all (· ∈ previous.uniqueNames)

/-- Two models are written alike. -/
def alike (a b : Model) : Bool :=
  a.id = b.id && a.name = b.name && a.attributes.length = b.attributes.length &&
    (a.attributes.zip b.attributes).all fun pair => pair.1.alike pair.2

end Model

/-- A schema, at one point in time. -/
structure Schema where
  models : List Model := []
deriving DecidableEq

namespace Schema

/-- The first model with an identifier. -/
def byId? (s : Schema) (id : ObjectId) : Option Model := s.models.find? (·.id = id)

/-- The first model with a name. -/
def byName? (s : Schema) (name : String) : Option Model := s.models.find? (·.name = name)

/-- The names of the models, in the order of declaration. -/
def names (s : Schema) : List String := s.models.map (·.name)

/-- Two schemas are written alike. -/
def alike (a b : Schema) : Bool :=
  a.models.length = b.models.length &&
    (a.models.zip b.models).all fun pair => pair.1.alike pair.2

end Schema

end SchemaMigration
