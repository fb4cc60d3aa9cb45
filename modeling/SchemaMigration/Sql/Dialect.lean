import SchemaMigration.Failure
import SchemaMigration.Json.Printer
import SchemaMigration.Schema.Basic
import SchemaMigration.Sql.Statement

/-!
# Dialects

A dialect is data: which column an attribute of each type becomes and how its default is written,
which quotes enclose names, what is special inside literals, and how unique constraints are declared
and dropped. Everything else about SQL is shared.

A type that is not in the table of a dialect cannot become a column, whatever else the attribute
has.
-/

namespace SchemaMigration.Sql

/-- The type of a column: a fixed one, or text that the upper bound of the attribute limits. -/
inductive ColumnType where
  | fixed (sql : String)
  | boundedText
deriving DecidableEq

/-- How default values are written: between quotes, or without them where they allow it. -/
inductive LiteralStyle where
  | quoted
  | bare
deriving DecidableEq

/-- What an attribute type becomes. -/
structure Mapping where
  column : ColumnType
  literal : LiteralStyle
deriving DecidableEq

/-- How `CREATE TABLE` declares a unique constraint. -/
inductive UniqueStyle where
  | unnamed
  | named
deriving DecidableEq

/-- A dialect of SQL. The mappings are found by the names of types; the first that fits counts. -/
structure Dialect where
  name : String
  mappings : List (String × Mapping)
  uniqueStyle : UniqueStyle
  quote : Char := '"'
  backslashes : Bool := false
  dropsIfThere : Bool := false

/-- A fixed column type with quoted literals. -/
def Mapping.quoted (sql : String) : Mapping := ⟨.fixed sql, .quoted⟩

/-- A fixed column type with bare literals. -/
def Mapping.bare (sql : String) : Mapping := ⟨.fixed sql, .bare⟩

/-- Text of bounded length. -/
def Mapping.bounded : Mapping := ⟨.boundedText, .quoted⟩

/-- The dialect of PostgreSQL. The constraint that `CREATE TABLE` declares has no name, so a later
change may find none under the name it would have. -/
def postgres : Dialect where
  name := "pg"
  mappings := [
    ("auto-generated", .quoted "VARCHAR(255)"), ("boolean", .bare "BOOLEAN"),
    ("computed", .quoted "VARCHAR(255)"), ("currency", .bare "MONEY"), ("date", .quoted "DATE"),
    ("datetime", .quoted "TIMESTAMP"), ("document", .quoted "JSON"), ("integer", .bare "INTEGER"),
    ("list", .quoted "JSON"), ("location", .quoted "POINT"), ("number", .bare "DECIMAL"),
    ("string", .bounded), ("text", .quoted "TEXT"), ("timestamp", .quoted "TIMESTAMP"),
    ("reference", .quoted "JSON")]
  uniqueStyle := .unnamed
  dropsIfThere := true

/-- The dialect of Redshift: nested data is `SUPER`, places are `GEOMETRY`, points in time keep
their zone, and a backslash is special inside literals. -/
def redshift : Dialect where
  name := "redshift"
  mappings := [
    ("auto-generated", .quoted "VARCHAR(255)"), ("boolean", .bare "BOOLEAN"),
    ("computed", .quoted "VARCHAR(255)"), ("currency", .bare "MONEY"), ("date", .quoted "DATE"),
    ("datetime", .quoted "TIMESTAMP"), ("document", .quoted "SUPER"), ("integer", .bare "INTEGER"),
    ("list", .quoted "SUPER"), ("location", .quoted "GEOMETRY"), ("number", .bare "DECIMAL"),
    ("string", .bounded), ("text", .quoted "TEXT"), ("timestamp", .quoted "TIMESTAMPTZ"),
    ("reference", .quoted "SUPER")]
  uniqueStyle := .named
  backslashes := true

namespace Dialect

/-- What a type becomes, if the dialect knows it. -/
def mapping? (d : Dialect) (type : AttributeType) : Option Mapping :=
  (d.mappings.find? (·.1 = type.name)).map (·.2)

/-- What the type of an attribute becomes; a type that the dialect does not know is a failure. -/
def mapping (d : Dialect) (model : String) (attr : Attribute) : Except Failure Mapping :=
  match d.mapping? attr.type with
  | some mapping => .ok mapping
  | none => .error (.unsupportedType attr.type.name attr.name model)

/-- The length of bounded text without a positive whole number for its upper bound. -/
def defaultLength : Nat := 255

/-- The length of bounded text. -/
def textLength (attr : Attribute) : Nat := (attr.max.bind (·.positive?)).getD defaultLength

/-- The SQL type of a column. -/
def columnTypeOf (attr : Attribute) : ColumnType → String
  | .fixed sql => sql
  | .boundedText => "VARCHAR(" ++ toString (textLength attr) ++ ")"

/-- The SQL type of the column that an attribute becomes. -/
def columnType (d : Dialect) (model : String) (attr : Attribute) : Except Failure String := do
  return columnTypeOf attr (← d.mapping model attr).column

/-- The literal of a value; null has none. -/
def literal (d : Dialect) : LiteralStyle → Json.Value → Option String
  | _, .null => none
  | .bare, .bool value => some (if value then "TRUE" else "FALSE")
  | .bare, .number value => some value.text
  | .bare, .string s =>
    some (if isBareLiteral s then bareLiteral s else quoteLiteral d.backslashes s)
  | .quoted, .string s => some (quoteLiteral d.backslashes s)
  | _, value => some (quoteLiteral d.backslashes value.compact)

/-- The literal of the default value of an attribute, if it has one. -/
def defaultLiteral (d : Dialect) (model : String) (attr : Attribute) :
    Except Failure (Option String) := do
  let mapping ← d.mapping model attr
  return attr.defaultValue.bind (d.literal mapping.literal)

/-- The column that an attribute becomes. -/
def column (d : Dialect) (model : String) (attr : Attribute) : Except Failure Column := do
  let type ← d.columnType model attr
  let defaultLiteral ← d.defaultLiteral model attr
  return ⟨attr.name, type, defaultLiteral, attr.isPrimaryKey, attr.required⟩

/-- The name of the unique constraint of a model. -/
def uniqueName (model : String) : String := "uc_" ++ model

/-- The unique constraint of a model, if any of its attributes are unique. -/
def unique? (name : Option String) (model : Model) : Option Unique :=
  if model.uniqueNames = [] then none else some ⟨name, model.uniqueNames⟩

/-- The unique constraint of a model without a name. -/
def unnamedUnique? (model : Model) : Option Unique := unique? none model

/-- The unique constraint of a model with its name. -/
def namedUnique? (model : Model) : Option Unique := unique? (some (uniqueName model.name)) model

/-- The unique constraint as `CREATE TABLE` declares it. -/
def tableUnique? (d : Dialect) (model : Model) : Option Unique :=
  match d.uniqueStyle with
  | .unnamed => unnamedUnique? model
  | .named => namedUnique? model

end Dialect

end SchemaMigration.Sql
