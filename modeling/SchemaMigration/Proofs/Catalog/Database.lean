import SchemaMigration.Diff
import SchemaMigration.Proofs.Catalog.Named

/-!
# Tables, columns and what operations do to them

Operations are carried out by name: a table is what a model is called, a column what an attribute is
called. Each operation fails where a table or column that it uses is absent, or where a name that it
gives is taken. A change of the unique constraint changes no column but needs those that it covers.
-/

namespace SchemaMigration.Catalog

open Outcome Named

/-- A column, as far as operations can change it. -/
structure Column where
  type : AttributeType
  required : Bool
  min : Option Json.Number
  max : Option Json.Number
deriving DecidableEq

/-- The columns of a table by their names. -/
abbrev Table := Named Column

/-- Tables by their names. -/
abbrev Database := Named Table

/-- The column of an attribute. -/
def columnOf (attr : Attribute) : Column := ⟨attr.type, attr.required, attr.min, attr.max⟩

/-- The table of a model. -/
def tableOf (model : Model) : Table :=
  ofEntries (model.attributes.map fun attr => (attr.name, columnOf attr))

/-- The tables of a schema. -/
def tablesOf (schema : Schema) : Database :=
  ofEntries (schema.models.map fun model => (model.name, tableOf model))

/-- What an operation does to the columns of the table that it touches. -/
def changeTable : Operation → Table → Except Obstacle Table
  | .addAttribute _ attr => create attr.name (columnOf attr)
  | .dropAttribute _ attr => drop attr.name
  | .renameAttribute _ previous current => rename previous current
  | .changeRequired _ attr => alter attr.name fun column =>
    .ok { column with required := attr.required }
  | .modifyAttribute _ attr => alter attr.name fun column =>
    .ok { column with type := attr.type, min := attr.min, max := attr.max }
  | .changeUnique model => withAll model.uniqueNames
  | .dropModel _ | .addModel _ | .renameModel _ _ => .ok

/-- Carries out an operation. -/
def execute : Operation → Database → Except Obstacle Database
  | .dropModel name => drop name
  | .addModel model => create model.name (tableOf model)
  | .renameModel previous current => rename previous current
  | op => alter op.table (changeTable op)

/-- Carries out what operations do to the columns of one table, in order. -/
def changeTableAll (operations : List Operation) (table : Table) : Except Obstacle Table :=
  operations.foldlM (fun table op => changeTable op table) table

/-- Carries out operations, in order. -/
def executeAll (operations : List Operation) (database : Database) : Except Obstacle Database :=
  operations.foldlM (fun database op => execute op database) database

theorem changeTableAll_append (front back : List Operation) (table : Table) :
    changeTableAll (front ++ back) table = changeTableAll front table >>= changeTableAll back :=
  List.foldlM_append

@[simp] theorem executeAll_singleton (op : Operation) (database : Database) :
    executeAll [op] database = execute op database := bind_pure _

theorem executeAll_append (front back : List Operation) (database : Database) :
    executeAll (front ++ back) database = executeAll front database >>= executeAll back :=
  List.foldlM_append

/-- An operation that has been carried out leaves a table under its name, or if it drops a table,
none. -/
theorem table_of_execute {op : Operation} {database result : Database}
    (h : execute op database = .ok result) :
    if op.kind = .dropModel then result op.table = none else (result op.table).isSome = true := by
  have halter : ∀ {name : String} {change : Table → Except Obstacle Table},
      alter name change database = .ok result → (result name).isSome = true := by
    intro name change hdone
    obtain ⟨table, -, hrest⟩ := bind_eq_ok.mp hdone
    obtain ⟨changed, -, he⟩ := bind_eq_ok.mp hrest
    obtain rfl := Except.ok.inj he
    simp
  have hcreate : ∀ {name : String} {table : Table} {before : Database},
      create name table before = .ok result → (result name).isSome = true := by
    intro name table before hdone
    simp only [create] at hdone
    split at hdone
    · cases hdone
    · obtain rfl := Except.ok.inj hdone
      simp
  cases op with
  | dropModel name =>
      obtain ⟨table, -, he⟩ := bind_eq_ok.mp h
      obtain rfl := Except.ok.inj he
      simp [Operation.kind, Operation.table]
  | addModel model => exact hcreate h
  | renameModel previous current =>
      obtain ⟨table, -, he⟩ := bind_eq_ok.mp h
      exact hcreate he
  | addAttribute model attr => exact halter h
  | dropAttribute model attr => exact halter h
  | renameAttribute model previous current => exact halter h
  | changeRequired model attr => exact halter h
  | modifyAttribute model attr => exact halter h
  | changeUnique model => exact halter h

end SchemaMigration.Catalog
