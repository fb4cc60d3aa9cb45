import SchemaMigration.Sql.Literal

/-!
# Statements

The statements of data definition that tables are created and changed with, and their text. Every
statement ends in a semicolon; those that spread over several lines close the last one, except
changes of nullability and of constraints.
-/

namespace SchemaMigration.Sql

/-- The definition of a column. -/
structure Column where
  name : String
  type : String
  defaultLiteral : Option String
  isPrimaryKey : Bool
  isRequired : Bool
deriving DecidableEq

/-- A unique constraint over columns, with or without a name. -/
structure Unique where
  name : Option String
  columns : List String
deriving DecidableEq

/-- A statement of data definition. -/
inductive Statement where
  | createTable (name : String) (columns : List Column) (unique : Option Unique)
  | dropTable (name : String)
  | renameTable (previous current : String)
  | addColumn (table : String) (column : Column)
  | dropColumn (table column : String)
  | renameColumn (table previous current : String)
  | setRequired (table column : String) (required : Bool)
  | setType (table column type : String)
  | dropConstraint (table constraint : String) (ifThere : Bool)
  | addConstraint (table : String) (unique : Unique)
deriving DecidableEq

/-- The text of a column definition between quotes of the given kind. -/
def Column.text (mark : Char) (comma : Bool) (c : Column) : String :=
  "  " ++ quoteName mark c.name ++ " " ++ c.type ++ " " ++
    (match c.defaultLiteral with
      | some literal => "DEFAULT " ++ literal ++ " "
      | none => "") ++
    (if c.isPrimaryKey then "PRIMARY KEY " else "") ++
    (if c.isRequired then "NOT NULL " else "") ++
    (if comma then "," else "") ++ " "

/-- The text of a unique constraint. -/
def Unique.text (mark : Char) (u : Unique) : String :=
  (match u.name with
    | some name => "CONSTRAINT " ++ quoteName mark name ++ " "
    | none => "") ++
    "UNIQUE(" ++ ",".intercalate (u.columns.map (quoteName mark)) ++ ")"

/-- The lines of the columns of a table; a comma follows each that something comes after. -/
def columnLines (mark : Char) (more : Bool) : List Column → List String
  | [] => []
  | column :: columns =>
    column.text mark (more || !columns.isEmpty) :: columnLines mark more columns

/-- The lines of a statement that creates a table. -/
def tableLines (mark : Char) (name : String) (columns : List Column) (unique : Option Unique) :
    List String :=
  ["CREATE TABLE IF NOT EXISTS " ++ quoteName mark name ++ " ("] ++
    columnLines mark unique.isSome columns ++
    unique.toList.map (fun u => "  " ++ u.text mark) ++
    [");\n"]

namespace Statement

/-- The front of a statement that alters a table. -/
def alter (mark : Char) (table : String) : String := "ALTER TABLE " ++ quoteName mark table

/-- The text of a statement, with names between quotes of the given kind. -/
def text (mark : Char) : Statement → String
  | createTable name columns unique => "\n".intercalate (tableLines mark name columns unique)
  | dropTable name => "DROP TABLE IF EXISTS " ++ quoteName mark name ++ ";"
  | renameTable previous current =>
    alter mark previous ++ " RENAME TO " ++ quoteName mark current ++ ";"
  | addColumn table column =>
    alter mark table ++ "\nADD COLUMN " ++ column.text mark false ++ ";\n"
  | dropColumn table column =>
    alter mark table ++ " DROP COLUMN " ++ quoteName mark column ++ ";"
  | renameColumn table previous current =>
    alter mark table ++ "\nRENAME COLUMN " ++ quoteName mark previous ++ " TO " ++
      quoteName mark current ++ ";\n"
  | setRequired table column required =>
    alter mark table ++ "\nALTER COLUMN " ++ quoteName mark column ++
      (if required then " SET NOT NULL;" else " DROP NOT NULL;")
  | setType table column type =>
    alter mark table ++ "\nALTER COLUMN " ++ quoteName mark column ++ " TYPE " ++ type ++ ";\n"
  | dropConstraint table constraint ifThere =>
    alter mark table ++ "\nDROP CONSTRAINT " ++ (if ifThere then "IF EXISTS " else "") ++
      quoteName mark constraint ++ ";"
  | addConstraint table unique =>
    alter mark table ++ "\nADD " ++ unique.text mark ++ ";"

end Statement

end SchemaMigration.Sql
