import SchemaMigration.Diff
import SchemaMigration.Keyed
import SchemaMigration.Sql.Dialect

/-!
# Scripts

Which statements create a model or carry out an operation, and the scripts that they make up: one
that creates all models of a schema, and one that carries out operations in order. Between the
statements of a migration stands exactly one blank line.

A target is the name of a dialect. For each target of a list, `generate` gives the script that
creates the current schema, or, with a previous schema, the one that leads from that to the current.
Either every target gets its script or the whole fails.
-/

namespace SchemaMigration.Sql

namespace Dialect

/-- The statement that creates the table of a model. -/
def creation (d : Dialect) (model : Model) : Except Failure Statement := do
  let columns ← model.attributes.mapM (d.column model.name)
  return .createTable model.name columns (d.tableUnique? model)

/-- The statement that drops the unique constraint of a model. -/
def uniqueDrop (d : Dialect) (model : String) : Statement :=
  .dropConstraint model (uniqueName model) d.dropsIfThere

/-- The statements that replace the unique constraint of a model. The new one always has a name, so
that a later change can drop it. -/
def uniqueChange (d : Dialect) (model : Model) : List Statement :=
  d.uniqueDrop model.name :: (namedUnique? model).toList.map (.addConstraint model.name)

/-- The statements that carry out an operation. -/
def statements (d : Dialect) : Operation → Except Failure (List Statement)
  | .dropModel name => return [.dropTable name]
  | .addModel model => return [← d.creation model]
  | .renameModel previous current => return [.renameTable previous current]
  | .addAttribute model attr => return [.addColumn model.name (← d.column model.name attr)]
  | .dropAttribute model attr => return [.dropColumn model.name attr.name]
  | .renameAttribute model previous current => return [.renameColumn model.name previous current]
  | .changeRequired model attr => return [.setRequired model.name attr.name attr.required]
  | .modifyAttribute model attr =>
    return [.setType model.name attr.name (← d.columnType model.name attr)]
  | .changeUnique model => return d.uniqueChange model

/-- The text of statements, a line apart. -/
def render (d : Dialect) (statements : List Statement) : String :=
  "\n".intercalate (statements.map (Statement.text d.quote))

/-- The text that replaces the unique constraint of a model. -/
def uniqueChangeText (d : Dialect) (model : Model) : String :=
  d.render (d.uniqueChange model) ++ "\n"

/-- The text of the statement that creates the table of a model. -/
def creationText (d : Dialect) (model : Model) : Except Failure String := do
  return d.render [← d.creation model]

/-- The text that carries out an operation. -/
def operationText (d : Dialect) (op : Operation) : Except Failure String := do
  let text := d.render (← d.statements op)
  return if op.kind = .changeUnique then text ++ "\n" else text

/-- A script continued with one more text, a blank line apart. -/
def continued (script text : String) : String :=
  if script = "" then text
  else if script.toList.getLast? = some '\n' then script ++ "\n" ++ text
  else script ++ "\n\n" ++ text

/-- Texts in order, one blank line apart. -/
def inSequence (texts : List String) : String := texts.foldl continued ""

/-- What the log says about creating the table of a model. -/
def creationEvents (d : Dialect) (model : Model) : List Event :=
  if model.primaryKey?.isNone then [.noPrimaryKey model.name d.name] else []

/-- The text that creates the table of a model. -/
def table (d : Dialect) (model : Model) : Logged String := do
  Logged.note (d.creationEvents model)
  Logged.silent (d.creationText model)

/-- The script that creates all models of a schema. -/
def schemaScript (d : Dialect) (schema : Schema) : Logged String := do
  let tables ← schema.models.mapM d.table
  Logged.note [.schemaGenerated d.name tables.length]
  return "\n".intercalate tables

/-- The text that carries out an operation. -/
def operation (d : Dialect) (op : Operation) : Logged String := do
  if let .addModel model := op then
    Logged.note (d.creationEvents model)
  let text ← Logged.silent (d.operationText op)
  Logged.note [.operationRendered d.name op.kind.name text]
  return text

/-- The script that carries out operations in order. -/
def migrationScript (d : Dialect) (operations : List Operation) : Logged String := do
  return inSequence (← operations.mapM d.operation)

end Dialect

end SchemaMigration.Sql

namespace SchemaMigration

open Sql

/-- The dialects that can be targets. -/
def dialects : List Dialect := [postgres, redshift]

/-- The names of all targets. -/
def supportedTargets : List String := dialects.map (·.name)

/-- The dialect of a target. -/
def dialectFor (target : String) : Except Failure Dialect :=
  match dialects.find? (·.name = target) with
  | some dialect => .ok dialect
  | none => .error (.unsupportedTarget target)

/-- Scripts by their targets, in ascending order of the targets. -/
abbrev Scripts := List (String × String)

/-- The scripts of several dialects. A dialect that comes twice is rendered twice. -/
def scriptsOf (script : Dialect → Logged String) (dialects : List Dialect) : Logged Scripts :=
  dialects.foldlM (fun scripts d => return Keyed.insert d.name (← script d) scripts) []

/-- The scripts for a list of targets. -/
def generate (targets : List String) (current : Schema) (previous : Option Schema) :
    Logged Scripts := do
  if targets.isEmpty then Logged.silent (.error .noTargets)
  let dialects ← Logged.silent (targets.mapM dialectFor)
  Logged.note [.targetsResolved supportedTargets dialects.length]
  let scripts ← match previous with
    | none => scriptsOf (·.schemaScript current) dialects
    | some previous => do
      Logged.note (diffEvents previous current)
      scriptsOf (·.migrationScript (diff previous current)) dialects
  Logged.note [.generated scripts.length current.models.length previous.isSome]
  return scripts

end SchemaMigration
