import SchemaMigration.Proofs.Catalog.Runs
import SchemaMigration.Proofs.Sql.Containment
import SchemaMigration.Proofs.Sql.Refusals

/-!
# What statements do to keys and constraints

The statements of a script are carried out one after the other on a database that knows of every
table its columns, which of them are in the primary key, and its unique constraints. A statement
that needs something absent or gives a name that is taken cannot be carried out.

Database systems differ in what they do at the edges; an engine says what one of them does.
-/

namespace SchemaMigration.Execution

open Catalog Named Outcome Sql

/-- A table: its columns, of each whether it is in the primary key, and its unique constraints. -/
structure Table where
  columns : Named Bool
  uniques : List Unique

/-- Tables by their names. -/
abbrev Database := Named Table

/-- What database systems differ in. `CREATE TABLE IF NOT EXISTS` either passes over a table that is
there or counts as a failure, since it creates none. Dropping a column may take along the unique
constraints that cover it. `DROP CONSTRAINT` without `IF EXISTS` may insist that there is one. -/
structure Engine where
  passesOver : Bool
  cascades : Bool
  insists : Bool

/-- A unique constraint over columns that are called otherwise. -/
def onColumns (name : String → String) (u : Unique) : Unique :=
  { u with columns := u.columns.map name }

/-- What a column is called after a renaming. -/
def renamed (previous current column : String) : String :=
  if column = previous then current else column

namespace Table

/-- The table has a constraint of this name. -/
def has (name : String) (table : Table) : Bool := table.uniques.any (·.name = some name)

/-- The table with a new column. -/
def addColumn (name : String) (key : Bool) (table : Table) : Except Obstacle Table := do
  return { table with columns := ← create name key table.columns }

/-- The table with a column renamed, also inside its constraints. -/
def renameColumn (previous current : String) (table : Table) : Except Obstacle Table := do
  return ⟨← rename previous current table.columns,
    table.uniques.map (onColumns (renamed previous current))⟩

/-- The table, if it has the column. -/
def needColumn (name : String) (table : Table) : Except Obstacle Table := do
  return { table with columns := ← alter name .ok table.columns }

/-- The table with one more constraint, over columns that it has. -/
def addConstraint (unique : Unique) (table : Table) : Except Obstacle Table := do
  return ⟨← withAll unique.columns table.columns, table.uniques ++ [unique]⟩

end Table

namespace Engine

variable (e : Engine)

/-- The database with a new table. -/
def createTable (name : String) (table : Table) (database : Database) :
    Except Obstacle Database :=
  if e.passesOver && (database name).isSome then .ok database else create name table database

/-- The table without a column. -/
def dropColumn (name : String) (table : Table) : Except Obstacle Table := do
  return ⟨← drop name table.columns,
    if e.cascades then table.uniques.filter (name ∉ ·.columns) else table.uniques⟩

/-- The table without the constraint of a name. -/
def dropConstraint (name : String) (ifThere : Bool) (table : Table) : Except Obstacle Table :=
  if e.insists && !ifThere && !table.has name then .error (.absent name)
  else .ok { table with uniques := table.uniques.filter (·.name ≠ some name) }

/-- The table that a statement is about. -/
def target : Statement → String
  | .createTable name _ _ | .dropTable name | .renameTable name _ => name
  | .addColumn table _ | .dropColumn table _ | .renameColumn table _ _ | .setRequired table _ _
  | .setType table _ _ | .dropConstraint table _ _ | .addConstraint table _ => table

/-- What a statement does to the table that it alters. -/
def change : Statement → Table → Except Obstacle Table
  | .addColumn _ column => Table.addColumn column.name column.isPrimaryKey
  | .dropColumn _ column => e.dropColumn column
  | .renameColumn _ previous current => Table.renameColumn previous current
  | .setRequired _ column _ | .setType _ column _ => Table.needColumn column
  | .dropConstraint _ name ifThere => e.dropConstraint name ifThere
  | .addConstraint _ unique => Table.addConstraint unique
  | .createTable _ _ _ | .dropTable _ | .renameTable _ _ => .ok

/-- Carries out a statement. -/
def perform : Statement → Database → Except Obstacle Database
  | .createTable name columns unique =>
    e.createTable name ⟨ofEntries (columns.map fun c => (c.name, c.isPrimaryKey)), unique.toList⟩
  | .dropTable name => drop name
  | .renameTable previous current => rename previous current
  | statement => alter (target statement) (e.change statement)

/-- Carries out statements, in order. -/
def performAll (statements : List Statement) (database : Database) : Except Obstacle Database :=
  statements.foldlM (fun database statement => e.perform statement database) database

/-- Carries out statements, in order, on a database without tables. -/
def build (statements : List Statement) : Except Obstacle Database :=
  e.performAll statements (ofEntries [])

@[simp] theorem performAll_nil (database : Database) : e.performAll [] database = .ok database :=
  rfl

theorem performAll_cons (statement : Statement) (rest : List Statement) (database : Database) :
    e.performAll (statement :: rest) database =
      e.perform statement database >>= e.performAll rest := rfl

@[simp] theorem performAll_singleton (statement : Statement) (database : Database) :
    e.performAll [statement] database = e.perform statement database := bind_pure _

theorem performAll_append (front back : List Statement) (database : Database) :
    e.performAll (front ++ back) database =
      e.performAll front database >>= e.performAll back := List.foldlM_append

end Engine

variable (d : Dialect) (e : Engine)

/-- The constraint of a model is put in the place of the one that has its name. -/
def changeUnique (model : Model) (table : Table) : Except Obstacle Table := do
  let table ← e.dropConstraint (Dialect.uniqueName model.name) d.dropsIfThere table
  match Dialect.namedUnique? model with
  | none => return table
  | some unique => table.addConstraint unique

/-- What operations do to keys and constraints. -/
def view : TableView Table where
  make model := ⟨ofEntries (model.attributes.map fun attr => (attr.name, attr.isPrimaryKey)),
    (d.tableUnique? model).toList⟩
  change
    | .addAttribute _ attr => Table.addColumn attr.name attr.isPrimaryKey
    | .dropAttribute _ attr => e.dropColumn attr.name
    | .renameAttribute _ previous current => Table.renameColumn previous current
    | .changeRequired _ attr | .modifyAttribute _ attr => Table.needColumn attr.name
    | .changeUnique model => changeUnique d e model
    | .dropModel _ | .addModel _ | .renameModel _ _ => .ok

/-- Carries out an operation, as the engine creates tables. -/
def execute : Operation → Database → Except Obstacle Database
  | .addModel model => e.createTable model.name ((view d e).make model)
  | op => (view d e).execute op

variable {d e}

/-- The keys of the columns that a model is rendered with. -/
theorem keys_of_columns {model : String} {attributes : List Attribute} {columns : List Sql.Column}
    (h : List.Forall₂ (fun attr c => d.column model attr = .ok c) attributes columns) :
    (columns.map fun c => (c.name, c.isPrimaryKey)) =
      attributes.map fun attr => (attr.name, attr.isPrimaryKey) := by
  induction h with
  | nil => rfl
  | cons hc _ ih =>
      obtain ⟨type, literal, -, -, rfl⟩ := column_eq_ok.mp hc
      rw [List.map_cons, List.map_cons, ih]

theorem perform_creation {model : Model} {statement : Statement}
    (h : d.creation model = .ok statement) :
    e.perform statement = e.createTable model.name ((view d e).make model) := by
  obtain ⟨columns, hcolumns, rfl⟩ := creation_eq_ok.mp h
  rw [Engine.perform, keys_of_columns hcolumns]
  rfl

/-- Replacing a constraint takes two statements, or one if there is none to come. -/
theorem performAll_uniqueChange (model : Model) (database : Database) :
    e.performAll (d.uniqueChange model) database =
      alter model.name (changeUnique d e model) database := by
  simp only [Dialect.uniqueChange, Dialect.uniqueDrop]
  cases hunique : Dialect.namedUnique? model with
  | none =>
      have hchange : changeUnique d e model =
          e.dropConstraint (Dialect.uniqueName model.name) d.dropsIfThere := by
        funext table
        simp only [changeUnique, hunique, bind_pure]
      rw [Option.toList_none, List.map_nil, Engine.performAll_singleton, hchange]
      rfl
  | some unique =>
      have hchange : changeUnique d e model = fun table =>
          e.dropConstraint (Dialect.uniqueName model.name) d.dropsIfThere table >>=
            Table.addConstraint unique := by
        funext table
        simp only [changeUnique, hunique]
      rw [Option.toList_some, List.map_singleton, Engine.performAll_cons, hchange,
        ← alter_bind_alter]
      exact congrArg (e.perform _ database >>= ·) (funext (Engine.performAll_singleton e _))

/-- Carrying out the statements of an operation is carrying it out. -/
theorem performAll_statements {op : Operation} {statements : List Statement}
    (h : d.statements op = .ok statements) (database : Database) :
    e.performAll statements database = execute d e op database := by
  cases op with
  | addModel model =>
      obtain ⟨statement, hs, hlist⟩ := bind_eq_ok.mp h
      obtain rfl := Except.ok.inj hlist
      rw [Engine.performAll_singleton, perform_creation hs]
      rfl
  | addAttribute model attr =>
      obtain ⟨column, hcolumn, hlist⟩ := bind_eq_ok.mp h
      obtain rfl := Except.ok.inj hlist
      obtain ⟨type, literal, -, -, rfl⟩ := column_eq_ok.mp hcolumn
      rw [Engine.performAll_singleton]
      rfl
  | modifyAttribute model attr =>
      obtain ⟨type, -, hlist⟩ := bind_eq_ok.mp h
      obtain rfl := Except.ok.inj hlist
      rw [Engine.performAll_singleton]
      rfl
  | changeUnique model =>
      obtain rfl := Except.ok.inj h
      exact performAll_uniqueChange model database
  | dropModel | renameModel | dropAttribute | renameAttribute | changeRequired =>
      obtain rfl := Except.ok.inj h
      rw [Engine.performAll_singleton]
      rfl

/-- The statements of the script that creates all models of a schema. -/
def creations (d : Dialect) (schema : Schema) : Except Failure (List Statement) :=
  schema.models.mapM d.creation

/-- The statements of the script that carries out operations. -/
def migration (d : Dialect) (operations : List Operation) : Except Failure (List Statement) :=
  List.flatten <$> operations.mapM d.statements

/-- The statements that create the first schema of a run and then carry out its differences. -/
def history (d : Dialect) (first : Schema) (later : List Schema) :
    Except Failure (List Statement) := do
  return (← creations d first) ++ (← migration d (migrations first later))

/-- The script of a schema is the text of its statements. -/
theorem outcome_schemaScript_eq_render (schema : Schema) :
    (d.schemaScript schema).outcome = d.render <$> creations d schema := by
  have htexts : schema.models.mapM d.creationText =
      List.map (Statement.text d.quote) <$> creations d schema := by
    simp only [creations]
    induction schema.models with
    | nil => rfl
    | cons model models ih =>
        rw [List.mapM_cons, List.mapM_cons, ih, Dialect.creationText]
        cases d.creation model with
        | error failure => rfl
        | ok statement =>
            cases models.mapM d.creation with
            | error failure => rfl
            | ok statements => simp [Dialect.render]
  rw [outcome_schemaScript, htexts]
  cases creations d schema <;> rfl

/-- The text of the statements of an operation. -/
def partText (d : Dialect) (op : Operation) (statements : List Statement) : String :=
  if op.kind = .changeUnique then d.render statements ++ "\n" else d.render statements

/-- The script of operations is the text of their statements, in one paragraph for each. -/
theorem outcome_migrationScript_of_parts {operations : List Operation}
    {parts : List (List Statement)} (h : operations.mapM d.statements = .ok parts) :
    (d.migrationScript operations).outcome =
      .ok (paragraphs (List.zipWith (partText d) operations parts)) := by
  have hpairs := mapM_eq_ok_iff.mp h
  refine outcome_migrationScript_eq_ok.mpr ⟨_, ?_, rfl⟩
  clear h
  induction hpairs with
  | nil => exact .nil
  | cons hpart _ ih => exact .cons (by simp [Dialect.operationText, hpart, partText]) ih

/-- Statements that lead from a schema through later ones are those of the scripts that do: each
script carries out a difference, and its text is that of its statements, in one paragraph for each
operation. -/
inductive Migrates (d : Dialect) : Schema → List Schema → List Statement → Prop
  | nil (schema : Schema) : Migrates d schema [] []
  | cons {previous current : Schema} {later : List Schema} {parts : List (List Statement)}
      {rest : List Statement} (hparts : (diff previous current).mapM d.statements = .ok parts)
      (hscript : (d.migrationScript (diff previous current)).outcome =
        .ok (paragraphs (List.zipWith (partText d) (diff previous current) parts)))
      (h : Migrates d current later rest) :
      Migrates d previous (current :: later) (parts.flatten ++ rest)

/-- The statements of a run are those of its scripts: of the one that creates the first schema, and
of those that lead through the later ones. -/
def Emitted (d : Dialect) (first : Schema) (later : List Schema) (statements : List Statement) :
    Prop :=
  ∃ front back, statements = front ++ back ∧
    (d.schemaScript first).outcome = .ok (d.render front) ∧ Migrates d first later back

theorem migration_cons (op : Operation) (operations : List Operation) :
    migration d (op :: operations) =
      (do return (← d.statements op) ++ (← migration d operations)) := by
  simp only [migration, List.mapM_cons]
  cases d.statements op with
  | error failure => rfl
  | ok statements => cases operations.mapM d.statements <;> rfl

theorem migration_append_eq_ok {operations more : List Operation} {statements : List Statement}
    (h : migration d (operations ++ more) = .ok statements) :
    ∃ parts rest, operations.mapM d.statements = .ok parts ∧ migration d more = .ok rest ∧
      statements = parts.flatten ++ rest := by
  obtain ⟨all, hall, rfl⟩ := map_eq_ok.mp h
  rw [List.mapM_append] at hall
  obtain ⟨parts, hparts, hall⟩ := bind_eq_ok.mp hall
  obtain ⟨rest, hrest, hall⟩ := bind_eq_ok.mp hall
  obtain rfl := Except.ok.inj hall
  exact ⟨parts, rest.flatten, hparts, by rw [migration, hrest, map_ok], List.flatten_append⟩

theorem migrates_of_migration {first : Schema} {later : List Schema} {statements : List Statement}
    (h : migration d (migrations first later) = .ok statements) :
    Migrates d first later statements := by
  induction later generalizing first statements with
  | nil =>
      obtain rfl := Except.ok.inj h
      exact .nil first
  | cons next later ih =>
      obtain ⟨parts, rest, hparts, hrest, rfl⟩ := migration_append_eq_ok h
      exact .cons hparts (outcome_migrationScript_of_parts hparts) (ih hrest)

theorem emitted_of_history {first : Schema} {later : List Schema} {statements : List Statement}
    (h : history d first later = .ok statements) : Emitted d first later statements := by
  obtain ⟨front, hfront, h⟩ := bind_eq_ok.mp h
  obtain ⟨back, hback, h⟩ := bind_eq_ok.mp h
  obtain rfl := Except.ok.inj h
  refine ⟨front, back, rfl, ?_, migrates_of_migration hback⟩
  rw [outcome_schemaScript_eq_render, hfront, map_ok]

/-- Creating a schema has the statements of adding its models. -/
theorem creations_eq_migration (schema : Schema) :
    creations d schema = migration d (schema.models.map .addModel) := by
  simp only [creations]
  induction schema.models with
  | nil => rfl
  | cons model models ih =>
      rw [List.map_cons, migration_cons, ← ih, List.mapM_cons, Dialect.statements]
      cases d.creation model <;> rfl

/-- Carrying out the statements of operations is carrying these out. -/
theorem performAll_migration {operations : List Operation} {statements : List Statement}
    (h : migration d operations = .ok statements) (database : Database) :
    e.performAll statements database = carryOut (execute d e) operations database := by
  induction operations generalizing statements database with
  | nil =>
      obtain rfl := Except.ok.inj h
      rfl
  | cons op operations ih =>
      rw [migration_cons] at h
      obtain ⟨front, hfront, h⟩ := bind_eq_ok.mp h
      obtain ⟨back, hback, h⟩ := bind_eq_ok.mp h
      obtain rfl := Except.ok.inj h
      rw [Engine.performAll_append, performAll_statements hfront, carryOut_cons]
      exact congrArg _ (funext (ih hback))

/-- The statements of a run lead from the empty schema through its schemas. -/
theorem build_history {first : Schema} {later : List Schema} {statements : List Statement}
    (h : history d first later = .ok statements) :
    e.build statements =
      carryOut (execute d e) (migrations {} (first :: later)) (ofEntries []) := by
  obtain ⟨front, hfront, h⟩ := bind_eq_ok.mp h
  obtain ⟨back, hback, h⟩ := bind_eq_ok.mp h
  obtain rfl := Except.ok.inj h
  rw [creations_eq_migration, ← diff_empty] at hfront
  rw [Engine.build, Engine.performAll_append, performAll_migration hfront, migrations,
    carryOut_append]
  exact congrArg _ (funext (performAll_migration hback))

theorem fault?_statements (op : Operation) :
    Outcome.fault? (d.statements op) = d.operationRefusal? op := by
  rw [← fault?_operationText, Dialect.operationText]
  cases d.statements op <;> rfl

/-- Operations of which none is refused have statements. -/
theorem exists_migration {operations : List Operation}
    (h : operations.findSome? d.operationRefusal? = none) :
    ∃ statements, migration d operations = .ok statements := by
  have hfault : Outcome.fault? (operations.mapM d.statements) = none := by
    rw [Outcome.fault?_mapM]
    simpa only [fault?_statements] using h
  obtain ⟨parts, hparts⟩ := Outcome.fault?_eq_none_iff.mp hfault
  exact ⟨parts.flatten, by rw [migration, hparts, map_ok]⟩

/-- Between schemas that can be rendered, no operation is refused. -/
theorem findSome?_operationRefusal?_migrations {first : Schema} {later : List Schema}
    (h : ∀ s ∈ first :: later, ∃ text, (d.schemaScript s).outcome = .ok text) :
    (migrations first later).findSome? d.operationRefusal? = none := by
  induction later generalizing first with
  | nil => rfl
  | cons next later ih =>
      obtain ⟨⟨text, hfirst⟩, hlater⟩ := List.forall_mem_cons.mp h
      obtain ⟨⟨text', hnext⟩, -⟩ := List.forall_mem_cons.mp hlater
      have hrefusal : next.models.findSome? d.modelRefusal? = none := by
        rw [← fault?_schemaScript, hnext, fault?_ok]
      rw [migrations, List.findSome?_append, ih hlater, Option.or_none,
        findSome?_operationRefusal?_diff next (isSome_mapping?_of_schemaScript hfirst), hrefusal]

theorem exists_schemaScript {schema : Schema}
    (h : schema.models.findSome? d.modelRefusal? = none) :
    ∃ text, (d.schemaScript schema).outcome = .ok text :=
  fault?_eq_none_iff.mp ((fault?_schemaScript d schema).trans h)

/-- The script of a schema that can be rendered has statements. -/
theorem exists_creations {schema : Schema}
    (h : ∃ text, (d.schemaScript schema).outcome = .ok text) :
    ∃ statements, creations d schema = .ok statements := by
  obtain ⟨text, htext⟩ := h
  rw [outcome_schemaScript_eq_render] at htext
  obtain ⟨statements, hstatements, -⟩ := map_eq_ok.mp htext
  exact ⟨statements, hstatements⟩

/-- The scripts of a run of schemas that can be rendered have statements. -/
theorem exists_history {first : Schema} {later : List Schema}
    (h : ∀ s ∈ first :: later, ∃ text, (d.schemaScript s).outcome = .ok text) :
    ∃ statements, history d first later = .ok statements := by
  obtain ⟨front, hfront⟩ := exists_creations (h first List.mem_cons_self)
  obtain ⟨back, hback⟩ := exists_migration (findSome?_operationRefusal?_migrations h)
  exact ⟨front ++ back, by rw [history, hfront, hback]; rfl⟩

/-- The scripts of a schema and of the difference to another have statements, if the two schemas can
be rendered. -/
theorem exists_history_pair {previous current : Schema}
    (hprevious : ∃ text, (d.schemaScript previous).outcome = .ok text)
    (hcurrent : ∃ text, (d.schemaScript current).outcome = .ok text) :
    ∃ statements, history d previous [current] = .ok statements :=
  exists_history (by simpa using ⟨hprevious, hcurrent⟩)

end SchemaMigration.Execution
