import Mathlib.Logic.Equiv.Basic
import SchemaMigration.Sql.Script

/-!
# Identifiers are opaque

An identifier serves to be compared with others and for nothing else. So a schema whose identifiers
are renamed one to one differs from another that is renamed alike by the same operations, renamed
alike; and no statement, event or failure shows an identifier, so that generation does not change at
all.

## Implementation notes

One to one is needed where identifiers are compared, in look-ups by identifier. All that follows a
look-up holds for any renaming, and is stated without the condition.
-/

namespace SchemaMigration

/-- A handle under another identifier. -/
def Handle.mapId (f : ObjectId → ObjectId) (h : Handle) : Handle := { h with id := f h.id }

/-- An attribute under another identifier. -/
def Attribute.mapId (f : ObjectId → ObjectId) (a : Attribute) : Attribute := { a with id := f a.id }

/-- A model with other identifiers, its own and those of its attributes. -/
def Model.mapIds (f : ObjectId → ObjectId) (m : Model) : Model :=
  ⟨f m.id, m.name, m.attributes.map (·.mapId f)⟩

/-- A schema with other identifiers. -/
def Schema.mapIds (f : ObjectId → ObjectId) (s : Schema) : Schema := ⟨s.models.map (·.mapIds f)⟩

/-- An operation with other identifiers, in all that it carries. -/
def Operation.mapIds (f : ObjectId → ObjectId) : Operation → Operation
  | dropModel name => dropModel name
  | addModel model => addModel (model.mapIds f)
  | renameModel previous current => renameModel previous current
  | addAttribute model attr => addAttribute (model.mapId f) (attr.mapId f)
  | dropAttribute model attr => dropAttribute (model.mapId f) (attr.mapId f)
  | renameAttribute model previous current => renameAttribute (model.mapId f) previous current
  | changeRequired model attr => changeRequired (model.mapId f) (attr.mapId f)
  | modifyAttribute model attr => modifyAttribute (model.mapId f) (attr.mapId f)
  | changeUnique model => changeUnique (model.mapIds f)

variable {f : ObjectId → ObjectId}

@[simp] theorem Handle.mapId_name (h : Handle) : (h.mapId f).name = h.name := rfl

@[simp] theorem Attribute.mapId_id (a : Attribute) : (a.mapId f).id = f a.id := rfl

@[simp] theorem Attribute.mapId_name (a : Attribute) : (a.mapId f).name = a.name := rfl

@[simp] theorem Attribute.mapId_required (a : Attribute) :
    (a.mapId f).required = a.required := rfl

@[simp] theorem Attribute.handle_mapId (a : Attribute) :
    (a.mapId f).handle = a.handle.mapId f := rfl

@[simp] theorem Model.mapIds_id (m : Model) : (m.mapIds f).id = f m.id := rfl

@[simp] theorem Model.mapIds_name (m : Model) : (m.mapIds f).name = m.name := rfl

@[simp] theorem Model.mapIds_attributes (m : Model) :
    (m.mapIds f).attributes = m.attributes.map (·.mapId f) := rfl

@[simp] theorem Model.handle_mapIds (m : Model) : (m.mapIds f).handle = m.handle.mapId f := rfl

@[simp] theorem Schema.mapIds_models (s : Schema) :
    (s.mapIds f).models = s.models.map (·.mapIds f) := rfl

/-- The kinds of operations stay. -/
@[simp] theorem Operation.kind_mapIds (op : Operation) : (op.mapIds f).kind = op.kind := by
  cases op <;> rfl

/-- The unique names of a model stay. -/
@[simp] theorem Model.uniqueNames_mapIds (m : Model) :
    (m.mapIds f).uniqueNames = m.uniqueNames := by
  simp only [uniqueNames, mapIds_attributes, List.filter_map, List.map_map]
  rfl

@[simp] theorem Model.sameUnique_mapIds (m n : Model) :
    (m.mapIds f).sameUnique (n.mapIds f) = m.sameUnique n := by
  simp [sameUnique]

@[simp] theorem Model.isNone_primaryKey?_mapIds (m : Model) :
    (m.mapIds f).primaryKey?.isNone = m.primaryKey?.isNone := by
  simp only [primaryKey?, mapIds_attributes, List.find?_map, Option.isNone_map]
  rfl

section Lookups

variable (hf : Function.Injective f)
include hf

/-- The attribute found under a renamed identifier is the one found before, renamed. -/
theorem Model.byId?_mapIds (m : Model) (id : ObjectId) :
    (m.mapIds f).byId? (f id) = (m.byId? id).map (·.mapId f) := by
  simp only [byId?, mapIds_attributes, List.find?_map]
  congr 2
  funext a
  exact decide_eq_decide.mpr hf.eq_iff

/-- The model found under a renamed identifier is the one found before, renamed. -/
theorem Schema.byId?_mapIds (s : Schema) (id : ObjectId) :
    (s.mapIds f).byId? (f id) = (s.byId? id).map (·.mapIds f) := by
  simp only [byId?, mapIds_models, List.find?_map]
  congr 2
  funext m
  exact decide_eq_decide.mpr hf.eq_iff

end Lookups

namespace Diff

@[simp] theorem sameColumn_mapId (a b : Attribute) :
    sameColumn (a.mapId f) (b.mapId f) = sameColumn a b := rfl

/-- The changes of a renamed attribute are the changes, renamed. -/
theorem attributeChanges_mapId (model : Handle) (a b : Attribute) :
    attributeChanges (model.mapId f) (a.mapId f) (b.mapId f) =
      (attributeChanges model a b).map (·.mapIds f) := by
  simp only [attributeChanges, Attribute.mapId_name, Attribute.mapId_required, sameColumn_mapId,
    List.map_append, apply_ite (List.map _), List.map_nil, List.map_cons]
  rfl

theorem renameStep_mapIds (m n : Model) :
    renameStep (m.mapIds f) (n.mapIds f) = (renameStep m n).map (·.mapIds f) := by
  simp only [renameStep, Model.mapIds_name, apply_ite (List.map _), List.map_nil, List.map_cons]
  rfl

theorem uniqueStep_mapIds (m n : Model) :
    uniqueStep (m.mapIds f) (n.mapIds f) = (uniqueStep m n).map (·.mapIds f) := by
  simp only [uniqueStep, Model.sameUnique_mapIds, apply_ite (List.map _), List.map_nil,
    List.map_cons]
  rfl

section Matched

variable (hf : Function.Injective f)
include hf

theorem goneAttributes_mapIds (m n : Model) :
    goneAttributes (m.mapIds f) (n.mapIds f) = (goneAttributes m n).map (·.mapId f) := by
  simp only [goneAttributes, Model.mapIds_attributes, List.filter_map]
  congr 2
  funext a
  simp [Model.byId?_mapIds hf]

theorem goneModels_mapIds (p c : Schema) :
    goneModels (p.mapIds f) (c.mapIds f) = (goneModels p c).map (·.mapIds f) := by
  simp only [goneModels, Schema.mapIds_models, List.filter_map]
  congr 2
  funext m
  simp [Schema.byId?_mapIds hf]

theorem attributeStep_mapIds (m n : Model) (a : Attribute) :
    attributeStep (m.mapIds f) (n.mapIds f) (a.mapId f) =
      (attributeStep m n a).map (·.mapIds f) := by
  simp only [attributeStep, Attribute.mapId_id, Model.byId?_mapIds hf, Model.handle_mapIds]
  cases m.byId? a.id with
  | none => rfl
  | some before => exact attributeChanges_mapId n.handle before a

/-- The changes of a renamed model are the changes, renamed. -/
theorem modelChanges_mapIds (m n : Model) :
    modelChanges (m.mapIds f) (n.mapIds f) = (modelChanges m n).map (·.mapIds f) := by
  have hsteps : (n.mapIds f).attributes.flatMap (attributeStep (m.mapIds f) (n.mapIds f)) =
      (n.attributes.flatMap (attributeStep m n)).map (·.mapIds f) := by
    simp only [Model.mapIds_attributes, List.flatMap_map, List.map_flatMap,
      attributeStep_mapIds hf]
  simp only [modelChanges, renameStep_mapIds, goneAttributes_mapIds hf, hsteps, uniqueStep_mapIds,
    List.map_append, List.map_map, Model.handle_mapIds]
  rfl

theorem modelStep_mapIds (p : Schema) (m : Model) :
    modelStep (p.mapIds f) (m.mapIds f) = (modelStep p m).map (·.mapIds f) := by
  simp only [modelStep, Model.mapIds_id, Schema.byId?_mapIds hf]
  cases p.byId? m.id with
  | none => rfl
  | some before => exact modelChanges_mapIds hf before m

theorem attributeEvents_mapIds (m n : Model) (a : Attribute) :
    attributeEvents (m.mapIds f) (n.mapIds f) (a.mapId f) = attributeEvents m n a := by
  simp only [attributeEvents, Attribute.mapId_id, Model.byId?_mapIds hf, Model.handle_mapIds]
  cases m.byId? a.id with
  | none => rfl
  | some before =>
      simp only [Option.map_some, attributeChanges_mapId]
      cases attributeChanges n.handle before a with
      | nil => rfl
      | cons change changes => simp

theorem changeEvents_mapIds (m n : Model) :
    changeEvents (m.mapIds f) (n.mapIds f) = changeEvents m n := by
  have hevents : (n.mapIds f).attributes.flatMap (attributeEvents (m.mapIds f) (n.mapIds f)) =
      n.attributes.flatMap (attributeEvents m n) := by
    simp only [Model.mapIds_attributes, List.flatMap_map, attributeEvents_mapIds hf]
  simp only [changeEvents, Model.mapIds_name, goneAttributes_mapIds hf, hevents,
    Model.sameUnique_mapIds, List.map_map]
  rfl

theorem modelEvents_mapIds (p : Schema) (m : Model) :
    modelEvents (p.mapIds f) (m.mapIds f) = modelEvents p m := by
  simp only [modelEvents, Model.mapIds_id, Schema.byId?_mapIds hf]
  cases p.byId? m.id with
  | none => rfl
  | some before => exact changeEvents_mapIds hf before m

end Matched

end Diff

section Matched

variable (hf : Function.Injective f)
include hf

/-- The difference of renamed schemas is the difference, renamed, in the same order. -/
theorem diff_mapIds (p c : Schema) :
    diff (p.mapIds f) (c.mapIds f) = (diff p c).map (·.mapIds f) := by
  have hsteps : (c.mapIds f).models.flatMap (Diff.modelStep (p.mapIds f)) =
      (c.models.flatMap (Diff.modelStep p)).map (·.mapIds f) := by
    simp only [Schema.mapIds_models, List.flatMap_map, List.map_flatMap, Diff.modelStep_mapIds hf]
  simp only [diff, Diff.goneModels_mapIds hf, hsteps, List.map_append, List.map_map]
  rfl

/-- The log tells the same of renamed schemas. -/
theorem diffEvents_mapIds (p c : Schema) :
    diffEvents (p.mapIds f) (c.mapIds f) = diffEvents p c := by
  have hevents : (c.mapIds f).models.flatMap (Diff.modelEvents (p.mapIds f)) =
      c.models.flatMap (Diff.modelEvents p) := by
    simp only [Schema.mapIds_models, List.flatMap_map, Diff.modelEvents_mapIds hf]
  simp only [diffEvents, Diff.goneModels_mapIds hf, hevents, diff_mapIds hf, List.length_map,
    List.map_map]
  simp only [Schema.mapIds_models, List.length_map]
  rfl

end Matched

namespace Sql.Dialect

/-- A column shows nothing of an identifier. -/
@[simp] theorem column_mapId (d : Dialect) (model : String) (a : Attribute) :
    d.column model (a.mapId f) = d.column model a := rfl

@[simp] theorem creation_mapIds (d : Dialect) (m : Model) :
    d.creation (m.mapIds f) = d.creation m := by
  have hunique : d.tableUnique? (m.mapIds f) = d.tableUnique? m := by
    simp [tableUnique?, unnamedUnique?, namedUnique?, unique?]
  simp only [creation, Model.mapIds_attributes, Model.mapIds_name, List.mapM_map, hunique,
    Function.comp_def, column_mapId]

/-- The statements of an operation show nothing of the identifiers in it. -/
@[simp] theorem statements_mapIds (d : Dialect) (op : Operation) :
    d.statements (op.mapIds f) = d.statements op := by
  cases op with
  | addModel m =>
      simp only [statements, Operation.mapIds, creation_mapIds]
  | changeUnique m =>
      simp [statements, Operation.mapIds, uniqueChange, namedUnique?, unique?]
  | dropModel | renameModel | addAttribute | dropAttribute | renameAttribute | changeRequired
  | modifyAttribute => rfl

@[simp] theorem table_mapIds (d : Dialect) (m : Model) : d.table (m.mapIds f) = d.table m := by
  simp [table, creationEvents, creationText]

theorem operation_mapIds (d : Dialect) (op : Operation) :
    d.operation (op.mapIds f) = d.operation op := by
  have htext : d.operationText (op.mapIds f) = d.operationText op := by
    simp [operationText]
  simp only [operation, htext, Operation.kind_mapIds]
  cases op with
  | addModel m => simp [Operation.mapIds, creationEvents]
  | dropModel | renameModel | addAttribute | dropAttribute | renameAttribute | changeRequired
  | modifyAttribute | changeUnique => rfl

/-- A schema script and its log show nothing of identifiers. -/
theorem schemaScript_mapIds (d : Dialect) (s : Schema) :
    d.schemaScript (s.mapIds f) = d.schemaScript s := by
  simp only [schemaScript, Schema.mapIds_models, List.mapM_map, Function.comp_def, table_mapIds]

/-- A migration script and its log show nothing of identifiers. -/
theorem migrationScript_map_mapIds (d : Dialect) (ops : List Operation) :
    d.migrationScript (ops.map (·.mapIds f)) = d.migrationScript ops := by
  simp only [migrationScript, List.mapM_map, Function.comp_def, operation_mapIds]

end Sql.Dialect

/-- A one-to-one renaming of all identifiers renames those in the difference, and leaves what is
generated for any targets as it is, scripts, failures and log alike. -/
theorem generate_mapIds (hf : Function.Injective f) (p c : Schema) :
    diff (p.mapIds f) (c.mapIds f) = (diff p c).map (·.mapIds f) ∧
      ∀ targets, generate targets (c.mapIds f) (some (p.mapIds f)) = generate targets c (some p) ∧
        generate targets (c.mapIds f) none = generate targets c none := by
  refine ⟨diff_mapIds hf p c, fun targets => ⟨?_, ?_⟩⟩
  · simp only [generate, diffEvents_mapIds hf, diff_mapIds hf,
      Sql.Dialect.migrationScript_map_mapIds, Schema.mapIds_models, List.length_map,
      Option.isSome_some]
  · simp only [generate, Sql.Dialect.schemaScript_mapIds, Schema.mapIds_models, List.length_map]

/-- Exchanges the number one with its spelling. -/
def exchangeOnes : ObjectId → ObjectId := Equiv.swap (.number 1) (.text "1")

/-- Two models and two attributes that only the kind of their identifier tells apart, and another
attribute with an identifier that is taken. -/
def onesSchema (first second : String) : Schema := ⟨[
  ⟨.number 1, first, [
    { id := .number 1, name := "id", type := .autoGenerated },
    { id := .text "1", name := second, type := .string, unique := true },
    { id := .text "1", name := "again", type := .text }]⟩,
  ⟨.text "1", second, []⟩]⟩

theorem generate_exchangedOnes : Function.Injective exchangeOnes ∧
    diff ((onesSchema "a" "b").mapIds exchangeOnes) ((onesSchema "b" "a").mapIds exchangeOnes) =
      (diff (onesSchema "a" "b") (onesSchema "b" "a")).map (·.mapIds exchangeOnes) ∧
    ∀ targets,
      generate targets ((onesSchema "b" "a").mapIds exchangeOnes)
        (some ((onesSchema "a" "b").mapIds exchangeOnes)) =
          generate targets (onesSchema "b" "a") (some (onesSchema "a" "b")) ∧
      generate targets ((onesSchema "b" "a").mapIds exchangeOnes) none =
        generate targets (onesSchema "b" "a") none := by
  have hf : Function.Injective exchangeOnes := (Equiv.swap _ _).injective
  exact ⟨hf, generate_mapIds hf (onesSchema "a" "b") (onesSchema "b" "a")⟩

end SchemaMigration
