import SchemaMigration.Proofs.Sql.Scripts

/-!
# Types that a dialect refuses

Scripts fail in one way only: an attribute has a type that the dialect does not map. A script fails
with the first such attribute that it renders, and the registered dialects map the same types, so
they refuse the same attribute.

A difference renders some attributes of the current schema and leaves others out. If the previous
schema can be rendered, those it leaves out have the type they had before, and the attribute that
the migration refuses is the first of the current schema whose type is not mapped.
-/

namespace SchemaMigration

/-- The attributes of a schema, each with its model, in the order of the document. -/
def Schema.attributesInOrder (s : Schema) : List (Model × Attribute) :=
  s.models.flatMap fun model => model.attributes.map fun attr => (model, attr)

namespace Sql

open Dialect

namespace Dialect

/-- The first attribute of a schema whose type is not in the table of a dialect. -/
def firstUnmapped? (d : Dialect) (s : Schema) : Option (Model × Attribute) :=
  s.attributesInOrder.find? fun entry => (d.mapping? entry.2.type).isNone

/-- The failure that an attribute of a model meets, if its type is not mapped. -/
def refusal? (d : Dialect) (model : String) (attr : Attribute) : Option Failure :=
  match d.mapping? attr.type with
  | some _ => none
  | none => some (.unsupportedType attr.type.name attr.name model)

/-- The failure that a model meets: that of its first attribute with one. -/
def modelRefusal? (d : Dialect) (model : Model) : Option Failure :=
  model.attributes.findSome? (d.refusal? model.name)

/-- The failure that an operation meets. Only attributes whose column it defines or changes are
rendered. -/
def operationRefusal? (d : Dialect) : Operation → Option Failure
  | .addModel model => d.modelRefusal? model
  | .addAttribute model attr | .modifyAttribute model attr => d.refusal? model.name attr
  | _ => none

end Dialect

/-- A search through lists put together is a search for a list with a hit. -/
theorem findSome?_flatMap {α β γ : Type} (f : α → List β) (g : β → Option γ) (xs : List α) :
    (xs.flatMap f).findSome? g = xs.findSome? fun x => (f x).findSome? g := by
  induction xs with
  | nil => rfl
  | cons x xs ih =>
      rw [List.flatMap_cons, List.findSome?_append, List.findSome?_cons, ih]
      cases (f x).findSome? g <;> rfl

theorem findSome?_congr {α β : Type} {f g : α → Option β} {xs : List α}
    (h : ∀ x ∈ xs, f x = g x) : xs.findSome? f = xs.findSome? g := by
  induction xs with
  | nil => rfl
  | cons x xs ih =>
      obtain ⟨hx, hxs⟩ := List.forall_mem_cons.mp h
      rw [List.findSome?_cons, List.findSome?_cons, hx, ih hxs]

theorem fault?_mapping (d : Dialect) (model : String) (attr : Attribute) :
    Outcome.fault? (d.mapping model attr) = d.refusal? model attr := by
  simp only [mapping, refusal?]
  cases d.mapping? attr.type <;> rfl

theorem fault?_columnType (d : Dialect) (model : String) (attr : Attribute) :
    Outcome.fault? (d.columnType model attr) = d.refusal? model attr := by
  rw [← fault?_mapping, columnType]
  cases d.mapping model attr <;> rfl

theorem fault?_column (d : Dialect) (model : String) (attr : Attribute) :
    Outcome.fault? (d.column model attr) = d.refusal? model attr := by
  rw [← fault?_mapping, column, columnType, defaultLiteral]
  cases d.mapping model attr <;> rfl

theorem fault?_creationText (d : Dialect) (model : Model) :
    Outcome.fault? (d.creationText model) = d.modelRefusal? model := by
  have hcolumns : Outcome.fault? (model.attributes.mapM (d.column model.name)) =
      d.modelRefusal? model := by
    rw [Outcome.fault?_mapM]
    exact findSome?_congr fun attr _ => fault?_column d model.name attr
  rw [← hcolumns, creationText, creation]
  cases model.attributes.mapM (d.column model.name) <;> rfl

theorem fault?_operationText (d : Dialect) (op : Operation) :
    Outcome.fault? (d.operationText op) = d.operationRefusal? op := by
  cases op with
  | addModel model => rw [operationText_addModel, fault?_creationText, operationRefusal?]
  | addAttribute model attr =>
      rw [operationRefusal?, ← fault?_column, operationText, statements]
      cases d.column model.name attr <;> rfl
  | modifyAttribute model attr =>
      rw [operationRefusal?, ← fault?_columnType, operationText, statements]
      cases d.columnType model.name attr <;> rfl
  | dropModel | renameModel | dropAttribute | renameAttribute | changeRequired | changeUnique => rfl

theorem fault?_schemaScript (d : Dialect) (s : Schema) :
    Outcome.fault? (d.schemaScript s).outcome = s.models.findSome? d.modelRefusal? := by
  rw [outcome_schemaScript, Outcome.fault?_map, Outcome.fault?_mapM]
  exact findSome?_congr fun model _ => fault?_creationText d model

/-- A migration script fails with the first operation that is refused. -/
theorem fault?_migrationScript (d : Dialect) (ops : List Operation) :
    Outcome.fault? (d.migrationScript ops).outcome = ops.findSome? d.operationRefusal? := by
  rw [outcome_migrationScript, Outcome.fault?_map, Outcome.fault?_mapM]
  exact findSome?_congr fun op _ => fault?_operationText d op

/-- A refusal names a type, an attribute and a model. -/
theorem eq_of_refusal? {d : Dialect} {model : String} {attr : Attribute} {failure : Failure}
    (h : d.refusal? model attr = some failure) :
    failure = .unsupportedType attr.type.name attr.name model := by
  unfold refusal? at h
  split at h
  · cases h
  · exact (Option.some.inj h).symm

/-- A schema script fails exactly for the first attribute of the document whose type is not mapped,
and names it. -/
theorem fault?_schemaScript_eq_firstUnmapped? (d : Dialect) (s : Schema) :
    Outcome.fault? (d.schemaScript s).outcome = (d.firstUnmapped? s).map fun entry =>
      .unsupportedType entry.2.type.name entry.2.name entry.1.name := by
  rw [fault?_schemaScript, firstUnmapped?, Schema.attributesInOrder, List.find?_flatMap,
    List.map_findSome?]
  apply findSome?_congr
  intro model _
  rw [Function.comp_apply, List.find?_map, Option.map_map, List.find?_eq_findSome?_guard,
    List.map_findSome?, modelRefusal?]
  apply findSome?_congr
  intro attr _
  simp only [refusal?, Function.comp_apply, Option.guard]
  split
  · next hmapped => simp [hmapped]
  · next hmapped => simp [hmapped]

/-- An attribute that was mapped before is refused by its changes exactly if it is refused now: the
type is changed wherever it is another. -/
theorem findSome?_attributeChanges {d : Dialect} {model : Handle} {previous current : Attribute}
    (h : (d.mapping? previous.type).isSome) :
    (Diff.attributeChanges model previous current).findSome? d.operationRefusal? =
      d.refusal? model.name current := by
  have hrename : List.findSome? d.operationRefusal? (if previous.name = current.name then []
      else [.renameAttribute model previous.name current.name]) = none := by
    split <;> rfl
  have hrequired : List.findSome? d.operationRefusal?
      (if previous.required = current.required then [] else [.changeRequired model current]) =
        none := by
    split <;> rfl
  rw [Diff.attributeChanges, List.findSome?_append, List.findSome?_append, hrename, hrequired,
    Option.none_or, Option.none_or]
  split
  · next same =>
    have htype : previous.type = current.type := by
      simp only [Diff.sameColumn, Bool.and_eq_true, decide_eq_true_eq] at same
      exact same.1.1
    obtain ⟨mapping, hmapping⟩ := Option.isSome_iff_exists.mp (htype ▸ h)
    simp [refusal?, hmapping]
  · simp [operationRefusal?]

/-- A model that was rendered before is refused by its changes as it is refused on creation. -/
theorem findSome?_modelChanges {d : Dialect} {previous current : Model}
    (h : ∀ attr ∈ previous.attributes, (d.mapping? attr.type).isSome) :
    (Diff.modelChanges previous current).findSome? d.operationRefusal? =
      d.modelRefusal? current := by
  have hrename : (Diff.renameStep previous current).findSome? d.operationRefusal? = none := by
    unfold Diff.renameStep
    split <;> rfl
  have hgone : ((Diff.goneAttributes previous current).map fun attr =>
      Operation.dropAttribute current.handle attr.handle).findSome? d.operationRefusal? = none := by
    rw [List.findSome?_map]
    exact List.findSome?_eq_none_iff.mpr fun _ _ => rfl
  have hunique : (Diff.uniqueStep previous current).findSome? d.operationRefusal? = none := by
    unfold Diff.uniqueStep
    split <;> rfl
  rw [Diff.modelChanges, List.findSome?_append, List.findSome?_append, List.findSome?_append,
    hrename, hgone, hunique, findSome?_flatMap, Option.or_none, Option.none_or, Option.none_or]
  apply findSome?_congr
  intro attr _
  unfold Diff.attributeStep
  cases hbefore : previous.byId? attr.id with
  | none => simp [operationRefusal?, Model.handle]
  | some before => exact findSome?_attributeChanges (h before (List.mem_of_find?_eq_some hbefore))

/-- From a schema that can be rendered, a difference is refused as the current schema is. -/
theorem findSome?_operationRefusal?_diff {d : Dialect} {previous : Schema} (current : Schema)
    (h : ∀ model ∈ previous.models, ∀ attr ∈ model.attributes, (d.mapping? attr.type).isSome) :
    (diff previous current).findSome? d.operationRefusal? =
      current.models.findSome? d.modelRefusal? := by
  have hgone : ((Diff.goneModels previous current).map fun model =>
      Operation.dropModel model.name).findSome? d.operationRefusal? = none := by
    rw [List.findSome?_map]
    exact List.findSome?_eq_none_iff.mpr fun _ _ => rfl
  rw [diff, List.findSome?_append, hgone, Option.none_or, findSome?_flatMap]
  apply findSome?_congr
  intro model _
  unfold Diff.modelStep
  cases hbefore : previous.byId? model.id with
  | none => simp [operationRefusal?]
  | some before => exact findSome?_modelChanges (h before (List.mem_of_find?_eq_some hbefore))

/-- Every type of a schema that can be rendered is mapped. -/
theorem isSome_mapping?_of_schemaScript {d : Dialect} {s : Schema} {text : String}
    (h : (d.schemaScript s).outcome = .ok text) :
    ∀ model ∈ s.models, ∀ attr ∈ model.attributes, (d.mapping? attr.type).isSome := by
  intro model hmodel attr hattr
  have hnone : Outcome.fault? (d.schemaScript s).outcome = none :=
    Outcome.fault?_eq_none_iff.mpr ⟨text, h⟩
  rw [fault?_schemaScript, List.findSome?_eq_none_iff] at hnone
  have hrefusal := List.findSome?_eq_none_iff.mp (hnone model hmodel) attr hattr
  unfold refusal? at hrefusal
  split at hrefusal
  · next hmapped => rw [hmapped, Option.isSome_some]
  · cases hrefusal

theorem isSome_mapping?_iff (d : Dialect) (type : AttributeType) :
    (d.mapping? type).isSome ↔ type.name ∈ d.mappings.map (·.1) := by
  simp only [mapping?, Option.isSome_map, List.find?_isSome, decide_eq_true_eq, List.mem_map]

/-- The registered dialects map the types with a meaning of their own, and no others. -/
theorem mappings_eq_known {d : Dialect} (hd : d ∈ dialects) :
    d.mappings.map (·.1) = AttributeType.known.map (·.name) := by
  have hall : ∀ d ∈ dialects, d.mappings.map (·.1) = AttributeType.known.map (·.name) := by decide
  exact hall d hd

/-- The registered dialects refuse the same attributes with the same failure. -/
theorem refusal?_eq_of_registered {d e : Dialect} (hd : d ∈ dialects) (he : e ∈ dialects) :
    d.refusal? = e.refusal? := by
  funext model attr
  have hsame : (d.mapping? attr.type).isSome = (e.mapping? attr.type).isSome := by
    rw [Bool.eq_iff_iff, isSome_mapping?_iff, isSome_mapping?_iff, mappings_eq_known hd,
      mappings_eq_known he]
  unfold refusal?
  cases hdm : d.mapping? attr.type <;> cases hem : e.mapping? attr.type <;>
    simp [hdm, hem] at hsame ⊢

theorem modelRefusal?_eq_of_registered {d e : Dialect} (hd : d ∈ dialects) (he : e ∈ dialects) :
    d.modelRefusal? = e.modelRefusal? := by
  funext model
  rw [modelRefusal?, modelRefusal?, refusal?_eq_of_registered hd he]

/-- The registered dialects refuse the same operations with the same failure. -/
theorem operationRefusal?_eq_of_registered {d e : Dialect} (hd : d ∈ dialects)
    (he : e ∈ dialects) : d.operationRefusal? = e.operationRefusal? := by
  funext op
  cases op with
  | addModel model => exact congrFun (modelRefusal?_eq_of_registered hd he) model
  | addAttribute model attr | modifyAttribute model attr =>
      exact congrFun (congrFun (refusal?_eq_of_registered hd he) model.name) attr
  | dropModel | renameModel | dropAttribute | renameAttribute | changeRequired | changeUnique => rfl

end Sql

end SchemaMigration
