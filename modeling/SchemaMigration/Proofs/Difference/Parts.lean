import SchemaMigration.Diff
import SchemaMigration.Proofs.Matching

/-!
# What a difference consists of

The operations of a difference are told apart by where they come from. In whatever order they stand,
there is one for each model that is gone and one for each that is new, and there are the changes of
the models that are in both schemas. These in turn are a renaming, the same three parts for the
attributes, and a change of the unique constraint.
-/

namespace SchemaMigration.Diff

open Matching

theorem attributeStep_of_none {previous current : Model} {attr : Attribute}
    (h : previous.byId? attr.id = none) :
    attributeStep previous current attr = [.addAttribute current.handle attr] := by
  simp only [attributeStep, h]

theorem attributeStep_of_some {previous current : Model} {attr before : Attribute}
    (h : previous.byId? attr.id = some before) :
    attributeStep previous current attr = attributeChanges current.handle before attr := by
  simp only [attributeStep, h]

theorem modelStep_of_none {previous : Schema} {model : Model}
    (h : previous.byId? model.id = none) : modelStep previous model = [.addModel model] := by
  simp only [modelStep, h]

theorem modelStep_of_some {previous : Schema} {model before : Model}
    (h : previous.byId? model.id = some before) :
    modelStep previous model = modelChanges before model := by
  simp only [modelStep, h]

variable {op : Operation}

/-- A step that may be left out has no other operation. -/
theorem mem_ite_iff {p : Prop} [Decidable p] {only : Operation} :
    (op ∈ if p then [] else [only]) ↔ ¬ p ∧ op = only := by
  split <;> simp_all

/-- An attribute that was there before is renamed, or may be absent or not as it could not before,
or its column changes its type. -/
theorem mem_attributeChanges_iff {model : Handle} {previous current : Attribute} :
    op ∈ attributeChanges model previous current ↔
      (previous.name ≠ current.name ∧
        op = .renameAttribute model previous.name current.name) ∨
      (previous.required ≠ current.required ∧ op = .changeRequired model current) ∨
      (¬ sameColumn previous current = true ∧ op = .modifyAttribute model current) := by
  simp only [attributeChanges, List.mem_append, mem_ite_iff, or_assoc, ne_eq]

theorem mem_attributeStep_iff {previous current : Model} {attr : Attribute} :
    op ∈ attributeStep previous current attr ↔
      (previous.byId? attr.id = none ∧ op = .addAttribute current.handle attr) ∨
      ∃ before ∈ previous.byId? attr.id, op ∈ attributeChanges current.handle before attr := by
  cases h : previous.byId? attr.id with
  | none => simp [attributeStep_of_none h]
  | some before => simp [attributeStep_of_some h]

/-- A model that was there before is renamed, loses and gets attributes, keeps some with changes, or
gets another unique constraint. -/
theorem mem_modelChanges_iff {previous current : Model} :
    op ∈ modelChanges previous current ↔
      (previous.name ≠ current.name ∧ op = .renameModel previous.name current.name) ∨
      (∃ attr ∈ goneAttributes previous current,
        op = .dropAttribute current.handle attr.handle) ∨
      (∃ attr ∈ current.attributes, op ∈ attributeStep previous current attr) ∨
      (¬ previous.sameUnique current = true ∧ op = .changeUnique current) := by
  simp only [modelChanges, renameStep, uniqueStep, List.mem_append, mem_ite_iff, List.mem_map,
    List.mem_flatMap, or_assoc, ne_eq, @eq_comm _ op]

/-- The step of an attribute is about columns alone. -/
theorem kind_of_mem_attributeStep {previous current : Model} {attr : Attribute}
    (h : op ∈ attributeStep previous current attr) :
    op.kind ≠ .dropModel ∧ op.kind ≠ .addModel ∧ op.kind ≠ .changeUnique := by
  rcases mem_attributeStep_iff.mp h with ⟨-, rfl⟩ | ⟨before, -, hchange⟩
  · simp [Operation.kind]
  · rcases mem_attributeChanges_iff.mp hchange with ⟨-, rfl⟩ | ⟨-, rfl⟩ | ⟨-, rfl⟩ <;>
      simp [Operation.kind]

/-- The changes of a model neither drop nor add one. -/
theorem kind_of_mem_modelChanges {previous current : Model}
    (h : op ∈ modelChanges previous current) : op.kind ≠ .dropModel ∧ op.kind ≠ .addModel := by
  rcases mem_modelChanges_iff.mp h with ⟨-, rfl⟩ | ⟨attr, -, rfl⟩ | ⟨attr, -, hstep⟩ | ⟨-, rfl⟩
  · simp [Operation.kind]
  · simp [Operation.kind]
  · obtain ⟨hdrop, hadd, -⟩ := kind_of_mem_attributeStep hstep
    exact ⟨hdrop, hadd⟩
  · simp [Operation.kind]

theorem mem_modelStep_iff {previous : Schema} {model : Model} :
    op ∈ modelStep previous model ↔
      (previous.byId? model.id = none ∧ op = .addModel model) ∨
      ∃ before ∈ previous.byId? model.id, op ∈ modelChanges before model := by
  cases h : previous.byId? model.id with
  | none => simp [modelStep_of_none h]
  | some before => simp [modelStep_of_some h]

theorem mem_diff_iff {previous current : Schema} :
    op ∈ diff previous current ↔
      (∃ model ∈ goneModels previous current, op = .dropModel model.name) ∨
      ∃ model ∈ current.models, op ∈ modelStep previous model := by
  simp only [diff, List.mem_append, List.mem_map, List.mem_flatMap, @eq_comm _ op]

/-- The operations for the attributes of a model, part by part. -/
def attributeParts (previous current : Model) : List Operation :=
  parts Attribute.id (fun attr => .dropAttribute current.handle attr.handle)
    (.addAttribute current.handle) (attributeChanges current.handle) previous.attributes
    current.attributes

/-- The operations of a difference, part by part. -/
def modelParts (previous current : Schema) : List Operation :=
  parts Model.id (fun model => .dropModel model.name) .addModel modelChanges previous.models
    current.models

/-- The changes of a model are its renaming, the parts for its attributes, and the change of its
unique constraint. -/
theorem modelChanges_perm_parts (previous current : Model) :
    (modelChanges previous current).Perm (renameStep previous current ++
      (attributeParts previous current ++ uniqueStep previous current)) := by
  have hattributes : ((goneAttributes previous current).map (fun attr =>
        Operation.dropAttribute current.handle attr.handle) ++
      current.attributes.flatMap (attributeStep previous current)).Perm
        (attributeParts previous current) :=
    perm_parts (fun _ => attributeStep_of_none) (fun _ _ => attributeStep_of_some)
      current.attributes
  rw [modelChanges, List.append_assoc, List.append_assoc, ← List.append_assoc (List.map _ _)]
  exact (hattributes.append_right _).append_left _

theorem diff_perm_parts (previous current : Schema) :
    (diff previous current).Perm (modelParts previous current) :=
  perm_parts (fun _ => modelStep_of_none) (fun _ _ => modelStep_of_some) current.models

/-- Wards, their beds, and notes. -/
def wardSchema : Schema := ⟨[
  ⟨.number 1, "wards", [
    { id := .number 1, name := "id", type := .autoGenerated },
    { id := .number 2, name := "floor", type := .integer, required := true },
    { id := .number 3, name := "code", type := .string, unique := true }]⟩,
  ⟨.number 2, "beds", [
    { id := .number 1, name := "id", type := .autoGenerated },
    { id := .number 2, name := "label", type := .text }]⟩,
  ⟨.number 3, "notes", []⟩]⟩

/-- The wards under another name and with other attributes, rooms instead of notes, and beds without
labels. -/
def stationSchema : Schema := ⟨[
  ⟨.number 1, "stations", [
    { id := .number 1, name := "id", type := .autoGenerated },
    { id := .number 2, name := "level", type := .text },
    { id := .number 3, name := "code", type := .string },
    { id := .number 4, name := "head", type := .string, unique := true }]⟩,
  ⟨.number 4, "rooms", [
    { id := .number 1, name := "id", type := .autoGenerated },
    { id := .number 2, name := "size", type := .number }]⟩,
  ⟨.number 2, "beds", [{ id := .number 1, name := "id", type := .autoGenerated }]⟩]⟩

/-- Between these two there are operations of all kinds. -/
example : (diff wardSchema stationSchema).map (·.kind) =
    [.dropModel, .renameModel, .renameAttribute, .changeRequired, .modifyAttribute, .addAttribute,
      .changeUnique, .addModel, .dropAttribute] := by
  decide +kernel

end SchemaMigration.Diff
