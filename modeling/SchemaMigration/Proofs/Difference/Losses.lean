import SchemaMigration.Proofs.Difference.Parts
import SchemaMigration.Proofs.Unchanged

/-!
# What a migration can lose

An operation counts as destructive by its kind: it drops a model or an attribute, or gives a column
another type. Between two schemas such operations come up exactly where something stored can be
lost. A difference without any leaves every table and every column of the previous schema in place,
each column with the type and the bounds that it had; names, new columns and constraints may change
as they like.
-/

namespace SchemaMigration

open Matching

/-- What an attribute may hold stays the same: its type and its bounds. -/
structure Attribute.KeepsColumn (previous current : Attribute) : Prop where
  type : previous.type = current.type
  min : Json.sameBound previous.min current.min = true
  max : Json.sameBound previous.max current.max = true

/-- Every attribute is still there, and what it may hold stays the same. -/
def Model.KeepsColumns (previous current : Model) : Prop :=
  Retained Attribute.id Attribute.KeepsColumn previous.attributes current.attributes

/-- Every model is still there with all its attributes, and what they may hold stays the same. -/
def Schema.KeepsTables (previous current : Schema) : Prop :=
  Retained Model.id Model.KeepsColumns previous.models current.models

instance : DecidableRel Attribute.KeepsColumn := fun a b =>
  decidable_of_iff (a.type = b.type ∧ Json.sameBound a.min b.min = true ∧
      Json.sameBound a.max b.max = true)
    ⟨fun h => ⟨h.1, h.2.1, h.2.2⟩, fun h => ⟨h.type, h.min, h.max⟩⟩

instance : DecidableRel Model.KeepsColumns := fun m n => inferInstanceAs
  (Decidable (Retained Attribute.id Attribute.KeepsColumn m.attributes n.attributes))

instance : DecidableRel Schema.KeepsTables := fun s t =>
  inferInstanceAs (Decidable (Retained Model.id Model.KeepsColumns s.models t.models))

namespace Diff

/-- None of the operations is destructive. -/
def Harmless (operations : List Operation) : Prop := ∀ op ∈ operations, op.isDestructive = false

instance (operations : List Operation) : Decidable (Harmless operations) :=
  inferInstanceAs (Decidable (∀ op ∈ operations, op.isDestructive = false))

theorem harmless_append {a b : List Operation} : Harmless (a ++ b) ↔ Harmless a ∧ Harmless b :=
  List.forall_mem_append

theorem harmless_flatMap {α : Type} {xs : List α} {f : α → List Operation} :
    Harmless (xs.flatMap f) ↔ ∀ x ∈ xs, Harmless (f x) :=
  List.forall_mem_flatMap

/-- Destructive operations for the items of a list are harmless only if there are no items. -/
theorem harmless_map_iff_eq_nil {α : Type} {xs : List α} {f : α → Operation}
    (hf : ∀ x, (f x).isDestructive = true) : Harmless (xs.map f) ↔ xs = [] := by
  simp [Harmless, hf, List.eq_nil_iff_forall_not_mem]

/-- A step that may be left out destroys nothing if its operation does not. -/
theorem harmless_ite_of_not_isDestructive {p : Prop} [Decidable p] {op : Operation}
    (h : op.isDestructive = false) : Harmless (if p then [] else [op]) := by
  split <;> simp [Harmless, h]

/-- Of the changes of an attribute only the one of its column is destructive. -/
theorem harmless_attributeChanges_iff {model : Handle} {previous current : Attribute} :
    Harmless (attributeChanges model previous current) ↔ previous.KeepsColumn current := by
  have hrename : Harmless (if previous.name = current.name then []
      else [.renameAttribute model previous.name current.name]) :=
    harmless_ite_of_not_isDestructive rfl
  have hrequired : Harmless (if previous.required = current.required then []
      else [.changeRequired model current]) :=
    harmless_ite_of_not_isDestructive rfl
  rw [attributeChanges, harmless_append, harmless_append]
  simp only [hrename, hrequired, true_and]
  constructor
  · intro h
    have hsame : sameColumn previous current = true := by
      by_contra hne
      rw [if_neg hne] at h
      exact Bool.noConfusion (h _ (List.mem_singleton_self _))
    obtain ⟨htype, hmin, hmax⟩ := sameColumn_iff.mp hsame
    exact ⟨htype, hmin, hmax⟩
  · intro h
    rw [if_pos (sameColumn_iff.mpr ⟨h.type, h.min, h.max⟩)]
    exact List.forall_mem_nil _

/-- The step for an attribute destroys nothing if what was there before may hold the same. -/
theorem harmless_attributeStep_iff {previous current : Model} {attr : Attribute} :
    Harmless (attributeStep previous current attr) ↔
      ∀ before ∈ previous.byId? attr.id, before.KeepsColumn attr := by
  cases h : previous.byId? attr.id with
  | none => simp [attributeStep_of_none h, Harmless, Operation.isDestructive]
  | some before => simp [attributeStep_of_some h, harmless_attributeChanges_iff]

/-- The changes of a model destroy nothing exactly if all its columns stay in place. -/
theorem harmless_modelChanges_iff {previous current : Model}
    (hp : (previous.attributes.map (·.id)).Nodup) :
    Harmless (modelChanges previous current) ↔ previous.KeepsColumns current := by
  have hretained : previous.KeepsColumns current ↔ goneAttributes previous current = [] ∧
      ∀ attr ∈ current.attributes, ∀ before ∈ previous.byId? attr.id, before.KeepsColumn attr :=
    retained_iff hp
  have hrename : Harmless (renameStep previous current) := harmless_ite_of_not_isDestructive rfl
  have hunique : Harmless (uniqueStep previous current) := harmless_ite_of_not_isDestructive rfl
  rw [hretained, modelChanges, harmless_append, harmless_append, harmless_append, harmless_flatMap,
    harmless_map_iff_eq_nil fun _ => rfl]
  simp only [hrename, hunique, harmless_attributeStep_iff, true_and, and_true]

theorem harmless_modelStep_iff {previous : Schema} {model : Model} :
    Harmless (modelStep previous model) ↔
      ∀ before ∈ previous.byId? model.id, Harmless (modelChanges before model) := by
  cases h : previous.byId? model.id with
  | none => simp [modelStep_of_none h, Harmless, Operation.isDestructive]
  | some before => simp [modelStep_of_some h]

end Diff

/-- No operation of a difference is destructive exactly if every model of the previous schema and
every attribute of it is still there under its identifier, with the type and the bounds it had. The
current schema may repeat identifiers: all its versions of an attribute count. -/
theorem harmless_diff_iff {previous current : Schema} (hp : previous.DistinctIds) :
    (∀ op ∈ diff previous current, op.isDestructive = false) ↔ previous.KeepsTables current := by
  have hretained : previous.KeepsTables current ↔ Diff.goneModels previous current = [] ∧
      ∀ model ∈ current.models, ∀ before ∈ previous.byId? model.id, before.KeepsColumns model :=
    retained_iff hp.ids
  have hchanges : ∀ model, (∀ before ∈ previous.byId? model.id,
        Diff.Harmless (Diff.modelChanges before model)) ↔
      ∀ before ∈ previous.byId? model.id, before.KeepsColumns model := by
    refine fun model => forall₂_congr fun before hfound => ?_
    have hbefore : before ∈ previous.models := List.mem_of_find?_eq_some hfound
    exact Diff.harmless_modelChanges_iff (hp.attributes before hbefore)
  change Diff.Harmless (diff previous current) ↔ _
  rw [hretained, diff, Diff.harmless_append, Diff.harmless_flatMap,
    Diff.harmless_map_iff_eq_nil fun _ => rfl]
  simp only [Diff.harmless_modelStep_iff, hchanges]

theorem canonical_ninety : Canonical 6333186975989760 (-46) := by decide

/-- Sensors, what they measure up to a limit, and the rooms that they are in. -/
def sensorSchema : Schema := ⟨[
  ⟨.number 1, "sensors", [
    { id := .number 1, name := "id", type := .autoGenerated },
    { id := .number 2, name := "heat", type := .number, max := some (.integer 90 (by decide)) }]⟩,
  ⟨.number 2, "rooms", [{ id := .text "n", name := "name", type := .string }]⟩]⟩

/-- The same under other names and in another order, with more columns, the limit spelt with a
fraction, and the names of rooms as columns of the given type. -/
def probeSchema (type : AttributeType) : Schema := ⟨[
  ⟨.number 2, "halls", [
    { id := .number 1, name := "floor", type := .integer },
    { id := .text "n", name := "label", type := type, required := true, unique := true }]⟩,
  ⟨.number 1, "probes", [
    { id := .number 2, name := "warmth", type := .number,
      max := some (.real ⟨false, 6333186975989760, -46, canonical_ninety⟩) },
    { id := .number 1, name := "id", type := .autoGenerated }]⟩]⟩

theorem harmless_diff_probes :
    sensorSchema.DistinctIds ∧
      (∀ op ∈ diff sensorSchema (probeSchema .string), op.isDestructive = false) ∧
      diff sensorSchema (probeSchema .string) ≠ [] ∧
      ¬ ∀ op ∈ diff sensorSchema (probeSchema .text), op.isDestructive = false := by
  have hp : sensorSchema.DistinctIds := by decide
  have hkept : sensorSchema.KeepsTables (probeSchema .string) := by decide +kernel
  have hother : ¬ sensorSchema.KeepsTables (probeSchema .text) := by decide +kernel
  exact ⟨hp, (harmless_diff_iff hp).mpr hkept, by decide +kernel,
    mt (harmless_diff_iff hp).mp hother⟩

end SchemaMigration
