import SchemaMigration.Diff
import SchemaMigration.Proofs.Distinct
import SchemaMigration.Proofs.Matching
import SchemaMigration.Proofs.Pairing

/-!
# Empty differences

A difference is empty when no model and no attribute is gone, each current one was there before, and
no comparison of two versions fires. What the comparisons look at is the name, the type, the bounds
and whether a value is required, of each attribute, and of each model its name and the set of its
unique names.
-/

namespace SchemaMigration

/-- The comparison of two versions of an attribute finds no change. -/
structure Attribute.Unchanged (previous current : Attribute) : Prop where
  name : previous.name = current.name
  required : previous.required = current.required
  type : previous.type = current.type
  min : Json.sameBound previous.min current.min = true
  max : Json.sameBound previous.max current.max = true

namespace Diff

theorem sameColumn_iff {previous current : Attribute} :
    sameColumn previous current = true ↔ previous.type = current.type ∧
      Json.sameBound previous.min current.min = true ∧
      Json.sameBound previous.max current.max = true := by
  simp only [sameColumn, Bool.and_eq_true, decide_eq_true_eq, and_assoc]

theorem ite_nil_singleton_eq_nil_iff {α : Type} {p : Prop} [Decidable p] {x : α} :
    (if p then [] else [x]) = [] ↔ p := by
  split <;> simp_all

theorem attributeChanges_eq_nil_iff {model : Handle} {previous current : Attribute} :
    attributeChanges model previous current = [] ↔ previous.Unchanged current := by
  simp only [attributeChanges, List.append_eq_nil_iff, ite_nil_singleton_eq_nil_iff,
    sameColumn_iff]
  constructor
  · rintro ⟨⟨hname, hrequired⟩, htype, hmin, hmax⟩
    exact ⟨hname, hrequired, htype, hmin, hmax⟩
  · intro h
    exact ⟨⟨h.name, h.required⟩, h.type, h.min, h.max⟩

theorem attributeStep_eq_nil_iff {previous current : Model} {attr : Attribute} :
    attributeStep previous current attr = [] ↔
      ∃ before ∈ previous.byId? attr.id, before.Unchanged attr := by
  unfold attributeStep
  cases previous.byId? attr.id with
  | none => simp
  | some before => simp [attributeChanges_eq_nil_iff]

/-- A model has no changes when its name, its identifiers and its unique names stay, and none of its
attributes changes. -/
theorem modelChanges_eq_nil_iff {previous current : Model} :
    modelChanges previous current = [] ↔ previous.name = current.name ∧
      (∀ attr ∈ previous.attributes, (current.byId? attr.id).isSome) ∧
      (∀ attr ∈ current.attributes, ∃ before ∈ previous.byId? attr.id, before.Unchanged attr) ∧
      previous.sameUnique current = true := by
  simp only [modelChanges, renameStep, uniqueStep, goneAttributes, List.append_eq_nil_iff,
    ite_nil_singleton_eq_nil_iff, List.map_eq_nil_iff, List.filter_eq_nil_iff,
    List.flatMap_eq_nil_iff, attributeStep_eq_nil_iff, Option.isNone_iff_eq_none,
    ← Option.isSome_iff_ne_none, and_assoc]

/-- A difference is empty when no model is gone, and each current one was there before and has no
changes. -/
theorem diff_eq_nil_iff {previous current : Schema} : diff previous current = [] ↔
    (∀ model ∈ previous.models, (current.byId? model.id).isSome) ∧
      ∀ model ∈ current.models, ∃ before ∈ previous.byId? model.id,
        modelChanges before model = [] := by
  have hstep : ∀ model, modelStep previous model = [] ↔
      ∃ before ∈ previous.byId? model.id, modelChanges before model = [] := by
    intro model
    unfold modelStep
    cases previous.byId? model.id with
    | none => simp
    | some before => simp
  simp only [diff, goneModels, List.append_eq_nil_iff, List.map_eq_nil_iff,
    List.filter_eq_nil_iff, List.flatMap_eq_nil_iff, hstep, Option.isNone_iff_eq_none,
    ← Option.isSome_iff_ne_none]

end Diff

/-- Two models have the same identifier and list the same identifiers of attributes. -/
structure Model.Aligned (previous current : Model) : Prop where
  id : previous.id = current.id
  attributes : List.Forall₂ (fun before attr => before.id = attr.id) previous.attributes
    current.attributes

/-- Two schemas list the same identifiers in the same order, of models and inside each model. -/
def Schema.Aligned (previous current : Schema) : Prop :=
  List.Forall₂ Model.Aligned previous.models current.models

/-- Two versions of a model differ in nothing that is compared. -/
structure Model.Unchanged (previous current : Model) : Prop where
  name : previous.name = current.name
  attributes : List.Forall₂ Attribute.Unchanged previous.attributes current.attributes
  sameUnique : previous.sameUnique current = true

/-- A model without changes is unchanged attribute by attribute. -/
theorem Model.Aligned.unchanged {previous current : Model} (ha : previous.Aligned current)
    (hp : (previous.attributes.map (·.id)).Nodup) (h : Diff.modelChanges previous current = []) :
    previous.Unchanged current := by
  obtain ⟨hname, -, hattributes, hunique⟩ := Diff.modelChanges_eq_nil_iff.mp h
  refine ⟨hname, (forall₂_mem ha.attributes).imp ?_, hunique⟩
  rintro before attr ⟨⟨hbefore, hattr⟩, hid⟩
  obtain ⟨found, hfound, hunchanged⟩ := hattributes attr hattr
  rw [← hid, Model.byId?_self hp hbefore] at hfound
  obtain rfl := Option.some.inj hfound
  exact hunchanged

theorem Schema.Aligned.unchanged {previous current : Schema} (ha : previous.Aligned current)
    (hp : previous.DistinctIds) (h : diff previous current = []) :
    List.Forall₂ Model.Unchanged previous.models current.models := by
  obtain ⟨-, hmodels⟩ := Diff.diff_eq_nil_iff.mp h
  refine (forall₂_mem ha).imp ?_
  rintro before model ⟨⟨hbefore, hmodel⟩, haligned⟩
  obtain ⟨found, hfound, hchanges⟩ := hmodels model hmodel
  rw [← haligned.id, Schema.byId?_self hp.ids hbefore] at hfound
  obtain rfl := Option.some.inj hfound
  exact haligned.unchanged (hp.attributes before hbefore) hchanges

/-- The unique names are found attribute by attribute. -/
theorem Model.uniqueNames_congr {x y : Model}
    (h : List.Forall₂ (fun a b => a.inUnique = b.inUnique ∧ a.name = b.name) x.attributes
      y.attributes) : x.uniqueNames = y.uniqueNames := by
  simp only [Model.uniqueNames]
  generalize x.attributes = xs at h ⊢
  generalize y.attributes = ys at h ⊢
  induction h with
  | nil => rfl
  | @cons a b _ _ hab _ ih =>
      obtain ⟨hunique, hname⟩ := hab
      rw [List.filter_cons, List.filter_cons, hunique]
      split
      · rw [List.map_cons, List.map_cons, hname, ih]
      · exact ih

/-- An unchanged model whose attributes have different names lists the same unique names: as a set
they are compared, and each stands where its attribute does. -/
theorem Model.Unchanged.uniqueNames {previous current : Model} (h : previous.Unchanged current)
    (hnames : (previous.attributes.map (·.name)).Nodup) :
    previous.uniqueNames = current.uniqueNames := by
  have hsame : previous.attributes.map (·.name) = current.attributes.map (·.name) :=
    map_eq_map_iff_forall₂.mpr (h.attributes.imp fun _ _ hab => hab.name)
  apply Model.uniqueNames_congr
  refine (forall₂_mem h.attributes).imp ?_
  rintro a b ⟨⟨ha, hb⟩, hab⟩
  refine ⟨?_, hab.name⟩
  have hmem := Model.sameUnique_iff.mp h.sameUnique a.name
  rw [Model.name_mem_uniqueNames hnames ha, hab.name,
    Model.name_mem_uniqueNames (hsame ▸ hnames) hb] at hmem
  exact Bool.eq_iff_iff.mpr hmem

end SchemaMigration
