import SchemaMigration.Proofs.Bounds
import SchemaMigration.Proofs.Unchanged

/-!
# Equivalent schemas

Two schemas are equivalent when they have the same models and the same attributes in each, taken by
their identifiers, and these differ in nothing that is compared. Orders do not count, and neither do
default values and the spelling of bounds.
-/

namespace SchemaMigration

open Matching

namespace Attribute.Unchanged

theorem refl (a : Attribute) : a.Unchanged a :=
  ⟨rfl, rfl, rfl, Json.sameBound_refl a.min, Json.sameBound_refl a.max⟩

theorem symm {a b : Attribute} (h : a.Unchanged b) : b.Unchanged a :=
  ⟨h.name.symm, h.required.symm, h.type.symm, Json.sameBound_symm h.min, Json.sameBound_symm h.max⟩

theorem trans {a b c : Attribute} (hab : a.Unchanged b) (hbc : b.Unchanged c) : a.Unchanged c where
  name := hab.name.trans hbc.name
  required := hab.required.trans hbc.required
  type := hab.type.trans hbc.type
  min := Json.sameBound_trans hab.min hbc.min
  max := Json.sameBound_trans hab.max hbc.max

end Attribute.Unchanged

/-- Two versions of a model have the same name, the same identifiers of attributes, no change in any
attribute, and the same names under the unique constraint. -/
structure Model.Equivalent (previous current : Model) : Prop where
  name : previous.name = current.name
  attributes : Matched Attribute.id Attribute.Unchanged previous.attributes current.attributes
  uniqueNames : ∀ name, name ∈ previous.uniqueNames ↔ name ∈ current.uniqueNames

namespace Model.Equivalent

theorem refl {m : Model} (hm : (m.attributes.map (·.id)).Nodup) : m.Equivalent m :=
  ⟨rfl, .refl hm fun attr _ => .refl attr, fun _ => Iff.rfl⟩

theorem symm {m n : Model} (h : m.Equivalent n) : n.Equivalent m :=
  ⟨h.name.symm, h.attributes.symm fun _ _ => .symm, fun name => (h.uniqueNames name).symm⟩

theorem trans {l m n : Model} (hlm : l.Equivalent m) (hmn : m.Equivalent n) : l.Equivalent n where
  name := hlm.name.trans hmn.name
  attributes := hlm.attributes.trans hmn.attributes fun _ _ _ => .trans
  uniqueNames name := (hlm.uniqueNames name).trans (hmn.uniqueNames name)

end Model.Equivalent

/-- A model whose identifiers are distinct has no changes exactly towards an equivalent one. -/
theorem Diff.modelChanges_eq_nil_iff_equivalent {previous current : Model}
    (hp : (previous.attributes.map (·.id)).Nodup) :
    modelChanges previous current = [] ↔ previous.Equivalent current := by
  have hmatched : Matched Attribute.id Attribute.Unchanged previous.attributes current.attributes ↔
      (∀ attr ∈ previous.attributes, (current.byId? attr.id).isSome) ∧
        ∀ attr ∈ current.attributes, ∃ before ∈ previous.byId? attr.id, before.Unchanged attr :=
    matched_iff hp
  rw [modelChanges_eq_nil_iff, Model.sameUnique_iff]
  constructor
  · rintro ⟨hname, hkept, hunchanged, hunique⟩
    exact ⟨hname, hmatched.mpr ⟨hkept, hunchanged⟩, hunique⟩
  · rintro ⟨hname, hattributes, hunique⟩
    obtain ⟨hkept, hunchanged⟩ := hmatched.mp hattributes
    exact ⟨hname, hkept, hunchanged, hunique⟩

/-- Two schemas have the same identifiers of models, and models that share one are equivalent. -/
def Schema.Equivalent (previous current : Schema) : Prop :=
  Matched Model.id Model.Equivalent previous.models current.models

namespace Schema.Equivalent

theorem refl {s : Schema} (hs : s.DistinctIds) : s.Equivalent s :=
  Matched.refl hs.ids fun m hm => .refl (hs.attributes m hm)

theorem symm {s t : Schema} (h : s.Equivalent t) : t.Equivalent s :=
  Matched.symm h fun _ _ => .symm

theorem trans {s t u : Schema} (hst : s.Equivalent t) (htu : t.Equivalent u) : s.Equivalent u :=
  Matched.trans hst htu fun _ _ _ => .trans

end Schema.Equivalent

/-- A difference is empty exactly between equivalent schemas. The current one may repeat
identifiers: each of its models is compared with the one that was there before. -/
theorem diff_eq_nil_iff_equivalent {previous current : Schema} (hp : previous.DistinctIds) :
    diff previous current = [] ↔ previous.Equivalent current := by
  have hmatched : previous.Equivalent current ↔
      (∀ model ∈ previous.models, (current.byId? model.id).isSome) ∧
        ∀ model ∈ current.models, ∃ before ∈ previous.byId? model.id, before.Equivalent model :=
    matched_iff hp.ids
  have hchanges : ∀ model, (∃ before ∈ previous.byId? model.id,
        Diff.modelChanges before model = []) ↔
      ∃ before ∈ previous.byId? model.id, before.Equivalent model := by
    refine fun model => exists_congr fun before => and_congr_right fun hfound => ?_
    have hbefore : before ∈ previous.models := List.mem_of_find?_eq_some hfound
    exact Diff.modelChanges_eq_nil_iff_equivalent (hp.attributes before hbefore)
  rw [hmatched, Diff.diff_eq_nil_iff]
  simp only [hchanges]

/-- A schema does not differ from itself. -/
theorem diff_self {s : Schema} (hs : s.DistinctIds) : diff s s = [] :=
  (diff_eq_nil_iff_equivalent hs).mpr (.refl hs)

/-- The difference of two schemas, the previous one without repeated identifiers, is empty exactly
when they are equivalent. Among schemas without repeated identifiers, to have no difference is an
equivalence; in particular no schema differs from itself. -/
theorem diff_eq_nil_equivalence :
    (∀ previous current : Schema, previous.DistinctIds →
      (diff previous current = [] ↔ previous.Equivalent current)) ∧
    Equivalence fun previous current : { s : Schema // s.DistinctIds } =>
      diff previous.val current.val = [] := by
  refine ⟨fun _ _ hp => diff_eq_nil_iff_equivalent hp, ?_⟩
  have hiff (s t : { s : Schema // s.DistinctIds }) :
      diff s.val t.val = [] ↔ s.val.Equivalent t.val := diff_eq_nil_iff_equivalent s.property
  simp only [hiff]
  exact ⟨fun s => .refl s.property, .symm, .trans⟩

theorem canonical_twenty : Canonical 5629499534213120 (-48) := by decide

/-- Books with a title of limited length that is unique among them or not, and their authors. -/
def libraryModels (limit : Json.Number) (initial : String) (unique : Bool) : List Model := [
  ⟨.text "books", "books", [
    { id := .number 1, name := "id", type := .autoGenerated },
    { id := .text "title", name := "title", type := .string, unique := unique, max := some limit,
      defaultValue := some (.string initial) }]⟩,
  ⟨.text "authors", "authors", []⟩]

/-- The library as it was. -/
def librarySchema : Schema := ⟨libraryModels (.integer 20 (by decide)) "" true⟩

/-- The library with everything in reverse order, the limit spelt with a fraction, and a title to
begin with. -/
def respeltLibrary (unique : Bool) : Schema :=
  ⟨((libraryModels (.real ⟨false, 5629499534213120, -48, canonical_twenty⟩) "new" unique).map
    fun m => { m with attributes := m.attributes.reverse }).reverse⟩

theorem equivalent_respeltLibrary :
    librarySchema.DistinctIds ∧ diff librarySchema (respeltLibrary true) = [] ∧
      librarySchema.Equivalent (respeltLibrary true) ∧
      ¬ librarySchema.Equivalent (respeltLibrary false) := by
  have hp : librarySchema.DistinctIds := by decide
  have hsame : diff librarySchema (respeltLibrary true) = [] := by decide +kernel
  have hother : diff librarySchema (respeltLibrary false) ≠ [] := by decide +kernel
  obtain ⟨hiff, -⟩ := diff_eq_nil_equivalence
  exact ⟨hp, hsame, (hiff _ _ hp).mp hsame, mt (hiff _ _ hp).mpr hother⟩

end SchemaMigration
