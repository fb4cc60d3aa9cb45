import Mathlib.Data.List.Nodup
import SchemaMigration.Schema.Basic

/-!
# Schemas without repetition

Documents may repeat identifiers and names. Most statements about differences are about schemas that
do not, or at least do not repeat identifiers.
-/

namespace SchemaMigration

/-- No two attributes have the same identifier or the same name. -/
structure Model.Distinct (m : Model) : Prop where
  ids : (m.attributes.map (·.id)).Nodup
  names : (m.attributes.map (·.name)).Nodup

/-- No two models have the same identifier or the same name, and in no model do two attributes. -/
structure Schema.Distinct (s : Schema) : Prop where
  ids : (s.models.map (·.id)).Nodup
  names : (s.models.map (·.name)).Nodup
  models : ∀ m ∈ s.models, m.Distinct

/-- No two models have the same identifier, and in no model do two attributes. -/
structure Schema.DistinctIds (s : Schema) : Prop where
  ids : (s.models.map (·.id)).Nodup
  attributes : ∀ m ∈ s.models, (m.attributes.map (·.id)).Nodup

instance (m : Model) : Decidable m.Distinct :=
  decidable_of_iff ((m.attributes.map (·.id)).Nodup ∧ (m.attributes.map (·.name)).Nodup)
    ⟨fun h => ⟨h.1, h.2⟩, fun h => ⟨h.ids, h.names⟩⟩

instance (s : Schema) : Decidable s.Distinct :=
  decidable_of_iff ((s.models.map (·.id)).Nodup ∧ (s.models.map (·.name)).Nodup ∧
      ∀ m ∈ s.models, m.Distinct)
    ⟨fun h => ⟨h.1, h.2.1, h.2.2⟩, fun h => ⟨h.ids, h.names, h.models⟩⟩

instance (s : Schema) : Decidable s.DistinctIds :=
  decidable_of_iff ((s.models.map (·.id)).Nodup ∧
      ∀ m ∈ s.models, (m.attributes.map (·.id)).Nodup)
    ⟨fun h => ⟨h.1, h.2⟩, fun h => ⟨h.ids, h.attributes⟩⟩

namespace Model

theorem mem_uniqueNames {m : Model} {name : String} :
    name ∈ m.uniqueNames ↔ ∃ attr ∈ m.attributes, attr.inUnique = true ∧ attr.name = name := by
  simp [uniqueNames, and_assoc]

/-- Among distinct names, the unique ones are those of unique attributes. -/
theorem name_mem_uniqueNames {m : Model} (hm : (m.attributes.map (·.name)).Nodup) {attr : Attribute}
    (hattr : attr ∈ m.attributes) : attr.name ∈ m.uniqueNames ↔ attr.inUnique = true := by
  rw [mem_uniqueNames]
  constructor
  · rintro ⟨other, hother, hunique, he⟩
    obtain rfl : other = attr := List.inj_on_of_nodup_map hm hother hattr he
    exact hunique
  · intro hunique
    exact ⟨attr, hattr, hunique, rfl⟩

/-- Two models have the same unique names when each name is unique in both or in none. -/
theorem sameUnique_iff {previous current : Model} : previous.sameUnique current = true ↔
    ∀ name, name ∈ previous.uniqueNames ↔ name ∈ current.uniqueNames := by
  simp only [sameUnique, Bool.and_eq_true, List.all_eq_true, decide_eq_true_eq]
  constructor
  · intro h name
    exact ⟨h.1 name, h.2 name⟩
  · intro h
    exact ⟨fun name => (h name).1, fun name => (h name).2⟩

end Model

end SchemaMigration
