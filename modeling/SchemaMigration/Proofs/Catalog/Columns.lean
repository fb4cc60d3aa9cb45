import SchemaMigration.Proofs.Catalog.Agreement
import SchemaMigration.Proofs.Catalog.Views
import SchemaMigration.Proofs.Unchanged

/-!
# Migrating the columns of one table

The operations for a model that was there before, but for its renaming, act on the columns of its
table: columns of attributes that are gone are dropped, and a pass over the current attributes adds,
renames and alters the others.

The pass succeeds exactly when no attribute takes the name that a later one had before. The columns
that it leaves agree with the current attributes as soon as those before agreed with the previous
ones: what a difference does not mention has not changed, up to the notation of bounds.
-/

namespace SchemaMigration.Catalog

open Diff Matching Named Outcome

/-- Columns, as far as operations can change them. -/
def columnView : ColumnView Column where
  fresh := columnOf
  required attr column := { column with required := attr.required }
  modified attr column := { column with type := attr.type, min := attr.min, max := attr.max }

theorem changeTable_eq : changeTable = columnView.change := by
  funext op
  cases op <;> rfl

theorem changeTableAll_eq : changeTableAll = carryOut columnView.change := by
  funext operations table
  rw [changeTableAll, changeTable_eq]
  rfl

/-- A column that agreed with the previous attribute comes to agree with the current one. -/
theorem changed_agrees {previous current : Attribute} {column : Column}
    (h : column.Agrees (columnOf previous)) :
    (columnView.changed previous current column).Agrees (columnOf current) := by
  have hrequired : (if previous.required = current.required then column
      else columnView.required current column).required = current.required := by
    split
    · next he => exact h.required.trans he
    · rfl
  simp only [ColumnView.changed]
  by_cases hs : sameColumn previous current = true
  · obtain ⟨htype, hmin, hmax⟩ := sameColumn_iff.mp hs
    rw [if_pos hs]
    refine ⟨?_, hrequired, ?_, ?_⟩
    · split
      · exact h.type.trans htype
      · exact h.type.trans htype
    · split
      · exact Json.sameBound_trans h.min hmin
      · exact Json.sameBound_trans h.min hmin
    · split
      · exact Json.sameBound_trans h.max hmax
      · exact Json.sameBound_trans h.max hmax
  · rw [if_neg hs]
    exact ⟨rfl, hrequired, Json.sameBound_refl _, Json.sameBound_refl _⟩

theorem settled_agrees {previous : Model} {state : Attribute → Column}
    (h : ∀ old ∈ previous.attributes, (state old).Agrees (columnOf old)) (attr : Attribute) :
    (columnView.settled previous state attr).Agrees (columnOf attr) := by
  simp only [ColumnView.settled]
  cases hfound : previous.byId? attr.id with
  | none => exact Column.Agrees.refl _
  | some old => exact changed_agrees (h old (List.mem_of_find?_eq_some hfound))

section

variable {previous current : Model} {state : Attribute → Column}

/-- The unique constraint finds the columns that it covers. -/
theorem changeTableAll_uniqueStep (content : Attribute → Column) :
    changeTableAll (uniqueStep previous current)
        (ofEntries (current.attributes.map fun attr => (attr.name, content attr))) =
      .ok (ofEntries (current.attributes.map fun attr => (attr.name, content attr))) := by
  rw [changeTableAll_eq, uniqueStep]
  split
  · rfl
  · rw [carryOut_singleton]
    exact ColumnView.withAll_uniqueNames current content

/-- The operations within a table succeed exactly in order, and settle the column of every current
attribute. -/
theorem withinTable_eq_ok_iff (hp : previous.Distinct) (hc : current.Distinct) {table : Table} :
    changeTableAll (withinTable previous current)
        (ofEntries (previous.attributes.map fun old => (old.name, state old))) = .ok table ↔
      AttributesInOrder previous current ∧
        table = ofEntries (current.attributes.map fun attr =>
          (attr.name, columnView.settled previous state attr)) := by
  rw [withinTable_eq, changeTableAll_append, bind_eq_ok, changeTableAll_eq]
  simp only [ColumnView.changeAll_attributeOps_eq_ok_iff hp hc]
  rw [← changeTableAll_eq]
  constructor
  · rintro ⟨settled, ⟨ho, rfl⟩, hunique⟩
    rw [changeTableAll_uniqueStep] at hunique
    exact ⟨ho, (Except.ok.inj hunique).symm⟩
  · rintro ⟨ho, rfl⟩
    exact ⟨_, ⟨ho, rfl⟩, changeTableAll_uniqueStep _⟩

/-- The operations within a table fail for no other reason than a name that is taken. -/
theorem taken_of_withinTable (hp : previous.Distinct) (hc : current.Distinct)
    {obstacle : Obstacle} (h : changeTableAll (withinTable previous current)
      (ofEntries (previous.attributes.map fun old => (old.name, state old))) = .error obstacle) :
    ∃ name, obstacle = .taken name := by
  rw [withinTable_eq, changeTableAll_append] at h
  cases hattributes : changeTableAll (attributeOps previous current)
      (ofEntries (previous.attributes.map fun old => (old.name, state old))) with
  | error fault =>
      rw [hattributes, error_bind] at h
      cases h
      rw [changeTableAll_eq] at hattributes
      exact ColumnView.taken_of_attributeOps hp hc hattributes
  | ok settled =>
      rw [hattributes, ok_bind] at h
      rw [changeTableAll_eq] at hattributes
      obtain ⟨-, rfl⟩ := (ColumnView.changeAll_attributeOps_eq_ok_iff hp hc).mp hattributes
      rw [changeTableAll_uniqueStep] at h
      cases h

end

end SchemaMigration.Catalog
