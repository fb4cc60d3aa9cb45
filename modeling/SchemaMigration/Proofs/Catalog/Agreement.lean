import SchemaMigration.Proofs.Bounds
import SchemaMigration.Proofs.Catalog.Database

/-!
# Agreement of databases

Databases agree when they hold the same tables with the same columns, whose types and nullability
are equal and whose bounds have the same value. What agrees with a list of entries is itself such a
list, with other things under the same names.
-/

namespace SchemaMigration.Catalog

open Named

/-- Two columns are equal but for the notation of their bounds. -/
structure Column.Agrees (a b : Column) : Prop where
  type : a.type = b.type
  required : a.required = b.required
  min : Json.sameBound a.min b.min = true
  max : Json.sameBound a.max b.max = true

theorem Column.Agrees.refl (a : Column) : a.Agrees a :=
  ⟨rfl, rfl, Json.sameBound_refl _, Json.sameBound_refl _⟩

namespace Named

variable {ι α : Type} {R : α → α → Prop}

/-- Two collections have things under the same names, and those are related. -/
def Agree (R : α → α → Prop) (a b : Named α) : Prop := ∀ name, Option.Rel R (a name) (b name)

theorem Agree.refl (hR : ∀ a, R a a) (things : Named α) : Agree R things things := by
  intro name
  cases things name with
  | none => exact .none
  | some thing => exact .some (hR thing)

/-- What is found in entries made from items is made from the first item of the name. -/
theorem ofEntries_map (name : ι → String) (content : ι → α) (items : List ι) (wanted : String) :
    ofEntries (items.map fun item => (name item, content item)) wanted =
      (items.find? fun item => name item = wanted).map content := by
  simp only [ofEntries, Keyed.find?, List.find?_map, Option.map_map, Function.comp_def]

/-- Entries made from the same items agree when what is made of each item does. -/
theorem agree_ofEntries {name : ι → String} {state content : ι → α} {items : List ι}
    (h : ∀ item ∈ items, R (state item) (content item)) :
    Agree R (ofEntries (items.map fun item => (name item, state item)))
      (ofEntries (items.map fun item => (name item, content item))) := by
  intro wanted
  rw [ofEntries_map, ofEntries_map]
  cases hfound : items.find? fun item => name item = wanted with
  | none => exact .none
  | some item => exact .some (h item (List.mem_of_find?_eq_some hfound))

/-- What agrees with entries made from items of distinct names is made from the same items. -/
theorem exists_entries {name : ι → String} {content : ι → α} {items : List ι} {things : Named α}
    (hn : (items.map name).Nodup)
    (h : Agree R things (ofEntries (items.map fun item => (name item, content item)))) :
    ∃ state : ι → α, (∀ item ∈ items, R (state item) (content item)) ∧
      things = ofEntries (items.map fun item => (name item, state item)) := by
  let state := fun item => (things (name item)).getD (content item)
  have hstate : ∀ item ∈ items, things (name item) = some (state item) ∧
      R (state item) (content item) := by
    intro item hitem
    have hfound : ofEntries (items.map fun item => (name item, content item)) (name item) =
        some (content item) := (ofEntries_map_eq_some_iff hn).mpr ⟨item, hitem, rfl, rfl⟩
    have hrel := h (name item)
    rw [hfound] at hrel
    cases hthing : things (name item) with
    | none =>
        rw [hthing] at hrel
        cases hrel
    | some thing =>
        rw [hthing] at hrel
        cases hrel with
        | some hR => exact ⟨by simp [state, hthing], by simpa [state, hthing] using hR⟩
  refine ⟨state, fun item hitem => (hstate item hitem).2, ?_⟩
  funext wanted
  have hrel := h wanted
  rw [ofEntries_map] at hrel ⊢
  cases hfound : items.find? fun item => name item = wanted with
  | none =>
      rw [hfound] at hrel
      cases hthing : things wanted with
      | none => rfl
      | some thing =>
          rw [hthing] at hrel
          cases hrel
  | some item =>
      have hname : name item = wanted := by simpa using List.find?_some hfound
      rw [Option.map_some, ← hname]
      exact (hstate item (List.mem_of_find?_eq_some hfound)).1

end Named

/-- Two tables have the same columns, but for the notation of bounds. -/
def Table.Agrees (a b : Table) : Prop := Agree Column.Agrees a b

/-- Two databases have the same tables, but for the notation of bounds. -/
def Database.Agrees (a b : Database) : Prop := Agree Table.Agrees a b

theorem Database.Agrees.refl (database : Database) : Database.Agrees database database :=
  Agree.refl (Agree.refl Column.Agrees.refl) database

end SchemaMigration.Catalog
