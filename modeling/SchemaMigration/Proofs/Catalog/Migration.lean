import SchemaMigration.Proofs.Catalog.Columns

/-!
# Carrying out a difference

The operations of a difference drop the tables that are gone and then go over the current models.
Half way, the models that were gone over have their tables under current names, and those that come
later still have them under previous ones.

Between schemas without repetition, a difference can be carried out exactly when no model and no
attribute takes the name that a later one had before; it can fail for no other reason than such a
name. Carried out on tables that agree with the previous schema, it leads to tables that agree with
the current one.
-/

namespace SchemaMigration.Catalog

open Diff Matching Named Outcome

/-- No model takes the name that a later one had before, and neither does an attribute in a model
that was there before. -/
structure InOrder (previous current : Schema) : Prop where
  models : current.models.Pairwise fun model later =>
    ∀ old ∈ previous.byId? later.id, old.name ≠ model.name
  attributes : ∀ model ∈ current.models, ∀ old ∈ previous.byId? model.id,
    AttributesInOrder old model

instance (previous current : Schema) : Decidable (InOrder previous current) :=
  decidable_of_iff
    ((current.models.Pairwise fun model later =>
        ∀ old ∈ previous.byId? later.id, old.name ≠ model.name) ∧
      ∀ model ∈ current.models, ∀ old ∈ previous.byId? model.id, AttributesInOrder old model)
    ⟨fun h => ⟨h.1, h.2⟩, fun h => ⟨h.models, h.attributes⟩⟩

/-- Tables, as far as operations can change them. -/
def tableView : TableView Table := ⟨tableOf, changeTable⟩

theorem executeAll_eq : executeAll = carryOut tableView.execute := by
  have hexecute : execute = tableView.execute := by
    funext op
    cases op <;> rfl
  funext operations database
  rw [executeAll, hexecute]
  rfl

section

variable {previous current : Schema} {state : Model → Table}

theorem outcome_of_some {model old : Model} (h : previous.byId? model.id = some old) :
    tableView.outcome previous state model =
      changeTableAll (withinTable old model) (state old) := by
  simp only [TableView.outcome, h]
  rfl

/-- The table that a model ends with agrees with it if the one it had before did. -/
theorem exists_outcome (hp : previous.Distinct) (hc : current.Distinct)
    (hstate : ∀ old ∈ previous.models, Table.Agrees (state old) (tableOf old))
    (ho : InOrder previous current) {model : Model} (hm : model ∈ current.models) :
    ∃ table, tableView.outcome previous state model = .ok table ∧
      Table.Agrees table (tableOf model) := by
  cases hfound : previous.byId? model.id with
  | none =>
      refine ⟨tableOf model, ?_, Agree.refl Column.Agrees.refl _⟩
      simp only [TableView.outcome, hfound]
      rfl
  | some old =>
      have hold : old ∈ previous.models := List.mem_of_find?_eq_some hfound
      obtain ⟨columns, hcolumns, he⟩ := exists_entries (hp.models old hold).names (hstate old hold)
      refine ⟨_, ?_, agree_ofEntries fun attr _ => settled_agrees hcolumns attr⟩
      rw [outcome_of_some hfound, he]
      exact (withinTable_eq_ok_iff (hp.models old hold) (hc.models model hm)).mpr
        ⟨ho.attributes model hm old hfound, rfl⟩

/-- In order, a difference leads from tables that agree with the previous schema to tables that
agree with the current one. -/
theorem executeAll_diff_agrees (hp : previous.Distinct) (hc : current.Distinct)
    (ho : InOrder previous current) {database : Database}
    (h : database.Agrees (tablesOf previous)) :
    ∃ result, executeAll (diff previous current) database = .ok result ∧
      result.Agrees (tablesOf current) := by
  obtain ⟨state, hstate, rfl⟩ := exists_entries hp.names h
  have houtcome : ∀ model ∈ current.models,
      ∃ table, tableView.outcome previous state model = .ok table ∧
        Table.Agrees table (tableOf model) :=
    fun _ hm => exists_outcome hp hc hstate ho hm
  choose! result hresult hagrees using houtcome
  refine ⟨_, ?_, agree_ofEntries hagrees⟩
  rw [executeAll_eq]
  exact (TableView.executeAll_diff_eq_ok_iff hp hc).mpr ⟨ho.models, result, hresult, rfl⟩

/-- A difference can be carried out on the tables of the previous schema only in order. -/
theorem inOrder_of_executeAll_diff (hp : previous.Distinct) (hc : current.Distinct)
    {result : Database} (h : executeAll (diff previous current) (tablesOf previous) = .ok result) :
    InOrder previous current := by
  rw [tablesOf, executeAll_eq] at h
  obtain ⟨horder, content, houtcome, -⟩ := (TableView.executeAll_diff_eq_ok_iff hp hc).mp h
  refine ⟨horder, ?_⟩
  intro model hm old hfound
  have htable := houtcome model hm
  rw [outcome_of_some hfound] at htable
  have hold : old ∈ previous.models := List.mem_of_find?_eq_some hfound
  exact ((withinTable_eq_ok_iff (hp.models old hold) (hc.models model hm)).mp htable).1

/-- A difference that cannot be carried out fails because a name is taken: what an operation uses is
always there. -/
theorem taken_of_executeAll_diff (hp : previous.Distinct) (hc : current.Distinct)
    {obstacle : Obstacle}
    (h : executeAll (diff previous current) (tablesOf previous) = .error obstacle) :
    ∃ name, obstacle = .taken name := by
  rw [tablesOf, executeAll_eq] at h
  refine TableView.taken_of_executeAll_diff hp hc ?_ h
  intro model hm fault hfault
  cases hfound : previous.byId? model.id with
  | none =>
      simp only [TableView.outcome, hfound] at hfault
      cases hfault
  | some old =>
      rw [outcome_of_some hfound] at hfault
      have hold : old ∈ previous.models := List.mem_of_find?_eq_some hfound
      exact taken_of_withinTable (hp.models old hold) (hc.models model hm) hfault

end

end SchemaMigration.Catalog
