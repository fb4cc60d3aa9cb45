import SchemaMigration.Proofs.Catalog.Migration

/-!
# Carrying out the differences along a run of schemas

A step from one schema to the next is steady when nothing takes a name that something else gives up
or keeps: no model of the next schema has the name that another one, in both schemas, had in the
first, and the same holds for the attributes of every model in both.

Along a run of steady steps all operations can be carried out, one difference after the other, and
lead to the tables of the last schema up to the notation of bounds; for a single step the condition
is exact once it looks at later models and attributes only.
-/

namespace SchemaMigration.Catalog

open Named Outcome

/-- No name passes from one model or attribute, in both schemas, to another. -/
structure Steady (previous current : Schema) : Prop where
  models : ∀ model ∈ current.models, ∀ other ∈ current.models, other.id ≠ model.id →
    ∀ old ∈ previous.byId? other.id, old.name ≠ model.name
  attributes : ∀ model ∈ current.models, ∀ old ∈ previous.byId? model.id,
    ∀ attr ∈ model.attributes, ∀ other ∈ model.attributes, other.id ≠ attr.id →
      ∀ before ∈ old.byId? other.id, before.name ≠ attr.name

instance (previous current : Schema) : Decidable (Steady previous current) :=
  decidable_of_iff
    ((∀ model ∈ current.models, ∀ other ∈ current.models, other.id ≠ model.id →
        ∀ old ∈ previous.byId? other.id, old.name ≠ model.name) ∧
      ∀ model ∈ current.models, ∀ old ∈ previous.byId? model.id,
        ∀ attr ∈ model.attributes, ∀ other ∈ model.attributes, other.id ≠ attr.id →
          ∀ before ∈ old.byId? other.id, before.name ≠ attr.name)
    ⟨fun h => ⟨h.1, h.2⟩, fun h => ⟨h.models, h.attributes⟩⟩

/-- The operations of a run of schemas, difference by difference. -/
def migrations : Schema → List Schema → List Operation
  | _, [] => []
  | previous, current :: later => diff previous current ++ migrations current later

/-- What holds of any two items with different keys holds of every item and those after it. -/
theorem pairwise_of_distinct {ι κ : Type} {key : ι → κ} {R : ι → ι → Prop} {items : List ι}
    (hn : (items.map key).Nodup)
    (h : ∀ item ∈ items, ∀ other ∈ items, key other ≠ key item → R item other) :
    items.Pairwise R := by
  have hne : items.Pairwise fun item other => key item ≠ key other := List.pairwise_map.mp hn
  apply hne.imp_of_mem
  intro item other hitem hother hkey
  exact h item hitem other hother hkey.symm

/-- A steady step is in order, whatever the order of models and attributes. -/
theorem Steady.inOrder {previous current : Schema} (hc : current.Distinct)
    (hs : Steady previous current) : InOrder previous current where
  models := pairwise_of_distinct hc.ids hs.models
  attributes := by
    intro model hm old hold
    exact pairwise_of_distinct (hc.models model hm).ids (hs.attributes model hm old hold)

/-- Along a run of steady steps, all operations lead to the tables of the last schema. -/
theorem executeAll_migrations_agrees {first : Schema} {later : List Schema}
    (hd : ∀ schema ∈ first :: later, schema.Distinct)
    (hs : List.IsChain Steady (first :: later)) {database : Database}
    (h : database.Agrees (tablesOf first)) :
    ∃ result, executeAll (migrations first later) database = .ok result ∧
      result.Agrees (tablesOf (later.getLastD first)) := by
  induction later generalizing first database with
  | nil => exact ⟨database, rfl, h⟩
  | cons next later ih =>
      obtain ⟨hstep, hrest⟩ := List.isChain_cons_cons.mp hs
      obtain ⟨hfirst, hlater⟩ := List.forall_mem_cons.mp hd
      have hnext := (List.forall_mem_cons.mp hlater).1
      obtain ⟨middle, hmiddle, hagrees⟩ :=
        executeAll_diff_agrees hfirst hnext (hstep.inOrder hnext) h
      obtain ⟨result, hresult, hlast⟩ := ih hlater hrest hagrees
      refine ⟨result, ?_, ?_⟩
      · rw [migrations, executeAll_append, hmiddle, ok_bind, hresult]
      · rw [List.getLastD_cons]
        exact hlast

/-- When operations can be carried out, each leaves a table under its name, or if it drops a table,
none. -/
theorem table_of_executeAll {operations done later : List Operation} {op : Operation}
    {database result : Database} (h : executeAll operations database = .ok result)
    (he : operations = done ++ op :: later) :
    ∃ reached, executeAll (done ++ [op]) database = .ok reached ∧
      if op.kind = .dropModel then reached op.table = none
      else (reached op.table).isSome = true := by
  rw [he, executeAll_append] at h
  obtain ⟨before, hbefore, hrest⟩ := bind_eq_ok.mp h
  obtain ⟨reached, hreached, -⟩ := bind_eq_ok.mp hrest
  refine ⟨reached, ?_, table_of_execute hreached⟩
  rw [executeAll_append, hbefore, ok_bind, executeAll_singleton]
  exact hreached

/-- Along a run of schemas without repetition and of steady steps, starting from the tables of the
first schema, no operation fails; after each a table is called as the operation says, unless it was
dropped; and the tables at the end are those of the last schema, up to the notation of bounds. -/
theorem steady_run_reaches_last_tables (first : Schema) (later : List Schema)
    (hd : ∀ schema ∈ first :: later, schema.Distinct)
    (hs : List.IsChain Steady (first :: later)) :
    (∃ result, executeAll (migrations first later) (tablesOf first) = .ok result ∧
      result.Agrees (tablesOf (later.getLastD first))) ∧
    ∀ done op rest, migrations first later = done ++ op :: rest →
      ∃ reached, executeAll (done ++ [op]) (tablesOf first) = .ok reached ∧
        if op.kind = .dropModel then reached op.table = none
        else (reached op.table).isSome = true := by
  obtain ⟨result, hresult, hagrees⟩ :=
    executeAll_migrations_agrees hd hs (Database.Agrees.refl (tablesOf first))
  exact ⟨⟨result, hresult, hagrees⟩, fun done op rest he => table_of_executeAll hresult he⟩

/-- Users and their posts. -/
def usersAndPosts : Schema := ⟨[
  ⟨.number 1, "users", [
    { id := .number 1, name := "id", type := .autoGenerated },
    { id := .number 2, name := "name", type := .string, max := some (.integer 40 (by decide)) },
    { id := .number 3, name := "born", type := .date }]⟩,
  ⟨.number 2, "posts", [{ id := .number 1, name := "id", type := .autoGenerated }]⟩]⟩

/-- The users are called people, their names are required and longer, births are left out and
addresses added; the posts are gone, and there are tags. -/
def peopleAndTags : Schema := ⟨[
  ⟨.text "t", "tags", [{ id := .number 1, name := "id", type := .autoGenerated }]⟩,
  ⟨.number 1, "people", [
    { id := .number 2, name := "full_name", type := .string, required := true,
      max := some (.integer 80 (by decide)) },
    { id := .number 1, name := "id", type := .autoGenerated },
    { id := .number 4, name := "address", type := .text, unique := true }]⟩]⟩

/-- The tags are called labels and have the name of the former posts; names are of any length. -/
def peopleAndLabels : Schema := ⟨[
  ⟨.number 1, "people", [
    { id := .number 2, name := "full_name", type := .text, required := true },
    { id := .number 1, name := "id", type := .autoGenerated },
    { id := .number 4, name := "address", type := .text }]⟩,
  ⟨.text "t", "posts", [{ id := .number 1, name := "id", type := .autoGenerated }]⟩]⟩

theorem steady_run_from_users_to_labels :
    (∀ schema ∈ [usersAndPosts, peopleAndTags, peopleAndLabels], schema.Distinct) ∧
      List.IsChain Steady [usersAndPosts, peopleAndTags, peopleAndLabels] ∧
      ∃ result, executeAll (migrations usersAndPosts [peopleAndTags, peopleAndLabels])
          (tablesOf usersAndPosts) = .ok result ∧ result.Agrees (tablesOf peopleAndLabels) := by
  have hd : ∀ schema ∈ [usersAndPosts, peopleAndTags, peopleAndLabels], schema.Distinct := by
    decide
  have hs : List.IsChain Steady [usersAndPosts, peopleAndTags, peopleAndLabels] := by decide
  exact ⟨hd, hs, (steady_run_reaches_last_tables _ _ hd hs).1⟩

/-- Between schemas without repetition, a difference can be carried out on the tables of the
previous one exactly when no model and no attribute takes the name that a later one had before;
otherwise an operation gives a name that is taken. -/
theorem executable_iff_inOrder (previous current : Schema) (hp : previous.Distinct)
    (hc : current.Distinct) :
    ((∃ result, executeAll (diff previous current) (tablesOf previous) = .ok result) ↔
      InOrder previous current) ∧
    ∀ obstacle, executeAll (diff previous current) (tablesOf previous) = .error obstacle →
      ∃ name, obstacle = .taken name := by
  refine ⟨⟨?_, ?_⟩, fun obstacle h => taken_of_executeAll_diff hp hc h⟩
  · rintro ⟨result, hresult⟩
    exact inOrder_of_executeAll_diff hp hc hresult
  · intro ho
    obtain ⟨result, hresult, -⟩ :=
      executeAll_diff_agrees hp hc ho (Database.Agrees.refl (tablesOf previous))
    exact ⟨result, hresult⟩

/-- Tables `a`, with columns `a` and `b`, and `b`. -/
def tablesAB : Schema := ⟨[
  ⟨.number 1, "a", [
    { id := .number 1, name := "a", type := .text },
    { id := .number 2, name := "b", type := .date }]⟩,
  ⟨.number 2, "b", []⟩]⟩

/-- The same tables and columns, each called by the next letter and the last one first. -/
def tablesCB : Schema := ⟨[
  ⟨.number 2, "c", []⟩,
  ⟨.number 1, "b", [
    { id := .number 2, name := "c", type := .date },
    { id := .number 1, name := "b", type := .text, required := true }]⟩]⟩

/-- A chain of names is carried out where each name is given up before it is taken. -/
theorem chain_of_names_executable :
    tablesAB.Distinct ∧ tablesCB.Distinct ∧
      ∃ result, executeAll (diff tablesAB tablesCB) (tablesOf tablesAB) = .ok result := by
  have hp : tablesAB.Distinct := by decide
  have hc : tablesCB.Distinct := by decide
  exact ⟨hp, hc, (executable_iff_inOrder tablesAB tablesCB hp hc).1.mpr (by decide)⟩

/-- A new model with the name that a later one gives up is in the way: its table is to be created
while the name is still taken. -/
theorem reused_name_not_executable :
    ¬ ∀ previous current : Schema, previous.Distinct → current.Distinct →
      ∃ result, executeAll (diff previous current) (tablesOf previous) = .ok result := by
  intro h
  obtain ⟨result, hresult⟩ := h ⟨[⟨.number 1, "a", []⟩]⟩
    ⟨[⟨.number 2, "a", []⟩, ⟨.number 1, "b", []⟩]⟩ (by decide) (by decide)
  have hfault : executeAll (diff ⟨[⟨.number 1, "a", []⟩]⟩
      ⟨[⟨.number 2, "a", []⟩, ⟨.number 1, "b", []⟩]⟩) (tablesOf ⟨[⟨.number 1, "a", []⟩]⟩) =
      .error (.taken "a") := rfl
  rw [hfault] at hresult
  cases hresult

end SchemaMigration.Catalog
