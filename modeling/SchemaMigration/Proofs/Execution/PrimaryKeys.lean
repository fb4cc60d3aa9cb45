import SchemaMigration.Proofs.Execution.Migration

/-!
# Primary keys after a migration

A column is put into the primary key when it is defined, if it is called `id`, and it keeps its
place inside or outside whatever it is called later: no operation changes a primary key. So a
migration leaves the primary keys that the current schema would be created with exactly if no
attribute, in both versions of a model, is renamed to `id` or from `id`, whatever the dialect and
the engine.
-/

namespace SchemaMigration.Execution

open Catalog Named Outcome Sql

/-- Every table has the primary-key columns that the table of its name in the other database has. -/
def SameKeys (database other : Database) : Prop :=
  ∀ name table, database name = some table → ∃ made, other name = some made ∧
    ∀ column, table.columns column = some true ↔ made.columns column = some true

/-- No attribute, in both versions of a model, came to be called `id` or ceased to be. -/
def KeysKept (previous current : Schema) : Prop :=
  ∀ model ∈ current.models, ∀ old ∈ previous.byId? model.id,
    ∀ attr ∈ model.attributes, ∀ before ∈ old.byId? attr.id,
      before.isPrimaryKey = attr.isPrimaryKey

instance (previous current : Schema) : Decidable (KeysKept previous current) :=
  inferInstanceAs (Decidable (∀ model ∈ current.models, ∀ old ∈ previous.byId? model.id,
    ∀ attr ∈ model.attributes, ∀ before ∈ old.byId? attr.id,
      before.isPrimaryKey = attr.isPrimaryKey))

/-- A column is in the primary key as it was defined, at first or by the previous schema. -/
theorem nextKeys_eq_iff {previous : Schema} {model : Model} :
    (∀ attr ∈ model.attributes, nextKeys previous declaredKeys model attr = attr.isPrimaryKey) ↔
      ∀ old ∈ previous.byId? model.id, ∀ attr ∈ model.attributes, ∀ before ∈ old.byId? attr.id,
        before.isPrimaryKey = attr.isPrimaryKey := by
  simp only [nextKeys]
  cases previous.byId? model.id with
  | none => simp [declaredKeys]
  | some old =>
      simp only [settled_keyView, declaredKeys, Option.mem_some_iff, forall_eq']
      refine forall₂_congr fun attr _ => ?_
      cases old.byId? attr.id with
      | none => simp
      | some before => simp

/-- Columns that are entered with their keys are in the primary key alike exactly if the keys of all
attributes are the same. -/
theorem keys_agree_iff {model : Model} (hm : model.Distinct) {keys others : Attribute → Bool} :
    (∀ column,
      ofEntries (model.attributes.map fun attr => (attr.name, keys attr)) column = some true ↔
      ofEntries (model.attributes.map fun attr => (attr.name, others attr)) column = some true) ↔
      ∀ attr ∈ model.attributes, keys attr = others attr := by
  constructor
  · intro h attr hattr
    have hfound : ∀ keys : Attribute → Bool,
        ofEntries (model.attributes.map fun attr => (attr.name, keys attr)) attr.name =
          some (keys attr) := fun keys =>
      (ofEntries_map_eq_some_iff hm.names).mpr ⟨attr, hattr, rfl, rfl⟩
    have hsame := h attr.name
    rw [hfound keys, hfound others, Option.some_inj, Option.some_inj] at hsame
    exact Bool.eq_iff_iff.mpr hsame
  · intro h column
    have hentries : (model.attributes.map fun attr => (attr.name, keys attr)) =
        model.attributes.map fun attr => (attr.name, others attr) :=
      List.map_congr_left fun attr hattr => by rw [h attr hattr]
    rw [hentries]

section

variable {d : Dialect} {e : Engine} {previous current : Schema}

/-- What a schema leaves that is created and then migrated to another, against what the other leaves
that is created itself. -/
theorem sameKeys_of_build_iff (hp : previous.Distinct) (hc : current.Distinct)
    {statements anew : List Statement} (h : history d previous [current] = .ok statements)
    (hanew : creations d current = .ok anew) {result made : Database}
    (hresult : e.build statements = .ok result) (hmade : e.build anew = .ok made) :
    SameKeys result made ↔ KeysKept previous current := by
  obtain ⟨part, hsub, hall, -, rfl⟩ := exists_of_build_history hp hc h hresult
  rw [build_creations hc hanew] at hmade
  obtain rfl := Except.ok.inj hmade
  have hnames := hc.names
  have hpart := (distinct_of_sublist hsub hc).names
  have hkeys : ∀ model ∈ part.models,
      (∀ column, (tableWith (nextKeys previous declaredKeys)
          (nextUniques d e previous (declaredUniques d)) model).columns column = some true ↔
        (tableWith declaredKeys (declaredUniques d) model).columns column = some true) ↔
      ∀ old ∈ previous.byId? model.id, ∀ attr ∈ model.attributes, ∀ before ∈ old.byId? attr.id,
        before.isPrimaryKey = attr.isPrimaryKey := by
    intro model hm
    rw [← nextKeys_eq_iff]
    exact keys_agree_iff (hc.models model (hsub.subset hm))
  constructor
  · intro hsame model hm old hold
    have hmem : model ∈ part.models := hall model hm (Option.isSome_of_mem hold)
    obtain ⟨table, htable, hagree⟩ := hsame model.name _
      ((ofEntries_map_eq_some_iff hpart).mpr ⟨model, hmem, rfl, rfl⟩)
    rw [(ofEntries_map_eq_some_iff hnames).mpr ⟨model, hm, rfl, rfl⟩] at htable
    obtain rfl := Option.some.inj htable
    exact (hkeys model hmem).mp hagree old hold
  · intro hkept name table htable
    obtain ⟨model, hmem, rfl, rfl⟩ := (ofEntries_map_eq_some_iff hpart).mp htable
    have hm := hsub.subset hmem
    refine ⟨_, (ofEntries_map_eq_some_iff hnames).mpr ⟨model, hm, rfl, rfl⟩, ?_⟩
    exact (hkeys model hmem).mpr (hkept model hm)

end

/-- When one schema is created and then migrated to another, and the statements of the scripts can
be carried out, every table has the primary key that it has where the other schema is created
exactly if no attribute in both versions of a model is renamed to `id` or from it. -/
theorem sameKeys_iff (d : Dialect) (e : Engine) {previous current : Schema}
    (hp : previous.Distinct) (hc : current.Distinct)
    (hprevious : ∃ text, (d.schemaScript previous).outcome = .ok text)
    (hcurrent : ∃ text, (d.schemaScript current).outcome = .ok text) :
    ∃ statements anew made, history d previous [current] = .ok statements ∧
      creations d current = .ok anew ∧ Emitted d previous [current] statements ∧
      (d.schemaScript current).outcome = .ok (d.render anew) ∧ e.build anew = .ok made ∧
      ∀ result, e.build statements = .ok result →
        (SameKeys result made ↔ KeysKept previous current) := by
  obtain ⟨statements, hstatements⟩ := exists_history_pair hprevious hcurrent
  obtain ⟨anew, hanew⟩ := exists_creations hcurrent
  have hmade := build_creations (e := e) hc hanew
  have hscript : (d.schemaScript current).outcome = .ok (d.render anew) := by
    rw [outcome_schemaScript_eq_render, hanew, map_ok]
  exact ⟨statements, anew, _, hstatements, hanew, emitted_of_history hstatements, hscript, hmade,
    fun result hresult => sameKeys_of_build_iff hp hc hstatements hanew hresult hmade⟩

/-- People keep the key of the users that they were. -/
theorem sameKeys_people :
    ∃ statements made result, history redshift usersAndPosts [peopleAndTags] = .ok statements ∧
      (Engine.mk true true false).build statements = .ok result ∧ SameKeys result made := by
  have hp : usersAndPosts.Distinct := by decide
  have hc : peopleAndTags.Distinct := by decide
  have hprevious : ∃ text, (redshift.schemaScript usersAndPosts).outcome = .ok text :=
    exists_schemaScript (by decide)
  have hcurrent : ∃ text, (redshift.schemaScript peopleAndTags).outcome = .ok text :=
    exists_schemaScript (by decide)
  obtain ⟨statements, anew, made, hstatements, -, -, -, -, hiff⟩ :=
    sameKeys_iff redshift (Engine.mk true true false) hp hc hprevious hcurrent
  obtain ⟨result, hresult⟩ := exists_build_history (e := Engine.mk true true false) hp hc
    (by decide) (by simp) hstatements
  exact ⟨statements, made, result, hstatements, hresult, (hiff result hresult).mpr (by decide)⟩

/-- A model whose key is called `id`. -/
def keyed : Schema := ⟨[⟨.number 1, "m", [{ id := .number 1, name := "id", type := .integer }]⟩]⟩

/-- The same model, whose key is called otherwise. -/
def unkeyed : Schema :=
  ⟨[⟨.number 1, "m", [{ id := .number 1, name := "code", type := .integer }]⟩]⟩

/-- A key stays one under another name, although the schema would be created without it. -/
theorem not_sameKeys_unkeyed :
    ¬ ∀ (d : Dialect) (e : Engine) (previous current : Schema), d ∈ dialects →
      previous.Distinct → current.Distinct →
      (∃ text, (d.schemaScript previous).outcome = .ok text) →
      (∃ text, (d.schemaScript current).outcome = .ok text) →
      ∀ statements anew made result, history d previous [current] = .ok statements →
        creations d current = .ok anew → e.build anew = .ok made →
        e.build statements = .ok result → SameKeys result made := by
  intro h
  have hp : keyed.Distinct := by decide
  have hc : unkeyed.Distinct := by decide
  have hprevious : ∃ text, (postgres.schemaScript keyed).outcome = .ok text :=
    exists_schemaScript (by decide)
  have hcurrent : ∃ text, (postgres.schemaScript unkeyed).outcome = .ok text :=
    exists_schemaScript (by decide)
  obtain ⟨statements, hstatements⟩ := exists_history_pair hprevious hcurrent
  obtain ⟨anew, hanew⟩ := exists_creations hcurrent
  have hmade := build_creations (e := Engine.mk false true true) hc hanew
  obtain ⟨result, hresult⟩ := exists_build_history (e := Engine.mk false true true) hp hc
    (by decide) (fun _ => rfl) hstatements
  have hsame := h postgres _ keyed unkeyed List.mem_cons_self hp hc hprevious hcurrent statements
    anew _ result hstatements hanew hmade hresult
  exact absurd ((sameKeys_of_build_iff hp hc hstatements hanew hresult hmade).mp hsame) (by decide)

end SchemaMigration.Execution
