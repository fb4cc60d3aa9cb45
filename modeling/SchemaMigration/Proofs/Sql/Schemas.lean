import SchemaMigration.Proofs.Sql.Containment
import SchemaMigration.Proofs.Sql.Reader

/-!
# Schemas are read back from their scripts

A schema that a registered dialect can render is read back from its script, table by table, with
whatever characters its names and default values hold. So a script tells which tables it creates:
two schemas with the same script differ in nothing that SQL shows of them.
-/

namespace SchemaMigration.Sql

open Dialect

/-- A column shows an attribute of a model. -/
structure Column.Fits (d : Dialect) (model : String) (attr : Attribute) (c : Column) : Prop where
  name : c.name = attr.name
  type : d.columnType model attr = .ok c.type
  literal : d.defaultLiteral model attr = .ok c.defaultLiteral
  primaryKey : c.isPrimaryKey = true ↔ attr.name = "id"
  required : c.isRequired = true ↔ attr.required = true

/-- The unique constraint of a table is over the unique attributes of its model, in order; only
Redshift gives it a name. -/
def expectedUnique (d : Dialect) (model : Model) : Option Unique :=
  if model.uniqueNames = [] then none
  else some ⟨if d.name = "redshift" then some ("uc_" ++ model.name) else none, model.uniqueNames⟩

/-- A declaration shows a model. -/
structure Declaration.Fits (d : Dialect) (model : Model) (t : Declaration) : Prop where
  name : t.name = model.name
  columns : List.Forall₂ (Column.Fits d model.name) model.attributes t.columns
  unique : t.unique = expectedUnique d model

/-- SQL shows two attributes in the same way. -/
structure SameColumn (d : Dialect) (model other : String) (x y : Attribute) : Prop where
  name : x.name = y.name
  type : d.columnType model x = d.columnType other y
  literal : d.defaultLiteral model x = d.defaultLiteral other y
  required : x.required = y.required

/-- SQL shows two models in the same way. -/
structure SameTable (d : Dialect) (x y : Model) : Prop where
  name : x.name = y.name
  columns : List.Forall₂ (SameColumn d x.name y.name) x.attributes y.attributes
  unique : x.uniqueNames = y.uniqueNames

theorem fits_of_column {d : Dialect} {model : String} {attr : Attribute} {c : Column}
    (h : d.column model attr = .ok c) : c.Fits d model attr := by
  obtain ⟨type, literal, htype, hliteral, rfl⟩ := column_eq_ok.mp h
  exact ⟨rfl, htype, hliteral, by simp [Attribute.isPrimaryKey], Iff.rfl⟩

theorem tableUnique?_eq {d : Dialect} (hd : d ∈ dialects) (model : Model) :
    d.tableUnique? model = expectedUnique d model := by
  have hcases : d = postgres ∨ d = redshift := by simpa [dialects] using hd
  rcases hcases with rfl | rfl
  · rfl
  · rfl

/-- Lists that are related to a common one are related to each other. -/
theorem forall₂_of_common {α β γ : Type} {r : α → γ → Prop} {s : β → γ → Prop}
    {t : α → β → Prop} {xs : List α} {ys : List β} {zs : List γ} (hx : List.Forall₂ r xs zs)
    (hy : List.Forall₂ s ys zs) (h : ∀ x y z, r x z → s y z → t x y) :
    List.Forall₂ t xs ys := by
  induction hx generalizing ys with
  | nil =>
      cases hy
      exact .nil
  | cons hr _ ih =>
      cases hy with
      | cons hs hrest => exact .cons (h _ _ _ hr hs) (ih hrest)

theorem sameColumn_of_fits {d : Dialect} {model other : String} {x y : Attribute} {c : Column}
    (hx : c.Fits d model x) (hy : c.Fits d other y) : SameColumn d model other x y := by
  refine ⟨hx.name.symm.trans hy.name, hx.type.trans hy.type.symm,
    hx.literal.trans hy.literal.symm, ?_⟩
  exact Bool.eq_iff_iff.mpr (hx.required.symm.trans hy.required)

theorem uniqueNames_of_expectedUnique {d : Dialect} {x y : Model}
    (h : expectedUnique d x = expectedUnique d y) : x.uniqueNames = y.uniqueNames := by
  simp only [expectedUnique] at h
  by_cases hx : x.uniqueNames = []
  · by_cases hy : y.uniqueNames = []
    · rw [hx, hy]
    · simp [hx, hy] at h
  · by_cases hy : y.uniqueNames = []
    · simp [hx, hy] at h
    · simp only [if_neg hx, if_neg hy, Option.some.injEq, Unique.mk.injEq] at h
      exact h.2

/-- A declaration that shows two models shows them in the same way. -/
theorem sameTable_of_fits {d : Dialect} {x y : Model} {t : Declaration} (hx : t.Fits d x)
    (hy : t.Fits d y) : SameTable d x y := by
  refine ⟨hx.name.symm.trans hy.name, ?_, ?_⟩
  · exact forall₂_of_common hx.columns hy.columns fun _ _ _ => sameColumn_of_fits
  · exact uniqueNames_of_expectedUnique (hx.unique.symm.trans hy.unique)

/-- The statement that creates the table of a model is that of a sound declaration that fits. -/
theorem fits_of_creation {d : Dialect} (hd : d ∈ dialects) {model : Model}
    {statement : Statement} (h : d.creation model = .ok statement) :
    ∃ t : Declaration, t.Fits d model ∧ t.Sound d.backslashes ∧ t.statement = statement := by
  obtain ⟨columns, hcolumns, rfl⟩ := creation_eq_ok.mp h
  have hunique := tableUnique?_eq hd model
  refine ⟨⟨model.name, columns, d.tableUnique? model⟩, ⟨rfl, ?_, hunique⟩, ⟨?_, ?_⟩, rfl⟩
  · exact hcolumns.imp fun _ _ hc => fits_of_column hc
  · exact sound_of_columns hd hcolumns
  · intro u hu
    by_cases hnone : model.uniqueNames = []
    · simp [hunique, expectedUnique, hnone] at hu
    · obtain rfl : _ = u := by simpa [hunique, expectedUnique, hnone] using hu
      exact hnone

theorem fits_of_creationText {d : Dialect} (hd : d ∈ dialects) {model : Model} {text : String}
    (h : d.creationText model = .ok text) :
    ∃ t : Declaration, t.Fits d model ∧ t.Sound d.backslashes ∧ t.statement.text '"' = text := by
  obtain ⟨statement, hs, hrest⟩ := Outcome.bind_eq_ok.mp h
  obtain ⟨t, hfits, hsound, rfl⟩ := fits_of_creation hd hs
  have hrender : d.render [t.statement] = text := Except.ok.inj hrest
  refine ⟨t, hfits, hsound, ?_⟩
  rw [← hrender, render, quote_eq hd]
  simp

/-- The texts of tables are those of sound declarations that fit their models. -/
theorem exists_declarations {d : Dialect} (hd : d ∈ dialects) {models : List Model}
    {texts : List String}
    (h : List.Forall₂ (fun model text => d.creationText model = .ok text) models texts) :
    ∃ tables : List Declaration, List.Forall₂ (Declaration.Fits d) models tables ∧
      (∀ t ∈ tables, t.Sound d.backslashes) ∧
      (tables.map fun t => t.statement.text '"') = texts := by
  induction h with
  | nil => exact ⟨[], .nil, by simp, rfl⟩
  | cons htext _ ih =>
      obtain ⟨t, hfits, hsound, rfl⟩ := fits_of_creationText hd htext
      obtain ⟨tables, htables, hrest, rfl⟩ := ih
      exact ⟨t :: tables, .cons hfits htables, List.forall_mem_cons.mpr ⟨hsound, hrest⟩, rfl⟩

/-- A schema script is read back as declarations that fit the models. -/
theorem exists_readTables {d : Dialect} (hd : d ∈ dialects) {schema : Schema} {text : String}
    (h : (d.schemaScript schema).outcome = .ok text) :
    ∃ tables, readTables d.backslashes text = some tables ∧
      List.Forall₂ (Declaration.Fits d) schema.models tables := by
  rw [outcome_schemaScript] at h
  obtain ⟨texts, htexts, rfl⟩ := Outcome.map_eq_ok.mp h
  obtain ⟨tables, hfits, hsound, rfl⟩ := exists_declarations hd (Outcome.mapM_eq_ok_iff.mp htexts)
  exact ⟨tables, readTables_text hsound, hfits⟩

/-- A schema script is read back as declarations that fit the models, in order. Any schema with the
same script has the same tables. -/
theorem readTables_schemaScript {d : Dialect} (hd : d ∈ dialects) {schema : Schema}
    {text : String} (h : (d.schemaScript schema).outcome = .ok text) :
    (∃ tables, readTables d.backslashes text = some tables ∧
      List.Forall₂ (Declaration.Fits d) schema.models tables) ∧
      ∀ other : Schema, (d.schemaScript other).outcome = .ok text →
        List.Forall₂ (SameTable d) schema.models other.models := by
  obtain ⟨tables, hread, hfits⟩ := exists_readTables hd h
  refine ⟨⟨tables, hread, hfits⟩, fun other hother => ?_⟩
  obtain ⟨others, hreadOther, hfitsOther⟩ := exists_readTables hd hother
  obtain rfl : tables = others := Option.some.inj (hread.symm.trans hreadOther)
  exact forall₂_of_common hfits hfitsOther fun _ _ _ => sameTable_of_fits

/-- A schema whose names and default value hold quotes, line ends, commas, parentheses and
backslashes, with a model that has no attributes. -/
def hostileSchema : Schema :=
  ⟨[⟨.number 1, "a\" (\n", [
      { id := .number 1, name := "id", type := .autoGenerated },
      { id := .number 2, name := "b\",\"c", type := .string, required := true, unique := true,
        max := some (.integer 120 (by decide)), defaultValue := some (.string "it's \\'\n), (") }]⟩,
    ⟨.number 2, "", []⟩]⟩

theorem readTables_hostileSchema :
    redshift ∈ dialects ∧ ∃ text, (redshift.schemaScript hostileSchema).outcome = .ok text ∧
      (∃ tables, readTables true text = some tables ∧
        List.Forall₂ (Declaration.Fits redshift) hostileSchema.models tables) ∧
      ∀ other : Schema, (redshift.schemaScript other).outcome = .ok text →
        List.Forall₂ (SameTable redshift) hostileSchema.models other.models := by
  have hd : redshift ∈ dialects := by simp [dialects]
  obtain ⟨text, h⟩ : ∃ text, (redshift.schemaScript hostileSchema).outcome = .ok text := ⟨_, rfl⟩
  exact ⟨hd, text, h, readTables_schemaScript hd h⟩

end SchemaMigration.Sql
