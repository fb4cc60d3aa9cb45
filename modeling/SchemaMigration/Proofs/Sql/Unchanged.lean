import SchemaMigration.Proofs.Sql.Refusals
import SchemaMigration.Proofs.Sql.Schemas
import SchemaMigration.Proofs.Sql.TextLength
import SchemaMigration.Proofs.Unchanged

/-!
# Scripts of schemas without a difference

A script shows of a schema what `SameTable` compares, and nothing else: schemas with the same tables
have the same script. The comparison of two versions of a schema looks at less. Default values are
by design no part of it, and the names under a unique constraint are compared as a set, whereas a
script lists a repeated name as often as it is there.

So two schemas that list the same identifiers and have no difference are refused alike. If they are
rendered, their scripts are the same exactly when these two things agree.
-/

namespace SchemaMigration.Sql

open Dialect

theorem column_congr {d : Dialect} {model other : String} {x y : Attribute}
    (h : SameColumn d model other x y) : d.column model x = d.column other y := by
  simp only [column, Attribute.isPrimaryKey, h.name, h.type, h.literal, h.required]

theorem mapM_congr_forall₂ {ε α β γ : Type} {f : α → Except ε γ} {g : β → Except ε γ} {xs : List α}
    {ys : List β} (h : List.Forall₂ (fun x y => f x = g y) xs ys) : xs.mapM f = ys.mapM g := by
  have hruns : (xs.map f).mapM id = (ys.map g).mapM id := by rw [map_eq_map_iff_forall₂.mpr h]
  simpa only [List.mapM_map, Function.id_comp] using hruns

/-- A search depends on the answers for its items, in order. -/
theorem findSome?_congr_forall₂ {α β γ : Type} {f : α → Option γ} {g : β → Option γ} {xs : List α}
    {ys : List β} (h : List.Forall₂ (fun x y => f x = g y) xs ys) :
    xs.findSome? f = ys.findSome? g := by
  have hsearches : (xs.map f).findSome? id = (ys.map g).findSome? id := by
    rw [map_eq_map_iff_forall₂.mpr h]
  simpa only [List.findSome?_map, Function.id_comp] using hsearches

theorem creation_congr {d : Dialect} {x y : Model} (h : SameTable d x y) :
    d.creation x = d.creation y := by
  have hcolumns : x.attributes.mapM (d.column x.name) = y.attributes.mapM (d.column y.name) :=
    mapM_congr_forall₂ (h.columns.imp fun _ _ => column_congr)
  have hunique : d.tableUnique? x = d.tableUnique? y := by
    simp only [tableUnique?, unnamedUnique?, namedUnique?, unique?, h.name, h.unique]
  rw [creation, creation, hcolumns, hunique, h.name]

/-- Schemas with the same tables have the same script, or fail alike. -/
theorem schemaScript_congr {d : Dialect} {previous current : Schema}
    (h : List.Forall₂ (SameTable d) previous.models current.models) :
    (d.schemaScript previous).outcome = (d.schemaScript current).outcome := by
  have htexts : previous.models.mapM d.creationText = current.models.mapM d.creationText := by
    apply mapM_congr_forall₂
    refine h.imp fun x y hxy => ?_
    rw [creationText, creationText, creation_congr hxy]
  rw [outcome_schemaScript, outcome_schemaScript, htexts]

/-- Two scripts are the same exactly when the tables are. -/
theorem schemaScript_eq_iff {d : Dialect} (hd : d ∈ dialects) {previous current : Schema}
    {text other : String} (hp : (d.schemaScript previous).outcome = .ok text)
    (hc : (d.schemaScript current).outcome = .ok other) :
    text = other ↔ List.Forall₂ (SameTable d) previous.models current.models := by
  constructor
  · rintro rfl
    obtain ⟨tables, hread, hfits⟩ := exists_readTables hd hp
    obtain ⟨others, hreadOther, hfitsOther⟩ := exists_readTables hd hc
    obtain rfl : tables = others := Option.some.inj (hread.symm.trans hreadOther)
    exact forall₂_of_common hfits hfitsOther fun _ _ _ => sameTable_of_fits
  · intro h
    have hsame := schemaScript_congr h
    rw [hp, hc] at hsame
    exact Except.ok.inj hsame

/-- Two versions of a string have upper bounds of the same value wherever the comparison, which
rounds them, finds no change. -/
def SameLimit (previous current : Attribute) : Prop :=
  previous.type = current.type → previous.type.name = "string" →
    Json.sameBound previous.max current.max = true →
    previous.max.map (·.exact) = current.max.map (·.exact)

theorem mapping_of_unchanged {d : Dialect} {model : String} {previous current : Attribute}
    (h : previous.Unchanged current) : d.mapping model previous = d.mapping model current := by
  simp only [mapping, h.type, h.name]

/-- The column of an attribute that is unchanged keeps its type. -/
theorem columnType_of_unchanged {d : Dialect} (hd : d ∈ dialects) {model : String}
    {previous current : Attribute} (h : previous.Unchanged current)
    (hlimit : SameLimit previous current) :
    d.columnType model previous = d.columnType model current := by
  rw [columnType, columnType, mapping_of_unchanged h]
  unfold mapping
  cases hmapping : d.mapping? current.type with
  | none => rfl
  | some mapping =>
      suffices columnTypeOf previous mapping.column = columnTypeOf current mapping.column from
        congrArg Except.ok this
      cases hcolumn : mapping.column with
      | fixed sql => rfl
      | boundedText =>
          have hname : previous.type.name = "string" := by
            rw [← limitsText_iff hd, h.type, LimitsText, hmapping, Option.map_some, hcolumn]
          have hlength := textLength_congr (hlimit h.type hname h.max)
          simp only [columnTypeOf, hlength]

/-- SQL shows the default values of two models in the same way, attribute by attribute. -/
def SameDefaults (d : Dialect) (x y : Model) : Prop :=
  List.Forall₂ (fun a b => d.defaultLiteral x.name a = d.defaultLiteral y.name b) x.attributes
    y.attributes

/-- Upper bounds of strings have the same value wherever the comparison finds no change. -/
def SameLimits (previous current : Schema) : Prop :=
  List.Forall₂ (fun x y => List.Forall₂ SameLimit x.attributes y.attributes) previous.models
    current.models

/-- Two unchanged models have the same table when SQL shows their defaults in the same way and they
list the same unique names. -/
theorem sameTable_iff_of_unchanged {d : Dialect} (hd : d ∈ dialects) {x y : Model}
    (h : x.Unchanged y) (hlimits : List.Forall₂ SameLimit x.attributes y.attributes) :
    SameTable d x y ↔ SameDefaults d x y ∧ x.uniqueNames = y.uniqueNames := by
  constructor
  · intro hsame
    exact ⟨hsame.columns.imp fun _ _ hcolumn => hcolumn.literal, hsame.unique⟩
  · rintro ⟨hdefaults, hunique⟩
    refine ⟨h.name, ?_, hunique⟩
    refine (forall₂_and_iff.mpr ⟨h.attributes, forall₂_and_iff.mpr ⟨hlimits, hdefaults⟩⟩).imp ?_
    rintro a b ⟨hunchanged, hlimit, hliteral⟩
    refine ⟨hunchanged.name, ?_, hliteral, hunchanged.required⟩
    rw [h.name]
    exact columnType_of_unchanged hd hunchanged hlimit

/-- Unchanged models are refused alike: what a refusal names has not changed. -/
theorem modelRefusal?_of_unchanged (d : Dialect) {x y : Model} (h : x.Unchanged y) :
    d.modelRefusal? x = d.modelRefusal? y := by
  have hrefusal : ∀ a b : Attribute, a.Unchanged b →
      d.refusal? x.name a = d.refusal? y.name b := by
    intro a b hab
    simp only [refusal?, h.name, hab.type, hab.name]
  exact findSome?_congr_forall₂ (h.attributes.imp hrefusal)

/-- Two schemas list the same identifiers, of models and inside each model, in the same order, and
have no difference. Then they fail with the same failure, or both have a script. The scripts are the
same exactly when the default values are written in the same way and each model lists the same
unique names, and the latter cannot fail while no model repeats a name. -/
theorem schemaScript_of_diff_eq_nil {d : Dialect} (hd : d ∈ dialects) {previous current : Schema}
    (hp : previous.DistinctIds) (ha : previous.Aligned current)
    (hlimits : SameLimits previous current) (h : diff previous current = []) :
    (∃ failure, (d.schemaScript previous).outcome = .error failure ∧
      (d.schemaScript current).outcome = .error failure) ∨
    ∃ text other, (d.schemaScript previous).outcome = .ok text ∧
      (d.schemaScript current).outcome = .ok other ∧
      (text = other ↔ List.Forall₂ (SameDefaults d) previous.models current.models ∧
        previous.models.map (·.uniqueNames) = current.models.map (·.uniqueNames)) ∧
      ((∀ m ∈ previous.models, (m.attributes.map (·.name)).Nodup) →
        previous.models.map (·.uniqueNames) = current.models.map (·.uniqueNames)) := by
  have hunchanged := ha.unchanged hp h
  have hfaults : Outcome.fault? (d.schemaScript previous).outcome =
      Outcome.fault? (d.schemaScript current).outcome := by
    rw [fault?_schemaScript, fault?_schemaScript]
    exact findSome?_congr_forall₂ (hunchanged.imp fun _ _ => modelRefusal?_of_unchanged d)
  cases hprevious : (d.schemaScript previous).outcome with
  | error failure =>
      rw [hprevious] at hfaults
      exact .inl ⟨failure, rfl, Outcome.fault?_eq_some_iff.mp hfaults.symm⟩
  | ok text =>
      rw [hprevious] at hfaults
      obtain ⟨other, hcurrent⟩ := Outcome.fault?_eq_none_iff.mp hfaults.symm
      refine .inr ⟨text, other, rfl, hcurrent, ?_, ?_⟩
      · rw [schemaScript_eq_iff hd hprevious hcurrent, map_eq_map_iff_forall₂, ← forall₂_and_iff]
        have hboth := forall₂_and_iff.mpr ⟨hunchanged, hlimits⟩
        constructor
        · intro htables
          refine (forall₂_and_iff.mpr ⟨hboth, htables⟩).imp ?_
          rintro x y ⟨⟨hxy, hxyLimits⟩, htable⟩
          exact (sameTable_iff_of_unchanged hd hxy hxyLimits).mp htable
        · intro hseen
          refine (forall₂_and_iff.mpr ⟨hboth, hseen⟩).imp ?_
          rintro x y ⟨⟨hxy, hxyLimits⟩, hxySeen⟩
          exact (sameTable_iff_of_unchanged hd hxy hxyLimits).mpr hxySeen
      · intro hnames
        apply map_eq_map_iff_forall₂.mpr
        refine (forall₂_mem hunchanged).imp ?_
        rintro x y ⟨⟨hx, -⟩, hxy⟩
        exact hxy.uniqueNames (hnames x hx)

/-- A schema with one string of limited length, and what it holds at first. -/
def labelSchema (limit : Json.Number) (initial : String) : Schema := ⟨[⟨.number 1, "m", [{
  id := .number 1
  name := "a"
  type := .string
  max := some limit
  defaultValue := some (.string initial) }]⟩]⟩

/-- The whole number one hundred. -/
def hundred : Json.Number := .integer 100 (by decide)

theorem canonical_hundred : Canonical 7036874417766400 (-46) := by decide

/-- One hundred with a fraction. -/
def hundredPointZero : Json.Number := .real ⟨false, 7036874417766400, -46, canonical_hundred⟩

theorem schemaScript_respeltLimit :
    redshift ∈ dialects ∧ (labelSchema hundred "a").DistinctIds ∧
      (labelSchema hundred "a").Aligned (labelSchema hundredPointZero "a") ∧
      SameLimits (labelSchema hundred "a") (labelSchema hundredPointZero "a") ∧
      diff (labelSchema hundred "a") (labelSchema hundredPointZero "a") = [] ∧
      ((∃ failure, (redshift.schemaScript (labelSchema hundred "a")).outcome = .error failure ∧
        (redshift.schemaScript (labelSchema hundredPointZero "a")).outcome = .error failure) ∨
      ∃ text other, (redshift.schemaScript (labelSchema hundred "a")).outcome = .ok text ∧
        (redshift.schemaScript (labelSchema hundredPointZero "a")).outcome = .ok other ∧
        (text = other ↔
          List.Forall₂ (SameDefaults redshift) (labelSchema hundred "a").models
            (labelSchema hundredPointZero "a").models ∧
          (labelSchema hundred "a").models.map (·.uniqueNames) =
            (labelSchema hundredPointZero "a").models.map (·.uniqueNames)) ∧
        ((∀ m ∈ (labelSchema hundred "a").models, (m.attributes.map (·.name)).Nodup) →
          (labelSchema hundred "a").models.map (·.uniqueNames) =
            (labelSchema hundredPointZero "a").models.map (·.uniqueNames))) := by
  have hd : redshift ∈ dialects := by simp [dialects]
  have hp : (labelSchema hundred "a").DistinctIds := by decide
  have ha : (labelSchema hundred "a").Aligned (labelSchema hundredPointZero "a") :=
    .cons ⟨rfl, .cons rfl .nil⟩ .nil
  have hexact : hundred.exact = hundredPointZero.exact := by decide +kernel
  have hlimits : SameLimits (labelSchema hundred "a") (labelSchema hundredPointZero "a") :=
    .cons (.cons (fun _ _ _ => congrArg some hexact) .nil) .nil
  have h : diff (labelSchema hundred "a") (labelSchema hundredPointZero "a") = [] := by
    decide +kernel
  exact ⟨hd, hp, ha, hlimits, h, schemaScript_of_diff_eq_nil hd hp ha hlimits h⟩

/-- Another default value is no difference, and is written in the script. -/
theorem schemaScript_newDefault :
    (labelSchema hundred "a").DistinctIds ∧ (labelSchema hundred "b").DistinctIds ∧
      (labelSchema hundred "a").Aligned (labelSchema hundred "b") ∧
      diff (labelSchema hundred "a") (labelSchema hundred "b") = [] ∧
      ∀ d ∈ dialects, (d.schemaScript (labelSchema hundred "a")).outcome ≠
        (d.schemaScript (labelSchema hundred "b")).outcome := by
  refine ⟨by decide, by decide, .cons ⟨rfl, .cons rfl .nil⟩ .nil, by decide +kernel, ?_⟩
  decide +kernel

/-- A model whose two attributes share a name, the first one unique. -/
def sharedNameModel (unique : Bool) : Model := ⟨.number 1, "m", [
  { id := .number 1, name := "a", type := .text, unique := true },
  { id := .number 2, name := "a", type := .text, unique := unique }]⟩

/-- A name that becomes unique a second time is no difference, and is listed twice in the script. -/
example : diff ⟨[sharedNameModel false]⟩ ⟨[sharedNameModel true]⟩ = [] ∧
    postgres.creationText (sharedNameModel false) ≠
      postgres.creationText (sharedNameModel true) := by
  decide +kernel

end SchemaMigration.Sql
