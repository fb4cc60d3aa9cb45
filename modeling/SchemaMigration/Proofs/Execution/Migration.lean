import SchemaMigration.Proofs.Execution.Statements

/-!
# What a difference leaves of keys and constraints

The operations for the attributes of a model carry keys along with their columns, and they carry
each unique constraint along: it loses nothing but is taken away with its columns, and it follows
their names. Only the last operation of a model replaces a constraint.

An engine that passes over the creation of a table that is there carries out the difference to a
schema without that model.
-/

namespace SchemaMigration.Execution

open Catalog Diff Named Outcome Sql

variable {d : Dialect} {e : Engine}

@[simp] theorem onColumns_id (u : Unique) : onColumns id u = u := by
  simp [onColumns]

theorem onColumns_comp (f g : String → String) (u : Unique) :
    onColumns g (onColumns f u) = onColumns (g ∘ f) u := by
  simp [onColumns]

/-- What an operation that replaces no constraint does to the constraints of a table. -/
def follow (e : Engine) : Operation → List Unique → List Unique
  | .dropAttribute _ attr, uniques =>
    if e.cascades then uniques.filter (attr.name ∉ ·.columns) else uniques
  | .renameAttribute _ previous current, uniques =>
    uniques.map (onColumns (renamed previous current))
  | _, uniques => uniques

/-- What operations that replace no constraint do to the constraints of a table, in order. -/
def followAll (e : Engine) (operations : List Operation) (uniques : List Unique) : List Unique :=
  operations.foldl (fun uniques op => follow e op uniques) uniques

theorem followAll_append (front back : List Operation) (uniques : List Unique) :
    followAll e (front ++ back) uniques = followAll e back (followAll e front uniques) :=
  List.foldl_append

/-- The constraints of a table after the one of a model has been replaced. -/
def replaced (model : Model) (uniques : List Unique) : List Unique :=
  uniques.filter (·.name ≠ some (Dialect.uniqueName model.name)) ++
    (Dialect.namedUnique? model).toList

/-- What the operations for a model leave of the constraints of its table. -/
def settledUniques (e : Engine) (previous current : Model) (uniques : List Unique) : List Unique :=
  let kept := followAll e (attributeOps previous current) uniques
  if previous.sameUnique current then kept else replaced current kept

/-- A constraint that is to be dropped is there, if the engine and the statement insist on it. -/
def Finds (d : Dialect) (e : Engine) (model : Model) (uniques : List Unique) : Prop :=
  e.insists = true → d.dropsIfThere = false →
    ∃ u ∈ uniques, u.name = some (Dialect.uniqueName model.name)

/-- Columns, as far as they are in the primary key. -/
def keyView : ColumnView Bool where
  fresh := Attribute.isPrimaryKey
  required _ key := key
  modified _ key := key

/-- A column that was there before keeps its place in the primary key or outside. -/
theorem settled_keyView (previous : Model) (keys : Attribute → Bool) (attr : Attribute) :
    keyView.settled previous keys attr =
      match previous.byId? attr.id with
      | none => attr.isPrimaryKey
      | some old => keys old := by
  simp only [ColumnView.settled]
  cases previous.byId? attr.id with
  | none => rfl
  | some old => simp only [ColumnView.changed, keyView, ite_self]

/-- An operation that replaces no constraint changes columns and constraints apart. -/
theorem view_change {name : String} {op : Operation} (h : InTable name op)
    (hunique : op.kind ≠ .changeUnique) (table : Table) :
    (view d e).change op table = (fun columns => ⟨columns, follow e op table.uniques⟩) <$>
      keyView.change op table.columns := by
  obtain ⟨-, hdrop, hadd, hrename⟩ := h
  cases op with
  | dropModel => exact absurd rfl hdrop
  | addModel => exact absurd rfl hadd
  | renameModel => exact absurd rfl hrename
  | changeUnique => exact absurd rfl hunique
  | addAttribute model attr => cases h : create attr.name attr.isPrimaryKey table.columns <;>
      simp [view, keyView, ColumnView.change, Table.addColumn, follow, h]
  | dropAttribute model attr => cases h : drop attr.name table.columns <;>
      simp [view, ColumnView.change, Engine.dropColumn, follow, h]
  | renameAttribute model previous current => cases h : rename previous current table.columns <;>
      simp [view, ColumnView.change, Table.renameColumn, follow, h]
  | changeRequired model attr | modifyAttribute model attr =>
      have hkey : (fun key : Bool => (Except.ok key : Except Obstacle Bool)) = .ok := rfl
      cases h : alter attr.name .ok table.columns <;>
        simp [view, keyView, ColumnView.change, Table.needColumn, follow, hkey, h]

theorem kind_of_mem_attributeOps {previous current : Model} {op : Operation}
    (h : op ∈ attributeOps previous current) : op.kind ≠ .changeUnique := by
  simp only [attributeOps, List.mem_append, List.mem_map, List.mem_flatMap] at h
  rcases h with ⟨attr, -, rfl⟩ | ⟨attr, -, hop⟩
  · simp [Operation.kind]
  · exact (kind_of_mem_attributeStep hop).2.2

/-- The operations for attributes change columns and constraints apart. -/
theorem carryOut_attributeOps {previous current : Model} (table : Table) :
    carryOut (view d e).change (attributeOps previous current) table =
      (fun columns => ⟨columns, followAll e (attributeOps previous current) table.uniques⟩) <$>
        carryOut keyView.change (attributeOps previous current) table.columns := by
  have hops : ∀ op ∈ attributeOps previous current,
      InTable current.name op ∧ op.kind ≠ .changeUnique := by
    intro op hop
    have hwithin : op ∈ withinTable previous current := by
      rw [withinTable_eq]
      exact List.mem_append_left _ hop
    exact ⟨inTable_withinTable hwithin, kind_of_mem_attributeOps hop⟩
  revert hops
  generalize attributeOps previous current = operations
  intro hops
  induction operations generalizing table with
  | nil => rfl
  | cons op rest ih =>
      obtain ⟨⟨hin, hunique⟩, hrest⟩ := List.forall_mem_cons.mp hops
      rw [carryOut_cons, carryOut_cons, view_change hin hunique]
      cases keyView.change op table.columns with
      | error obstacle => rfl
      | ok columns => exact ih ⟨columns, follow e op table.uniques⟩ hrest

theorem Table.has_eq_true_iff {name : String} {table : Table} :
    table.has name = true ↔ ∃ u ∈ table.uniques, u.name = some name := by
  simp [Table.has]

theorem dropConstraint_eq_ok_iff {name : String} {ifThere : Bool} {table result : Table} :
    e.dropConstraint name ifThere table = .ok result ↔
      (e.insists = true → ifThere = false → ∃ u ∈ table.uniques, u.name = some name) ∧
        result = ⟨table.columns, table.uniques.filter (·.name ≠ some name)⟩ := by
  rw [← Table.has_eq_true_iff, Engine.dropConstraint]
  cases e.insists <;> cases ifThere <;> cases table.has name <;> simp [eq_comm]

/-- Replacing the constraint of a model, on a table with the columns of the model. -/
theorem changeUnique_eq_ok_iff {model : Model} {keys : Attribute → Bool} {uniques : List Unique}
    {result : Table} :
    changeUnique d e model
        ⟨ofEntries (model.attributes.map fun attr => (attr.name, keys attr)), uniques⟩ =
        .ok result ↔
      Finds d e model uniques ∧ result =
        ⟨ofEntries (model.attributes.map fun attr => (attr.name, keys attr)),
          replaced model uniques⟩ := by
  rw [changeUnique, bind_eq_ok]
  simp only [dropConstraint_eq_ok_iff, Finds, replaced]
  cases hunique : Dialect.namedUnique? model with
  | none =>
      constructor
      · rintro ⟨table, ⟨hfinds, rfl⟩, hresult⟩
        obtain rfl := Except.ok.inj hresult
        exact ⟨hfinds, by simp⟩
      · rintro ⟨hfinds, rfl⟩
        exact ⟨_, ⟨hfinds, rfl⟩, by simp⟩
  | some unique =>
      have hcolumns : unique.columns = model.uniqueNames := by
        simp only [Dialect.namedUnique?, Dialect.unique?] at hunique
        split at hunique
        · cases hunique
        · obtain rfl := Option.some.inj hunique
          rfl
      have hadd : ∀ uniques, Table.addConstraint unique
          ⟨ofEntries (model.attributes.map fun attr => (attr.name, keys attr)), uniques⟩ =
          .ok ⟨ofEntries (model.attributes.map fun attr => (attr.name, keys attr)),
            uniques ++ [unique]⟩ := by
        intro uniques
        simp only [Table.addConstraint, hcolumns, ColumnView.withAll_uniqueNames model keys]
        rfl
      constructor
      · rintro ⟨table, ⟨hfinds, rfl⟩, hresult⟩
        exact ⟨hfinds, (Except.ok.inj ((hadd _).symm.trans hresult)).symm⟩
      · rintro ⟨hfinds, rfl⟩
        exact ⟨_, ⟨hfinds, rfl⟩, hadd _⟩

/-- The operations within a table succeed exactly if attributes are in order and a constraint that
is to be replaced is found. -/
theorem carryOut_withinTable_eq_ok_iff {previous current : Model} (hp : previous.Distinct)
    (hc : current.Distinct) {keys : Attribute → Bool} {uniques : List Unique} {result : Table} :
    carryOut (view d e).change (withinTable previous current)
        ⟨ofEntries (previous.attributes.map fun attr => (attr.name, keys attr)), uniques⟩ =
        .ok result ↔
      AttributesInOrder previous current ∧
      (previous.sameUnique current = false →
        Finds d e current (followAll e (attributeOps previous current) uniques)) ∧
      result = ⟨ofEntries (current.attributes.map fun attr =>
        (attr.name, keyView.settled previous keys attr)),
        settledUniques e previous current uniques⟩ := by
  have hattributes : ∀ settled : Table, carryOut (view d e).change (attributeOps previous current)
      ⟨ofEntries (previous.attributes.map fun attr => (attr.name, keys attr)), uniques⟩ =
        .ok settled ↔
      AttributesInOrder previous current ∧ settled =
        ⟨ofEntries (current.attributes.map fun attr =>
          (attr.name, keyView.settled previous keys attr)),
          followAll e (attributeOps previous current) uniques⟩ := by
    intro settled
    rw [carryOut_attributeOps, map_eq_ok]
    simp only [ColumnView.changeAll_attributeOps_eq_ok_iff hp hc]
    constructor
    · rintro ⟨columns, ⟨ho, rfl⟩, rfl⟩
      exact ⟨ho, rfl⟩
    · rintro ⟨ho, rfl⟩
      exact ⟨_, ⟨ho, rfl⟩, rfl⟩
  rw [withinTable_eq, carryOut_append, bind_eq_ok]
  simp only [hattributes]
  cases hsame : previous.sameUnique current with
  | true =>
      have hstep : uniqueStep previous current = [] := if_pos hsame
      simp [hstep, settledUniques, hsame, eq_comm]
  | false =>
      have hstep : uniqueStep previous current = [.changeUnique current] := by
        simp [uniqueStep, hsame]
      have hchange : ∀ table : Table,
          carryOut (view d e).change (uniqueStep previous current) table =
            changeUnique d e current table := by
        intro table
        rw [hstep, carryOut_singleton]
        rfl
      simp only [hchange, settledUniques, hsame]
      constructor
      · rintro ⟨settled, ⟨ho, rfl⟩, hresult⟩
        obtain ⟨hfinds, rfl⟩ := changeUnique_eq_ok_iff.mp hresult
        exact ⟨ho, fun _ => hfinds, rfl⟩
      · rintro ⟨ho, hfinds, rfl⟩
        exact ⟨_, ⟨ho, rfl⟩, changeUnique_eq_ok_iff.mpr ⟨hfinds trivial, rfl⟩⟩

/-- The table of a model with given keys and constraints. -/
def tableWith (keys : Model → Attribute → Bool) (uniques : Model → List Unique) (model : Model) :
    Table :=
  ⟨ofEntries (model.attributes.map fun attr => (attr.name, keys model attr)), uniques model⟩

/-- The keys that are defined when a model is created. -/
def declaredKeys (_ : Model) (attr : Attribute) : Bool := attr.isPrimaryKey

/-- The constraints that are declared when a model is created. -/
def declaredUniques (d : Dialect) (model : Model) : List Unique := (d.tableUnique? model).toList

/-- The keys of the current models after a difference. -/
def nextKeys (previous : Schema) (keys : Model → Attribute → Bool) (model : Model) :
    Attribute → Bool :=
  match previous.byId? model.id with
  | none => declaredKeys model
  | some old => keyView.settled old (keys old)

/-- The constraints of the current models after a difference. -/
def nextUniques (d : Dialect) (e : Engine) (previous : Schema) (uniques : Model → List Unique)
    (model : Model) : List Unique :=
  match previous.byId? model.id with
  | none => declaredUniques d model
  | some old => settledUniques e old model (uniques old)

section

variable {previous current : Schema} {keys : Model → Attribute → Bool}
  {uniques : Model → List Unique}

/-- What becomes of the table of a model. -/
theorem outcome_eq_ok_iff (hp : previous.Distinct) {model : Model} (hm : model.Distinct)
    {table : Table} :
    (view d e).outcome previous (tableWith keys uniques) model = .ok table ↔
      (∀ old ∈ previous.byId? model.id, AttributesInOrder old model ∧
        (old.sameUnique model = false →
          Finds d e model (followAll e (attributeOps old model) (uniques old)))) ∧
      table = tableWith (nextKeys previous keys) (nextUniques d e previous uniques) model := by
  simp only [TableView.outcome, tableWith, nextKeys, nextUniques]
  cases hfound : previous.byId? model.id with
  | none =>
      constructor
      · intro h
        obtain rfl := Except.ok.inj h
        exact ⟨by simp, rfl⟩
      · rintro ⟨-, rfl⟩
        rfl
  | some old =>
      have hold : old ∈ previous.models := List.mem_of_find?_eq_some hfound
      simp only [carryOut_withinTable_eq_ok_iff (hp.models old hold) hm, Option.mem_some_iff,
        forall_eq', and_assoc]

/-- A difference can be carried out exactly if it is in order and each constraint that it replaces
is found. -/
theorem carryOut_diff_eq_ok_iff (hp : previous.Distinct) (hc : current.Distinct)
    {result : Database} :
    carryOut (view d e).execute (diff previous current)
        (ofEntries (previous.models.map fun m => (m.name, tableWith keys uniques m))) =
        .ok result ↔
      InOrder previous current ∧
      (∀ model ∈ current.models, ∀ old ∈ previous.byId? model.id,
        old.sameUnique model = false →
          Finds d e model (followAll e (attributeOps old model) (uniques old))) ∧
      result = ofEntries (current.models.map fun m =>
        (m.name, tableWith (nextKeys previous keys) (nextUniques d e previous uniques) m)) := by
  rw [TableView.executeAll_diff_eq_ok_iff hp hc]
  constructor
  · rintro ⟨ho, content, houtcome, rfl⟩
    have hmodels : ∀ model ∈ current.models, _ := fun model hm =>
      (outcome_eq_ok_iff hp (hc.models model hm)).mp (houtcome model hm)
    refine ⟨⟨ho, fun model hm old hold => ((hmodels model hm).1 old hold).1⟩,
      fun model hm old hold => ((hmodels model hm).1 old hold).2, ?_⟩
    refine congrArg ofEntries (List.map_congr_left fun model hm => ?_)
    rw [(hmodels model hm).2]
  · rintro ⟨ho, hfinds, rfl⟩
    refine ⟨ho.models, _, fun model hm => ?_, rfl⟩
    exact (outcome_eq_ok_iff hp (hc.models model hm)).mpr
      ⟨fun old hold => ⟨ho.attributes model hm old hold, hfinds model hm old hold⟩, rfl⟩

end

/-- Whatever succeeds with one effect succeeds with another that does the same where the first
succeeds. -/
theorem carryOut_mono {σ : Type} {effect other : Operation → σ → Except Obstacle σ}
    {operations : List Operation}
    (h : ∀ op ∈ operations, ∀ s t, effect op s = .ok t → other op s = .ok t) {s t : σ}
    (hrun : carryOut effect operations s = .ok t) : carryOut other operations s = .ok t := by
  induction operations generalizing s with
  | nil => exact hrun
  | cons op rest ih =>
      obtain ⟨hop, hrest⟩ := List.forall_mem_cons.mp h
      obtain ⟨next, hnext, htail⟩ := bind_eq_ok.mp hrun
      rw [carryOut_cons, hop s next hnext, ok_bind]
      exact ih hrest htail

theorem execute_of_view (op : Operation) (s t : Database)
    (h : (view d e).execute op s = .ok t) : execute d e op s = .ok t := by
  cases op with
  | addModel model =>
      have hfree : (s model.name).isSome = false := by
        simp only [TableView.execute, create] at h
        split at h
        · cases h
        · next hnot => simpa using hnot
      simp only [execute, Engine.createTable, hfree, Bool.and_false, Bool.false_eq_true, if_false]
      exact h
  | dropModel | renameModel | addAttribute | dropAttribute | renameAttribute | changeRequired
  | modifyAttribute | changeUnique => exact h

theorem view_of_execute {op : Operation} {s t : Database} (h : execute d e op s = .ok t) :
    (view d e).execute op s = .ok t ∨
      e.passesOver = true ∧ (∃ model, op = .addModel model) ∧ t = s := by
  cases op with
  | addModel model =>
      simp only [execute, Engine.createTable] at h
      split at h
      · next hpassed =>
        exact .inr ⟨(Bool.and_eq_true_iff.mp hpassed).1, ⟨model, rfl⟩, (Except.ok.inj h).symm⟩
      · exact .inl h
  | dropModel | renameModel | addAttribute | dropAttribute | renameAttribute | changeRequired
  | modifyAttribute | changeUnique => exact .inl h

theorem distinct_empty : Schema.Distinct {} := ⟨.nil, .nil, by simp⟩

/-- The tables of a schema after its creation. -/
theorem carryOut_diff_empty {schema : Schema} (hs : schema.Distinct) :
    carryOut (execute d e) (diff {} schema) (ofEntries []) =
      .ok (ofEntries (schema.models.map fun m =>
        (m.name, tableWith declaredKeys (declaredUniques d) m))) := by
  have hfound : ∀ id, Schema.byId? {} id = none := fun _ => rfl
  have hcreate : carryOut (view d e).execute (diff {} schema)
      (ofEntries (List.map (fun m : Model => (m.name, tableWith declaredKeys (declaredUniques d) m))
        (Schema.models {}))) = .ok (ofEntries (schema.models.map fun m =>
          (m.name, tableWith declaredKeys (declaredUniques d) m))) := by
    refine (carryOut_diff_eq_ok_iff distinct_empty hs).mpr ⟨⟨?_, ?_⟩, ?_, ?_⟩
    · exact List.pairwise_of_forall (by simp [hfound])
    · simp [hfound]
    · simp [hfound]
    · rfl
  exact carryOut_mono (fun op _ => execute_of_view op) hcreate

theorem distinct_of_sublist {schema part : Schema} (h : part.models.Sublist schema.models)
    (hs : schema.Distinct) : part.Distinct where
  ids := hs.ids.sublist (h.map _)
  names := hs.names.sublist (h.map _)
  models m hm := hs.models m (h.subset hm)

/-- Operations that create no table do what they do where nothing is passed over. -/
theorem carryOut_view_of_execute {operations : List Operation}
    (h : ∀ op ∈ operations, op.kind ≠ .addModel) {s t : Database}
    (hrun : carryOut (execute d e) operations s = .ok t) :
    carryOut (view d e).execute operations s = .ok t := by
  refine carryOut_mono (fun op hop s t hdone => ?_) hrun
  rcases view_of_execute hdone with hview | ⟨-, ⟨model, rfl⟩, -⟩
  · exact hview
  · exact absurd rfl (h _ hop)

/-- The models of a pass that were not passed over, among them all that were there before. -/
theorem exists_kept {previous : Schema} {models : List Model} {s t : Database}
    (hrun : carryOut (execute d e) (models.flatMap (modelStep previous)) s = .ok t) :
    ∃ kept : List Model, kept.Sublist models ∧
      (∀ model ∈ models, (e.passesOver = false ∨ (previous.byId? model.id).isSome = true) →
        model ∈ kept) ∧
      carryOut (view d e).execute (kept.flatMap (modelStep previous)) s = .ok t := by
  induction models generalizing s with
  | nil => exact ⟨[], .slnil, by simp, hrun⟩
  | cons model rest ih =>
      rw [List.flatMap_cons, carryOut_append] at hrun
      obtain ⟨next, hstep, hrest⟩ := bind_eq_ok.mp hrun
      obtain ⟨kept, hsub, hall, hkept⟩ := ih hrest
      by_cases hview : carryOut (view d e).execute (modelStep previous model) s = .ok next
      · refine ⟨model :: kept, hsub.cons_cons _, ?_, ?_⟩
        · intro other hother hwhy
          rcases List.mem_cons.mp hother with rfl | hother
          · exact List.mem_cons_self
          · exact List.mem_cons_of_mem _ (hall other hother hwhy)
        · rw [List.flatMap_cons, carryOut_append, hview, ok_bind]
          exact hkept
      · -- what cannot be done so is passed over, hence a creation
        cases hfound : previous.byId? model.id with
        | some old =>
            rw [modelStep_of_some hfound] at hstep hview
            have hkinds : ∀ op ∈ modelChanges old model, op.kind ≠ .addModel :=
              fun _ hop => (kind_of_mem_modelChanges hop).2
            exact absurd (carryOut_view_of_execute hkinds hstep) hview
        | none =>
            rw [modelStep_of_none hfound, carryOut_singleton] at hstep hview
            rcases view_of_execute hstep with hdone | ⟨hpasses, -, rfl⟩
            · exact absurd hdone hview
            · refine ⟨kept, hsub.cons _, ?_, hkept⟩
              intro other hother hwhy
              rcases List.mem_cons.mp hother with rfl | hother
              · simp [hpasses, hfound] at hwhy
              · exact hall other hother hwhy

/-- Leaving new models out of the current schema leaves no other ones gone. -/
theorem goneModels_of_sublist {previous current part : Schema}
    (hsub : part.models.Sublist current.models)
    (hall : ∀ model ∈ current.models, (previous.byId? model.id).isSome = true →
      model ∈ part.models) : goneModels previous part = goneModels previous current := by
  refine List.filter_congr fun model hmodel => ?_
  have hsome : (part.byId? model.id).isSome = true ↔ (current.byId? model.id).isSome = true := by
    simp only [Schema.byId?, List.find?_isSome, decide_eq_true_eq]
    constructor
    · rintro ⟨other, hother, he⟩
      exact ⟨other, hsub.subset hother, he⟩
    · rintro ⟨other, hother, he⟩
      refine ⟨other, hall other hother ?_, he⟩
      simp only [Schema.byId?, List.find?_isSome, decide_eq_true_eq]
      exact ⟨model, hmodel, he.symm⟩
  rw [Bool.eq_iff_iff, Option.isNone_iff_eq_none, Option.isNone_iff_eq_none, ← not_iff_not,
    ← ne_eq, ← ne_eq, ← Option.isSome_iff_ne_none, ← Option.isSome_iff_ne_none, hsome]

/-- Carrying out a difference while creations are passed over is carrying out the difference to a
schema without their models. -/
theorem exists_carryOut_diff {previous current : Schema} {s t : Database}
    (hrun : carryOut (execute d e) (diff previous current) s = .ok t) :
    ∃ part : Schema, part.models.Sublist current.models ∧
      (∀ model ∈ current.models, (e.passesOver = false ∨ (previous.byId? model.id).isSome = true) →
        model ∈ part.models) ∧
      carryOut (view d e).execute (diff previous part) s = .ok t := by
  rw [diff, carryOut_append] at hrun
  obtain ⟨next, hgone, hpass⟩ := bind_eq_ok.mp hrun
  obtain ⟨kept, hsub, hall, hkept⟩ := exists_kept hpass
  refine ⟨⟨kept⟩, hsub, hall, ?_⟩
  have hdrops : ∀ op ∈ (goneModels previous current).map fun model =>
      Operation.dropModel model.name, op.kind ≠ .addModel := by
    intro op hop
    obtain ⟨model, -, rfl⟩ := List.mem_map.mp hop
    simp [Operation.kind]
  rw [diff, goneModels_of_sublist hsub fun model hm hsome => hall model hm (.inr hsome),
    carryOut_append, carryOut_view_of_execute hdrops hgone, ok_bind]
  exact hkept

section

variable {previous current : Schema} {statements : List Statement}

/-- The statements of a schema leave its tables. -/
theorem build_creations {schema : Schema} (hs : schema.Distinct)
    (h : creations d schema = .ok statements) :
    e.build statements = .ok (ofEntries (schema.models.map fun m =>
      (m.name, tableWith declaredKeys (declaredUniques d) m))) := by
  rw [creations_eq_migration, ← diff_empty] at h
  rw [Engine.build, performAll_migration h, carryOut_diff_empty hs]

/-- Creating a schema and then carrying out the difference to another is carrying out the difference
on the tables of the first. -/
theorem build_history_eq (hp : previous.Distinct)
    (h : history d previous [current] = .ok statements) :
    e.build statements = carryOut (execute d e) (diff previous current)
      (ofEntries (previous.models.map fun m =>
        (m.name, tableWith declaredKeys (declaredUniques d) m))) := by
  have hruns : migrations {} [previous, current] = diff {} previous ++ diff previous current := by
    simp only [migrations, List.append_nil]
  rw [build_history h, hruns, carryOut_append, carryOut_diff_empty hp, ok_bind]

/-- What is left of keys and constraints when a schema is created and then migrated to another. All
models that were there before have their tables; a new one may have been passed over. -/
theorem exists_of_build_history (hp : previous.Distinct) (hc : current.Distinct)
    (h : history d previous [current] = .ok statements) {result : Database}
    (hrun : e.build statements = .ok result) :
    ∃ part : Schema, part.models.Sublist current.models ∧
      (∀ model ∈ current.models, (previous.byId? model.id).isSome = true → model ∈ part.models) ∧
      InOrder previous part ∧
      result = ofEntries (part.models.map fun m => (m.name,
        tableWith (nextKeys previous declaredKeys)
          (nextUniques d e previous (declaredUniques d)) m)) := by
  rw [build_history_eq hp h] at hrun
  obtain ⟨part, hsub, hall, hview⟩ := exists_carryOut_diff hrun
  obtain ⟨ho, -, hresult⟩ :=
    (carryOut_diff_eq_ok_iff hp (distinct_of_sublist hsub hc)).mp hview
  exact ⟨part, hsub, fun model hm hsome => hall model hm (.inr hsome), ho, hresult⟩

/-- Creating a schema and migrating it to another succeeds if the two are in order and nothing is
insisted on. -/
theorem exists_build_history (hp : previous.Distinct) (hc : current.Distinct)
    (ho : InOrder previous current) (hinsists : e.insists = true → d.dropsIfThere = true)
    (h : history d previous [current] = .ok statements) :
    ∃ result, e.build statements = .ok result := by
  have hfinds : ∀ model ∈ current.models, ∀ old ∈ previous.byId? model.id,
      old.sameUnique model = false →
        Finds d e model (followAll e (attributeOps old model) (declaredUniques d old)) := by
    intro model _ old _ _ hinsisted hbare
    rw [hinsists hinsisted] at hbare
    cases hbare
  have hview : carryOut (view d e).execute (diff previous current)
      (ofEntries (previous.models.map fun m =>
        (m.name, tableWith declaredKeys (declaredUniques d) m))) = .ok _ :=
    (carryOut_diff_eq_ok_iff hp hc).mpr ⟨ho, hfinds, rfl⟩
  exact ⟨_, (build_history_eq hp h).trans (carryOut_mono (fun op _ => execute_of_view op) hview)⟩

end

/-- A model whose attribute is unique. -/
def restricted : Schema :=
  ⟨[⟨.number 1, "m", [{ id := .number 1, name := "a", type := .integer, unique := true }]⟩]⟩

/-- The same model, whose attribute is not unique. -/
def released : Schema := ⟨[⟨.number 1, "m", [{ id := .number 1, name := "a", type := .integer }]⟩]⟩

end SchemaMigration.Execution
