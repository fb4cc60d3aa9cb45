import SchemaMigration.Proofs.Execution.Migration

/-!
# Unique constraints after a migration in PostgreSQL

The constraint that comes with a new table has no name, and so no migration drops it: it goes when a
column that it covers is dropped, and otherwise it stays over the same attributes, whatever these
are called. A migration replaces constraints by the name of the model, and it compares the names of
unique attributes and not their identifiers. So not every table that was there before ends with
exactly one constraint over the unique attributes of its model.
-/

namespace SchemaMigration.Execution

open Catalog Diff Named Outcome Sql

variable {e : Engine}

/-- What a column is called after the step of an attribute. -/
def moved (previous : Model) (attr : Attribute) (column : String) : String :=
  match previous.byId? attr.id with
  | none => column
  | some old => renamed old.name attr.name column

/-- What a column is called after the steps of attributes, in order. -/
def movedAll (previous : Model) (attributes : List Attribute) (column : String) : String :=
  attributes.foldl (fun column attr => moved previous attr column) column

theorem renamed_self (name : String) : renamed name name = id := by
  funext column
  simp only [renamed, id]
  split
  · next he => exact he.symm
  · rfl

theorem followAll_attributeStep (previous current : Model) (attr : Attribute)
    (uniques : List Unique) : followAll e (attributeStep previous current attr) uniques =
      uniques.map (onColumns (moved previous attr)) := by
  unfold attributeStep moved
  cases previous.byId? attr.id with
  | none =>
      have hid : onColumns (fun column => column) = id := funext onColumns_id
      simp only [hid, List.map_id]
      rfl
  | some old =>
      have hmove : followAll e (if old.name = attr.name then []
          else [.renameAttribute current.handle old.name attr.name]) uniques =
          uniques.map (onColumns (renamed old.name attr.name)) := by
        split
        · next he =>
          have hid : onColumns (renamed attr.name attr.name) = id := by
            rw [renamed_self]
            exact funext onColumns_id
          rw [he, hid, List.map_id]
          rfl
        · rfl
      change followAll e (attributeChanges current.handle old attr) uniques =
        uniques.map (onColumns (renamed old.name attr.name))
      rw [attributeChanges, followAll_append, followAll_append, hmove]
      split <;> split <;> rfl

theorem followAll_attributeSteps (previous current : Model) (attributes : List Attribute)
    (uniques : List Unique) :
    followAll e (attributes.flatMap (attributeStep previous current)) uniques =
      uniques.map (onColumns (movedAll previous attributes)) := by
  induction attributes generalizing uniques with
  | nil =>
      have hid : onColumns (movedAll previous []) = id := funext onColumns_id
      rw [hid, List.map_id]
      rfl
  | cons attr rest ih =>
      rw [List.flatMap_cons, followAll_append, followAll_attributeStep, ih, List.map_map]
      refine List.map_congr_left fun u _ => ?_
      exact onColumns_comp _ _ u

theorem movedAll_of_ne {previous : Model} {attributes : List Attribute} {column : String}
    (h : ∀ attr ∈ attributes, ∀ old ∈ previous.byId? attr.id, old.name ≠ column) :
    movedAll previous attributes column = column := by
  induction attributes with
  | nil => rfl
  | cons attr rest ih =>
      obtain ⟨hattr, hrest⟩ := List.forall_mem_cons.mp h
      have hmoved : moved previous attr column = column := by
        unfold moved
        cases hold : previous.byId? attr.id with
        | none => rfl
        | some old => exact if_neg (hattr old hold).symm
      rw [movedAll, List.foldl_cons, hmoved]
      exact ih hrest

/-- In order, every column comes to be called what its attribute is called now: before the step of
the attribute nothing is renamed from its old name, and after it nothing from its new one. -/
theorem movedAll_eq {previous : Model} (hp : previous.Distinct) {attributes : List Attribute}
    (hids : (attributes.map (·.id)).Nodup)
    (ho : attributes.Pairwise fun attr later =>
      ∀ old ∈ previous.byId? later.id, old.name ≠ attr.name)
    {attr old : Attribute} (hattr : attr ∈ attributes) (hold : previous.byId? attr.id = some old) :
    movedAll previous attributes old.name = attr.name := by
  induction attributes with
  | nil => cases hattr
  | cons first rest ih =>
      obtain ⟨hfirst, hids⟩ := List.nodup_cons.mp hids
      obtain ⟨hlater, ho⟩ := List.pairwise_cons.mp ho
      rw [movedAll, List.foldl_cons]
      rcases List.mem_cons.mp hattr with rfl | hattr
      · have hmoved : moved previous attr old.name = attr.name := by
          simp only [moved, hold, renamed, if_true]
        rw [hmoved]
        exact movedAll_of_ne hlater
      · have hmoved : moved previous first old.name = old.name := by
          unfold moved
          cases hother : previous.byId? first.id with
          | none => rfl
          | some other =>
              refine if_neg fun he => hfirst ?_
              obtain rfl : old = other := List.inj_on_of_nodup_map hp.names
                (List.mem_of_find?_eq_some hold) (List.mem_of_find?_eq_some hother) he
              have hid : attr.id = first.id :=
                (Model.id_of_byId? hold).symm.trans (Model.id_of_byId? hother)
              exact List.mem_map.mpr ⟨attr, hattr, hid⟩
        rw [hmoved]
        exact ih hids ho hattr

/-- The identifiers of the attributes under the unique constraint. -/
def uniqueIds (model : Model) : List ObjectId :=
  (model.attributes.filter (·.inUnique)).map (·.id)

/-- A unique attribute of the previous model is gone. -/
def Lost (previous current : Model) : Prop :=
  ∃ attr ∈ previous.attributes, attr.inUnique = true ∧ current.byId? attr.id = none

/-- Where the names of unique attributes are the same, so are their identifiers; where they are not,
no attribute was unique before or one that was is gone. -/
structure UniqueKept (previous current : Model) : Prop where
  same : previous.sameUnique current = true →
    ∀ id, id ∈ uniqueIds previous ↔ id ∈ uniqueIds current
  changed : previous.sameUnique current = false → previous.uniqueNames = [] ∨ Lost previous current

instance (previous current : Model) : Decidable (Lost previous current) :=
  inferInstanceAs (Decidable (∃ attr ∈ previous.attributes,
    attr.inUnique = true ∧ current.byId? attr.id = none))

instance (previous current : Model) : Decidable (UniqueKept previous current) :=
  decidable_of_iff
    ((previous.sameUnique current = true →
        (∀ id ∈ uniqueIds previous, id ∈ uniqueIds current) ∧
          ∀ id ∈ uniqueIds current, id ∈ uniqueIds previous) ∧
      (previous.sameUnique current = false → previous.uniqueNames = [] ∨ Lost previous current))
    ⟨fun h => ⟨fun hs id => ⟨(h.1 hs).1 id, (h.1 hs).2 id⟩, h.2⟩,
      fun h => ⟨fun hs => ⟨fun id => (h.same hs id).1, fun id => (h.same hs id).2⟩, h.changed⟩⟩

/-- Exactly one constraint over the unique attributes of a model, or none if it has none. -/
def ConstrainedAs (model : Model) (uniques : List Unique) : Prop :=
  if model.uniqueNames = [] then uniques = []
  else ∃ u, uniques = [u] ∧ ∀ name, name ∈ u.columns ↔ name ∈ model.uniqueNames

theorem mem_uniqueIds {model : Model} (hm : model.Distinct) {id : ObjectId} :
    id ∈ uniqueIds model ↔ ∃ attr ∈ model.byId? id, attr.inUnique = true := by
  simp only [uniqueIds, List.mem_map, List.mem_filter, Option.mem_def]
  constructor
  · rintro ⟨attr, ⟨hattr, hunique⟩, rfl⟩
    exact ⟨attr, Model.byId?_self hm.ids hattr, hunique⟩
  · rintro ⟨attr, hattr, hunique⟩
    exact ⟨attr, ⟨List.mem_of_find?_eq_some hattr, hunique⟩, Model.id_of_byId? hattr⟩

theorem id_mem_uniqueIds {model : Model} (hm : model.Distinct) {attr : Attribute}
    (hattr : attr ∈ model.attributes) : attr.id ∈ uniqueIds model ↔ attr.inUnique = true := by
  rw [mem_uniqueIds hm, Model.byId?_self hm.ids hattr]
  simp

/-- Constraints that no dropped column is part of stay. -/
theorem followAll_drops (he : e.cascades = true) {model : Handle} (gone : List Attribute)
    (uniques : List Unique) :
    followAll e (gone.map fun attr => .dropAttribute model attr.handle) uniques =
      uniques.filter fun u => gone.all (·.name ∉ u.columns) := by
  induction gone generalizing uniques with
  | nil => simp [followAll]
  | cons attr rest ih =>
      have hstep : follow e (.dropAttribute model attr.handle) uniques =
          uniques.filter (attr.name ∉ ·.columns) := if_pos he
      rw [List.map_cons, followAll, List.foldl_cons, hstep]
      refine (ih _).trans ?_
      simp [List.filter_filter, Bool.and_comm]

section

variable {previous current : Model}

theorem lost_iff (hp : previous.Distinct) : Lost previous current ↔
    ∃ attr ∈ goneAttributes previous current, attr.name ∈ previous.uniqueNames := by
  simp only [goneAttributes, List.mem_filter, Option.isNone_iff_eq_none, Model.mem_uniqueNames]
  constructor
  · rintro ⟨attr, hattr, hunique, hgone⟩
    exact ⟨attr, ⟨hattr, hgone⟩, attr, hattr, hunique, rfl⟩
  · rintro ⟨attr, ⟨hattr, hgone⟩, other, hother, hunique, he⟩
    obtain rfl : other = attr := List.inj_on_of_nodup_map hp.names hother hattr he
    exact ⟨other, hattr, hunique, hgone⟩

/-- What is left of the constraint of a new table before constraints are replaced. -/
theorem followAll_declaredUniques (he : e.cascades = true) (hp : previous.Distinct)
    (current : Model) :
    (previous.uniqueNames = [] ∨ Lost previous current →
      followAll e (attributeOps previous current) (declaredUniques postgres previous) = []) ∧
    (¬ (previous.uniqueNames = [] ∨ Lost previous current) →
      followAll e (attributeOps previous current) (declaredUniques postgres previous) =
        [⟨none, previous.uniqueNames.map (movedAll previous current.attributes)⟩]) := by
  rw [attributeOps, followAll_append, followAll_drops he, followAll_attributeSteps, lost_iff hp]
  have hdeclared : declaredUniques postgres previous =
      if previous.uniqueNames = [] then [] else [⟨none, previous.uniqueNames⟩] := by
    have htable : postgres.tableUnique? previous =
        if previous.uniqueNames = [] then none else some ⟨none, previous.uniqueNames⟩ := rfl
    rw [declaredUniques, htable]
    split <;> rfl
  rw [hdeclared]
  constructor
  · rintro (hempty | ⟨attr, hgone, hname⟩)
    · rw [if_pos hempty]
      rfl
    · have hunique : previous.uniqueNames ≠ [] := List.ne_nil_of_mem hname
      rw [if_neg hunique, List.filter_cons_of_neg, List.filter_nil, List.map_nil]
      simp only [List.all_eq_true, decide_eq_true_eq, not_forall, not_not]
      exact ⟨attr, hgone, hname⟩
  · intro h
    obtain ⟨hunique, hlost⟩ := not_or.mp h
    push Not at hlost
    rw [if_neg hunique, List.filter_cons_of_pos (by simpa using hlost), List.filter_nil]
    rfl

/-- The columns that the constraint of a new table comes to cover are those of the attributes that
were unique before. -/
theorem mem_map_movedAll (hp : previous.Distinct) (hc : current.Distinct)
    (ho : AttributesInOrder previous current) (hlost : ¬ Lost previous current) {name : String} :
    name ∈ previous.uniqueNames.map (movedAll previous current.attributes) ↔
      ∃ attr ∈ current.attributes, attr.name = name ∧
        ∃ old ∈ previous.byId? attr.id, old.inUnique = true := by
  simp only [List.mem_map, Model.mem_uniqueNames]
  constructor
  · rintro ⟨_, ⟨old, hold, hunique, rfl⟩, rfl⟩
    have hkept : current.byId? old.id ≠ none := fun hgone => hlost ⟨old, hold, hunique, hgone⟩
    obtain ⟨attr, hattr⟩ := Option.ne_none_iff_exists'.mp hkept
    have hmem := List.mem_of_find?_eq_some hattr
    have hfound : previous.byId? attr.id = some old := by
      rw [Model.id_of_byId? hattr]
      exact Model.byId?_self hp.ids hold
    exact ⟨attr, hmem, (movedAll_eq hp hc.ids ho hmem hfound).symm, old, hfound, hunique⟩
  · rintro ⟨attr, hattr, rfl, old, hfound, hunique⟩
    exact ⟨old.name, ⟨old, List.mem_of_find?_eq_some hfound, hunique, rfl⟩,
      movedAll_eq hp hc.ids ho hattr hfound⟩

/-- Where no unique attribute is gone, the constraint comes to cover the unique attributes exactly
if their identifiers are the same. -/
theorem covers_iff (hp : previous.Distinct) (hc : current.Distinct)
    (ho : AttributesInOrder previous current) (hlost : ¬ Lost previous current) :
    (∀ name, name ∈ previous.uniqueNames.map (movedAll previous current.attributes) ↔
      name ∈ current.uniqueNames) ↔
    ∀ id, id ∈ uniqueIds previous ↔ id ∈ uniqueIds current := by
  have hcovered : ∀ {attr}, attr ∈ current.attributes →
      (attr.name ∈ previous.uniqueNames.map (movedAll previous current.attributes) ↔
        attr.id ∈ uniqueIds previous) := by
    intro attr hattr
    rw [mem_map_movedAll hp hc ho hlost, mem_uniqueIds hp]
    constructor
    · rintro ⟨other, hother, he, hunique⟩
      obtain rfl : other = attr := List.inj_on_of_nodup_map hc.names hother hattr he
      exact hunique
    · intro hunique
      exact ⟨attr, hattr, rfl, hunique⟩
  constructor
  · intro h id
    constructor
    · intro hid
      obtain ⟨old, hold, hunique⟩ := (mem_uniqueIds hp).mp hid
      have hkept : current.byId? old.id ≠ none := fun hgone =>
        hlost ⟨old, List.mem_of_find?_eq_some hold, hunique, hgone⟩
      obtain ⟨attr, hattr⟩ := Option.ne_none_iff_exists'.mp hkept
      have hmem := List.mem_of_find?_eq_some hattr
      obtain rfl : attr.id = id := (Model.id_of_byId? hattr).trans (Model.id_of_byId? hold)
      exact (id_mem_uniqueIds hc hmem).mpr
        ((Model.name_mem_uniqueNames hc.names hmem).mp ((h _).mp ((hcovered hmem).mpr hid)))
    · intro hid
      obtain ⟨attr, hattr, hunique⟩ := (mem_uniqueIds hc).mp hid
      have hmem := List.mem_of_find?_eq_some hattr
      obtain rfl : attr.id = id := Model.id_of_byId? hattr
      exact (hcovered hmem).mp ((h _).mpr ((Model.name_mem_uniqueNames hc.names hmem).mpr hunique))
  · intro h name
    constructor
    · intro hname
      obtain ⟨attr, hattr, rfl, -⟩ := (mem_map_movedAll hp hc ho hlost).mp hname
      exact (Model.name_mem_uniqueNames hc.names hattr).mpr
        ((id_mem_uniqueIds hc hattr).mp ((h _).mp ((hcovered hattr).mp hname)))
    · intro hname
      obtain ⟨attr, hattr, hunique, rfl⟩ := Model.mem_uniqueNames.mp hname
      exact (hcovered hattr).mpr ((h _).mpr ((id_mem_uniqueIds hc hattr).mpr hunique))

/-- Where the names of unique attributes are the same, what is left of the constraint of a new table
is right exactly if the identifiers are the same. -/
theorem constrainedAs_followAll_iff (he : e.cascades = true) (hp : previous.Distinct)
    (hc : current.Distinct) (ho : AttributesInOrder previous current)
    (hsame : previous.sameUnique current = true) :
    ConstrainedAs current
        (followAll e (attributeOps previous current) (declaredUniques postgres previous)) ↔
      ∀ id, id ∈ uniqueIds previous ↔ id ∈ uniqueIds current := by
  obtain ⟨hgone, hthere⟩ := followAll_declaredUniques he hp current
  have hnames := Model.sameUnique_iff.mp hsame
  by_cases hlost : Lost previous current
  · -- the constraint is gone, although there are unique attributes
    obtain ⟨attr, hattr, hunique, hnot⟩ := hlost
    have hname := (hnames attr.name).mp ((Model.name_mem_uniqueNames hp.names hattr).mpr hunique)
    rw [hgone (.inr ⟨attr, hattr, hunique, hnot⟩), ConstrainedAs, if_neg (List.ne_nil_of_mem hname)]
    refine iff_of_false (by simp) fun h => ?_
    obtain ⟨other, hother, -⟩ :=
      (mem_uniqueIds hc).mp ((h attr.id).mp ((id_mem_uniqueIds hp hattr).mpr hunique))
    rw [Option.mem_def, hnot] at hother
    cases hother
  · rw [← covers_iff hp hc ho hlost]
    by_cases hempty : previous.uniqueNames = []
    · have hempty' : current.uniqueNames = [] :=
        List.eq_nil_iff_forall_not_mem.mpr fun name hname => by
          simpa [hempty] using (hnames name).mpr hname
      simp [hgone (.inl hempty), ConstrainedAs, hempty, hempty']
    · have hsome : current.uniqueNames ≠ [] := by
        obtain ⟨name, hname⟩ := List.exists_mem_of_ne_nil _ hempty
        exact List.ne_nil_of_mem ((hnames name).mp hname)
      rw [hthere (not_or.mpr ⟨hempty, hlost⟩), ConstrainedAs, if_neg hsome]
      simp

/-- A constraint that is made under the name of the model is the only one exactly if nothing was
left of the one of the new table. -/
theorem constrainedAs_replaced_iff (he : e.cascades = true) (hp : previous.Distinct) :
    ConstrainedAs current (replaced current
        (followAll e (attributeOps previous current) (declaredUniques postgres previous))) ↔
      previous.uniqueNames = [] ∨ Lost previous current := by
  obtain ⟨hgone, hthere⟩ := followAll_declaredUniques he hp current
  simp only [ConstrainedAs, replaced, Dialect.namedUnique?, Dialect.unique?]
  by_cases hnone : previous.uniqueNames = [] ∨ Lost previous current
  · refine iff_of_true ?_ hnone
    rw [hgone hnone]
    split
    · rfl
    · exact ⟨_, rfl, fun name => Iff.rfl⟩
  · -- the constraint without a name is left beside the new one
    refine iff_of_false ?_ hnone
    rw [hthere hnone]
    split <;> simp

/-- What the operations for a model leave of its constraints is right exactly if its unique
attributes have been kept. -/
theorem constrainedAs_settledUniques_iff (he : e.cascades = true) (hp : previous.Distinct)
    (hc : current.Distinct) (ho : AttributesInOrder previous current) :
    ConstrainedAs current (settledUniques e previous current (declaredUniques postgres previous)) ↔
      UniqueKept previous current := by
  simp only [settledUniques]
  cases hsame : previous.sameUnique current with
  | true =>
      rw [if_pos rfl, constrainedAs_followAll_iff he hp hc ho hsame]
      exact ⟨fun h => ⟨fun _ => h, fun hno => absurd (hsame.symm.trans hno) (by decide)⟩,
        fun h => h.same hsame⟩
  | false =>
      rw [if_neg (by decide), constrainedAs_replaced_iff he hp]
      exact ⟨fun h => ⟨fun hno => absurd (hsame.symm.trans hno) (by decide), fun _ => h⟩,
        fun h => h.changed hsame⟩

end

/-- What is left of constraints when a schema is created in PostgreSQL and then migrated. -/
theorem constrained_of_build_iff (he : e.cascades = true) {previous current : Schema}
    (hp : previous.Distinct) (hc : current.Distinct) {statements : List Statement}
    (h : history postgres previous [current] = .ok statements) {result : Database}
    (hresult : e.build statements = .ok result) :
    (∀ model ∈ current.models, (previous.byId? model.id).isSome = true →
      ∃ table, result model.name = some table ∧ ConstrainedAs model table.uniques) ↔
    ∀ model ∈ current.models, ∀ old ∈ previous.byId? model.id, UniqueKept old model := by
  obtain ⟨part, hsub, hall, ho, rfl⟩ := exists_of_build_history hp hc h hresult
  have hpart := (distinct_of_sublist hsub hc).names
  refine forall₂_congr fun model hm => ?_
  cases hfound : previous.byId? model.id with
  | none => simp
  | some old =>
      have hmem : model ∈ part.models := hall model hm (by rw [hfound, Option.isSome_some])
      have huniques : nextUniques postgres e previous (declaredUniques postgres) model =
          settledUniques e old model (declaredUniques postgres old) := by
        simp only [nextUniques, hfound]
      rw [(ofEntries_map_eq_some_iff hpart).mpr ⟨model, hmem, rfl, rfl⟩]
      simp only [Option.isSome_some, true_implies, Option.some_inj, exists_eq_left',
        Option.mem_some_iff, forall_eq', tableWith, huniques]
      exact constrainedAs_settledUniques_iff he
        (hp.models old (List.mem_of_find?_eq_some hfound)) (hc.models model hm)
        (ho.attributes model hmem old hfound)

/-- When one schema is created in PostgreSQL and then migrated to another, and the statements of the
scripts can be carried out, every table that was there before has exactly one constraint over the
unique attributes of its model, or none if it has no such attributes, exactly if the unique
attributes of each model have been kept. -/
theorem constrained_iff (he : e.cascades = true) {previous current : Schema}
    (hp : previous.Distinct) (hc : current.Distinct)
    (hprevious : ∃ text, (postgres.schemaScript previous).outcome = .ok text)
    (hcurrent : ∃ text, (postgres.schemaScript current).outcome = .ok text) :
    ∃ statements, history postgres previous [current] = .ok statements ∧
      Emitted postgres previous [current] statements ∧
      ∀ result, e.build statements = .ok result →
        ((∀ model ∈ current.models, (previous.byId? model.id).isSome = true →
          ∃ table, result model.name = some table ∧ ConstrainedAs model table.uniques) ↔
        ∀ model ∈ current.models, ∀ old ∈ previous.byId? model.id, UniqueKept old model) := by
  obtain ⟨statements, hstatements⟩ := exists_history_pair hprevious hcurrent
  exact ⟨statements, hstatements, emitted_of_history hstatements,
    fun result hresult => constrained_of_build_iff he hp hc hstatements hresult⟩

/-- Accounts with unique addresses and handles, and a log. -/
def accounts : Schema := ⟨[
  ⟨.number 1, "accounts", [
    { id := .number 1, name := "id", type := .integer },
    { id := .number 2, name := "address", type := .string, unique := true },
    { id := .number 3, name := "handle", type := .string, unique := true },
    { id := .number 4, name := "note", type := .text }]⟩,
  ⟨.number 2, "log", [{ id := .number 1, name := "line", type := .integer }]⟩]⟩

/-- The accounts are called members, their notes remarks, and the lines of the log are unique. -/
def members : Schema := ⟨[
  ⟨.number 2, "log", [{ id := .number 1, name := "line", type := .integer, unique := true }]⟩,
  ⟨.number 1, "members", [
    { id := .number 1, name := "id", type := .integer },
    { id := .number 3, name := "handle", type := .string, unique := true },
    { id := .number 4, name := "remark", type := .text },
    { id := .number 2, name := "address", type := .string, unique := true }]⟩]⟩

theorem constrained_members :
    ∃ statements result, history postgres accounts [members] = .ok statements ∧
      (Engine.mk true true true).build statements = .ok result ∧
      ∀ model ∈ members.models, ∃ table, result model.name = some table ∧
        ConstrainedAs model table.uniques := by
  have hp : accounts.Distinct := by decide
  have hc : members.Distinct := by decide
  have hprevious : ∃ text, (postgres.schemaScript accounts).outcome = .ok text :=
    exists_schemaScript (by decide)
  have hcurrent : ∃ text, (postgres.schemaScript members).outcome = .ok text :=
    exists_schemaScript (by decide)
  obtain ⟨statements, hstatements, -, hiff⟩ :=
    constrained_iff (e := Engine.mk true true true) rfl hp hc hprevious hcurrent
  obtain ⟨result, hresult⟩ := exists_build_history (e := Engine.mk true true true) hp hc
    (by decide) (fun _ => rfl) hstatements
  have htables := (hiff result hresult).mpr (by decide)
  have hthere : ∀ model ∈ members.models, (accounts.byId? model.id).isSome = true := by decide
  exact ⟨statements, result, hstatements, hresult,
    fun model hm => htables model hm (hthere model hm)⟩

/-- The constraint of a new table stays when its attribute ceases to be unique: it is not dropped
under the name that the migration gives it. -/
theorem not_constrained_released :
    ¬ ∀ (e : Engine) (previous current : Schema), e.cascades = true →
      previous.Distinct → current.Distinct →
      (∃ text, (postgres.schemaScript previous).outcome = .ok text) →
      (∃ text, (postgres.schemaScript current).outcome = .ok text) →
      ∀ statements result, history postgres previous [current] = .ok statements →
        e.build statements = .ok result →
        ∀ model ∈ current.models, (previous.byId? model.id).isSome = true →
          ∃ table, result model.name = some table ∧ ConstrainedAs model table.uniques := by
  intro h
  have hp : restricted.Distinct := by decide
  have hc : released.Distinct := by decide
  have hprevious : ∃ text, (postgres.schemaScript restricted).outcome = .ok text :=
    exists_schemaScript (by decide)
  have hcurrent : ∃ text, (postgres.schemaScript released).outcome = .ok text :=
    exists_schemaScript (by decide)
  obtain ⟨statements, hstatements⟩ := exists_history_pair hprevious hcurrent
  obtain ⟨result, hresult⟩ := exists_build_history (e := Engine.mk false true true) hp hc
    (by decide) (fun _ => rfl) hstatements
  have htables := h (Engine.mk false true true) restricted released rfl hp hc hprevious hcurrent
    statements result hstatements hresult
  exact absurd ((constrained_of_build_iff rfl hp hc hstatements hresult).mp htables) (by decide)

end SchemaMigration.Execution
