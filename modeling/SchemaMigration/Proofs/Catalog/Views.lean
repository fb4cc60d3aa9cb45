import SchemaMigration.Proofs.Catalog.Pass
import SchemaMigration.Proofs.Difference.Parts
import SchemaMigration.Proofs.Distinct

/-!
# Differences carried out on any view of tables

What has to be known of a column or a table depends on the question: its type and its bounds, its
place in the primary key, its constraints. A view says what a new one shows and how operations
change that. How a difference goes through columns and tables is the same for every view.

The columns that are gone are dropped before a pass over the current attributes, and the tables that
are gone before a pass over the current models. Half way, what was gone over is under its current
name and the rest still under its previous one.
-/

namespace SchemaMigration.Catalog

open Diff Matching Named Outcome

section CarryOut

variable {σ : Type} (effect : Operation → σ → Except Obstacle σ)

/-- Carries out operations in order, by the effect of each. -/
def carryOut (operations : List Operation) (state : σ) : Except Obstacle σ :=
  operations.foldlM (fun state op => effect op state) state

@[simp] theorem carryOut_nil (state : σ) : carryOut effect [] state = .ok state := rfl

theorem carryOut_cons (op : Operation) (operations : List Operation) (state : σ) :
    carryOut effect (op :: operations) state =
      effect op state >>= carryOut effect operations := rfl

@[simp] theorem carryOut_singleton (op : Operation) (state : σ) :
    carryOut effect [op] state = effect op state := bind_pure _

theorem carryOut_append (front back : List Operation) (state : σ) :
    carryOut effect (front ++ back) state =
      carryOut effect front state >>= carryOut effect back := List.foldlM_append

/-- Operations item by item are a pass of their own. -/
theorem carryOut_flatMap {ι : Type} (operations : ι → List Operation) (items : List ι)
    (state : σ) : carryOut effect (items.flatMap operations) state =
      items.foldlM (fun state item => carryOut effect (operations item) state) state := by
  induction items generalizing state with
  | nil => rfl
  | cons item rest ih =>
      rw [List.flatMap_cons, carryOut_append, List.foldlM_cons]
      exact congrArg _ (funext ih)

/-- Dropping everything that is gone is a run of its own. -/
theorem carryOut_map {ι : Type} (operation : ι → Operation) (items : List ι) (state : σ) :
    carryOut effect (items.map operation) state =
      items.foldlM (fun state item => effect (operation item) state) state :=
  List.foldlM_map

end CarryOut

/-- The operations for the attributes of a model that was there before. -/
def attributeOps (previous current : Model) : List Operation :=
  (goneAttributes previous current).map (fun attr => .dropAttribute current.handle attr.handle) ++
  current.attributes.flatMap (attributeStep previous current)

/-- The operations for a model that was there before, without its renaming. -/
def withinTable (previous current : Model) : List Operation :=
  (goneAttributes previous current).map (fun attr => .dropAttribute current.handle attr.handle) ++
  (current.attributes.flatMap (attributeStep previous current) ++ uniqueStep previous current)

/-- No attribute takes the name that a later one had before. -/
def AttributesInOrder (previous current : Model) : Prop :=
  current.attributes.Pairwise fun attr later =>
    ∀ old ∈ previous.byId? later.id, old.name ≠ attr.name

/-- No model takes the name that a later one had before. -/
def ModelsInOrder (previous current : Schema) : Prop :=
  current.models.Pairwise fun model later =>
    ∀ old ∈ previous.byId? later.id, old.name ≠ model.name

instance (previous current : Model) : Decidable (AttributesInOrder previous current) :=
  inferInstanceAs (Decidable (List.Pairwise _ _))

instance (previous current : Schema) : Decidable (ModelsInOrder previous current) :=
  inferInstanceAs (Decidable (List.Pairwise _ _))

theorem withinTable_eq (previous current : Model) :
    withinTable previous current = attributeOps previous current ++ uniqueStep previous current :=
  (List.append_assoc _ _ _).symm

theorem modelChanges_eq (previous current : Model) :
    modelChanges previous current =
      renameStep previous current ++ withinTable previous current := by
  simp only [modelChanges, withinTable, List.append_assoc]

/-- The operation changes a table in place, under the name. -/
def InTable (name : String) (op : Operation) : Prop :=
  op.table = name ∧ op.kind ≠ .dropModel ∧ op.kind ≠ .addModel ∧ op.kind ≠ .renameModel

theorem inTable_attributeChanges {model : Handle} {old attr : Attribute} {op : Operation}
    (h : op ∈ attributeChanges model old attr) : InTable model.name op := by
  rcases mem_attributeChanges_iff.mp h with ⟨-, rfl⟩ | ⟨-, rfl⟩ | ⟨-, rfl⟩ <;>
    simp [InTable, Operation.table, Operation.kind]

/-- But for its renaming, the operations of a model stay within the table of its current name. -/
theorem inTable_withinTable {previous current : Model} {op : Operation}
    (h : op ∈ withinTable previous current) : InTable current.name op := by
  simp only [withinTable, List.mem_append, List.mem_map, List.mem_flatMap] at h
  rcases h with ⟨attr, -, rfl⟩ | ⟨attr, -, hop⟩ | hop
  · simp [InTable, Operation.table, Operation.kind, Model.handle]
  · rcases mem_attributeStep_iff.mp hop with ⟨-, rfl⟩ | ⟨before, -, hchange⟩
    · simp [InTable, Operation.table, Operation.kind, Model.handle]
    · exact inTable_attributeChanges hchange
  · obtain ⟨-, rfl⟩ := mem_ite_iff.mp hop
    simp [InTable, Operation.table, Operation.kind]

/-- A view of columns: what a new column shows, and what changes of its nullability and of its type
make of that. -/
structure ColumnView (α : Type) where
  fresh : Attribute → α
  required : Attribute → α → α
  modified : Attribute → α → α

namespace ColumnView

variable {α : Type} (v : ColumnView α)

/-- What an operation does to the columns of the table that it touches. A change of the unique
constraint needs the columns that it covers. -/
def change : Operation → Named α → Except Obstacle (Named α)
  | .addAttribute _ attr => create attr.name (v.fresh attr)
  | .dropAttribute _ attr => drop attr.name
  | .renameAttribute _ previous current => rename previous current
  | .changeRequired _ attr => alter attr.name fun column => .ok (v.required attr column)
  | .modifyAttribute _ attr => alter attr.name fun column => .ok (v.modified attr column)
  | .changeUnique model => withAll model.uniqueNames
  | .dropModel _ | .addModel _ | .renameModel _ _ => .ok

/-- The column that an attribute leaves of the one it had before. -/
def changed (previous current : Attribute) (column : α) : α :=
  let column := if previous.required = current.required then column
    else v.required current column
  if sameColumn previous current then column else v.modified current column

/-- The column that an attribute of the current model ends with. -/
def settled (previous : Model) (state : Attribute → α) (attr : Attribute) : α :=
  match previous.byId? attr.id with
  | none => v.fresh attr
  | some old => v.changed old attr (state old)

/-- The pass over the attributes of the current model. -/
def pass (previous current : Model) (state : Attribute → α) : Pass Attribute α where
  name := (·.name)
  before attr := (previous.byId? attr.id).map fun old => (old.name, state old)
  outcome attr := .ok (v.settled previous state attr)
  step attr := carryOut v.change (attributeStep previous current attr)

variable {v}

/-- The changes of an attribute move its column to the current name and change it in place. -/
theorem changeAll_attributeChanges (model : Handle) (old attr : Attribute) (column : α)
    {entries : List (String × α)} (h : old.name ∉ names entries) :
    carryOut v.change (attributeChanges model old attr)
        (ofEntries ((old.name, column) :: entries)) =
      if attr.name ∈ names entries then .error (.taken attr.name)
      else .ok (ofEntries ((attr.name, v.changed old attr column) :: entries)) := by
  have hmove : carryOut v.change (if old.name = attr.name then []
      else [.renameAttribute model old.name attr.name])
        (ofEntries ((old.name, column) :: entries)) =
      if attr.name ∈ names entries then .error (.taken attr.name)
      else .ok (ofEntries ((attr.name, column) :: entries)) := by
    rw [← moved_ofEntries_cons h]
    split
    · rfl
    · exact carryOut_singleton _ _ _
  rw [attributeChanges, carryOut_append, carryOut_append, hmove]
  split
  · rfl
  · by_cases hrequired : old.required = attr.required <;>
      by_cases hsame : sameColumn old attr = true <;>
      simp [hrequired, hsame, change, changed, alter_ofEntries_cons]

theorem pass_settles (previous current : Model) (state : Attribute → α) (attr : Attribute) :
    (v.pass previous current state).Settles attr := by
  intro entries hn
  simp only [pass, settled, attributeStep] at hn ⊢
  cases hfound : previous.byId? attr.id with
  | none =>
      rw [Option.map_none, Option.toList_none, List.nil_append, carryOut_singleton]
      exact create_ofEntries attr.name (v.fresh attr) entries
  | some old =>
      rw [hfound] at hn
      have hold : old.name ∉ names entries := (nodup_names_cons.mp hn).1
      exact changeAll_attributeChanges current.handle old attr (state old) hold

section

variable {previous current : Model} {state : Attribute → α}

theorem pass_follows (previous current : Model) (state : Attribute → α) :
    (v.pass previous current state).Follows (·.id) previous.attributes state := fun _ => rfl

theorem pass_inOrder_iff :
    (v.pass previous current state).InOrder current.attributes ↔
      AttributesInOrder previous current := by
  simp [Pass.InOrder, pass, AttributesInOrder]

theorem pass_ready (hp : previous.Distinct) (hc : current.Distinct) :
    (v.pass previous current state).Ready [] current.attributes :=
  (pass_follows previous current state).ready hp.ids hc.ids hp.names hc.names

/-- Dropping the columns that are gone comes before the pass. -/
theorem changeAll_attributeOps (hp : previous.Distinct) (hc : current.Distinct) :
    carryOut v.change (attributeOps previous current)
        (ofEntries (previous.attributes.map fun old => (old.name, state old))) =
      (v.pass previous current state).run current.attributes
        (ofEntries ((v.pass previous current state).waiting current.attributes)) := by
  have hgone := (pass_follows (v := v) previous current state).drop_gone hp.ids hc.ids hp.names
  rw [List.foldlM_map] at hgone
  rw [attributeOps, carryOut_append, carryOut_map]
  refine (congrArg (· >>= _) hgone).trans ?_
  rw [ok_bind, carryOut_flatMap]
  rfl

/-- The operations for attributes succeed exactly in order, and settle the column of every current
attribute. -/
theorem changeAll_attributeOps_eq_ok_iff (hp : previous.Distinct) (hc : current.Distinct)
    {result : Named α} :
    carryOut v.change (attributeOps previous current)
        (ofEntries (previous.attributes.map fun old => (old.name, state old))) = .ok result ↔
      AttributesInOrder previous current ∧
        result = ofEntries (current.attributes.map fun attr =>
          (attr.name, v.settled previous state attr)) := by
  have hrun : AttributesInOrder previous current →
      (v.pass previous current state).run current.attributes
        (ofEntries ((v.pass previous current state).waiting current.attributes)) =
      .ok (ofEntries (current.attributes.map fun attr =>
        (attr.name, v.settled previous state attr))) := fun ho =>
    Pass.run_waiting_eq_ok (fun attr _ => pass_settles previous current state attr)
      (pass_ready hp hc) (pass_inOrder_iff.mpr ho) (fun _ _ => rfl)
  rw [changeAll_attributeOps hp hc]
  constructor
  · intro h
    have ho := pass_inOrder_iff.mp (Pass.inOrder_of_run
      (fun attr _ => pass_settles previous current state attr) (pass_ready hp hc) h).1
    rw [hrun ho] at h
    exact ⟨ho, (Except.ok.inj h).symm⟩
  · rintro ⟨ho, rfl⟩
    exact hrun ho

/-- The operations for attributes fail for no other reason than a name that is taken. -/
theorem taken_of_attributeOps (hp : previous.Distinct) (hc : current.Distinct)
    {obstacle : Obstacle} (h : carryOut v.change (attributeOps previous current)
      (ofEntries (previous.attributes.map fun old => (old.name, state old))) = .error obstacle) :
    ∃ name, obstacle = .taken name := by
  rw [changeAll_attributeOps hp hc] at h
  exact Pass.taken_of_run (fun attr _ => pass_settles previous current state attr)
    (pass_ready hp hc) (fun _ _ _ hfault => nomatch hfault) h

/-- The unique constraint finds the columns that it covers. -/
theorem withAll_uniqueNames (current : Model) (content : Attribute → α) :
    withAll current.uniqueNames
        (ofEntries (current.attributes.map fun attr => (attr.name, content attr))) =
      .ok (ofEntries (current.attributes.map fun attr => (attr.name, content attr))) := by
  apply withAll_of_isSome
  intro name hname
  rw [isSome_ofEntries_iff, Pass.names_map]
  exact (List.filter_sublist.map _).subset hname

end

end ColumnView

/-- A view of tables: what a new table shows, and what an operation makes of the table that it
touches. -/
structure TableView (τ : Type) where
  make : Model → τ
  change : Operation → τ → Except Obstacle τ

namespace TableView

variable {τ : Type} (v : TableView τ)

/-- Carries out an operation. -/
def execute : Operation → Named τ → Except Obstacle (Named τ)
  | .dropModel name => drop name
  | .addModel model => create model.name (v.make model)
  | .renameModel previous current => rename previous current
  | op => alter op.table (v.change op)

/-- What becomes of the table of a model. -/
def outcome (previous : Schema) (state : Model → τ) (model : Model) : Except Obstacle τ :=
  match previous.byId? model.id with
  | none => .ok (v.make model)
  | some old => carryOut v.change (withinTable old model) (state old)

/-- The pass over the models of the current schema. -/
def pass (previous : Schema) (state : Model → τ) : Pass Model τ where
  name := (·.name)
  before model := (previous.byId? model.id).map fun old => (old.name, state old)
  outcome := v.outcome previous state
  step model := carryOut v.execute (modelStep previous model)

variable {v}

theorem execute_of_inTable {name : String} {op : Operation} (h : InTable name op) :
    v.execute op = alter name (v.change op) := by
  obtain ⟨rfl, hdrop, hadd, hrename⟩ := h
  cases op with
  | dropModel => exact absurd rfl hdrop
  | addModel => exact absurd rfl hadd
  | renameModel => exact absurd rfl hrename
  | addAttribute | dropAttribute | renameAttribute | changeRequired | modifyAttribute
  | changeUnique => rfl

/-- Operations within one table act on that table alone. -/
theorem executeAll_inTable {name : String} {operations : List Operation}
    (h : ∀ op ∈ operations, InTable name op) (table : τ) (entries : List (String × τ)) :
    carryOut v.execute operations (ofEntries ((name, table) :: entries)) =
      (fun changed => ofEntries ((name, changed) :: entries)) <$>
        carryOut v.change operations table := by
  induction operations generalizing table with
  | nil => rfl
  | cons op rest ih =>
      obtain ⟨hop, hrest⟩ := List.forall_mem_cons.mp h
      rw [carryOut_cons, carryOut_cons, execute_of_inTable hop, alter_ofEntries_cons]
      cases v.change op table with
      | error obstacle => rfl
      | ok changed =>
          rw [map_ok, ok_bind, ok_bind]
          exact ih hrest changed

theorem executeAll_renameStep {old model : Model} {entries : List (String × τ)}
    (h : old.name ∉ names entries) (table : τ) :
    carryOut v.execute (renameStep old model) (ofEntries ((old.name, table) :: entries)) =
      if model.name ∈ names entries then .error (.taken model.name)
      else .ok (ofEntries ((model.name, table) :: entries)) := by
  rw [← moved_ofEntries_cons h, renameStep]
  split
  · rfl
  · exact carryOut_singleton _ _ _

theorem pass_settles (previous : Schema) (state : Model → τ) (model : Model) :
    (v.pass previous state).Settles model := by
  intro entries hn
  change carryOut v.execute (modelStep previous model) _ =
    if model.name ∈ names entries then .error (.taken model.name)
    else (fun table => ofEntries ((model.name, table) :: entries)) <$>
      v.outcome previous state model
  simp only [pass, outcome, modelStep] at hn ⊢
  cases hfound : previous.byId? model.id with
  | none =>
      rw [Option.map_none, Option.toList_none, List.nil_append, carryOut_singleton]
      exact create_ofEntries model.name (v.make model) entries
  | some old =>
      rw [hfound] at hn
      have hold : old.name ∉ names entries := (nodup_names_cons.mp hn).1
      simp only [Option.map_some, Option.toList_some, List.singleton_append]
      rw [modelChanges_eq, carryOut_append, executeAll_renameStep hold]
      by_cases htaken : model.name ∈ names entries
      · rw [if_pos htaken, if_pos htaken, error_bind]
      · rw [if_neg htaken, if_neg htaken, ok_bind]
        exact executeAll_inTable (fun op hop => inTable_withinTable hop) (state old) entries

section

variable {previous current : Schema} {state : Model → τ}

theorem pass_follows (previous : Schema) (state : Model → τ) :
    (v.pass previous state).Follows (·.id) previous.models state := fun _ => rfl

theorem pass_inOrder_iff :
    (v.pass previous state).InOrder current.models ↔ ModelsInOrder previous current := by
  simp [Pass.InOrder, pass, ModelsInOrder]

theorem pass_ready (hp : previous.Distinct) (hc : current.Distinct) :
    (v.pass previous state).Ready [] current.models :=
  (pass_follows previous state).ready hp.ids hc.ids hp.names hc.names

/-- A difference drops the tables that are gone before its pass. -/
theorem executeAll_diff (hp : previous.Distinct) (hc : current.Distinct) :
    carryOut v.execute (diff previous current)
        (ofEntries (previous.models.map fun old => (old.name, state old))) =
      (v.pass previous state).run current.models
        (ofEntries ((v.pass previous state).waiting current.models)) := by
  have hgone := (pass_follows (v := v) previous state).drop_gone hp.ids hc.ids hp.names
  rw [List.foldlM_map] at hgone
  rw [diff, carryOut_append, carryOut_map]
  refine (congrArg (· >>= _) hgone).trans ?_
  rw [ok_bind, carryOut_flatMap]
  rfl

/-- A difference succeeds exactly when its models are in order and the operations within every table
succeed, and it leaves a table for every current model. -/
theorem executeAll_diff_eq_ok_iff (hp : previous.Distinct) (hc : current.Distinct)
    {result : Named τ} :
    carryOut v.execute (diff previous current)
        (ofEntries (previous.models.map fun old => (old.name, state old))) = .ok result ↔
      ModelsInOrder previous current ∧ ∃ content : Model → τ,
        (∀ model ∈ current.models, v.outcome previous state model = .ok (content model)) ∧
          result = ofEntries (current.models.map fun model => (model.name, content model)) := by
  have hrun : ∀ content : Model → τ, ModelsInOrder previous current →
      (∀ model ∈ current.models, v.outcome previous state model = .ok (content model)) →
      (v.pass previous state).run current.models
        (ofEntries ((v.pass previous state).waiting current.models)) =
      .ok (ofEntries (current.models.map fun model => (model.name, content model))) :=
    fun content ho hcontent =>
      Pass.run_waiting_eq_ok (fun model _ => pass_settles previous state model)
        (pass_ready hp hc) (pass_inOrder_iff.mpr ho) hcontent
  rw [executeAll_diff hp hc]
  constructor
  · intro h
    obtain ⟨ho, houtcome⟩ := Pass.inOrder_of_run
      (fun model _ => pass_settles previous state model) (pass_ready hp hc) h
    have : Nonempty τ := ⟨v.make ⟨.number 0, "", []⟩⟩
    choose! content hcontent using houtcome
    have ho := pass_inOrder_iff.mp ho
    rw [hrun content ho hcontent] at h
    exact ⟨ho, content, hcontent, (Except.ok.inj h).symm⟩
  · rintro ⟨ho, content, hcontent, rfl⟩
    exact hrun content ho hcontent

/-- A difference fails for no other reason than a name that is taken, if the operations within
tables do. -/
theorem taken_of_executeAll_diff (hp : previous.Distinct) (hc : current.Distinct)
    (houtcome : ∀ model ∈ current.models, ∀ fault, v.outcome previous state model = .error fault →
      ∃ name, fault = .taken name)
    {obstacle : Obstacle} (h : carryOut v.execute (diff previous current)
      (ofEntries (previous.models.map fun old => (old.name, state old))) = .error obstacle) :
    ∃ name, obstacle = .taken name := by
  rw [executeAll_diff hp hc] at h
  exact Pass.taken_of_run (fun model _ => pass_settles previous state model)
    (pass_ready hp hc) houtcome h

end

end TableView

end SchemaMigration.Catalog
