import SchemaMigration.Proofs.Difference.Parts

/-!
# Differences are local

What a difference says of some models does not depend on others with other identifiers. Two schemas
that each consist of two halves, such that no model of a first half has an identifier that occurs in
a second one, have between them the operations of the halves, each half in its own order. Only what
is dropped comes first for both.
-/

namespace SchemaMigration

/-- The models of one schema, and then those of another. -/
instance : Append Schema := ⟨fun s t => ⟨s.models ++ t.models⟩⟩

@[simp] theorem Schema.models_append (s t : Schema) : (s ++ t).models = s.models ++ t.models := rfl

/-- No model of one schema has the identifier of a model of the other. -/
def Schema.Apart (s t : Schema) : Prop := ∀ m ∈ s.models, ∀ n ∈ t.models, m.id ≠ n.id

namespace Schema.Apart

variable {s t u : Schema}

instance (s t : Schema) : Decidable (s.Apart t) :=
  inferInstanceAs (Decidable (∀ m ∈ s.models, ∀ n ∈ t.models, m.id ≠ n.id))

theorem symm (h : s.Apart t) : t.Apart s := fun n hn m hm => (h m hm n hn).symm

theorem of_append_left (h : (s ++ t).Apart u) : s.Apart u ∧ t.Apart u :=
  ⟨fun m hm => h m (List.mem_append_left _ hm), fun m hm => h m (List.mem_append_right _ hm)⟩

theorem of_append_right (h : s.Apart (t ++ u)) : s.Apart t ∧ s.Apart u :=
  ⟨h.symm.of_append_left.1.symm, h.symm.of_append_left.2.symm⟩

theorem notMem (h : s.Apart t) {m : Model} (hm : m ∈ s.models) : m.id ∉ t.models.map (·.id) := by
  intro hid
  obtain ⟨n, hn, he⟩ := List.mem_map.mp hid
  exact h m hm n hn he.symm

end Schema.Apart

namespace Schema

variable {s t : Schema} {id : ObjectId}

/-- An identifier that the second schema does not have is looked up in the first one. -/
theorem byId?_append_left (h : id ∉ t.models.map (·.id)) : (s ++ t).byId? id = s.byId? id :=
  Matching.byKey?_append_of_notMem_right h

theorem byId?_append_right (h : id ∉ s.models.map (·.id)) : (s ++ t).byId? id = t.byId? id :=
  Matching.byKey?_append_of_notMem_left h

end Schema

namespace Diff

/-- The operations that drop a model. -/
def dropped (operations : List Operation) : List Operation :=
  operations.filter (·.kind = .dropModel)

/-- The operations that do not drop a model. -/
def remaining (operations : List Operation) : List Operation :=
  operations.filter (·.kind ≠ .dropModel)

/-- What is done for a current model drops none. -/
theorem kind_of_mem_modelStep {previous : Schema} {model : Model} {op : Operation}
    (h : op ∈ modelStep previous model) : op.kind ≠ .dropModel := by
  rcases mem_modelStep_iff.mp h with ⟨-, rfl⟩ | ⟨before, -, hchange⟩
  · simp [Operation.kind]
  · exact (kind_of_mem_modelChanges hchange).1

theorem dropped_diff (previous current : Schema) :
    dropped (diff previous current) =
      (goneModels previous current).map fun model => .dropModel model.name := by
  have hsteps : dropped (current.models.flatMap (modelStep previous)) = [] := by
    simp only [dropped, List.filter_eq_nil_iff, decide_eq_true_eq]
    intro op hop
    obtain ⟨model, -, hop⟩ := List.mem_flatMap.mp hop
    exact kind_of_mem_modelStep hop
  rw [dropped] at hsteps ⊢
  rw [diff, List.filter_append, hsteps, List.append_nil]
  simp [Operation.kind]

theorem remaining_diff (previous current : Schema) :
    remaining (diff previous current) = current.models.flatMap (modelStep previous) := by
  have hsteps : remaining (current.models.flatMap (modelStep previous)) =
      current.models.flatMap (modelStep previous) := by
    simp only [remaining, List.filter_eq_self, decide_eq_true_eq]
    intro op hop
    obtain ⟨model, -, hop⟩ := List.mem_flatMap.mp hop
    exact kind_of_mem_modelStep hop
  rw [remaining] at hsteps ⊢
  rw [diff, List.filter_append, hsteps]
  simp [Operation.kind]

theorem dropped_append_remaining (previous current : Schema) :
    dropped (diff previous current) ++ remaining (diff previous current) =
      diff previous current := by
  rw [dropped_diff, remaining_diff]
  rfl

section

variable {p₁ p₂ c₁ c₂ : Schema}

/-- A model is gone from both halves exactly when it is gone from its own. -/
theorem goneModels_append (h₁ : p₁.Apart c₂) (h₂ : p₂.Apart c₁) :
    goneModels (p₁ ++ p₂) (c₁ ++ c₂) = goneModels p₁ c₁ ++ goneModels p₂ c₂ := by
  have hfront : p₁.models.filter (fun m => ((c₁ ++ c₂).byId? m.id).isNone) = goneModels p₁ c₁ :=
    List.filter_congr fun m hm => by rw [Schema.byId?_append_left (h₁.notMem hm)]
  have hback : p₂.models.filter (fun m => ((c₁ ++ c₂).byId? m.id).isNone) = goneModels p₂ c₂ :=
    List.filter_congr fun m hm => by rw [Schema.byId?_append_right (h₂.notMem hm)]
  rw [goneModels, Schema.models_append, List.filter_append, hfront, hback]

/-- What is done for the current models of both halves is done half by half. -/
theorem flatMap_modelStep_append (h₁ : c₁.Apart p₂) (h₂ : c₂.Apart p₁) :
    (c₁ ++ c₂).models.flatMap (modelStep (p₁ ++ p₂)) =
      c₁.models.flatMap (modelStep p₁) ++ c₂.models.flatMap (modelStep p₂) := by
  have hfront : c₁.models.flatMap (modelStep (p₁ ++ p₂)) = c₁.models.flatMap (modelStep p₁) :=
    List.flatMap_congr fun m hm => by
      rw [modelStep, modelStep, Schema.byId?_append_left (h₁.notMem hm)]
  have hback : c₂.models.flatMap (modelStep (p₁ ++ p₂)) = c₂.models.flatMap (modelStep p₂) :=
    List.flatMap_congr fun m hm => by
      rw [modelStep, modelStep, Schema.byId?_append_right (h₂.notMem hm)]
  rw [Schema.models_append, List.flatMap_append, hfront, hback]

end

end Diff

open Diff in
open scoped List in
/-- The difference of schemas in two halves that share no identifier of a model drops what the first
halves drop, then what the second ones do, and goes on with the remaining operations of the first
halves and then those of the second. So it has the operations of both differences and no others. -/
theorem diff_append {p₁ p₂ c₁ c₂ : Schema} (h : (p₁ ++ c₁).Apart (p₂ ++ c₂)) :
    diff (p₁ ++ p₂) (c₁ ++ c₂) =
      dropped (diff p₁ c₁) ++ dropped (diff p₂ c₂) ++
        (remaining (diff p₁ c₁) ++ remaining (diff p₂ c₂)) ∧
    (diff (p₁ ++ p₂) (c₁ ++ c₂)).Perm (diff p₁ c₁ ++ diff p₂ c₂) := by
  obtain ⟨hp, hc⟩ := h.of_append_left
  obtain ⟨-, hpc⟩ := hp.of_append_right
  obtain ⟨hcp, -⟩ := hc.of_append_right
  have hequal : diff (p₁ ++ p₂) (c₁ ++ c₂) =
      dropped (diff p₁ c₁) ++ dropped (diff p₂ c₂) ++
        (remaining (diff p₁ c₁) ++ remaining (diff p₂ c₂)) := by
    rw [← dropped_append_remaining, dropped_diff, remaining_diff,
      goneModels_append hpc hcp.symm, flatMap_modelStep_append hcp hpc.symm, List.map_append]
    simp only [dropped_diff, remaining_diff]
  refine ⟨hequal, ?_⟩
  calc
    diff (p₁ ++ p₂) (c₁ ++ c₂) = dropped (diff p₁ c₁) ++ (dropped (diff p₂ c₂) ++
          (remaining (diff p₁ c₁) ++ remaining (diff p₂ c₂))) := by
        rw [hequal, List.append_assoc]
    _ ~ dropped (diff p₁ c₁) ++ (remaining (diff p₁ c₁) ++
          (dropped (diff p₂ c₂) ++ remaining (diff p₂ c₂))) :=
        (List.perm_append_comm_assoc _ _ _).append_left _
    _ = diff p₁ c₁ ++ diff p₂ c₂ := by
        rw [← List.append_assoc, dropped_append_remaining, dropped_append_remaining]

/-- Two models with one identifier, and an attribute of its own in each. -/
def twinSchema (first second : String) : Schema := ⟨[
  ⟨.number 1, first, [{ id := .number 1, name := "x", type := .text }]⟩,
  ⟨.number 1, second, [{ id := .number 2, name := "y", type := .text, unique := true }]⟩]⟩

/-- A model whose identifier is a text. -/
def loneSchema (id : String) : Schema := ⟨[⟨.text id, "lone", []⟩]⟩

open Diff in
theorem diff_append_twins :
    (twinSchema "a" "b" ++ twinSchema "b" "c").Apart (loneSchema "1" ++ loneSchema "2") ∧
      diff (twinSchema "a" "b" ++ loneSchema "1") (twinSchema "b" "c" ++ loneSchema "2") =
        dropped (diff (twinSchema "a" "b") (twinSchema "b" "c")) ++
            dropped (diff (loneSchema "1") (loneSchema "2")) ++
          (remaining (diff (twinSchema "a" "b") (twinSchema "b" "c")) ++
            remaining (diff (loneSchema "1") (loneSchema "2"))) ∧
      (diff (twinSchema "a" "b" ++ loneSchema "1") (twinSchema "b" "c" ++ loneSchema "2")).Perm
        (diff (twinSchema "a" "b") (twinSchema "b" "c") ++
          diff (loneSchema "1") (loneSchema "2")) := by
  have h : (twinSchema "a" "b" ++ twinSchema "b" "c").Apart
      (loneSchema "1" ++ loneSchema "2") := by decide
  exact ⟨h, diff_append h⟩

end SchemaMigration
