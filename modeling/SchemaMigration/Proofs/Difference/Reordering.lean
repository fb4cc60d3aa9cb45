import SchemaMigration.Proofs.Difference.Emptiness
import SchemaMigration.Proofs.Difference.Parts

/-!
# Orders do not matter

The models of a schema and the attributes of a model are found by their identifiers, so that schemas
in which they stand in other orders have the same operations between them, in another order. A model
within an operation then shows its attributes in another order, too.
-/

namespace SchemaMigration

open Diff Matching

/-- Two models differ in the order of their attributes at most. -/
structure Model.Rearranged (m n : Model) : Prop where
  id : m.id = n.id
  name : m.name = n.name
  attributes : m.attributes.Perm n.attributes

/-- Two schemas differ in the order of their models, and of the attributes inside, at most. -/
def Schema.Rearranged (s t : Schema) : Prop := Paired Model.Rearranged s.models t.models

/-- Two operations differ in the order of the attributes of a model they carry, at most. -/
inductive Operation.Rearranged : Operation → Operation → Prop
  | same (op : Operation) : Rearranged op op
  | addModel {m n : Model} (h : m.Rearranged n) : Rearranged (.addModel m) (.addModel n)
  | changeUnique {m n : Model} (h : m.Rearranged n) : Rearranged (.changeUnique m) (.changeUnique n)

theorem Model.Rearranged.refl (m : Model) : m.Rearranged m := ⟨rfl, rfl, .refl m.attributes⟩

theorem Model.Rearranged.handle {m n : Model} (h : m.Rearranged n) : m.handle = n.handle := by
  rw [Model.handle, Model.handle, h.id, h.name]

theorem Schema.Rearranged.refl (s : Schema) : s.Rearranged s :=
  Paired.of_perm Model.Rearranged.refl (.refl s.models)

namespace Model.Rearranged

/-- Whether an attribute is there does not depend on the order. -/
theorem isNone_byId? {m n : Model} (h : m.Rearranged n) (id : ObjectId) :
    (m.byId? id).isNone = (n.byId? id).isNone :=
  isNone_byKey?_of_perm (h.attributes.map Attribute.id) id

/-- With distinct identifiers, neither does which attribute it is. -/
theorem byId?_eq {m n : Model} (h : m.Rearranged n) (hm : (m.attributes.map (·.id)).Nodup)
    (id : ObjectId) : m.byId? id = n.byId? id :=
  byKey?_of_perm hm h.attributes id

theorem mem_uniqueNames_iff {m n : Model} (h : m.Rearranged n) (name : String) :
    name ∈ m.uniqueNames ↔ name ∈ n.uniqueNames := by
  simp only [mem_uniqueNames, h.attributes.mem_iff]

theorem sameUnique_iff {m m' n n' : Model} (hm : m.Rearranged m') (hn : n.Rearranged n') :
    m.sameUnique n = true ↔ m'.sameUnique n' = true := by
  simp only [Model.sameUnique_iff, hm.mem_uniqueNames_iff, hn.mem_uniqueNames_iff]

end Model.Rearranged

namespace Schema.Rearranged

variable {s t : Schema}

/-- Whether a model is there does not depend on the order. -/
theorem isNone_byId? (h : s.Rearranged t) (id : ObjectId) :
    (s.byId? id).isNone = (t.byId? id).isNone :=
  isNone_byKey?_of_perm (h.map_perm fun _ _ hmn => hmn.id) id

/-- With distinct identifiers, neither does which model it is, up to the order of its attributes. -/
theorem exists_byId? (h : s.Rearranged t) (hs : (s.models.map (·.id)).Nodup) {id : ObjectId}
    {m : Model} (hm : s.byId? id = some m) : ∃ n, t.byId? id = some n ∧ m.Rearranged n :=
  exists_byKey?_of_paired hs h (fun _ _ hmn => hmn.id) hm

end Schema.Rearranged

/-- A schema with everything in reverse order. -/
def Schema.reversed (s : Schema) : Schema :=
  ⟨(s.models.map fun m => { m with attributes := m.attributes.reverse }).reverse⟩

/-- Reversing a schema rearranges it. -/
theorem Schema.rearranged_reversed (s : Schema) : s.Rearranged s.reversed := by
  have hattributes : Paired Model.Rearranged s.models
      (s.models.map fun m => { m with attributes := m.attributes.reverse }) := by
    refine .of_forall₂ (List.forall₂_map_right_iff.mpr (List.forall₂_same.mpr fun m _ => ?_))
    exact ⟨rfl, rfl, (List.reverse_perm m.attributes).symm⟩
  exact hattributes.perm_right (List.reverse_perm _).symm

namespace Diff

section

variable {m m' n n' : Model} (hm : m.Rearranged m') (hn : n.Rearranged n')
include hm hn

theorem goneAttributes_perm : (goneAttributes m n).Perm (goneAttributes m' n') := by
  simp only [goneAttributes, hn.isNone_byId?]
  exact hm.attributes.filter _

theorem attributeStep_of_rearranged (hids : (m.attributes.map (·.id)).Nodup) (attr : Attribute) :
    attributeStep m n attr = attributeStep m' n' attr := by
  simp only [attributeStep, hm.byId?_eq hids, hn.handle]

/-- The changes of rearranged versions of a model are the same in another order, and a change of the
unique constraint carries the rearranged model. -/
theorem paired_modelChanges (hids : (m.attributes.map (·.id)).Nodup) :
    Paired Operation.Rearranged (modelChanges m n) (modelChanges m' n') := by
  have hrename : renameStep m n = renameStep m' n' := by
    rw [renameStep, renameStep, hm.name, hn.name]
  have hgone : ((goneAttributes m n).map fun attr =>
        Operation.dropAttribute n.handle attr.handle).Perm
      ((goneAttributes m' n').map fun attr => .dropAttribute n'.handle attr.handle) := by
    rw [hn.handle]
    exact (goneAttributes_perm hm hn).map _
  have hsteps : (n.attributes.flatMap (attributeStep m n)).Perm
      (n'.attributes.flatMap (attributeStep m' n')) := by
    rw [funext (attributeStep_of_rearranged hm hn hids)]
    exact hn.attributes.flatMap_right _
  have hunique : Paired Operation.Rearranged (uniqueStep m n) (uniqueStep m' n') :=
    .ite (hm.sameUnique_iff hn) (.changeUnique hn)
  rw [modelChanges, modelChanges, hrename]
  exact (Paired.of_perm .same ((hgone.append_left _).append hsteps)).append hunique

end

section

variable {p p' c c' : Schema} (hp : p.Rearranged p') (hids : p.DistinctIds)
include hp

/-- The models that are gone are the same ones, up to their order. -/
theorem paired_goneModels (hc : c.Rearranged c') :
    Paired Model.Rearranged (goneModels p c) (goneModels p' c') := by
  refine Paired.filter hp fun m m' hm => ?_
  rw [hc.isNone_byId?, hm.id]

include hids in
theorem paired_modelStep {n n' : Model} (hn : n.Rearranged n') :
    Paired Operation.Rearranged (modelStep p n) (modelStep p' n') := by
  rw [modelStep, modelStep, ← hn.id]
  cases hm : p.byId? n.id with
  | none =>
      -- a model that was not there is not found in the other order either
      have hnone := hp.isNone_byId? n.id
      rw [hm] at hnone
      rw [Option.isNone_iff_eq_none.mp hnone.symm]
      exact .singleton (.addModel hn)
  | some m =>
      obtain ⟨m', hm', hmm'⟩ := hp.exists_byId? hids.ids hm
      rw [hm']
      have hmem : m ∈ p.models := List.mem_of_find?_eq_some hm
      exact paired_modelChanges hmm' hn (hids.attributes m hmem)

include hids in
theorem paired_diff (hc : c.Rearranged c') :
    Paired Operation.Rearranged (diff p c) (diff p' c') := by
  refine Paired.append ?_ (Paired.flatMap hc fun _ _ => paired_modelStep hp hids)
  refine (paired_goneModels hp hc).map fun m m' hm => ?_
  rw [hm.name]
  exact .same _

end

end Diff

/-- Rearranging a previous schema without repeated identifiers and a current one rearranges their
difference, and a rearranged schema does not differ from what it was. The current schema may repeat
identifiers. -/
theorem paired_diff_of_rearranged {p p' c c' : Schema} (hids : p.DistinctIds)
    (hp : p.Rearranged p') (hc : c.Rearranged c') :
    Paired Operation.Rearranged (diff p c) (diff p' c') ∧ diff p p' = [] := by
  have hself : Paired Operation.Rearranged (diff p p) (diff p p') :=
    paired_diff (.refl p) hids hp
  rw [diff_self hids] at hself
  exact ⟨paired_diff hp hids hc, hself.eq_nil_of_left⟩

theorem paired_diff_reversedWards :
    wardSchema.DistinctIds ∧ wardSchema.Rearranged wardSchema.reversed ∧
      stationSchema.Rearranged stationSchema.reversed ∧
      diff wardSchema stationSchema ≠ diff wardSchema.reversed stationSchema.reversed ∧
      Paired Operation.Rearranged (diff wardSchema stationSchema)
        (diff wardSchema.reversed stationSchema.reversed) ∧
      diff wardSchema wardSchema.reversed = [] := by
  have hids : wardSchema.DistinctIds := by decide
  have hp := wardSchema.rearranged_reversed
  have hc := stationSchema.rearranged_reversed
  have hother : diff wardSchema stationSchema ≠
      diff wardSchema.reversed stationSchema.reversed := by decide +kernel
  exact ⟨hids, hp, hc, hother, paired_diff_of_rearranged hids hp hc⟩

end SchemaMigration
