import SchemaMigration.Proofs.Bounds
import SchemaMigration.Proofs.Difference.Parts
import SchemaMigration.Proofs.Unchanged

/-!
# The way back

The difference from one schema to another and the one back say the same of each model and each
attribute, the other way round. What is gone on the way there is new on the way back, and what is in
both schemas is compared in the same way in either direction.

## Implementation notes

A difference goes through the previous items for those that are gone and through the current ones
for all else, so that the ways there and back do not meet. The parts do: what is gone one way is new
the other way, and the pairs of items with the same identifier are the same, turned round.
-/

namespace SchemaMigration

/-- An operation and the one that stands for it on the way back. -/
inductive Operation.Mirrors : Operation → Operation → Prop
  | addModel (m : Model) : Mirrors (.addModel m) (.dropModel m.name)
  | dropModel (m : Model) : Mirrors (.dropModel m.name) (.addModel m)
  | renameModel (a b : String) : Mirrors (.renameModel a b) (.renameModel b a)
  | addAttribute {m n : Handle} (h : m.id = n.id) (a : Attribute) :
      Mirrors (.addAttribute m a) (.dropAttribute n a.handle)
  | dropAttribute {m n : Handle} (h : m.id = n.id) (a : Attribute) :
      Mirrors (.dropAttribute m a.handle) (.addAttribute n a)
  | renameAttribute {m n : Handle} (h : m.id = n.id) (a b : String) :
      Mirrors (.renameAttribute m a b) (.renameAttribute n b a)
  | changeRequired {m n : Handle} {a b : Attribute} (h : m.id = n.id) (hab : a.id = b.id) :
      Mirrors (.changeRequired m a) (.changeRequired n b)
  | modifyAttribute {m n : Handle} {a b : Attribute} (h : m.id = n.id) (hab : a.id = b.id) :
      Mirrors (.modifyAttribute m a) (.modifyAttribute n b)
  | changeUnique {m n : Model} (h : m.id = n.id) : Mirrors (.changeUnique m) (.changeUnique n)

namespace Diff

theorem sameColumn_comm (a b : Attribute) : sameColumn a b = true ↔ sameColumn b a = true := by
  have hsymm : ∀ x y : Attribute, sameColumn x y = true → sameColumn y x = true := by
    intro x y h
    obtain ⟨htype, hmin, hmax⟩ := sameColumn_iff.mp h
    exact sameColumn_iff.mpr ⟨htype.symm, Json.sameBound_symm hmin, Json.sameBound_symm hmax⟩
  exact ⟨hsymm a b, hsymm b a⟩

theorem sameUnique_comm (m n : Model) : m.sameUnique n = true ↔ n.sameUnique m = true := by
  simp only [Model.sameUnique_iff, iff_comm]

/-- The changes of an attribute, and those back. -/
theorem paired_attributeChanges {m n : Handle} (h : m.id = n.id) {a b : Attribute}
    (hab : a.id = b.id) :
    Paired Operation.Mirrors (attributeChanges n a b) (attributeChanges m b a) := by
  have hrename := Operation.Mirrors.renameAttribute h.symm a.name b.name
  have hrequired := Operation.Mirrors.changeRequired h.symm hab.symm
  have hmodified := Operation.Mirrors.modifyAttribute h.symm hab.symm
  exact ((Paired.ite eq_comm hrename).append (.ite eq_comm hrequired)).append
    (.ite (sameColumn_comm a b) hmodified)

theorem paired_attributeParts {m n : Model} (h : m.id = n.id)
    (hm : (m.attributes.map (·.id)).Nodup) (hn : (n.attributes.map (·.id)).Nodup) :
    Paired Operation.Mirrors (attributeParts m n) (attributeParts n m) := by
  refine Matching.paired_parts hm hn ?_ ?_ ?_
  · exact fun attr => .dropAttribute h.symm attr
  · exact fun attr => .addAttribute h.symm attr
  · exact fun a _ b _ hab => paired_attributeChanges h hab

/-- The changes of a model, and those back. -/
theorem paired_modelChanges_backward {m n : Model} (h : m.id = n.id)
    (hm : (m.attributes.map (·.id)).Nodup) (hn : (n.attributes.map (·.id)).Nodup) :
    Paired Operation.Mirrors (modelChanges m n) (modelChanges n m) := by
  have hrename : Paired Operation.Mirrors (renameStep m n) (renameStep n m) :=
    .ite eq_comm (.renameModel m.name n.name)
  have hunique : Paired Operation.Mirrors (uniqueStep m n) (uniqueStep n m) :=
    .ite (sameUnique_comm m n) (.changeUnique h.symm)
  refine .perm_left (modelChanges_perm_parts m n) ?_
  refine .perm_right ?_ (modelChanges_perm_parts n m).symm
  exact hrename.append ((paired_attributeParts h hm hn).append hunique)

end Diff

/-- The operations of a difference and those of the difference back correspond one to one, each to
the one that says the same the other way round. -/
theorem paired_diff_backward {p c : Schema} (hp : p.DistinctIds) (hc : c.DistinctIds) :
    Paired Operation.Mirrors (diff p c) (diff c p) := by
  refine .perm_left (Diff.diff_perm_parts p c) (.perm_right ?_ (Diff.diff_perm_parts c p).symm)
  refine Matching.paired_parts hp.ids hc.ids .dropModel .addModel ?_
  intro m hm n hn h
  exact Diff.paired_modelChanges_backward h (hp.attributes m hm) (hc.attributes n hn)

theorem paired_diff_stationsBack :
    Diff.wardSchema.DistinctIds ∧ Diff.stationSchema.DistinctIds ∧
      Paired Operation.Mirrors (diff Diff.wardSchema Diff.stationSchema)
        (diff Diff.stationSchema Diff.wardSchema) := by
  have hp : Diff.wardSchema.DistinctIds := by decide
  have hc : Diff.stationSchema.DistinctIds := by decide
  exact ⟨hp, hc, paired_diff_backward hp hc⟩

end SchemaMigration
