import SchemaMigration.Proofs.Difference.Parts
import SchemaMigration.Proofs.Number.Rounding
import SchemaMigration.Proofs.Sql.Unchanged

/-!
# When a column is modified

A difference modifies the column of an attribute when its type or one of its bounds changes. Bounds
are compared after rounding to binary64. So whatever is modified has changed in value, and where
binary64 holds the bounds every change of value is seen, among them every change of the length of a
text. Integers of more than 53 bits may be rounded alike, and then a change between them is missed.
-/

namespace SchemaMigration

open Diff Json

namespace Attribute

/-- The types differ, or a bound is there in one version only, or differs under a view of
numbers. -/
def DiffersBy {α : Type} (view : Number → α) (previous current : Attribute) : Prop :=
  previous.type ≠ current.type ∨ previous.min.map view ≠ current.min.map view ∨
    previous.max.map view ≠ current.max.map view

/-- Rounding changes neither bound. -/
structure BoundsHeld (a : Attribute) : Prop where
  min : ∀ n ∈ a.min, n.IsHeld
  max : ∀ n ∈ a.max, n.IsHeld

instance {α : Type} [DecidableEq α] (view : Number → α) (previous current : Attribute) :
    Decidable (previous.DiffersBy view current) :=
  inferInstanceAs (Decidable (_ ∨ _ ∨ _))

instance (a : Attribute) : Decidable a.BoundsHeld :=
  decidable_of_iff ((∀ n ∈ a.min, n.IsHeld) ∧ ∀ n ∈ a.max, n.IsHeld)
    ⟨fun h => ⟨h.1, h.2⟩, fun h => ⟨h.min, h.max⟩⟩

variable {previous current : Attribute}

theorem boundsHeld_iff {a : Attribute} : a.BoundsHeld ↔
    (∀ n ∈ a.min, n.HasFewBits) ∧ ∀ n ∈ a.max, n.HasFewBits := by
  simp only [← Number.isHeld_iff]
  exact ⟨fun h => ⟨h.min, h.max⟩, fun h => ⟨h.1, h.2⟩⟩

theorem not_sameColumn_iff : ¬ sameColumn previous current = true ↔
    previous.DiffersBy Number.rounded current := by
  simp only [sameColumn_iff, sameBound_iff_rounded, DiffersBy, not_and_or, ne_eq]

/-- Bounds of different rounded values have different values. -/
theorem DiffersBy.exact_of_rounded (h : previous.DiffersBy Number.rounded current) :
    previous.DiffersBy Number.exact current := by
  have hbound : ∀ {a b : Option Number}, a.map Number.rounded ≠ b.map Number.rounded →
      a.map Number.exact ≠ b.map Number.exact :=
    fun hne he => hne (sameBound_iff_rounded.mp (sameBound_of_exact he))
  exact h.imp_right (Or.imp hbound hbound)

theorem DiffersBy.rounded_of_exact (hp : previous.BoundsHeld) (hc : current.BoundsHeld)
    (h : previous.DiffersBy Number.exact current) : previous.DiffersBy Number.rounded current := by
  refine h.imp_right (Or.imp (fun hmin he => hmin ?_) fun hmax he => hmax ?_)
  · exact (sameBound_iff_exact hp.min hc.min).mp (sameBound_iff_rounded.mpr he)
  · exact (sameBound_iff_exact hp.max hc.max).mp (sameBound_iff_rounded.mpr he)

theorem DiffersBy.of_textLength
    (h : Sql.Dialect.textLength previous ≠ Sql.Dialect.textLength current) :
    previous.DiffersBy Number.exact current :=
  .inr (.inr fun he => h (Sql.textLength_congr he))

end Attribute

/-- A column is modified exactly if its type or the rounded value of a bound changes. So what is
modified has changed in value. Where binary64 holds the bounds of both versions, it is modified
exactly if the type or the value of a bound changes, and whenever the length of a text does. It
holds all bounds but integers of more than 53 bits in front of their last zeros. -/
theorem modifyAttribute_mem_attributeChanges (model : Handle) (previous current : Attribute) :
    (Operation.modifyAttribute model current ∈ attributeChanges model previous current ↔
      previous.DiffersBy Number.rounded current) ∧
    (Operation.modifyAttribute model current ∈ attributeChanges model previous current →
      previous.DiffersBy Number.exact current) ∧
    (previous.BoundsHeld → current.BoundsHeld →
      (Operation.modifyAttribute model current ∈ attributeChanges model previous current ↔
        previous.DiffersBy Number.exact current) ∧
      (Sql.Dialect.textLength previous ≠ Sql.Dialect.textLength current →
        Operation.modifyAttribute model current ∈ attributeChanges model previous current)) ∧
    ∀ a : Attribute, a.BoundsHeld ↔
      (∀ n ∈ a.min, n.HasFewBits) ∧ ∀ n ∈ a.max, n.HasFewBits := by
  have hrounded : Operation.modifyAttribute model current ∈
        attributeChanges model previous current ↔ previous.DiffersBy Number.rounded current := by
    rw [← Attribute.not_sameColumn_iff]
    simp [mem_attributeChanges_iff]
  refine ⟨hrounded, fun h => (hrounded.mp h).exact_of_rounded, fun hp hc => ?_,
    fun _ => Attribute.boundsHeld_iff⟩
  have hexact := fun h : previous.DiffersBy Number.exact current =>
    hrounded.mpr (h.rounded_of_exact hp hc)
  exact ⟨⟨fun h => (hrounded.mp h).exact_of_rounded, hexact⟩, fun h => hexact (.of_textLength h)⟩

/-- A code of limited length. -/
def codeAttribute (limit : Fin UInt64.size) : Attribute where
  id := .number 1
  name := "code"
  type := .string
  max := some (.integer limit.val (inWord_val limit))

/-- Two integers of more than 53 bits that binary64 holds. -/
theorem modifyAttribute_mem_attributeChanges_code :
    (codeAttribute 1152921504606846976).BoundsHeld ∧
      (codeAttribute 1152921504606847232).BoundsHeld ∧
      Sql.Dialect.textLength (codeAttribute 1152921504606846976) ≠
        Sql.Dialect.textLength (codeAttribute 1152921504606847232) ∧
      Operation.modifyAttribute ⟨.number 1, "parts"⟩ (codeAttribute 1152921504606847232) ∈
        attributeChanges ⟨.number 1, "parts"⟩ (codeAttribute 1152921504606846976)
          (codeAttribute 1152921504606847232) := by
  have hp : (codeAttribute 1152921504606846976).BoundsHeld := by decide +kernel
  have hc : (codeAttribute 1152921504606847232).BoundsHeld := by decide +kernel
  have hlength : Sql.Dialect.textLength (codeAttribute 1152921504606846976) ≠
      Sql.Dialect.textLength (codeAttribute 1152921504606847232) := by decide +kernel
  obtain ⟨-, -, hheld, -⟩ := modifyAttribute_mem_attributeChanges ⟨.number 1, "parts"⟩
    (codeAttribute 1152921504606846976) (codeAttribute 1152921504606847232)
  exact ⟨hp, hc, hlength, (hheld hp hc).2 hlength⟩

/-- Two integers of 54 bits that are rounded alike: the length of a text changes, and nothing is
said of it. -/
theorem attributeChanges_eq_nil_of_rounded :
    (codeAttribute 9007199254740992).DiffersBy Number.exact (codeAttribute 9007199254740993) ∧
      Sql.Dialect.textLength (codeAttribute 9007199254740992) ≠
        Sql.Dialect.textLength (codeAttribute 9007199254740993) ∧
      attributeChanges ⟨.number 1, "parts"⟩ (codeAttribute 9007199254740992)
        (codeAttribute 9007199254740993) = [] := by
  decide +kernel

end SchemaMigration
