import SchemaMigration.Json.Number

/-!
# Equality of bounds is an equivalence

Two bounds agree exactly when they have the same measure: the nearest binary64 number, with the sign
of a zero left out. Agreement is therefore reflexive, symmetric and transitive, and a chain of
versions whose neighbours agree has ends that agree.
-/

namespace SchemaMigration

namespace Binary64

/-- A number without the sign of a zero. -/
def unsignedZero (x : Binary64) : Binary64 := if x.isZero then zero false else x

theorem isZero_zero (negative : Bool) : (zero negative).isZero = true := rfl

/-- Numbers of the same value differ in the sign of a zero at most. -/
theorem sameValue_iff {x y : Binary64} :
    x.sameValue y = true ↔ x.unsignedZero = y.unsignedZero := by
  simp only [sameValue, Bool.or_eq_true, Bool.and_eq_true, decide_eq_true_eq, unsignedZero]
  constructor
  · rintro (h | ⟨hx, hy⟩)
    · rw [h]
    · rw [if_pos hx, if_pos hy]
  · intro h
    by_cases hx : x.isZero = true <;> by_cases hy : y.isZero = true
    · exact .inr ⟨hx, hy⟩
    · rw [if_pos hx, if_neg hy] at h
      exact absurd (h ▸ isZero_zero false) hy
    · rw [if_neg hx, if_pos hy] at h
      exact absurd (h ▸ isZero_zero false) hx
    · rw [if_neg hx, if_neg hy] at h
      exact .inl h

end Binary64

namespace Json

namespace Number

/-- What the comparison of two numbers looks at. -/
def measure (n : Number) : Option Binary64 := n.binary?.map Binary64.unsignedZero

theorem sameValue_iff {a b : Number} : a.sameValue b = true ↔ a.measure = b.measure := by
  simp only [sameValue, measure]
  cases a.binary? <;> cases b.binary? <;> simp [Binary64.sameValue_iff]

/-- Numbers that are written alike have the same value. -/
theorem sameValue_of_alike {a b : Number} (h : a.alike b = true) : a.sameValue b = true := by
  cases a with
  | integer i hi =>
      cases b with
      | integer j hj =>
          obtain rfl : i = j := by simpa [alike] using h
          exact sameValue_iff.mpr rfl
      | real y => simp [alike] at h
  | real x =>
      cases b with
      | integer j hj => simp [alike] at h
      | real y => exact h

end Number

/-- Bounds agree when both are absent, or both are there with the same measure. -/
theorem sameBound_iff {a b : Option Number} :
    sameBound a b = true ↔ a.map Number.measure = b.map Number.measure := by
  cases a with
  | none => cases b <;> simp [sameBound]
  | some a =>
      cases b with
      | none => simp [sameBound]
      | some b =>
          simp only [sameBound, Bool.or_eq_true, Option.map_some, Option.some.injEq,
            ← Number.sameValue_iff]
          exact or_iff_right_of_imp Number.sameValue_of_alike

theorem sameBound_refl (a : Option Number) : sameBound a a = true := sameBound_iff.mpr rfl

theorem sameBound_symm {a b : Option Number} (h : sameBound a b = true) : sameBound b a = true :=
  sameBound_iff.mpr (sameBound_iff.mp h).symm

theorem sameBound_trans {a b c : Option Number} (hab : sameBound a b = true)
    (hbc : sameBound b c = true) : sameBound a c = true :=
  sameBound_iff.mpr ((sameBound_iff.mp hab).trans (sameBound_iff.mp hbc))

end Json

end SchemaMigration
