import Mathlib.Algebra.Order.Ring.Rat
import Mathlib.Data.Nat.Cast.Field
import Mathlib.Data.Rat.Cast.Order
import Mathlib.Tactic.Positivity
import SchemaMigration.Json.Number
import SchemaMigration.Proofs.Number.Nearest

/-!
# Exact values of numbers

The value of a number of a document as a rational number, whichever way the document holds it.
Binary64 numbers are compared by their values, and an integer that 64 bits hold is converted to
itself, with nothing cut off.

The positive whole number that a number stands for is found in such steps. It is the value of the
number if this is a positive integer that 64 bits hold, and there is none otherwise. So it depends
on the value alone.
-/

namespace SchemaMigration

namespace Binary64

/-- The value of a number. -/
def exact (x : Binary64) : ℚ :=
  (if x.negative then -1 else 1) * ((x.ratio.1 : ℚ) / (x.ratio.2 : ℚ))

theorem ratio_snd_ne_zero (x : Binary64) : x.ratio.2 ≠ 0 := x.ratio_snd_pos.ne'

theorem exact_eq_numerator_div (x : Binary64) : x.exact = (x.numerator : ℚ) / x.ratio.2 := by
  unfold exact numerator
  cases x.negative <;> simp [neg_div]

theorem exact_eq_iff {x : Binary64} {i : Int} : x.exact = i ↔ x.numerator = i * x.ratio.2 := by
  rw [exact_eq_numerator_div, div_eq_iff (Nat.cast_ne_zero.mpr x.ratio_snd_ne_zero)]
  norm_cast

/-- Numbers are ordered by their values. -/
theorem isLess_iff {x y : Binary64} : x.isLess y = true ↔ x.exact < y.exact := by
  rw [isLess, decide_eq_true_eq, exact_eq_numerator_div, exact_eq_numerator_div,
    div_lt_div_iff₀ (Nat.cast_pos.mpr x.ratio_snd_pos) (Nat.cast_pos.mpr y.ratio_snd_pos)]
  norm_cast

theorem exact_zero (negative : Bool) : (zero negative).exact = 0 := by
  have hnumerator : (zero negative).numerator = 0 := by cases negative <;> rfl
  rw [exact_eq_numerator_div, hnumerator, Int.cast_zero, zero_div]

theorem natAbs_numerator (x : Binary64) : x.numerator.natAbs = x.ratio.1 := by
  unfold numerator
  split <;> omega

theorem isWhole_iff {x : Binary64} : x.isWhole = true ↔ ∃ i : Int, x.exact = i := by
  rw [isWhole, decide_eq_true_eq, ← Nat.dvd_iff_mod_eq_zero, ← natAbs_numerator, ← Int.natCast_dvd]
  simp only [exact_eq_iff, Dvd.dvd, Int.mul_comm]

/-- A natural number that 64 bits hold is converted to itself. -/
theorem toWord_of_exact {x : Binary64} {k : Nat} (h : x.exact = k) (hk : k < UInt64.size) :
    x.toWord = k := by
  have hnumerator : x.numerator = k * x.ratio.2 :=
    exact_eq_iff.mp (h.trans (Int.cast_natCast k).symm)
  have hsize : x.ratio.1 = k * x.ratio.2 := by
    rw [← natAbs_numerator, hnumerator]
    exact Int.natAbs_natCast _
  unfold toWord
  split
  · next hnegative =>
    -- only a zero has a sign without being below zero
    rw [numerator, if_pos hnegative] at hnumerator
    have hzero : k * x.ratio.2 = 0 := by omega
    exact ((Nat.mul_eq_zero.mp hzero).resolve_right x.ratio_snd_ne_zero).symm
  · rw [hsize, Nat.mul_div_cancel _ x.ratio_snd_pos]
    omega

theorem exact_greatestWord? : greatestWord?.map exact = some (UInt64.size : ℚ) := by
  decide +kernel

/-- Rounding keeps the sign. -/
theorem negative_of_nearest? {negative : Bool} {num den : Nat} {x : Binary64}
    (h : nearest? negative num den = some x) : x.negative = negative := by
  have hparts : ∀ {significand : Nat} {exponent : Int},
      ofParts? negative significand exponent = some x → x.negative = negative := by
    intro significand exponent h
    unfold ofParts? at h
    split at h
    · cases h
      rfl
    · cases h
  simp only [nearest?] at h
  split at h
  · exact hparts h
  · exact hparts h

/-- The number nearest to an integer below zero is not above zero. -/
theorem exact_nonpos_of_ofInt? {i : Int} {x : Binary64} (hi : i < 0) (h : ofInt? i = some x) :
    x.exact ≤ 0 := by
  have hnegative : x.negative = true := (negative_of_nearest? h).trans (decide_eq_true hi)
  rw [exact, if_pos hnegative, neg_one_mul]
  exact neg_nonpos_of_nonneg (by positivity)

end Binary64

namespace Json.Number

/-- The value of a number. -/
def exact : Number → ℚ
  | integer i _ => i
  | real x => x.exact

/-- The value of a number is this positive integer, and 64 bits hold it. -/
structure Counts (n : Number) (k : Nat) : Prop where
  value : n.exact = k
  pos : 0 < k
  fits : k < UInt64.size

instance (n : Number) (k : Nat) : Decidable (n.Counts k) :=
  decidable_of_iff (n.exact = k ∧ 0 < k ∧ k < UInt64.size)
    ⟨fun h => ⟨h.1, h.2.1, h.2.2⟩, fun h => ⟨h.value, h.pos, h.fits⟩⟩

/-- What a number is converted to is the value of its nearest binary64 number, if this is a positive
integer that 64 bits hold. -/
theorem converted?_eq_some_iff {n : Number} {k : Nat} :
    n.converted? = some k ↔
      ∃ x, n.binary? = some x ∧ x.exact = k ∧ 0 < k ∧ k < UInt64.size := by
  obtain ⟨limit, hlimit, hvalue⟩ := Option.map_eq_some_iff.mp Binary64.exact_greatestWord?
  simp only [converted?, hlimit, Option.any_some, Option.map_eq_some_iff, Option.filter_eq_some_iff,
    Bool.and_eq_true, Binary64.isLess_iff, Binary64.isWhole_iff, Binary64.exact_zero, hvalue,
    and_assoc]
  constructor
  · rintro ⟨x, hx, ⟨i, hi⟩, hpos, hfits, rfl⟩
    rw [hi] at hpos hfits
    have hipos : 0 < i := by exact_mod_cast hpos
    have hifits : i < UInt64.size := by exact_mod_cast hfits
    lift i to ℕ using hipos.le
    have hword : x.toWord = i := Binary64.toWord_of_exact hi (by exact_mod_cast hifits)
    rw [hword]
    exact ⟨x, hx, hi, by exact_mod_cast hipos, by exact_mod_cast hifits⟩
  · rintro ⟨x, hx, hk, hpos, hfits⟩
    refine ⟨x, hx, ⟨k, hk⟩, ?_, ?_, Binary64.toWord_of_exact hk hfits⟩
    · rw [hk]
      exact_mod_cast hpos
    · rw [hk]
      exact_mod_cast hfits

/-- Integers below zero are converted to nothing. -/
theorem converted?_of_neg {i : Int} {hi : InWord i} (h : i < 0) :
    (integer i hi).converted? = none := by
  rw [Option.eq_none_iff_forall_ne_some]
  intro k hk
  obtain ⟨x, hx, hvalue, hpos, -⟩ := converted?_eq_some_iff.mp hk
  have hnonpos := Binary64.exact_nonpos_of_ofInt? h hx
  rw [hvalue] at hnonpos
  exact absurd hnonpos (not_le_of_gt (by exact_mod_cast hpos))

theorem counts_integer_iff {i : Int} {hi : InWord i} {k : Nat} :
    (integer i hi).Counts k ↔ i = k ∧ 0 < i := by
  constructor
  · rintro ⟨hvalue, hpos, -⟩
    change (i : ℚ) = k at hvalue
    norm_cast at hvalue
    omega
  · rintro ⟨rfl, hpos⟩
    have hfits := hi.2
    exact ⟨Int.cast_natCast k, by omega, by omega⟩

/-- A number stands for a positive whole number exactly when that is its value and 64 bits hold
it. -/
theorem positive?_eq_some_iff {n : Number} {k : Nat} : n.positive? = some k ↔ n.Counts k := by
  rw [positive?, Option.filter_eq_some_iff, decide_eq_true_eq]
  cases n with
  | integer i hi =>
      rw [counts_integer_iff]
      rcases Int.lt_or_le i 0 with hneg | hnonneg
      · have hunsigned : (integer i hi).unsigned? = none := if_neg (Int.not_le.mpr hneg)
        rw [hunsigned, Option.none_or, converted?_of_neg hneg]
        simp only [reduceCtorEq, false_and, false_iff]
        omega
      · have hunsigned : (integer i hi).unsigned? = some i.toNat := if_pos hnonneg
        rw [hunsigned, Option.some_or, Option.some.injEq]
        omega
  | real x =>
      have hunsigned : (real x).unsigned? = none := rfl
      have hbinary : (real x).binary? = some x := rfl
      rw [hunsigned, Option.none_or, converted?_eq_some_iff]
      constructor
      · rintro ⟨⟨y, hy, hvalue, hpos, hfits⟩, -⟩
        cases hbinary.symm.trans hy
        exact ⟨hvalue, hpos, hfits⟩
      · rintro ⟨hvalue, hpos, hfits⟩
        exact ⟨⟨x, hbinary, hvalue, hpos, hfits⟩, hpos⟩

/-- What a number counts depends on its value alone. -/
theorem counts_congr {a b : Number} (h : a.exact = b.exact) (k : Nat) :
    a.Counts k ↔ b.Counts k := by
  constructor
  · rintro ⟨hvalue, hpos, hfits⟩
    exact ⟨h.symm.trans hvalue, hpos, hfits⟩
  · rintro ⟨hvalue, hpos, hfits⟩
    exact ⟨h.trans hvalue, hpos, hfits⟩

/-- Numbers of the same value stand for the same positive whole number, or both for none. -/
theorem positive?_congr {a b : Number} (h : a.exact = b.exact) : a.positive? = b.positive? := by
  apply Option.ext
  intro k
  rw [positive?_eq_some_iff, positive?_eq_some_iff, counts_congr h]

end Json.Number

end SchemaMigration
