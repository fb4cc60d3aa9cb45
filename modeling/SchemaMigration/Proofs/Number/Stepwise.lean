import SchemaMigration.Number.Stepwise
import SchemaMigration.Proofs.Number.Nearest

/-!
# Decimals whose steps are exact

Naturals of at most 53 bits, and so the powers of ten up to the twenty-second, are binary64 numbers.
A decimal of so few digits and so small an exponent is therefore rounded once only when it is read
in steps, and what is read is the number nearest to it.
-/

namespace SchemaMigration

namespace Binary64

/-- A number that is a natural, as a ratio. -/
def IsNatural (x : Binary64) (n : Nat) : Prop := x.ratio.1 = n * x.ratio.2

/-- A natural of at most 53 bits and some zero bits behind them is a number. -/
theorem exists_isNatural (negative : Bool) {m : Nat} (hm : m ≠ 0) (hsmall : m < Nat.pow 2 53)
    {k : Nat} (hk : k ≤ 900) :
    ∃ x : Binary64, nearest? negative (m * Nat.pow 2 k) 1 = some x ∧ x.negative = negative ∧
      x.isZero = false ∧ x.IsNatural (m * Nat.pow 2 k) := by
  have hlog : Nat.log2 m < 53 := (Nat.log2_lt hm).mpr hsmall
  generalize hs : 52 - Nat.log2 m = s
  have hscaled : m * Nat.pow 2 s ≠ 0 := Nat.mul_ne_zero hm (Nat.pow_pos (by decide)).ne'
  have hfull : Nat.log2 (m * Nat.pow 2 s) = 52 := by
    rw [log2_mul_two_pow hm]
    omega
  have hcanonical : Canonical (m * Nat.pow 2 s) (k - s) := by
    obtain ⟨hlow, hhigh⟩ := (Nat.log2_eq_iff hscaled).mp hfull
    exact ⟨hhigh, by omega, by omega, .inl hlow⟩
  have hnatural : IsNatural ⟨negative, m * Nat.pow 2 s, k - s, hcanonical⟩ (m * Nat.pow 2 k) := by
    have hsum : s + ((k : Int) - s).toNat = k + (-((k : Int) - s)).toNat := by omega
    simp only [IsNatural, ratio, Nat.pow_eq, Nat.mul_assoc, ← Nat.pow_add, hsum]
  refine ⟨⟨negative, m * Nat.pow 2 s, k - s, hcanonical⟩, ?_, rfl, ?_, hnatural⟩
  · rw [nearest?_congr negative Nat.one_pos (ratio_snd_pos _)
      (hnatural.symm.trans (Nat.mul_one _).symm)]
    exact nearest?_ratio hscaled
  · simpa [isZero] using hscaled

theorem exists_tenTo? {power : Nat} (h : power ≤ 22) :
    ∃ ten : Binary64, tenTo? power = some ten ∧ ten.negative = false ∧ ten.isZero = false ∧
      ten.IsNatural (Nat.pow 10 power) := by
  have hfive : Nat.pow 5 power < Nat.pow 2 53 := by
    have hle : Nat.pow 5 power ≤ Nat.pow 5 22 := Nat.pow_le_pow_right (by decide) h
    exact Nat.lt_of_le_of_lt hle (by decide)
  have hten : Nat.pow 10 power = Nat.pow 5 power * Nat.pow 2 power := Nat.mul_pow 5 2 power
  rw [tenTo?, hten]
  exact exists_isNatural false (Nat.pow_pos (by decide)).ne' hfive (by omega)

section Steps

variable {x ten : Binary64} {m n : Nat}

theorem times?_eq (hx : x.IsNatural m) (hten : ten.IsNatural n) (hpositive : ten.negative = false) :
    x.times? ten = nearest? x.negative (m * n) 1 := by
  rw [times?, hpositive, Bool.bne_false]
  apply nearest?_congr _ (Nat.mul_pos x.ratio_snd_pos ten.ratio_snd_pos) Nat.one_pos
  rw [Nat.mul_one, hx, hten, Nat.mul_mul_mul_comm]

theorem over?_eq (hx : x.IsNatural m) (hten : ten.IsNatural n) (hpositive : ten.negative = false)
    (hzero : ten.isZero = false) (hn : 0 < n) : x.over? ten = nearest? x.negative m n := by
  have hden : 0 < ten.ratio.1 := by
    rw [hten]
    exact Nat.mul_pos hn ten.ratio_snd_pos
  have hratio : x.ratio.1 * ten.ratio.2 * n = m * (x.ratio.2 * ten.ratio.1) := by
    rw [hx, hten, Nat.mul_assoc, Nat.mul_assoc, Nat.mul_comm n]
  rw [over?, hzero, hpositive, Bool.bne_false, if_neg Bool.false_ne_true]
  exact nearest?_congr _ (Nat.mul_pos x.ratio_snd_pos hden) hn hratio

end Steps

end Binary64

namespace Decimal

open Binary64

variable {d : Decimal}

theorem ratio_of_nonneg (h : 0 ≤ d.exponent) :
    d.ratio = (d.digits * Nat.pow 10 d.exponent.natAbs, 1) := by
  have hsize : d.exponent.toNat = d.exponent.natAbs := by omega
  have hnone : (-d.exponent).toNat = 0 := by omega
  rw [ratio, hsize, hnone]

theorem ratio_of_neg (h : d.exponent < 0) : d.ratio = (d.digits, Nat.pow 10 d.exponent.natAbs) := by
  have hsize : (-d.exponent).toNat = d.exponent.natAbs := by omega
  have hnone : d.exponent.toNat = 0 := by omega
  rw [ratio, hsize, hnone]
  exact congrArg (·, _) (Nat.mul_one _)

section Exact

variable {x ten : Binary64}

/-- With a small power of ten the significand is multiplied once. -/
theorem stepwise?_of_nonneg (hx : nearest? d.negative d.digits 1 = some x)
    (hnonzero : x.isZero = false) (hten : tenTo? d.exponent.natAbs = some ten)
    (hlow : 0 ≤ d.exponent) (hhigh : d.exponent ≤ 22) : d.stepwise? = x.times? ten := by
  have hsize : d.exponent.toNat = d.exponent.natAbs := by omega
  have hfits : d.exponent ≤ greatestTen := by
    simp only [greatestTen]
    omega
  simp only [stepwise?, hx]
  rw [Option.bind_eq_bind, Option.bind_some, hnonzero, if_neg Bool.false_ne_true, if_pos hlow,
    if_pos hfits, hsize, hten, Option.bind_some]

/-- With a small negative power of ten the significand is divided once. -/
theorem stepwise?_of_neg (hx : nearest? d.negative d.digits 1 = some x)
    (hnonzero : x.isZero = false) (hten : tenTo? d.exponent.natAbs = some ten)
    (hlow : -22 ≤ d.exponent) (hhigh : d.exponent < 0) : d.stepwise? = x.over? ten := by
  have hnone : (d.exponent.natAbs - 1) / greatestTen = 0 := by
    apply Nat.div_eq_of_lt
    simp only [greatestTen]
    omega
  have hpart : ¬ 0 ≤ d.exponent := Int.not_le.mpr hhigh
  simp only [stepwise?, hx]
  rw [Option.bind_eq_bind, Option.bind_some, hnonzero, if_neg Bool.false_ne_true, if_neg hpart,
    hnone, Nat.zero_mul, Nat.sub_zero, hten, lower?, Option.bind_some, Option.bind_some]

end Exact

/-- Few digits and a small power of ten are within the range of the format. -/
theorem binary?_of_small (hzero : d.digits ≠ 0) (hdigits : d.digits < Nat.pow 2 53)
    (hlow : -22 ≤ d.exponent) (hhigh : d.exponent ≤ 22) :
    d.binary? = nearest? d.negative d.ratio.1 d.ratio.2 := by
  have hcount : digitCount d.digits ≤ 16 :=
    (digitCount_le_iff (by decide)).mpr (Nat.lt_trans hdigits (by decide))
  have hinside : ¬ (d.digits = 0 ∨ d.magnitude < -330) ∧ ¬ 310 < d.magnitude := by
    simp only [magnitude]
    omega
  rw [binary?, if_neg hinside.1, if_neg hinside.2]

/-- A decimal of at most 53 bits and a small power of ten is read as the number nearest to it. -/
theorem stepwise?_eq_binary? (hdigits : d.digits < Nat.pow 2 53) (hlow : -22 ≤ d.exponent)
    (hhigh : d.exponent ≤ 22) : d.stepwise? = d.binary? := by
  by_cases hzero : d.digits = 0
  · have hnearest : ∀ negative, nearest? negative 0 1 = some (zero negative) := by decide +kernel
    simp [stepwise?, binary?, hzero, hnearest, zero, isZero]
  obtain ⟨x, hx, hsign, hnonzero, hnatural⟩ :=
    exists_isNatural d.negative hzero hdigits (Nat.zero_le 900)
  have hone : d.digits * Nat.pow 2 0 = d.digits := Nat.mul_one _
  rw [hone] at hx hnatural
  obtain ⟨ten, hten, htenSign, htenNonzero, htenNatural⟩ :=
    exists_tenTo? (by omega : d.exponent.natAbs ≤ 22)
  rw [binary?_of_small hzero hdigits hlow hhigh, ← hsign]
  rcases Int.lt_or_le d.exponent 0 with hneg | hnonneg
  · rw [stepwise?_of_neg hx hnonzero hten hlow hneg, ratio_of_neg hneg]
    exact over?_eq hnatural htenNatural htenSign htenNonzero (Nat.pow_pos (by decide))
  · rw [stepwise?_of_nonneg hx hnonzero hten hnonneg hhigh, ratio_of_nonneg hnonneg]
    exact times?_eq hnatural htenNatural htenSign

end Decimal

end SchemaMigration
