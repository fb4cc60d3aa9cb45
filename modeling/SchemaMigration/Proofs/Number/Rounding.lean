import SchemaMigration.Proofs.Bounds
import SchemaMigration.Proofs.Number.Exact
import SchemaMigration.Proofs.Number.Stepwise

/-!
# Numbers that are compared after rounding

Numbers of a document are compared by the binary64 numbers nearest to them. A binary64 number is its
own nearest one and is told by its value from all others, zeros apart, so that the comparison is one
of rounded values. Rounding depends on the value alone: numbers of one value are never told apart.
Different values are told apart if binary64 holds both, as it holds every real of a document and
every integer of at most 53 bits with zero bits behind them.
-/

namespace SchemaMigration

namespace Binary64

theorem abs_exact (x : Binary64) : |x.exact| = (x.ratio.1 : ℚ) / x.ratio.2 := by
  have hratio : |(x.ratio.1 : ℚ) / x.ratio.2| = (x.ratio.1 : ℚ) / x.ratio.2 :=
    abs_of_nonneg (by positivity)
  rw [exact]
  split <;> simp [hratio]

theorem exact_eq_zero_iff {x : Binary64} : x.exact = 0 ↔ x.significand = 0 := by
  have hpow : Nat.pow 2 x.exponent.toNat ≠ 0 := (Nat.pow_pos (by decide)).ne'
  rw [← abs_eq_zero, abs_exact, div_eq_zero_iff, Nat.cast_eq_zero, Nat.cast_eq_zero,
    or_iff_left x.ratio_snd_ne_zero, ratio, Nat.mul_eq_zero, or_iff_left hpow]

/-- A value other than zero has the sign of its number. -/
theorem negative_eq {x : Binary64} (h : x.significand ≠ 0) :
    x.negative = decide (x.exact < 0) := by
  have hne : x.exact ≠ 0 := mt exact_eq_zero_iff.mp h
  have hsize : (0 : ℚ) ≤ (x.ratio.1 : ℚ) / x.ratio.2 := by positivity
  cases hsign : x.negative with
  | false =>
      have hvalue : x.exact = (x.ratio.1 : ℚ) / x.ratio.2 := by
        rw [exact, hsign, if_neg Bool.false_ne_true, one_mul]
      rw [eq_comm, decide_eq_false_iff_not, hvalue]
      exact not_lt_of_ge hsize
  | true =>
      have hvalue : x.exact = -((x.ratio.1 : ℚ) / x.ratio.2) := by
        rw [exact, hsign, if_pos rfl, neg_one_mul]
      rw [eq_comm, decide_eq_true_eq]
      refine lt_of_le_of_ne ?_ hne
      rw [hvalue]
      exact neg_nonpos_of_nonneg hsize

/-- A number other than zero is the nearest one to every ratio of its value. -/
theorem nearest?_of_exact {x : Binary64} (h : x.significand ≠ 0) {value : ℚ}
    (hvalue : x.exact = value) {num den : Nat} (hden : 0 < den)
    (hratio : |value| = (num : ℚ) / den) :
    nearest? (decide (value < 0)) num den = some x := by
  rw [← hvalue, abs_exact, div_eq_div_iff (Nat.cast_ne_zero.mpr x.ratio_snd_ne_zero)
    (Nat.cast_ne_zero.mpr hden.ne')] at hratio
  have hcross : x.ratio.1 * den = num * x.ratio.2 := by exact_mod_cast hratio
  rw [← hvalue, ← negative_eq h, ← nearest?_congr _ x.ratio_snd_pos hden hcross]
  exact nearest?_ratio h

/-- Binary64 numbers are compared by their values. -/
theorem sameValue_iff_exact {x y : Binary64} : x.sameValue y = true ↔ x.exact = y.exact := by
  simp only [sameValue, isZero, Bool.or_eq_true, Bool.and_eq_true, decide_eq_true_eq, beq_iff_eq]
  constructor
  · rintro (rfl | ⟨hx, hy⟩)
    · rfl
    · rw [exact_eq_zero_iff.mpr hx, exact_eq_zero_iff.mpr hy]
  · intro h
    by_cases hx : x.significand = 0
    · exact .inr ⟨hx, exact_eq_zero_iff.mp (h ▸ exact_eq_zero_iff.mpr hx)⟩
    · have hy : y.significand ≠ 0 := fun hy =>
        hx (exact_eq_zero_iff.mp (h ▸ exact_eq_zero_iff.mpr hy))
      -- both are the nearest number to the ratio of the first
      have hself := nearest?_of_exact hx rfl x.ratio_snd_pos x.abs_exact
      have hother := nearest?_of_exact hy h.symm x.ratio_snd_pos x.abs_exact
      exact .inl (Option.some.inj (hself.symm.trans hother))

/-- An integer that is the value of a number is rounded to that value. -/
theorem ofInt?_of_exact {x : Binary64} {i : Int} (h : x.exact = i) :
    (ofInt? i).map exact = some x.exact := by
  by_cases hx : x.significand = 0
  · have hvalue := exact_eq_zero_iff.mpr hx
    obtain rfl : i = 0 := by exact_mod_cast h.symm.trans hvalue
    have hzero : ofInt? 0 = some (zero false) := by decide +kernel
    rw [hzero, hvalue]
    exact congrArg some (exact_eq_zero_iff.mpr rfl)
  · have hsize : |(i : ℚ)| = (i.natAbs : ℚ) / (1 : Nat) := by
      rw [Nat.cast_one, div_one, Nat.cast_natAbs, Int.cast_abs]
    have hnearest := nearest?_of_exact hx h Nat.one_pos hsize
    have hsign : decide ((i : ℚ) < 0) = decide (i < 0) := decide_eq_decide.mpr Int.cast_lt_zero
    rw [hsign] at hnearest
    rw [ofInt?, hnearest]
    rfl

/-- A number that is a natural, with the sign of an integer of that size, has its value. -/
theorem exact_of_isNatural {x : Binary64} {i : Int} (hsign : x.negative = decide (i < 0))
    (h : x.IsNatural i.natAbs) : x.exact = i := by
  have hden : (x.ratio.2 : ℚ) ≠ 0 := Nat.cast_ne_zero.mpr x.ratio_snd_ne_zero
  have hsize : (x.ratio.1 : ℚ) / x.ratio.2 = |(i : ℚ)| := by
    rw [h, Nat.cast_mul, mul_div_cancel_right₀ _ hden, Nat.cast_natAbs, Int.cast_abs]
  rw [exact, hsize, hsign]
  by_cases hneg : i < 0
  · have hvalue : (i : ℚ) < 0 := Int.cast_lt_zero.mpr hneg
    rw [decide_eq_true hneg, if_pos rfl, abs_of_neg hvalue, neg_one_mul, neg_neg]
  · have hvalue : (0 : ℚ) ≤ i := by exact_mod_cast Int.not_lt.mp hneg
    rw [decide_eq_false hneg, if_neg Bool.false_ne_true, abs_of_nonneg hvalue, one_mul]

/-- An integer that is the value of a number has at most 53 bits and some zero bits behind them. -/
theorem exists_bits_of_exact {x : Binary64} {i : Int} (h : x.exact = i) :
    ∃ m k, m < Nat.pow 2 53 ∧ i.natAbs = m * Nat.pow 2 k := by
  have hden : (x.ratio.2 : ℚ) ≠ 0 := Nat.cast_ne_zero.mpr x.ratio_snd_ne_zero
  have hsize : (x.ratio.1 : ℚ) = i.natAbs * x.ratio.2 := by
    rw [← div_eq_iff hden, ← abs_exact, h, Nat.cast_natAbs, Int.cast_abs]
  have hcross : x.ratio.1 = i.natAbs * x.ratio.2 := by exact_mod_cast hsize
  obtain ⟨hsmall, -⟩ := x.canonical
  rcases Int.le_total 0 x.exponent with hnonneg | hneg
  · -- all bits of the significand stand in front of the point
    have hnone : (-x.exponent).toNat = 0 := by omega
    refine ⟨x.significand, x.exponent.toNat, hsmall, ?_⟩
    simpa [ratio, hnone] using hcross.symm
  · have hnone : x.exponent.toNat = 0 := by omega
    have hpow : 0 < Nat.pow 2 (-x.exponent).toNat := Nat.pow_pos (by decide)
    refine ⟨i.natAbs, 0, Nat.lt_of_le_of_lt ?_ hsmall, (Nat.mul_one _).symm⟩
    have hsignificand : x.significand = i.natAbs * Nat.pow 2 (-x.exponent).toNat := by
      simpa [ratio, hnone] using hcross
    rw [hsignificand]
    exact Nat.le_mul_of_pos_right _ hpow

end Binary64

namespace Json

theorem inWord_val (n : Fin UInt64.size) : InWord n.val :=
  ⟨Int.le_trans (by decide) (Int.natCast_nonneg n.val), Int.ofNat_lt.mpr n.isLt⟩

theorem natAbs_le_of_inWord {i : Int} (h : InWord i) : i.natAbs ≤ Nat.pow 2 64 := by
  obtain ⟨hlow, hhigh⟩ := h
  have hleast : Int64.minValue.toInt = -9223372036854775808 := rfl
  have hsize : (UInt64.size : Int) = 18446744073709551616 := rfl
  have hpow : Nat.pow 2 64 = 18446744073709551616 := rfl
  omega

namespace Number

/-- The value of the nearest binary64 number. -/
def rounded (n : Number) : Option ℚ := n.binary?.map Binary64.exact

/-- Rounding does not change the value. -/
def IsHeld (n : Number) : Prop := n.rounded = some n.exact

instance (n : Number) : Decidable n.IsHeld := inferInstanceAs (Decidable (n.rounded = some n.exact))

theorem sameValue_iff_rounded {a b : Number} :
    a.sameValue b = true ↔ a.rounded = b.rounded := by
  simp only [sameValue, rounded]
  cases a.binary? <;> cases b.binary? <;> simp [Binary64.sameValue_iff_exact]

theorem isHeld_real (x : Binary64) : (real x).IsHeld := rfl

theorem rounded_congr {a b : Number} (h : a.exact = b.exact) : a.rounded = b.rounded := by
  cases a with
  | integer i hi =>
      cases b with
      | integer j hj =>
          obtain rfl : i = j := by simpa [exact] using h
          rfl
      | real y => exact Binary64.ofInt?_of_exact h.symm
  | real x =>
      cases b with
      | integer j hj => exact (Binary64.ofInt?_of_exact h).symm
      | real y => exact congrArg some h

/-- Binary64 holds an integer of at most 53 bits and some zero bits behind them. -/
theorem isHeld_of_bits {i : Int} {hi : InWord i} {m k : Nat} (hm : m < Nat.pow 2 53)
    (hmk : i.natAbs = m * Nat.pow 2 k) : (integer i hi).IsHeld := by
  by_cases hzero : m = 0
  · have hvalue : (Binary64.zero false).exact = (0 : Int) :=
      (Binary64.exact_eq_zero_iff.mpr rfl).trans Int.cast_zero.symm
    obtain rfl : i = 0 := by simpa [hzero] using hmk
    exact (Binary64.ofInt?_of_exact hvalue).trans (congrArg some hvalue)
  · have hpow : Nat.pow 2 k ≤ Nat.pow 2 64 :=
      calc Nat.pow 2 k
        _ ≤ m * Nat.pow 2 k := Nat.le_mul_of_pos_left _ (Nat.pos_of_ne_zero hzero)
        _ = i.natAbs := hmk.symm
        _ ≤ Nat.pow 2 64 := natAbs_le_of_inWord hi
    have hk : k ≤ 64 := (Nat.pow_le_pow_iff_right (by decide)).mp hpow
    obtain ⟨x, hx, hsign, -, hnatural⟩ :=
      Binary64.exists_isNatural (decide (i < 0)) hzero hm (hk.trans (by decide))
    rw [← hmk] at hx hnatural
    have hvalue := Binary64.exact_of_isNatural hsign hnatural
    exact (congrArg (Option.map Binary64.exact) hx).trans (congrArg some hvalue)

/-- A number is a real, or an integer of at most 53 bits and some zero bits behind them. -/
def HasFewBits : Number → Prop
  | integer i _ => ∃ m k, m < Nat.pow 2 53 ∧ i.natAbs = m * Nat.pow 2 k
  | real _ => True

/-- The numbers that binary64 holds are the reals and the integers of few bits. -/
theorem isHeld_iff {n : Number} : n.IsHeld ↔ n.HasFewBits := by
  cases n with
  | real x => exact iff_of_true (isHeld_real x) trivial
  | integer i hi =>
      constructor
      · intro h
        obtain ⟨x, -, hx⟩ := Option.map_eq_some_iff.mp h
        exact Binary64.exists_bits_of_exact hx
      · rintro ⟨m, k, hm, hmk⟩
        exact isHeld_of_bits hm hmk

end Number

/-- Bounds agree when both are absent, or both are there with the same rounded value. -/
theorem sameBound_iff_rounded {a b : Option Number} :
    sameBound a b = true ↔ a.map Number.rounded = b.map Number.rounded := by
  cases a with
  | none => cases b <;> simp [sameBound]
  | some a =>
      cases b with
      | none => simp [sameBound]
      | some b =>
          simp only [sameBound, Bool.or_eq_true, Option.map_some, Option.some.injEq,
            ← Number.sameValue_iff_rounded]
          exact or_iff_right_of_imp Number.sameValue_of_alike

theorem sameBound_of_exact {a b : Option Number}
    (h : a.map Number.exact = b.map Number.exact) : sameBound a b = true := by
  cases a with
  | none => cases b <;> simp_all [sameBound]
  | some a =>
      cases b with
      | none => simp at h
      | some b =>
          have hexact : a.exact = b.exact := by simpa using h
          exact sameBound_iff_rounded.mpr (congrArg some (Number.rounded_congr hexact))

/-- Bounds that binary64 holds agree exactly if they have the same value. -/
theorem sameBound_iff_exact {a b : Option Number} (ha : ∀ n ∈ a, n.IsHeld)
    (hb : ∀ n ∈ b, n.IsHeld) :
    sameBound a b = true ↔ a.map Number.exact = b.map Number.exact := by
  have hrounded : ∀ bound : Option Number, (∀ n ∈ bound, n.IsHeld) →
      bound.map Number.rounded = (bound.map Number.exact).map some := by
    intro bound hbound
    rw [Option.map_map]
    exact Option.map_congr hbound
  rw [sameBound_iff_rounded, hrounded a ha, hrounded b hb]
  exact (Option.map_injective (Option.some_injective ℚ)).eq_iff

end Json

end SchemaMigration
