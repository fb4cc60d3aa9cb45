import Mathlib.Algebra.Order.Field.Basic
import Mathlib.Algebra.Order.Field.Power
import Mathlib.Algebra.Order.Ring.Rat
import Mathlib.Tactic.Linarith
import SchemaMigration.Proofs.Number.Nearest

/-!
# The finite range

Rounding fails only beyond the range of the format. The exponent that it chooses puts the ratio
below `2 ^ 53` units, and unless it is the least one, not below `2 ^ 52` of them, so that what is
rounded fits the format or is the next power of two. At the greatest exponent that power is out of
range, and a tie goes up to it, since its predecessor is odd: there is a nearest number exactly
below `2 ^ 1024 - 2 ^ 970`.
-/

namespace SchemaMigration

namespace Binary64

theorem two_pow_pos (k : Nat) : 0 < Nat.pow 2 k := Nat.pow_pos (by decide)

theorem two_pow_le {j k : Nat} (h : j ≤ k) : Nat.pow 2 j ≤ Nat.pow 2 k :=
  Nat.pow_le_pow_right (by decide) h

theorem two_pow_add (j k : Nat) : Nat.pow 2 (j + k) = Nat.pow 2 j * Nat.pow 2 k :=
  Nat.pow_add 2 j k

/-- A ratio is rounded to the natural below it or to the next one, whichever is nearer; on a tie, to
the even one. -/
theorem halfEven_cases (num den : Nat) :
    (halfEven num den = num / den ∧
      (2 * (num % den) < den ∨ 2 * (num % den) = den ∧ num / den % 2 = 0)) ∨
    halfEven num den = num / den + 1 ∧
      (den < 2 * (num % den) ∨ 2 * (num % den) = den ∧ num / den % 2 = 1) := by
  unfold halfEven
  cases hcompare : compare (2 * (num % den)) den with
  | lt => exact .inl ⟨rfl, .inl (Nat.compare_eq_lt.mp hcompare)⟩
  | gt => exact .inr ⟨rfl, .inl (Nat.compare_eq_gt.mp hcompare)⟩
  | eq =>
      have htie := Nat.compare_eq_eq.mp hcompare
      rcases Nat.mod_two_eq_zero_or_one (num / den) with heven | hodd
      · exact .inl ⟨if_pos heven, .inr ⟨htie, heven⟩⟩
      · exact .inr ⟨if_neg (by omega), .inr ⟨htie, hodd⟩⟩

/-- A ratio is rounded up from a natural when it is nearer to the next one, or as near to it and the
next one is even. -/
theorem lt_halfEven_iff {den : Nat} (num n : Nat) (hden : 0 < den) :
    n < halfEven num den ↔
      (2 * n + 1) * den < 2 * num ∨ (2 * n + 1) * den = 2 * num ∧ n % 2 = 1 := by
  have hnum := Nat.div_add_mod num den
  have hrest := Nat.mod_lt num hden
  have hcases := halfEven_cases num den
  generalize num / den = q at hnum hcases
  generalize num % den = r at hnum hrest hcases
  rcases Nat.lt_trichotomy n q with hless | rfl | hmore
  · have hbelow : (2 * n + 1) * den + den ≤ 2 * (den * q) :=
      calc (2 * n + 1) * den + den
        _ = 2 * (den * (n + 1)) := by ring
        _ ≤ 2 * (den * q) := Nat.mul_le_mul_left 2 (Nat.mul_le_mul_left den hless)
    omega
  · have hsame : (2 * n + 1) * den = 2 * (den * n) + den := by ring
    omega
  · have habove : 2 * (den * q) + 3 * den ≤ (2 * n + 1) * den :=
      calc 2 * (den * q) + 3 * den
        _ = 2 * (den * (q + 1)) + den := by ring
        _ ≤ 2 * (den * n) + den :=
          Nat.add_le_add_right (Nat.mul_le_mul_left 2 (Nat.mul_le_mul_left den hmore)) den
        _ = (2 * n + 1) * den := by ring
    omega

theorem div_le_halfEven (num den : Nat) : num / den ≤ halfEven num den := by
  rcases halfEven_cases num den with ⟨hround, -⟩ | ⟨hround, -⟩
  · exact Nat.le_of_eq hround.symm
  · exact hround ▸ Nat.le_succ _

/-- The exponent that a ratio is rounded at. -/
def roundedAt (num den : Nat) : Int := max (binaryOrder num den - 52) (-1074)

/-- A ratio in units of its exponent. -/
def scaled (num den : Nat) : Nat × Nat :=
  (num * Nat.pow 2 (-roundedAt num den).toNat, den * Nat.pow 2 (roundedAt num den).toNat)

section

variable {num den : Nat}

/-- The order of a ratio is found after a shift that is wide enough for all exponents. The width is
handed on as a variable, so that no power of this size is written out. -/
theorem exists_width (num den : Nat) : ∃ k : Nat, k = 1100 ∧
    binaryOrder num den = Nat.log2 (num * Nat.pow 2 k / den) - 1100 := by
  unfold binaryOrder
  generalize 1100 = k
  exact ⟨k, rfl, rfl⟩

theorem scaled_snd_pos (num : Nat) (hden : 0 < den) : 0 < (scaled num den).2 :=
  Nat.mul_pos hden (two_pow_pos _)

theorem scaled_of_nonneg {k : Nat} (h : roundedAt num den = k) :
    scaled num den = (num, den * Nat.pow 2 k) := by
  have hnone : (-(k : Int)).toNat = 0 := by omega
  rw [scaled, h, hnone]
  exact Prod.ext (Nat.mul_one num) rfl

/-- A ratio has at most 53 bits in units of its exponent. -/
theorem scaled_lt (num : Nat) (hden : 0 < den) :
    (scaled num den).1 < Nat.pow 2 53 * (scaled num den).2 := by
  obtain ⟨k, hk, hbinary⟩ := exists_width num den
  have hlog : num * Nat.pow 2 k < Nat.pow 2 (Nat.log2 (num * Nat.pow 2 k / den) + 1) * den :=
    (Nat.div_lt_iff_lt_mul hden).mp Nat.lt_log2_self
  have hexponent : Nat.log2 (num * Nat.pow 2 k / den) + 1 + (-roundedAt num den).toNat ≤
      53 + (roundedAt num den).toNat + k := by
    simp only [roundedAt]
    omega
  have hpower : Nat.pow 2 (Nat.log2 (num * Nat.pow 2 k / den) + 1) *
      Nat.pow 2 (-roundedAt num den).toNat ≤
        Nat.pow 2 53 * Nat.pow 2 (roundedAt num den).toNat * Nat.pow 2 k := by
    simp only [← two_pow_add]
    exact two_pow_le hexponent
  apply Nat.lt_of_mul_lt_mul_right (a := Nat.pow 2 k)
  calc (scaled num den).1 * Nat.pow 2 k
    _ = num * Nat.pow 2 k * Nat.pow 2 (-roundedAt num den).toNat := Nat.mul_right_comm _ _ _
    _ < Nat.pow 2 (Nat.log2 (num * Nat.pow 2 k / den) + 1) * den *
        Nat.pow 2 (-roundedAt num den).toNat :=
      Nat.mul_lt_mul_of_pos_right hlog (two_pow_pos _)
    _ = Nat.pow 2 (Nat.log2 (num * Nat.pow 2 k / den) + 1) *
        Nat.pow 2 (-roundedAt num den).toNat * den := Nat.mul_right_comm _ _ _
    _ ≤ Nat.pow 2 53 * Nat.pow 2 (roundedAt num den).toNat * Nat.pow 2 k * den :=
      Nat.mul_le_mul_right den hpower
    _ = Nat.pow 2 53 * (scaled num den).2 * Nat.pow 2 k := by
      simp only [scaled]
      ring

/-- Above the least exponent, a ratio has all 53 bits in units of its exponent. -/
theorem le_scaled (hden : 0 < den) (h : roundedAt num den ≠ -1074) :
    Nat.pow 2 52 * (scaled num den).2 ≤ (scaled num den).1 := by
  have horder : -1074 < binaryOrder num den - 52 := by
    by_contra hsmall
    exact h (max_eq_right (Int.not_lt.mp hsmall))
  obtain ⟨k, hk, hbinary⟩ := exists_width num den
  have hnonzero : num * Nat.pow 2 k / den ≠ 0 := by
    intro hzero
    rw [hzero, Nat.log2_zero] at hbinary
    omega
  have hlog : Nat.pow 2 (Nat.log2 (num * Nat.pow 2 k / den)) * den ≤ num * Nat.pow 2 k :=
    (Nat.le_div_iff_mul_le hden).mp (Nat.log2_self_le hnonzero)
  have hexponent : 52 + (roundedAt num den).toNat + k =
      Nat.log2 (num * Nat.pow 2 k / den) + (-roundedAt num den).toNat := by
    simp only [roundedAt]
    omega
  have hpower : Nat.pow 2 52 * Nat.pow 2 (roundedAt num den).toNat * Nat.pow 2 k =
      Nat.pow 2 (Nat.log2 (num * Nat.pow 2 k / den)) * Nat.pow 2 (-roundedAt num den).toNat := by
    simp only [← two_pow_add, hexponent]
  apply Nat.le_of_mul_le_mul_right _ (two_pow_pos k)
  calc Nat.pow 2 52 * (scaled num den).2 * Nat.pow 2 k
    _ = Nat.pow 2 52 * Nat.pow 2 (roundedAt num den).toNat * Nat.pow 2 k * den := by
      simp only [scaled]
      ring
    _ = Nat.pow 2 (Nat.log2 (num * Nat.pow 2 k / den)) * den *
        Nat.pow 2 (-roundedAt num den).toNat := by rw [hpower, Nat.mul_right_comm]
    _ ≤ num * Nat.pow 2 k * Nat.pow 2 (-roundedAt num den).toNat := Nat.mul_le_mul_right _ hlog
    _ = (scaled num den).1 * Nat.pow 2 k := Nat.mul_right_comm _ _ _

/-- Where a ratio of the greatest exponent is rounded up out of the range. -/
def limit : Nat := Nat.pow 2 1024 - Nat.pow 2 970

theorem two_pow_le_limit {k : Nat} (h : k ≤ 1023) : Nat.pow 2 k ≤ limit := by
  refine (two_pow_le h).trans ?_
  decide +kernel

theorem limit_le_two_pow {k : Nat} (h : 1024 ≤ k) : limit ≤ Nat.pow 2 k := by
  unfold limit
  generalize 1024 = most at h ⊢
  exact (Nat.sub_le _ _).trans (two_pow_le h)

theorem limit_pos : 0 < limit :=
  Nat.lt_of_lt_of_le (two_pow_pos 0) (two_pow_le_limit (Nat.zero_le 1023))

theorem isSome_ofParts?_iff (negative : Bool) (significand : Nat) (exponent : Int) :
    (ofParts? negative significand exponent).isSome ↔ Canonical significand exponent := by
  unfold ofParts?
  split
  · next h => simp [h]
  · next h => simp [h]

/-- What a ratio is rounded to has at most 53 bits, or is the next power of two. -/
theorem halfEven_scaled_le (num : Nat) (hden : 0 < den) :
    halfEven (scaled num den).1 (scaled num den).2 ≤ Nat.pow 2 53 := by
  by_contra h
  have hscaled := scaled_lt num hden
  have hodd : (2 * Nat.pow 2 53 + 1) * (scaled num den).2 =
    2 * (Nat.pow 2 53 * (scaled num den).2) + (scaled num den).2 := by ring
  rcases (lt_halfEven_iff _ _ (scaled_snd_pos num hden)).mp (Nat.lt_of_not_le h) with
    hup | ⟨htie, -⟩
  · omega
  · omega

theorem le_halfEven_scaled (hden : 0 < den) (h : roundedAt num den ≠ -1074) :
    Nat.pow 2 52 ≤ halfEven (scaled num den).1 (scaled num den).2 :=
  ((Nat.le_div_iff_mul_le (scaled_snd_pos num hden)).mpr (le_scaled hden h)).trans
    (div_le_halfEven _ _)

/-- Rounding gives a number when the exponent of the ratio is not the greatest one, or it is and the
ratio is not rounded up to the next power of two. -/
theorem isSome_nearest?_iff_roundedAt (negative : Bool) (hden : 0 < den) :
    (nearest? negative num den).isSome ↔ roundedAt num den ≤ 970 ∨
      roundedAt num den = 971 ∧
        halfEven (scaled num den).1 (scaled num den).2 < Nat.pow 2 53 := by
  have hnearest : nearest? negative num den =
      if halfEven (scaled num den).1 (scaled num den).2 = Nat.pow 2 53 then
        ofParts? negative (Nat.pow 2 52) (roundedAt num den + 1)
      else ofParts? negative (halfEven (scaled num den).1 (scaled num den).2)
        (roundedAt num den) := rfl
  have hlow : -1074 ≤ roundedAt num den := le_max_right _ _
  have hupper := halfEven_scaled_le num hden
  have hfull : roundedAt num den ≠ -1074 →
      Nat.pow 2 52 ≤ halfEven (scaled num den).1 (scaled num den).2 := le_halfEven_scaled hden
  have hpowers : Nat.pow 2 52 < Nat.pow 2 53 := by decide
  rw [hnearest]
  split
  · next hround =>
    rw [isSome_ofParts?_iff, Canonical]
    omega
  · next hround =>
    rw [isSome_ofParts?_iff, Canonical]
    omega

/-- Below the greatest exponent, a ratio is in the range. -/
theorem lt_limit_mul_of_roundedAt (hden : 0 < den) (h : roundedAt num den ≤ 970) :
    num < limit * den := by
  have hpower : Nat.pow 2 53 * Nat.pow 2 (roundedAt num den).toNat ≤ limit := by
    rw [← two_pow_add]
    exact two_pow_le_limit (by omega)
  calc num
    _ ≤ (scaled num den).1 := Nat.le_mul_of_pos_right _ (two_pow_pos _)
    _ < Nat.pow 2 53 * (scaled num den).2 := scaled_lt num hden
    _ = Nat.pow 2 53 * Nat.pow 2 (roundedAt num den).toNat * den := by
      simp only [scaled]
      ring
    _ ≤ limit * den := Nat.mul_le_mul_right den hpower

/-- Above the greatest exponent, a ratio is not in the range. -/
theorem limit_mul_le_of_roundedAt (hden : 0 < den) (h : 972 ≤ roundedAt num den) :
    limit * den ≤ num := by
  have hnone : (-roundedAt num den).toNat = 0 := by omega
  have hpower : limit ≤ Nat.pow 2 52 * Nat.pow 2 (roundedAt num den).toNat := by
    rw [← two_pow_add]
    exact limit_le_two_pow (by omega)
  calc limit * den
    _ ≤ Nat.pow 2 52 * Nat.pow 2 (roundedAt num den).toNat * den :=
      Nat.mul_le_mul_right den hpower
    _ = Nat.pow 2 52 * (scaled num den).2 := by
      simp only [scaled]
      ring
    _ ≤ (scaled num den).1 := le_scaled hden (by omega)
    _ = num := by
      simp only [scaled, hnone]
      exact Nat.mul_one num

/-- At the greatest exponent, a ratio in the range is not rounded up to the next power of two. A tie
with that power goes up to it. -/
theorem halfEven_scaled_lt_iff (hden : 0 < den) (h : roundedAt num den = 971) :
    halfEven (scaled num den).1 (scaled num den).2 < Nat.pow 2 53 ↔ num < limit * den := by
  obtain ⟨k, hk⟩ : ∃ k : Nat, k = 971 := ⟨_, rfl⟩
  have hunits := scaled_of_nonneg (h.trans (congrArg Nat.cast hk.symm))
  have hlast : (2 * (Nat.pow 2 53 - 1) + 1) * (den * Nat.pow 2 k) = 2 * (limit * den) := by
    have hlimit : (2 * (Nat.pow 2 53 - 1) + 1) * Nat.pow 2 k = 2 * limit := by
      subst hk
      decide +kernel
    calc (2 * (Nat.pow 2 53 - 1) + 1) * (den * Nat.pow 2 k)
      _ = (2 * (Nat.pow 2 53 - 1) + 1) * Nat.pow 2 k * den := by ring
      _ = 2 * (limit * den) := by rw [hlimit, Nat.mul_assoc]
  have hodd : (Nat.pow 2 53 - 1) % 2 = 1 := by decide
  have hup := lt_halfEven_iff num (Nat.pow 2 53 - 1) (hunits ▸ scaled_snd_pos num hden)
  rw [hlast] at hup
  have hfits : halfEven num (den * Nat.pow 2 k) < Nat.pow 2 53 ↔
      ¬ Nat.pow 2 53 - 1 < halfEven num (den * Nat.pow 2 k) :=
    ⟨fun h => Nat.not_lt.mpr (Nat.le_sub_one_of_lt h),
      fun h => Nat.lt_of_le_sub_one (two_pow_pos 53) (Nat.not_lt.mp h)⟩
  simp only [hunits, hfits, hup, hodd, and_true]
  omega

/-- A ratio has a nearest number exactly below `2 ^ 1024 - 2 ^ 970`. -/
theorem isSome_nearest?_iff (negative : Bool) (hden : 0 < den) :
    (nearest? negative num den).isSome ↔ num < limit * den := by
  rw [isSome_nearest?_iff_roundedAt negative hden]
  rcases Int.lt_trichotomy (roundedAt num den) 971 with hless | hgreatest | hmore
  · exact iff_of_true (.inl (by omega)) (lt_limit_mul_of_roundedAt hden (by omega))
  · rw [← halfEven_scaled_lt_iff hden hgreatest]
    omega
  · exact iff_of_false (by omega) (Nat.not_lt.mpr (limit_mul_le_of_roundedAt hden (by omega)))

end

end Binary64

namespace Decimal

variable {d : Decimal}

/-- The value of a decimal. -/
def exact (d : Decimal) : ℚ := (if d.negative then -1 else 1) * d.digits * 10 ^ d.exponent

/-- The size of the value is the ratio of the decimal. -/
theorem abs_exact (d : Decimal) : |d.exact| = (d.ratio.1 : ℚ) / d.ratio.2 := by
  have hsign : |(if d.negative then -1 else 1 : ℚ)| = 1 := by
    split <;> simp
  have hpower : (10 : ℚ) ^ d.exponent =
      (10 : ℚ) ^ d.exponent.toNat / (10 : ℚ) ^ (-d.exponent).toNat := by
    rw [← zpow_natCast, ← zpow_natCast, ← zpow_sub₀ (by norm_num)]
    congr 1
    omega
  rw [exact, abs_mul, abs_mul, hsign, one_mul, Nat.abs_cast, abs_of_pos (by positivity), hpower,
    ratio]
  push_cast [Nat.pow_eq]
  ring

theorem abs_exact_lt_iff :
    |d.exact| < 2 ^ 1024 - 2 ^ 970 ↔ d.ratio.1 < Binary64.limit * d.ratio.2 := by
  have hlimit : ((Binary64.limit : ℕ) : ℚ) = 2 ^ 1024 - 2 ^ 970 := by
    have hle : 970 ≤ 1024 := by decide
    unfold Binary64.limit
    generalize 970 = j at hle ⊢
    generalize 1024 = k at hle ⊢
    rw [Nat.cast_sub (Binary64.two_pow_le hle)]
    push_cast [Nat.pow_eq]
    rfl
  rw [abs_exact, ← hlimit, div_lt_iff₀ (Nat.cast_pos.mpr d.ratio_snd_pos)]
  exact_mod_cast Iff.rfl

/-- A decimal without digits in front of the point is below one. -/
theorem ratio_lt_of_magnitude_nonpos (h : d.magnitude ≤ 0) : d.ratio.1 < d.ratio.2 := by
  have hcount := digitCount_pos d.digits
  have hdigits := (digitCount_le_iff hcount).mp (Nat.le_refl (digitCount d.digits))
  have hnone : d.exponent.toNat = 0 := by
    simp only [magnitude] at h
    omega
  have hle : Nat.pow 10 (digitCount d.digits) ≤ Nat.pow 10 (-d.exponent).toNat := by
    apply Nat.pow_le_pow_right (by decide)
    simp only [magnitude] at h
    omega
  simp only [ratio, hnone]
  exact Nat.lt_of_le_of_lt (Nat.le_of_eq (Nat.mul_one _)) (Nat.lt_of_lt_of_le hdigits hle)

/-- A decimal of more than 310 digits in front of the point is not in the range. -/
theorem le_ratio_of_magnitude (h : 310 < d.magnitude) (hdigits : d.digits ≠ 0) :
    Binary64.limit * d.ratio.2 ≤ d.ratio.1 := by
  have hcount := digitCount_pos d.digits
  have hlow : Nat.pow 10 (digitCount d.digits - 1) ≤ d.digits := by
    by_cases hone : digitCount d.digits = 1
    · rw [hone]
      exact Nat.pos_of_ne_zero hdigits
    · by_contra hless
      have hfew := (digitCount_le_iff (by omega)).mpr (Nat.lt_of_not_le hless)
      omega
  have hlimit : Binary64.limit ≤ Nat.pow 10 309 := by decide +kernel
  have hpower : Nat.pow 10 309 * d.ratio.2 ≤
      Nat.pow 10 (digitCount d.digits - 1) * Nat.pow 10 d.exponent.toNat := by
    simp only [ratio, Nat.pow_eq, ← Nat.pow_add]
    apply Nat.pow_le_pow_right (by decide)
    simp only [magnitude] at h
    omega
  have hlower := Nat.mul_le_mul_right d.ratio.2 hlimit
  calc Binary64.limit * d.ratio.2
    _ ≤ Nat.pow 10 309 * d.ratio.2 := hlower
    _ ≤ Nat.pow 10 (digitCount d.digits - 1) * Nat.pow 10 d.exponent.toNat := hpower
    _ ≤ d.ratio.1 := Nat.mul_le_mul_right _ hlow

theorem ratio_lt_limit_mul (h : d.digits = 0 ∨ d.magnitude ≤ 0) :
    d.ratio.1 < Binary64.limit * d.ratio.2 := by
  rcases h with hzero | hsmall
  · have hratio : d.ratio.1 = 0 := by simp [ratio, hzero]
    rw [hratio]
    exact Nat.mul_pos Binary64.limit_pos d.ratio_snd_pos
  · exact Nat.lt_of_lt_of_le (ratio_lt_of_magnitude_nonpos hsmall)
      (Nat.le_mul_of_pos_left _ Binary64.limit_pos)

/-- A decimal has a nearest number exactly if its size is below `2 ^ 1024 - 2 ^ 970`. -/
theorem isSome_binary?_iff : d.binary?.isSome ↔ |d.exact| < 2 ^ 1024 - 2 ^ 970 := by
  rw [abs_exact_lt_iff, binary?]
  by_cases hsmall : d.digits = 0 ∨ d.magnitude < -330
  · rw [if_pos hsmall]
    exact iff_of_true rfl (ratio_lt_limit_mul (hsmall.imp_right fun hless => by omega))
  rw [if_neg hsmall]
  by_cases hlarge : 310 < d.magnitude
  · rw [if_pos hlarge]
    have hmore := le_ratio_of_magnitude hlarge fun hzero => hsmall (.inl hzero)
    exact iff_of_false (by simp) (Nat.not_lt.mpr hmore)
  · rw [if_neg hlarge]
    exact Binary64.isSome_nearest?_iff d.negative d.ratio_snd_pos

end Decimal

end SchemaMigration
