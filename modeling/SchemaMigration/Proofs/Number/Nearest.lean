import Mathlib.Tactic.Ring
import SchemaMigration.Number.Decimal

/-!
# Shortest digits read back

Rounding a ratio to the nearest binary64 number depends on the ratio alone, not on the naturals that
stand for it, and a binary64 number is the nearest one to its own ratio. So the nearest number to a
decimal depends on its value, however many zeros its digits end in, and the decimal of fewest digits
that `Binary64.shortest` finds has the number it was found for as its nearest.
-/

namespace SchemaMigration

theorem div_congr {a b c d : Nat} (hb : 0 < b) (hd : 0 < d) (h : a * d = c * b) :
    a / b = c / d := by
  calc a / b
    _ = a * d / (b * d) := (Nat.mul_div_mul_right a b hd).symm
    _ = c * b / (b * d) := by rw [h]
    _ = c * b / (d * b) := by rw [Nat.mul_comm b d]
    _ = c / d := Nat.mul_div_mul_right c d hb

theorem mod_congr {a b c d : Nat} (hb : 0 < b) (hd : 0 < d) (h : a * d = c * b) :
    a % b * d = c % d * b := by
  have hq := div_congr hb hd h
  have ha := congrArg (· * d) (Nat.div_add_mod a b)
  have hc := congrArg (· * b) (Nat.div_add_mod c d)
  simp only [Nat.add_mul, hq] at ha hc
  have hcomm : b * (c / d) * d = d * (c / d) * b := by ring
  omega

theorem compare_congr {a b c d : Nat} (hb : 0 < b) (hd : 0 < d) (h : a * d = c * b) :
    compare a b = compare c d := by
  have hlt : a < b ↔ c < d := by
    rw [← Nat.mul_lt_mul_right hd, h, Nat.mul_comm b d, Nat.mul_lt_mul_right hb]
  have hgt : b < a ↔ d < c := by
    rw [← Nat.mul_lt_mul_right hd, h, Nat.mul_comm b d, Nat.mul_lt_mul_right hb]
  simp only [Nat.compare_eq_ite_lt, hlt, hgt]

namespace Binary64

theorem halfEven_congr {a b c d : Nat} (hb : 0 < b) (hd : 0 < d) (h : a * d = c * b) :
    halfEven a b = halfEven c d := by
  have hmod : 2 * (a % b) * d = 2 * (c % d) * b := by
    rw [Nat.mul_assoc, Nat.mul_assoc, mod_congr hb hd h]
  rw [halfEven, halfEven, div_congr hb hd h, compare_congr hb hd hmod]

theorem halfEven_mul_self (n : Nat) {den : Nat} (h : 0 < den) : halfEven (n * den) den = n := by
  have hless : compare (2 * 0) den = .lt := Nat.compare_eq_lt.mpr (by omega)
  rw [halfEven, Nat.mul_mod_left, hless]
  exact Nat.mul_div_cancel n h

/-- The nearest number depends on the ratio alone. -/
theorem nearest?_congr (negative : Bool) {a b c d : Nat} (hb : 0 < b) (hd : 0 < d)
    (h : a * d = c * b) : nearest? negative a b = nearest? negative c d := by
  have horder : binaryOrder a b = binaryOrder c d := by
    have hscaled : a * Nat.pow 2 1100 * d = c * Nat.pow 2 1100 * b := by
      rw [Nat.mul_right_comm, h, Nat.mul_right_comm]
    rw [binaryOrder, binaryOrder, div_congr hb hd hscaled]
  have hround : ∀ m e, halfEven (a * m) (b * Nat.pow 2 e) = halfEven (c * m) (d * Nat.pow 2 e) := by
    intro m e
    have hpos : 0 < Nat.pow 2 e := Nat.pow_pos (by decide)
    apply halfEven_congr (Nat.mul_pos hb hpos) (Nat.mul_pos hd hpos)
    calc a * m * (d * Nat.pow 2 e)
      _ = a * d * (m * Nat.pow 2 e) := by ring
      _ = c * b * (m * Nat.pow 2 e) := by rw [h]
      _ = c * m * (b * Nat.pow 2 e) := by ring
  simp only [nearest?, horder, hround]

theorem log2_mul_two_pow {n : Nat} (h : n ≠ 0) (k : Nat) :
    Nat.log2 (n * Nat.pow 2 k) = Nat.log2 n + k := by
  have hpos : n * Nat.pow 2 k ≠ 0 := Nat.mul_ne_zero h (Nat.pow_pos (by decide)).ne'
  obtain ⟨hlow, hhigh⟩ := (Nat.log2_eq_iff h).mp rfl
  apply (Nat.log2_eq_iff hpos).mpr
  constructor
  · rw [Nat.pow_add]
    exact Nat.mul_le_mul_right _ hlow
  · rw [Nat.add_right_comm, Nat.pow_add]
    exact Nat.mul_lt_mul_of_pos_right hhigh (Nat.pow_pos (by decide))

theorem ratio_snd_pos (x : Binary64) : 0 < x.ratio.2 := Nat.pow_pos (by decide)

/-- The binary order of a number is that of its significand, moved by its exponent. -/
theorem binaryOrder_ratio {x : Binary64} (h : x.significand ≠ 0) :
    binaryOrder x.ratio.1 x.ratio.2 = Nat.log2 x.significand + x.exponent := by
  obtain ⟨-, hlow, -, -⟩ := x.canonical
  have hsum : x.exponent.toNat + 1100 = (x.exponent + 1100).toNat + (-x.exponent).toNat := by omega
  have hscaled : x.ratio.1 * Nat.pow 2 1100 =
      x.significand * Nat.pow 2 (x.exponent + 1100).toNat * x.ratio.2 := by
    simp only [ratio, Nat.pow_eq, Nat.mul_assoc, ← Nat.pow_add, hsum]
  rw [binaryOrder, hscaled, Nat.mul_div_cancel _ x.ratio_snd_pos, log2_mul_two_pow h]
  omega

/-- The exponent that rounding a ratio chooses for a number is its own. -/
theorem exponent_eq {x : Binary64} (h : x.significand ≠ 0) :
    max (binaryOrder x.ratio.1 x.ratio.2 - 52) (-1074) = x.exponent := by
  obtain ⟨hsmall, hlow, -, hfull⟩ := x.canonical
  rw [binaryOrder_ratio h]
  have hupper : Nat.log2 x.significand < 53 := (Nat.log2_lt h).mpr hsmall
  rcases hfull with hfull | hleast
  · have hlower : 52 ≤ Nat.log2 x.significand := (Nat.le_log2 h).mpr hfull
    omega
  · omega

/-- A number is the nearest one to its own ratio. -/
theorem nearest?_ratio {x : Binary64} (h : x.significand ≠ 0) :
    nearest? x.negative x.ratio.1 x.ratio.2 = some x := by
  have hpos : ∀ e, 0 < Nat.pow 2 e := fun e => Nat.pow_pos (by decide)
  have hround : halfEven (x.ratio.1 * Nat.pow 2 (-x.exponent).toNat)
      (x.ratio.2 * Nat.pow 2 x.exponent.toNat) = x.significand := by
    have hscaled : x.ratio.1 * Nat.pow 2 (-x.exponent).toNat =
        x.significand * (x.ratio.2 * Nat.pow 2 x.exponent.toNat) := by
      simp only [ratio]
      ring
    rw [hscaled]
    exact halfEven_mul_self _ (Nat.mul_pos x.ratio_snd_pos (hpos _))
  have hsmall : x.significand ≠ Nat.pow 2 53 := x.canonical.1.ne
  simp only [nearest?, exponent_eq h, hround, if_neg hsmall, ofParts?, dif_pos x.canonical]

end Binary64

theorem digitCount_pos (n : Nat) : 0 < digitCount n := Nat.length_toDigits_pos

theorem digitCount_le_iff {n k : Nat} (h : 0 < k) : digitCount n ≤ k ↔ n < Nat.pow 10 k :=
  Nat.length_toDigits_le_iff (by decide) h

/-- Every zero at the end is one more digit. -/
theorem digitCount_mul_pow {n : Nat} (h : 0 < n) (k : Nat) :
    digitCount (n * Nat.pow 10 k) = digitCount n + k := by
  induction k with
  | zero => exact congrArg digitCount (Nat.mul_one n)
  | succ k ih =>
      have hpos : 0 < n * Nat.pow 10 k := Nat.mul_pos h (Nat.pow_pos (by decide))
      have hten : n * Nat.pow 10 (k + 1) = 10 * (n * Nat.pow 10 k) + 0 := by
        rw [Nat.pow_eq, Nat.pow_succ, ← Nat.pow_eq]
        ring
      have hdigits := Nat.toDigits_append_toDigits (d := 0) (by decide : 1 < 10) hpos (by decide)
      rw [digitCount, hten, ← hdigits, List.length_append, Nat.toDigits_zero, List.length_singleton,
        ← digitCount, ih, Nat.add_assoc]

namespace Decimal

theorem ratio_snd_pos (d : Decimal) : 0 < d.ratio.2 := Nat.pow_pos (by decide)

/-- Zeros at the end of the digits do not matter for the nearest number. -/
theorem binary?_scale (negative : Bool) (digits k : Nat) (exponent : Int) :
    (Decimal.mk negative (digits * Nat.pow 10 k) (exponent - k)).binary? =
      (Decimal.mk negative digits exponent).binary? := by
  by_cases hzero : digits = 0
  · simp [binary?, hzero]
  have hpos : 0 < digits := Nat.pos_of_ne_zero hzero
  have hscaled : digits * Nat.pow 10 k ≠ 0 :=
    (Nat.mul_pos hpos (Nat.pow_pos (by decide))).ne'
  have hmagnitude : (Decimal.mk negative (digits * Nat.pow 10 k) (exponent - k)).magnitude =
      (Decimal.mk negative digits exponent).magnitude := by
    simp only [magnitude, digitCount_mul_pow hpos]
    omega
  have hsum : k + (exponent - k).toNat + (-exponent).toNat =
      exponent.toNat + (-(exponent - k)).toNat := by omega
  have hratio : (Decimal.mk negative (digits * Nat.pow 10 k) (exponent - k)).ratio.1 *
      (Decimal.mk negative digits exponent).ratio.2 =
      (Decimal.mk negative digits exponent).ratio.1 *
        (Decimal.mk negative (digits * Nat.pow 10 k) (exponent - k)).ratio.2 := by
    simp only [ratio, Nat.pow_eq, Nat.mul_assoc, ← Nat.pow_add, ← hsum]
  simp only [binary?, hmagnitude, hzero, hscaled]
  rw [Binary64.nearest?_congr negative (ratio_snd_pos _) (ratio_snd_pos _) hratio]

/-- Without the zeros at its end, a decimal has the same nearest number. -/
theorem binary?_stripZeros (fuel : Nat) (d : Decimal) :
    (stripZeros fuel d).binary? = d.binary? := by
  induction fuel generalizing d with
  | zero => rfl
  | succ fuel ih =>
      rw [stripZeros]
      split
      · next h =>
        rw [ih]
        have hscale := binary?_scale d.negative (d.digits / 10) 1 (d.exponent + 1)
        have hdigits : d.digits / 10 * Nat.pow 10 1 = d.digits := Nat.div_mul_cancel
          (Nat.dvd_of_mod_eq_zero h.2)
        have hexponent : d.exponent + 1 - (1 : Nat) = d.exponent := by omega
        rw [hdigits, hexponent] at hscale
        exact hscale.symm
      · rfl

end Decimal

namespace Binary64

/-- Powers of five outgrow powers of ten that lag far enough behind. -/
theorem pow_ten_le_pow_five {a b m : Nat} (hbase : Nat.pow 2 a ≤ Nat.pow 5 b) (h : m ≤ b + a) :
    Nat.pow 10 (m - b) ≤ Nat.pow 5 m := by
  by_cases hsmall : m ≤ b
  · rw [Nat.sub_eq_zero_of_le hsmall]
    exact Nat.pow_pos (by decide)
  · have htwo : Nat.pow 2 (m - b) ≤ Nat.pow 2 a := Nat.pow_le_pow_right (by decide) (by omega)
    calc Nat.pow 10 (m - b)
      _ = Nat.pow 2 (m - b) * Nat.pow 5 (m - b) := Nat.mul_pow 2 5 (m - b)
      _ ≤ Nat.pow 5 b * Nat.pow 5 (m - b) := Nat.mul_le_mul_right _ (htwo.trans hbase)
      _ = Nat.pow 5 (b + (m - b)) := (Nat.pow_add 5 b (m - b)).symm
      _ = Nat.pow 5 m := by rw [Nat.add_sub_cancel' (by omega)]

/-- Bounds on the binary parts of a number bound its exact decimal digits. -/
theorem digits_lt_pow_ten {significand a b c k m : Nat} (hs : significand < Nat.pow 2 a)
    (hk : k ≤ b) (hrange : Nat.pow 2 (a + b) ≤ Nat.pow 10 c) :
    significand * Nat.pow 2 k * Nat.pow 5 m < Nat.pow 10 (c + m) := by
  have hpower : Nat.pow 2 k ≤ Nat.pow 2 b := Nat.pow_le_pow_right (by decide) hk
  have hfive : Nat.pow 5 m ≤ Nat.pow 10 m := Nat.pow_le_pow_left (by decide) m
  calc significand * Nat.pow 2 k * Nat.pow 5 m
    _ < Nat.pow 2 a * Nat.pow 2 b * Nat.pow 10 m := by
      apply Nat.mul_lt_mul_of_lt_of_le _ hfive (Nat.pow_pos (by decide))
      exact Nat.mul_lt_mul_of_lt_of_le hs hpower (Nat.pow_pos (by decide))
    _ = Nat.pow 2 (a + b) * Nat.pow 10 m := congrArg (· * _) (Nat.pow_add 2 a b).symm
    _ ≤ Nat.pow 10 c * Nat.pow 10 m := Nat.mul_le_mul_right _ hrange
    _ = Nat.pow 10 (c + m) := (Nat.pow_add 10 c m).symm

theorem magnitude_exactly_le (x : Binary64) : x.exactly.magnitude ≤ 310 := by
  obtain ⟨hsmall, -, hhigh, -⟩ := x.canonical
  have hdigits : x.exactly.digits < Nat.pow 10 (310 + (-x.exponent).toNat) :=
    digits_lt_pow_ten (b := 971) hsmall (by omega) (by decide +kernel)
  have hcount := (digitCount_le_iff (by omega)).mpr hdigits
  simp only [Decimal.magnitude, exactly] at hcount ⊢
  omega

/-- The exact decimal of a number is not too small to have a nearest number other than zero. -/
theorem le_magnitude_exactly {x : Binary64} (h : x.significand ≠ 0) :
    -330 ≤ x.exactly.magnitude := by
  obtain ⟨-, hlow, -, -⟩ := x.canonical
  have hcount : (-x.exponent).toNat - 331 < digitCount x.exactly.digits := by
    by_contra hfew
    have hpositive := digitCount_pos x.exactly.digits
    have hless := (digitCount_le_iff (by omega)).mp (Nat.le_of_not_lt hfew)
    have hfive : Nat.pow 5 (-x.exponent).toNat ≤ x.exactly.digits := Nat.le_mul_of_pos_left _
      (Nat.mul_pos (Nat.pos_of_ne_zero h) (Nat.pow_pos (by decide)))
    have hten := pow_ten_le_pow_five (a := 743) (b := 331) (m := (-x.exponent).toNat)
      (by decide +kernel) (by omega)
    omega
  simp only [Decimal.magnitude, exactly] at hcount ⊢
  omega

/-- The nearest number to the exact value of a number is that number. -/
theorem binary?_exactly {x : Binary64} (h : x.significand ≠ 0) : x.exactly.binary? = some x := by
  have hlow := le_magnitude_exactly h
  have hhigh := x.magnitude_exactly_le
  have hdigits : x.exactly.digits ≠ 0 := by
    apply Nat.ne_of_gt
    exact Nat.mul_pos (Nat.mul_pos (Nat.pos_of_ne_zero h) (Nat.pow_pos (by decide)))
      (Nat.pow_pos (by decide))
  have hratio : x.exactly.ratio.1 * x.ratio.2 = x.ratio.1 * x.exactly.ratio.2 := by
    have hten : ∀ m, Nat.pow 5 m * Nat.pow 2 m = Nat.pow 10 m := fun m => (Nat.mul_pow 5 2 m).symm
    have hnone : (min x.exponent 0).toNat = 0 := by omega
    have hsame : (-min x.exponent 0).toNat = (-x.exponent).toNat := by omega
    simp only [Decimal.ratio, exactly, ratio, hnone, hsame, ← hten]
    have hone : Nat.pow 10 0 = 1 := rfl
    rw [hone]
    ring
  have hsmall : ¬ (x.exactly.digits = 0 ∨ x.exactly.magnitude < -330) := by omega
  have hlarge : ¬ 310 < x.exactly.magnitude := by omega
  rw [Decimal.binary?, if_neg hsmall, if_neg hlarge,
    nearest?_congr _ (Decimal.ratio_snd_pos _) x.ratio_snd_pos hratio]
  exact nearest?_ratio h

/-- What is found on a grid reads back. -/
theorem binary?_onGrid? {x : Binary64} {exponent : Int} {d : Decimal}
    (h : x.onGrid? exponent = some d) : d.binary? = some x := by
  have hneighbours : ∀ d ∈ x.neighbours exponent, d.binary? = some x := by
    intro d hd
    simpa using (List.mem_filter.mp hd).2
  unfold onGrid? at h
  split at h
  · cases h
  · next only hlist =>
    cases h
    exact hneighbours d (hlist ▸ List.mem_singleton_self d)
  · next lower upper rest hlist =>
    cases h
    rw [hlist] at hneighbours
    unfold nearer
    split
    · exact hneighbours lower List.mem_cons_self
    · exact hneighbours upper (List.mem_cons_of_mem _ List.mem_cons_self)
    · split
      · exact hneighbours lower List.mem_cons_self
      · exact hneighbours upper (List.mem_cons_of_mem _ List.mem_cons_self)

/-- Shortest digits read back: their nearest number is the number they were found for. -/
theorem binary?_shortest {x : Binary64} (h : x.significand ≠ 0) : x.shortest.binary? = some x := by
  rw [shortest, Decimal.binary?_stripZeros]
  cases hfound : (List.range' 1 17).findSome? fun (digits : Nat) =>
      x.onGrid? (x.decimalOrder - digits) with
  | none => exact binary?_exactly h
  | some d =>
      obtain ⟨digits, -, hgrid⟩ := List.exists_of_findSome?_eq_some hfound
      exact binary?_onGrid? hgrid

end Binary64

end SchemaMigration
