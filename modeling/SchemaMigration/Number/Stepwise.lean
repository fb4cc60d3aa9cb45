import SchemaMigration.Number.Decimal

/-!
# Decimals read in rounded steps

A literal is read without exact arithmetic on all its digits. Of the digits, those are kept that a
64-bit significand holds. The kept decimal becomes a binary64 number in steps, each of which rounds:
the significand, the power of ten, and their product or quotient. Where the first two are exact the
result is the nearest number; elsewhere it may be a neighbour of it, so that a literal with more
zeros at its end can give another number.
-/

namespace SchemaMigration

namespace Binary64

/-- The product of two numbers, rounded; none beyond the finite range. -/
def times? (x y : Binary64) : Option Binary64 :=
  nearest? (x.negative != y.negative) (x.ratio.1 * y.ratio.1) (x.ratio.2 * y.ratio.2)

/-- The quotient of two numbers, rounded; none beyond the finite range or by zero. -/
def over? (x y : Binary64) : Option Binary64 :=
  if y.isZero then none
  else nearest? (x.negative != y.negative) (x.ratio.1 * y.ratio.2) (x.ratio.2 * y.ratio.1)

/-- The greatest power of ten that a finite number is near to. -/
def greatestTen : Nat := 308

/-- The number nearest to a power of ten. -/
def tenTo? (power : Nat) : Option Binary64 := nearest? false (Nat.pow 10 power) 1

/-- A number divided several times by the greatest power of ten, down to zero at most. -/
def lower? : Nat → Binary64 → Option Binary64
  | 0, x => some x
  | times + 1, x =>
    if x.isZero then some x
    else do lower? times (← x.over? (← tenTo? greatestTen))

end Binary64

namespace Decimal

open Binary64

/-- The number that a decimal gives in steps. A power of ten below the least is divided out in
parts, the greatest ones first; one above the greatest is beyond the finite range. -/
def stepwise? (d : Decimal) : Option Binary64 := do
  let significand ← nearest? d.negative d.digits 1
  if significand.isZero then return significand
  if 0 ≤ d.exponent then
    if d.exponent ≤ greatestTen then significand.times? (← tenTo? d.exponent.toNat) else none
  else
    let size := d.exponent.natAbs
    let parts := (size - 1) / greatestTen
    (← lower? parts significand).over? (← tenTo? (size - parts * greatestTen))

/-- Takes digits from the left into a significand as long as 64 bits hold it; gives it and the count
of digits taken. -/
def keep (significand : Nat) : List Char → Nat × Nat
  | [] => (significand, 0)
  | c :: cs =>
    let longer := 10 * significand + (c.toNat - '0'.toNat)
    if longer < UInt64.size then
      let rest := keep longer cs
      (rest.1, rest.2 + 1)
    else (significand, 0)

/-- More digits make no smaller number. -/
theorem le_ofDigitChars (significand : Nat) (digits : List Char) :
    significand ≤ Nat.ofDigitChars 10 digits significand := by
  induction digits generalizing significand with
  | nil => exact Nat.le_refl _
  | cons c cs ih =>
    rw [Nat.ofDigitChars_cons]
    exact Nat.le_trans (by omega) (ih _)

/-- Digits of which 64 bits hold the whole number are all taken. -/
theorem keep_of_lt {significand : Nat} {digits : List Char}
    (h : Nat.ofDigitChars 10 digits significand < UInt64.size) :
    keep significand digits = (Nat.ofDigitChars 10 digits significand, digits.length) := by
  induction digits generalizing significand with
  | nil => rfl
  | cons c cs ih =>
    rw [Nat.ofDigitChars_cons] at h ⊢
    simp only [keep, ih h, if_pos (Nat.lt_of_le_of_lt (le_ofDigitChars _ cs) h), List.length_cons]

/-- The decimal of the digits that are kept of a literal. Digits left out in front of the point
count as zeros, those behind it not at all. -/
def kept (negative : Bool) (whole fraction : List Char) (exponent : Int) : Decimal :=
  let front := keep 0 whole
  let all := keep front.1 fraction
  ⟨negative, all.1, exponent + ((whole.length - front.2 : Nat) : Int) - (all.2 : Int)⟩

end Decimal

end SchemaMigration
