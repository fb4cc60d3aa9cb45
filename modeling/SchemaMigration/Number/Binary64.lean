/-!
# Finite binary64 numbers

A finite binary64 number is a sign, a significand below `2 ^ 53` and an exponent of two, in the one
form that the format allows: the exponent is the least one, or the significand has all its 53 bits.
So equal structures are equal bit patterns, and the two zeros differ in their sign only.

Rounding a ratio of naturals to the nearest number, ties to an even significand, is exact integer
arithmetic: the binary order of the ratio fixes the exponent, one division with remainder the
significand. Numbers are compared, and converted to integers of 64 bits, by their ratios too.
-/

namespace SchemaMigration

/-- The pairs of significand and exponent that stand for a finite number. -/
def Canonical (significand : Nat) (exponent : Int) : Prop :=
  significand < Nat.pow 2 53 ∧ -1074 ≤ exponent ∧ exponent ≤ 971 ∧
    (Nat.pow 2 52 ≤ significand ∨ exponent = -1074)

instance (significand : Nat) (exponent : Int) : Decidable (Canonical significand exponent) :=
  inferInstanceAs (Decidable (_ ∧ _ ∧ _ ∧ (_ ∨ _)))

/-- A finite binary64 number: `significand * 2 ^ exponent` with a sign. -/
structure Binary64 where
  negative : Bool
  significand : Nat
  exponent : Int
  canonical : Canonical significand exponent
deriving DecidableEq

namespace Binary64

/-- A zero of the given sign. -/
def zero (negative : Bool) : Binary64 := ⟨negative, 0, -1074, by decide⟩

/-- The number of the given parts, if they are the parts of a number. -/
def ofParts? (negative : Bool) (significand : Nat) (exponent : Int) : Option Binary64 :=
  if h : Canonical significand exponent then some ⟨negative, significand, exponent, h⟩ else none

/-- Both zeros are zero. -/
def isZero (x : Binary64) : Bool := x.significand == 0

/-- Two numbers have the same value: the same parts, or both are zero. -/
def sameValue (x y : Binary64) : Bool := x = y || (x.isZero && y.isZero)

/-- A ratio rounded to the nearest natural, ties to even. -/
def halfEven (num den : Nat) : Nat :=
  let quotient := num / den
  match compare (2 * (num % den)) den with
  | .lt => quotient
  | .gt => quotient + 1
  | .eq => if quotient % 2 = 0 then quotient else quotient + 1

/-- The binary order of a ratio that is at least `2 ^ -1100`: the `k` with
`2 ^ k ≤ num / den < 2 ^ (k + 1)`. Smaller ratios get the order `-1100`. -/
def binaryOrder (num den : Nat) : Int := Nat.log2 (num * Nat.pow 2 1100 / den) - 1100

/-- The number nearest to a ratio, ties to an even significand; none beyond the finite range. -/
def nearest? (negative : Bool) (num den : Nat) : Option Binary64 :=
  let exponent := max (binaryOrder num den - 52) (-1074)
  let significand := halfEven (num * Nat.pow 2 (-exponent).toNat) (den * Nat.pow 2 exponent.toNat)
  if significand = Nat.pow 2 53 then ofParts? negative (Nat.pow 2 52) (exponent + 1)
  else ofParts? negative significand exponent

/-- The number nearest to an integer. -/
def ofInt? (i : Int) : Option Binary64 := nearest? (i < 0) i.natAbs 1

/-- The size of a number as a ratio of naturals. -/
def ratio (x : Binary64) : Nat × Nat :=
  (x.significand * Nat.pow 2 x.exponent.toNat, Nat.pow 2 (-x.exponent).toNat)

/-- The numerator of the ratio, with the sign of the number. -/
def numerator (x : Binary64) : Int := if x.negative then -(x.ratio.1 : Int) else x.ratio.1

/-- One number is less than another. Of the two zeros, neither is less. -/
def isLess (x y : Binary64) : Bool := x.numerator * y.ratio.2 < y.numerator * x.ratio.2

/-- A number has no fraction. -/
def isWhole (x : Binary64) : Bool := x.ratio.1 % x.ratio.2 = 0

/-- A number without its fraction, as an unsigned integer of 64 bits. A number beyond these becomes
the integer at that end: below zero it is zero, above the greatest it is the greatest. -/
def toWord (x : Binary64) : Nat :=
  if x.negative then 0 else min (x.ratio.1 / x.ratio.2) (UInt64.size - 1)

/-- The number nearest to the greatest unsigned integer of 64 bits. -/
def greatestWord? : Option Binary64 := ofInt? (UInt64.size - 1)

end Binary64

end SchemaMigration
