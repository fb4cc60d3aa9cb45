import SchemaMigration.Number.Binary64

/-!
# Decimals

A decimal is a sign, a natural and a power of ten. `Decimal.binary?` is the binary64 number nearest
to it. `Binary64.shortest` goes back: it searches the grids of one, two, up to seventeen digits for
a decimal to which the number is nearest, and of two on one grid it takes the nearer one. A number
that no grid of these holds is given exactly, so the number is nearest to whatever is selected.

A number is written with its shortest digits: positionally, with at least one digit on each side of
the point, when its first digit stands between the fifth place after the point and the sixteenth
before it; otherwise in scientific notation, whose exponent always carries a sign.
-/

namespace SchemaMigration

/-- The decimal `digits * 10 ^ exponent`, with a sign. -/
structure Decimal where
  negative : Bool
  digits : Nat
  exponent : Int
deriving DecidableEq

/-- The count of digits of a natural; zero has one. -/
def digitCount (n : Nat) : Nat := (Nat.toDigits 10 n).length

namespace Decimal

/-- The size of a decimal as a ratio of naturals. -/
def ratio (d : Decimal) : Nat × Nat :=
  (d.digits * Nat.pow 10 d.exponent.toNat, Nat.pow 10 (-d.exponent).toNat)

/-- The power of ten that a decimal is below, and unless it is zero, not below a tenth of. -/
def magnitude (d : Decimal) : Int := digitCount d.digits + d.exponent

/-- The binary64 number nearest to a decimal; none beyond the finite range. A size far outside the
range of the format is settled by its magnitude, without writing its power of ten. -/
def binary? (d : Decimal) : Option Binary64 :=
  if d.digits = 0 ∨ d.magnitude < -330 then some (.zero d.negative)
  else if 310 < d.magnitude then none
  else Binary64.nearest? d.negative d.ratio.1 d.ratio.2

/-- The same decimal without zeros at the end of its digits, at most `fuel` of them. -/
def stripZeros : Nat → Decimal → Decimal
  | 0, d => d
  | fuel + 1, d =>
    if d.digits ≠ 0 ∧ d.digits % 10 = 0 then
      stripZeros fuel { d with digits := d.digits / 10, exponent := d.exponent + 1 }
    else d

/-- The places of the first digit, as powers of ten, that are written positionally. -/
def isPositional (place : Int) : Bool := -5 ≤ place && place < 16

/-- Positional notation of the digits, of which `whole` stand before the point. -/
def positional (digits : List Char) (whole : Int) : List Char :=
  if whole ≤ 0 then "0.".toList ++ List.replicate (-whole).toNat '0' ++ digits
  else if digits.length ≤ whole then
    digits ++ List.replicate (whole - digits.length).toNat '0' ++ ".0".toList
  else digits.take whole.toNat ++ '.' :: digits.drop whole.toNat

/-- Scientific notation of the digits, the first of which stands at the place. -/
def scientific (digits : List Char) (place : Int) : List Char :=
  digits.take 1 ++ (if digits.length ≤ 1 then [] else '.' :: digits.drop 1) ++
    'e' :: (if place < 0 then '-' else '+') :: Nat.toDigits 10 place.natAbs

/-- The notation of a decimal whose digits end in no zero. -/
def text (d : Decimal) : List Char :=
  let digits := Nat.toDigits 10 d.digits
  let place := d.exponent + digits.length - 1
  (if d.negative then ['-'] else []) ++
    if isPositional place then positional digits (place + 1) else scientific digits place

end Decimal

namespace Binary64

/-- The least power of ten above a number other than zero. -/
def decimalOrder (x : Binary64) : Int :=
  digitCount (x.ratio.1 * Nat.pow 10 400 / x.ratio.2) - 400

/-- Of the two neighbours of a number on the grid `10 ^ exponent`, those it is nearest to. -/
def neighbours (x : Binary64) (exponent : Int) : List Decimal :=
  let below := x.ratio.1 * Nat.pow 10 (-exponent).toNat / (x.ratio.2 * Nat.pow 10 exponent.toNat)
  [⟨x.negative, below, exponent⟩, ⟨x.negative, below + 1, exponent⟩].filter (·.binary? = some x)

/-- The nearer of two adjacent grid points around a number; on a tie, the one with an even digit. -/
def nearer (x : Binary64) (lower upper : Decimal) : Decimal :=
  match compare (2 * x.ratio.1 * Nat.pow 10 (-lower.exponent).toNat)
      ((lower.digits + upper.digits) * Nat.pow 10 lower.exponent.toNat * x.ratio.2) with
  | .lt => lower
  | .gt => upper
  | .eq => if lower.digits % 2 = 0 then lower else upper

/-- The grid point for a number on one grid, if it is nearest to one. -/
def onGrid? (x : Binary64) (exponent : Int) : Option Decimal :=
  match x.neighbours exponent with
  | [] => none
  | [only] => some only
  | lower :: upper :: _ => some (x.nearer lower upper)

/-- The exact decimal value of a number. -/
def exactly (x : Binary64) : Decimal :=
  ⟨x.negative, x.significand * Nat.pow 2 x.exponent.toNat * Nat.pow 5 (-x.exponent).toNat,
    min x.exponent 0⟩

/-- The decimal of fewest digits that the number is nearest to; of those, the one nearest to it. -/
def shortest (x : Binary64) : Decimal :=
  let found := (List.range' 1 17).findSome? fun (digits : Nat) =>
    x.onGrid? (x.decimalOrder - digits)
  let chosen := found.getD x.exactly
  chosen.stripZeros (digitCount chosen.digits)

/-- The notation of a number; a zero keeps its sign. -/
def text (x : Binary64) : List Char :=
  if x.isZero then (Decimal.mk x.negative 0 0).text else x.shortest.text

end Binary64

end SchemaMigration
