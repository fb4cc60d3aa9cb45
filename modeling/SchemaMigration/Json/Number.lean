import SchemaMigration.Number.Decimal

/-!
# Numbers of a document

A document distinguishes whole numbers from others by their spelling: digits alone that fit 64 bits,
unsigned or, with a minus sign, signed, are an integer; every other literal is a binary64 number,
the nearest one or a neighbour of it. Bounds compare across the two kinds by their binary64 values,
so that `100` and `100.0` are the same bound.
-/

namespace SchemaMigration.Json

/-- The integers that 64 bits hold, signed or unsigned. -/
def InWord (i : Int) : Prop := Int64.minValue.toInt ≤ i ∧ i < UInt64.size

instance (i : Int) : Decidable (InWord i) := inferInstanceAs (Decidable (_ ∧ _))

/-- A number as a document holds it. -/
inductive Number where
  | integer (value : Int) (inWord : InWord value)
  | real (value : Binary64)
deriving DecidableEq

namespace Number

/-- The number as it is written in a document. -/
def text : Number → String
  | integer i _ => toString i
  | real x => String.ofList x.text

/-- The nearest binary64 number. -/
def binary? : Number → Option Binary64
  | integer i _ => Binary64.ofInt? i
  | real x => some x

/-- Two numbers are written alike: of the same kind and of the same value. -/
def alike : Number → Number → Bool
  | integer i _, integer j _ => i = j
  | real x, real y => x.sameValue y
  | _, _ => false

/-- Two numbers have the same nearest binary64 value. -/
def sameValue (a b : Number) : Bool :=
  match a.binary?, b.binary? with
  | some x, some y => x.sameValue y
  | none, none => true
  | _, _ => false

/-- The unsigned integer that a number is held as, if it is. -/
def unsigned? : Number → Option Nat
  | integer i _ => if 0 ≤ i then some i.toNat else none
  | real _ => none

/-- The unsigned integer that a number is converted to, through its nearest binary64 number. This
must have no fraction and lie between zero and the number nearest to the greatest integer of 64
bits, both of them left out. -/
def converted? (n : Number) : Option Nat :=
  let inRange (x : Binary64) :=
    x.isWhole && (Binary64.zero false).isLess x && Binary64.greatestWord?.any x.isLess
  (n.binary?.filter inRange).map Binary64.toWord

/-- The positive whole number that a number stands for: the integer it is held as, otherwise the one
it is converted to. -/
def positive? (n : Number) : Option Nat := (n.unsigned?.or n.converted?).filter (0 < ·)

end Number

/-- Two optional bounds agree: both are absent, or both are there with the same value. -/
def sameBound : Option Number → Option Number → Bool
  | none, none => true
  | some a, some b => a.alike b || a.sameValue b
  | _, _ => false

end SchemaMigration.Json
