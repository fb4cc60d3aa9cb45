import SchemaMigration.Json.Number

/-!
# JSON values

A value as a tree. An object is the list of its members in the order in which they are written.

Equality tells all values apart that are written differently. Values are alike when they differ in
the signs of zeros at most.
-/

namespace SchemaMigration.Json

/-- A JSON value. -/
inductive Value where
  | null
  | bool (value : Bool)
  | number (value : Number)
  | string (value : String)
  | array (items : List Value)
  | object (members : List (String × Value))
deriving Inhabited

mutual

/-- Equality of values is decided tree by tree. -/
def Value.decEq : (a b : Value) → Decidable (a = b)
  | .null, b => match b with
    | .null => isTrue rfl
    | .bool _ | .number _ | .string _ | .array _ | .object _ => isFalse (by simp)
  | .bool p, b => match b with
    | .bool q => decidable_of_iff (p = q) (by simp)
    | .null | .number _ | .string _ | .array _ | .object _ => isFalse (by simp)
  | .number m, b => match b with
    | .number n => decidable_of_iff (m = n) (by simp)
    | .null | .bool _ | .string _ | .array _ | .object _ => isFalse (by simp)
  | .string s, b => match b with
    | .string t => decidable_of_iff (s = t) (by simp)
    | .null | .bool _ | .number _ | .array _ | .object _ => isFalse (by simp)
  | .array xs, b => match b with
    | .array ys =>
      have := decEqItems xs ys
      decidable_of_iff (xs = ys) (by simp)
    | .null | .bool _ | .number _ | .string _ | .object _ => isFalse (by simp)
  | .object xs, b => match b with
    | .object ys =>
      have := decEqMembers xs ys
      decidable_of_iff (xs = ys) (by simp)
    | .null | .bool _ | .number _ | .string _ | .array _ => isFalse (by simp)

/-- Equality of lists of items. -/
def decEqItems : (xs ys : List Value) → Decidable (xs = ys)
  | [], [] => isTrue rfl
  | [], _ :: _ | _ :: _, [] => isFalse (by simp)
  | x :: xs, y :: ys =>
    have := x.decEq y
    have := decEqItems xs ys
    decidable_of_iff (x = y ∧ xs = ys) (by simp)

/-- Equality of lists of members. -/
def decEqMembers : (xs ys : List (String × Value)) → Decidable (xs = ys)
  | [], [] => isTrue rfl
  | [], _ :: _ | _ :: _, [] => isFalse (by simp)
  | (k, x) :: xs, (l, y) :: ys =>
    have := x.decEq y
    have := decEqMembers xs ys
    decidable_of_iff ((k = l ∧ x = y) ∧ xs = ys) (by simp)

end

instance : DecidableEq Value := Value.decEq

mutual

/-- Two values are alike: the same tree with numbers that are alike. -/
def Value.alike : Value → Value → Bool
  | .null, .null => true
  | .bool a, .bool b => a = b
  | .number a, .number b => a.alike b
  | .string a, .string b => a = b
  | .array as, .array bs => alikeItems as bs
  | .object as, .object bs => alikeMembers as bs
  | _, _ => false

/-- Two lists of items are alike, one by one. -/
def alikeItems : List Value → List Value → Bool
  | [], [] => true
  | a :: as, b :: bs => a.alike b && alikeItems as bs
  | _, _ => false

/-- Two lists of members are alike: the same keys with values that are alike. -/
def alikeMembers : List (String × Value) → List (String × Value) → Bool
  | [], [] => true
  | (k, a) :: as, (l, b) :: bs => k = l && a.alike b && alikeMembers as bs
  | _, _ => false

end

end SchemaMigration.Json
