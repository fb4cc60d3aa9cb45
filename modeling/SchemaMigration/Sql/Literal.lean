import SchemaMigration.Number.Decimal
import SchemaMigration.Text.Basic

/-!
# Names and literals in SQL

A name stands between quotes, and a quote inside it is written twice. A literal stands between
single quotes under the same rule; where a backslash is special inside literals, it is written twice
too.

A text may stand without quotes when it spells a truth value or a number: an optional sign, digits
with at most one point among or beside them, and an optional exponent. A number too large for a
finite binary64 value needs quotes.
-/

namespace SchemaMigration.Sql

/-- A text with one of its characters written twice. -/
def doubled (mark : Char) (s : List Char) : List Char :=
  s.flatMap fun c => if c = mark then [mark, mark] else [c]

/-- A name between quotes. -/
def quoteName (mark : Char) (name : String) : String :=
  String.ofList (mark :: doubled mark name.toList ++ [mark])

/-- The inside of a literal; `backslashes` says whether a backslash is special there. -/
def literalBody (backslashes : Bool) (s : String) : String :=
  String.ofList (doubled '\'' (if backslashes then doubled '\\' s.toList else s.toList))

/-- A text as a literal. -/
def quoteLiteral (backslashes : Bool) (s : String) : String :=
  "'" ++ literalBody backslashes s ++ "'"

/-- The sign in front of a text, as whether it is a minus, and the text behind it. -/
def takeSign : List Char → Bool × List Char
  | '+' :: rest => (false, rest)
  | '-' :: rest => (true, rest)
  | rest => (false, rest)

/-- The exponent that a whole text is; no text is the exponent zero. -/
def exponent? : List Char → Option Int
  | [] => some 0
  | mark :: rest =>
    let (negative, digits) := takeSign rest
    if (mark = 'e' ∨ mark = 'E') ∧ digits ≠ [] ∧ digits.all Char.isDigit then
      let size : Int := Nat.ofDigitChars 10 digits 0
      some (if negative then -size else size)
    else none

/-- The digits behind a point in front of a text, and what follows them. -/
def takeFraction : List Char → List Char × List Char
  | '.' :: rest => (rest.takeWhile Char.isDigit, rest.dropWhile Char.isDigit)
  | rest => ([], rest)

/-- The decimal that a whole text spells. -/
def decimal? (s : List Char) : Option Decimal :=
  let (negative, unsigned) := takeSign s
  let whole := unsigned.takeWhile Char.isDigit
  let (fraction, rest) := takeFraction (unsigned.dropWhile Char.isDigit)
  if whole = [] ∧ fraction = [] then none
  else (exponent? rest).map fun exponent =>
    ⟨negative, Nat.ofDigitChars 10 (whole ++ fraction) 0, exponent - fraction.length⟩

/-- A text spells a truth value, in letters of either case. -/
def isTruthValue (s : List Char) : Bool :=
  s.map Char.toLower = "true".toList || s.map Char.toLower = "false".toList

/-- The names behind a sign that stand for no finite number, in letters of either case. -/
def isSpecialName (s : List Char) : Bool :=
  (takeSign s).2.map Char.toLower ∈ ["inf".toList, "infinity".toList, "nan".toList]

/-- What a reader of binary64 numbers makes of a whole text: nothing, or a number, which is none if
it is not finite. -/
def readBinary64? (s : List Char) : Option (Option Binary64) :=
  match decimal? s with
  | some d => some d.binary?
  | none => if isSpecialName s then some none else none

/-- A character that numbers are written with. -/
def isNumeralChar (c : Char) : Bool := c.isDigit || c ∈ ['-', '+', '.', 'e', 'E']

/-- A text may stand without quotes; blanks around it do not count. The characters are looked at
too, for a reader of numbers may know more than SQL does. -/
def isBareLiteral (s : String) : Bool :=
  let text := Text.trim s.toList
  if isTruthValue text then true
  else text ≠ [] && (readBinary64? text).any Option.isSome && text.all isNumeralChar

/-- How a text that may stand without quotes is written: without blanks, in capitals. -/
def bareLiteral (s : String) : String := String.ofList ((Text.trim s.toList).map Char.toUpper)

end SchemaMigration.Sql
