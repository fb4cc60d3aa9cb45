import SchemaMigration.Failure
import SchemaMigration.Number.Stepwise

/-!
# Scanning the tokens of JSON

A scan takes characters from the front of a text and gives what it read, or the first fault. Numbers
and strings come in two readings. The strict one, for values that are kept, pairs surrogates. The
loose one, for values that are skipped, checks the shape of escapes alone, and a number that the end
of the text cuts short is an invalid number to it.

An escape tells how many characters it takes, so that scanning a string is one pass over the text.
-/

namespace SchemaMigration.Json

/-- Takes characters from the front of a text, or stops at the first fault. -/
abbrev Scan := StateT (List Char) (Except Fault)

/-- The blanks between tokens. -/
def isBlank (c : Char) : Bool := c = ' ' || c = '\t' || c = '\n' || c = '\r'

namespace Scan

/-- Skips blanks and shows the next character without taking it. -/
def look : Scan (Option Char) := fun text =>
  .ok ((text.dropWhile isBlank).head?, text.dropWhile isBlank)

/-- Takes one character. -/
def skipChar : Scan Unit := fun text => .ok ((), text.tail)

/-- Takes the given letters. -/
def word : List Char → Scan Unit
  | [] => pure ()
  | letter :: letters => do
    match ← get with
    | [] => throw .endInValue
    | c :: rest =>
      if c = letter then do
        set rest
        word letters
      else throw .expectedWord

/-- The value of a hexadecimal digit. -/
def hexDigit? (c : Char) : Option Nat :=
  if '0' ≤ c ∧ c ≤ '9' then some (c.toNat - 0x30)
  else if 'a' ≤ c ∧ c ≤ 'f' then some (c.toNat - 0x57)
  else if 'A' ≤ c ∧ c ≤ 'F' then some (c.toNat - 0x37)
  else none

/-- The value of four hexadecimal digits. -/
def unit? (a b c d : Char) : Option Nat := do
  return (((← hexDigit? a) * 16 + (← hexDigit? b)) * 16 + (← hexDigit? c)) * 16 + (← hexDigit? d)

/-- The 16-bit unit at the front of a text. Where fewer than four bytes are left, the text ends. -/
def unit : List Char → Except Fault Nat
  | a :: b :: c :: d :: _ =>
    match unit? a b c d with
    | some value => .ok value
    | none => .error .invalidEscape
  | rest => .error (if (String.ofList rest).utf8ByteSize < 4 then .endInString else .invalidEscape)

/-- The first unit of a pair of surrogates. -/
def isHighSurrogate (value : Nat) : Bool := 0xD800 ≤ value && value ≤ 0xDBFF

/-- The second unit of a pair of surrogates. -/
def isLowSurrogate (value : Nat) : Bool := 0xDC00 ≤ value && value ≤ 0xDFFF

/-- The character of a pair of surrogates. -/
def ofSurrogates (high low : Nat) : Char :=
  Char.ofNat (0x10000 + (high - 0xD800) * 0x400 + (low - 0xDC00))

/-- The escaped second surrogate that has to follow a first one. -/
def lowSurrogate : List Char → Except Fault Nat
  | [] | ['\\'] => .error .endInString
  | '\\' :: 'u' :: rest => do
    let value ← unit rest
    if isLowSurrogate value then .ok value else .error .loneSurrogate
  | _ => .error .unpairedSurrogate

/-- The character that a letter stands for behind a backslash. -/
def letter? : Char → Option Char
  | '"' => some '"'
  | '\\' => some '\\'
  | '/' => some '/'
  | 'b' => some '\x08'
  | 'f' => some '\x0c'
  | 'n' => some '\n'
  | 'r' => some '\r'
  | 't' => some '\t'
  | _ => none

/-- What follows a backslash is read as a character and the count of characters taken. -/
abbrev EscapeReading := List Char → Except Fault (Char × Nat)

/-- An escape of a single letter. -/
def letterEscape (c : Char) : Except Fault (Char × Nat) :=
  match letter? c with
  | some value => .ok (value, 1)
  | none => .error .invalidEscape

/-- The reading of escapes in a string that is kept: surrogates come in pairs. -/
def strictEscape : EscapeReading
  | [] => .error .endInString
  | 'u' :: rest => do
    let value ← unit rest
    if isLowSurrogate value then .error .loneSurrogate
    else if isHighSurrogate value then do
      let low ← lowSurrogate (rest.drop 4)
      .ok (ofSurrogates value low, 11)
    else .ok (Char.ofNat value, 5)
  | c :: _ => letterEscape c

/-- The reading of escapes in a string that is skipped: any unit will do. -/
def looseEscape : EscapeReading
  | [] => .error .endInString
  | 'u' :: rest => do
    let _ ← unit rest
    .ok (' ', 5)
  | c :: _ => letterEscape c

/-- The characters up to the closing quote, after the given count of characters that are part of an
escape already read. -/
def stringChars (escape : EscapeReading) : Nat → List Char → Except Fault (List Char × List Char)
  | _, [] => .error .endInString
  | taken + 1, _ :: rest => stringChars escape taken rest
  | 0, '"' :: rest => .ok ([], rest)
  | 0, '\\' :: rest => do
    let (c, taken) ← escape rest
    let (cs, rest) ← stringChars escape taken rest
    .ok (c :: cs, rest)
  | 0, c :: rest =>
    if c.toNat < 0x20 then .error .controlCharacter
    else do
      let (cs, rest) ← stringChars escape 0 rest
      .ok (c :: cs, rest)

/-- The string whose opening quote is next. -/
def quoted (escape : EscapeReading) : Scan String := fun text => do
  let (cs, rest) ← stringChars escape 0 text.tail
  .ok (String.ofList cs, rest)

/-- The parts of a number as it is spelt. -/
structure Literal where
  negative : Bool
  whole : List Char
  fraction : List Char
  exponent : Option Int

/-- A non-empty run of digits; `ending` is the fault when the text stops short of one. -/
def digits (ending : Fault) : Scan (List Char) := fun text =>
  match text with
  | [] => .error ending
  | c :: _ =>
    if c.isDigit then .ok (text.takeWhile Char.isDigit, text.dropWhile Char.isDigit)
    else .error .invalidNumber

/-- Takes one of the given characters, if it is next. -/
def takeOne (choice : List Char) : Scan (Option Char) := fun text =>
  match text with
  | c :: rest => if c ∈ choice then .ok (some c, rest) else .ok (none, text)
  | [] => .ok (none, [])

/-- The digits in front of the point: a zero is followed by no digit. -/
def wholePart (ending : Fault) : Scan (List Char) := do
  let run ← digits ending
  match run with
  | '0' :: _ :: _ => throw .invalidNumber
  | _ => return run

/-- The digits behind the point, if there is one. -/
def fractionPart (ending : Fault) : Scan (List Char) := do
  match ← takeOne ['.'] with
  | some _ => digits ending
  | none => return []

/-- The exponent, if there is one. -/
def exponentPart (ending : Fault) : Scan (Option Int) := do
  match ← takeOne ['e', 'E'] with
  | none => return none
  | some _ =>
    let sign ← takeOne ['+', '-']
    let size := Nat.ofDigitChars 10 (← digits ending) 0
    return some (if sign = some '-' then -size else size)

/-- A number as it is spelt. -/
def literal (ending : Fault) : Scan Literal := do
  let sign ← takeOne ['-']
  let whole ← wholePart ending
  let fraction ← fractionPart ending
  let exponent ← exponentPart ending
  return ⟨sign.isSome, whole, fraction, exponent⟩

namespace Literal

/-- The binary64 number that the digits give in rounded steps; none beyond the finite range. -/
def real? (l : Literal) : Option Number :=
  (Decimal.kept l.negative l.whole l.fraction (l.exponent.getD 0)).stepwise?.map .real

/-- The integer that is spelt without point and exponent. Minus zero is none, for its sign. -/
def integer? (l : Literal) : Option Int :=
  let size : Int := Nat.ofDigitChars 10 l.whole 0
  if l.fraction = [] ∧ l.exponent = none ∧ ¬ (l.negative ∧ size = 0) then
    some (if l.negative then -size else size)
  else none

/-- The number that is spelt: an integer if it is one and 64 bits hold it, otherwise a binary64
number, unless that is not finite. -/
def number? (l : Literal) : Option Number :=
  match l.integer? with
  | some i => if h : InWord i then some (.integer i h) else l.real?
  | none => l.real?

end Literal

/-- A number that is kept. -/
def number : Scan Number := do
  match (← literal .endInValue).number? with
  | some value => return value
  | none => throw .numberOutOfRange

end Scan

end SchemaMigration.Json
