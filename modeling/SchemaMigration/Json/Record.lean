import SchemaMigration.Json.Reader

/-!
# Reading records

A record is written as an object, its fields in any order, or as a list, its fields in the order of
their declaration. A draft holds what has been read of it. Members that are no fields are skipped, a
field that comes twice is refused as soon as its second key is read, and a field that is missing is
noticed at the end; of several, the first declared.

A reading may be of held text: text that was read before its meaning was known and is read again
now. There a list with too many items is refused for its length, counted to its end; in fresh text
it is refused at the first item too many.
-/

namespace SchemaMigration.Json

/-- How a text is read: the levels that may still open, and whether it is held text. -/
structure Setting where
  levels : Nat
  held : Bool

/-- A document may nest lists and objects 127 deep. -/
def Setting.fresh : Setting := ⟨127, false⟩

/-- The same text, read a second time. -/
def Setting.again (setting : Setting) : Setting := { setting with held := true }

namespace Scan

variable {α σ : Type}

/-- Opens a level and reads on inside it. -/
def deeper (setting : Setting) (body : Setting → Scan α) : Scan α :=
  match setting.levels with
  | 0 => throw .tooDeep
  | levels + 1 => body { setting with levels := levels }

/-- What a value of one token is called when something else is wanted. -/
def found : Value → Found
  | .null => .null
  | .bool value => .bool value
  | .number value => .number value
  | .string value => .string value
  | .array _ => .sequence
  | .object _ => .map

/-- Reads a value of one token that `choose` accepts. -/
def token (wanted : String) (choose : Value → Option α) : Scan α :=
  byShape (throw (.wrongType .sequence wanted)) (throw (.wrongType .map wanted)) fun value =>
    match choose value with
    | some chosen => return chosen
    | none => throw (.wrongType (found value) wanted)

/-- Reads a string. -/
def stringToken (wanted : String) : Scan String :=
  token wanted fun
    | .string value => some value
    | _ => none

/-- Reads a truth value. -/
def boolToken : Scan Bool :=
  token "a boolean" fun
    | .bool value => some value
    | _ => none

/-- Reads a number. -/
def numberToken : Scan Number :=
  token "a JSON number" fun
    | .number value => some value
    | _ => none

/-- Reads what may be absent: null is nothing. -/
def optional (reading : Scan α) : Scan (Option α) := do
  if (← look) = some 'n' then do
    word "null".toList
    return none
  else some <$> reading

/-- Reads a list of which each item is read alike. -/
def listOf (item : Setting → Scan α) (setting : Setting) : Scan (List α) :=
  byShape (deeper setting fun inner => inList (items (item inner)))
    (throw (.wrongType .map "a sequence"))
    fun value => throw (.wrongType (found value) "a sequence")

end Scan

/-- One field of a record whose drafts are of type `σ`. -/
structure RecordField (σ : Type) where
  name : String
  isRead : σ → Bool
  read : Setting → σ → Scan σ

/-- A kind of record: what messages call it, its fields, the draft with nothing read, and the end of
reading, which gives the record or the name of the first field that is missing. -/
structure Record (σ α : Type) where
  title : String
  fields : List (RecordField σ)
  start : σ
  finish : σ → Except String α

namespace Record

open Scan

variable {α σ : Type}

/-- Reads fields in the order of their declaration as long as the list has items; gives the draft
and the count of items read. -/
def readItems (setting : Setting) : List (RecordField σ) → Nat → σ → Scan (σ × Nat)
  | [], count, draft => return (draft, count)
  | field :: fields, count, draft => do
    if ← nextItem (count = 0) then do
      readItems setting fields (count + 1) (← field.read setting draft)
    else return (draft, count)

/-- Counts the items that are left in a list, at most `fuel` of them. -/
def countItems : Nat → Nat → Scan Nat
  | 0, count => return count
  | fuel + 1, count => do
    if ← nextItem (count = 0) then do
      skip
      countItems fuel (count + 1)
    else return count

/-- A count of things, in words. -/
def counted (count : Nat) (thing : String) : String :=
  toString count ++ " " ++ thing ++ (if count = 1 then "" else "s")

/-- Refuses items beyond the fields of held text. -/
def checkSurplus (setting : Setting) (count : Nat) : Scan Unit := do
  if setting.held then do
    let total ← countItems ((← get).length + 1) count
    if count < total then
      throw (.wrongLength total (counted count "element" ++ " in sequence"))

/-- Reads a record that is written as a list. -/
def readList (record : Record σ α) (setting : Setting) : Scan α :=
  deeper setting fun inner => inList do
    let (draft, count) ← readItems inner record.fields 0 record.start
    match record.finish draft with
    | .error _ =>
      throw (.wrongLength count
        (record.title ++ " with " ++ counted record.fields.length "element"))
    | .ok value =>
      checkSurplus inner count
      return value

/-- Reads the member of a record behind a key. -/
def readMember (record : Record σ α) (setting : Setting) (key : String) (draft : σ) : Scan σ := do
  match record.fields.find? (·.name = key) with
  | none =>
    colon
    skip
    return draft
  | some field =>
    if field.isRead draft then throw (.duplicateField key)
    else do
      colon
      field.read setting draft

/-- Reads a record that is written as an object. -/
def readObject (record : Record σ α) (setting : Setting) : Scan α :=
  deeper setting fun inner => inObject do
    match record.finish (← members (record.readMember inner) record.start) with
    | .error name => throw (.missingField name)
    | .ok value => return value

/-- Reads a record in either form. -/
def read (record : Record σ α) (setting : Setting) : Scan α :=
  byShape (record.readList setting) (record.readObject setting) fun value =>
    throw (.wrongType (found value) record.title)

/-- Reads a record in the form of an object alone. -/
def readOnlyObject (record : Record σ α) (setting : Setting) : Scan α :=
  byShape (throw (.wrongType .sequence record.title)) (record.readObject setting) fun value =>
    throw (.wrongType (found value) record.title)

end Record

/-- Reads a whole text: nothing but blanks may follow the value. -/
def readText {α : Type} (reading : Setting → Scan α) (text : String) : Except Fault α := do
  let (value, rest) ← (reading .fresh).run text.toList
  if rest.all isBlank then .ok value else .error .trailingCharacters

end SchemaMigration.Json
