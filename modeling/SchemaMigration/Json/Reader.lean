import SchemaMigration.Json.Scan
import SchemaMigration.Json.Value
import SchemaMigration.Keyed

/-!
# Reading JSON

Reading follows the text from left to right and reports the first fault. Lists and objects are read
by handing each item or key to a reading of its own, so that a reader which knows what it wants can
stop where the text disagrees.

A list or object opens a level, and the levels left are an argument: reading a value is recursion on
them. Loops over items are bounded by the length of the text that is left when they start, since
every item takes a character.

A value that nobody wants is skipped. Skipping checks syntax alone and opens no levels.
-/

namespace SchemaMigration.Json

namespace Scan

variable {α σ : Type}

/-- Whether another item of a list is due; the closing bracket is left in place. -/
def nextItem (first : Bool) : Scan Bool := do
  match ← look with
  | none => throw .endInList
  | some ']' => return false
  | some c =>
    if first then return true
    else if c = ',' then do
      skipChar
      if (← look) = some ']' then throw .trailingComma else return true
    else throw .expectedListEnd

/-- Reads items until the list ends, at most `fuel` of them. -/
def itemsLoop (item : Scan α) : Nat → Bool → Scan (List α)
  | 0, _ => throw .endInList
  | fuel + 1, first => do
    if ← nextItem first then do
      let value ← item
      let values ← itemsLoop item fuel false
      return value :: values
    else return []

/-- Reads the items of a list up to its closing bracket. -/
def items (item : Scan α) : Scan (List α) := do
  itemsLoop item ((← get).length + 1) true

/-- Closes a list whose items nobody reads any further. -/
def closeList : Scan Unit := do
  match ← look with
  | none => throw .endInList
  | some ']' => skipChar
  | some ',' => do
    skipChar
    if (← look) = some ']' then throw .trailingComma else throw .trailingCharacters
  | some _ => throw .trailingCharacters

/-- The next key of an object, if there is one; the closing brace is left in place. -/
def nextKey (first : Bool) : Scan (Option String) := do
  match ← look with
  | none => throw .endInObject
  | some '}' => return none
  | some c =>
    if first then
      if c = '"' then some <$> quoted strictEscape else throw .keyNotString
    else if c = ',' then do
      skipChar
      match ← look with
      | none => throw .endInValue
      | some '"' => some <$> quoted strictEscape
      | some '}' => throw .trailingComma
      | some _ => throw .keyNotString
    else throw .expectedObjectEnd

/-- Takes the colon between a key and its value. -/
def colon : Scan Unit := do
  match ← look with
  | none => throw .endInObject
  | some ':' => skipChar
  | some _ => throw .expectedColon

/-- Hands each key of an object to `member`, at most `fuel` of them. -/
def membersLoop (member : String → σ → Scan σ) : Nat → Bool → σ → Scan σ
  | 0, _, _ => throw .endInObject
  | fuel + 1, first, state => do
    match ← nextKey first with
    | none => return state
    | some key => membersLoop member fuel false (← member key state)

/-- Hands each key of an object to `member`, which takes the colon and the value behind it. -/
def members (member : String → σ → Scan σ) (state : σ) : Scan σ := do
  membersLoop member ((← get).length + 1) true state

/-- Acts on what stands next: a list, an object, or a value of one token, which is read. -/
def byShape (list object : Scan α) (token : Value → Scan α) : Scan α := do
  match ← look with
  | none => throw .endInValue
  | some '[' => list
  | some '{' => object
  | some '"' => do token (.string (← quoted strictEscape))
  | some 'n' => do
    word "null".toList
    token .null
  | some 't' => do
    word "true".toList
    token (.bool true)
  | some 'f' => do
    word "false".toList
    token (.bool false)
  | some c => if c = '-' || c.isDigit then do token (.number (← number)) else throw .expectedValue

/-- Reads between the brackets of a list. -/
def inList (body : Scan α) : Scan α := do
  skipChar
  let value ← body
  closeList
  return value

/-- Reads between the braces of an object, up to and with the closing one. -/
def inObject (body : Scan α) : Scan α := do
  skipChar
  let value ← body
  skipChar
  return value

/-- Reads any value with the given levels left. The members of an object come in the order of their
keys; of members with one key the last counts. -/
def value : Nat → Scan Value
  | 0 => byShape (throw .tooDeep) (throw .tooDeep) pure
  | levels + 1 =>
    byShape (Value.array <$> inList (items (value levels)))
      (Value.object <$> inObject (members (fun key entries => do
        colon
        return Keyed.insert key (← value levels) entries) []))
      pure

/-- Skips a string, of which only the shape of its escapes is checked. -/
def skipString : Scan Unit := do
  let _ ← quoted looseEscape

/-- Skips the items of a list, one of which is due, at most `fuel` of them. -/
def skipItems (skip : Scan Unit) : Nat → Scan Unit
  | 0 => throw .endInList
  | fuel + 1 => do
    skip
    match ← look with
    | none => throw .endInList
    | some ',' => do
      skipChar
      skipItems skip fuel
    | some ']' => skipChar
    | some _ => throw .expectedListEnd

/-- Skips the members of an object, one of which is due, at most `fuel` of them. -/
def skipMembers (skip : Scan Unit) : Nat → Scan Unit
  | 0 => throw .endInObject
  | fuel + 1 => do
    match ← look with
    | none => throw .endInObject
    | some '"' => skipString
    | some _ => throw .keyNotString
    colon
    skip
    match ← look with
    | none => throw .endInObject
    | some ',' => do
      skipChar
      skipMembers skip fuel
    | some '}' => skipChar
    | some _ => throw .expectedObjectEnd

/-- Skips a value with at most `fuel` levels. -/
def skipLevels : Nat → Scan Unit
  | 0 => throw .endInValue
  | fuel + 1 => do
    match ← look with
    | none => throw .endInValue
    | some '[' => do
      skipChar
      match ← look with
      | none => throw .endInList
      | some ']' => skipChar
      | some _ => skipItems (skipLevels fuel) ((← get).length + 1)
    | some '{' => do
      skipChar
      match ← look with
      | none => throw .endInObject
      | some '}' => skipChar
      | some _ => skipMembers (skipLevels fuel) ((← get).length + 1)
    | some '"' => skipString
    | some 'n' => word "null".toList
    | some 't' => word "true".toList
    | some 'f' => word "false".toList
    | some c =>
      if c = '-' || c.isDigit then do
        let _ ← literal .invalidNumber
      else throw .expectedValue

/-- Skips a value. Every level takes a character, so the text left bounds their number. -/
def skip : Scan Unit := do
  skipLevels ((← get).length + 1)

end Scan

end SchemaMigration.Json
