import SchemaMigration.Json.Value

/-!
# Printing JSON

The compact form holds no blanks. The indented form gives every item and member a line of its own,
two spaces deeper than the brackets around it, and keeps empty brackets together. Strings escape
quotes, backslashes and control characters and hold every other character as itself.
-/

namespace SchemaMigration.Json

/-- The escape of a control character: its code point in four lower-case hexadecimal digits. -/
def unitEscape (c : Char) : List Char :=
  let digits := Nat.toDigits 16 c.toNat
  ['\\', 'u'] ++ List.replicate (4 - digits.length) '0' ++ digits

/-- A character as it stands inside a string. -/
def escape (c : Char) : List Char :=
  match c with
  | '"' => ['\\', '"']
  | '\\' => ['\\', '\\']
  | '\x08' => ['\\', 'b']
  | '\x0c' => ['\\', 'f']
  | '\n' => ['\\', 'n']
  | '\r' => ['\\', 'r']
  | '\t' => ['\\', 't']
  | c => if c.toNat < 0x20 then unitEscape c else [c]

/-- A string between its quotes. -/
def quote (s : String) : String := "\"" ++ String.ofList (s.toList.flatMap escape) ++ "\""

mutual

/-- The compact form of a value. -/
def Value.compact : Value → String
  | .null => "null"
  | .bool value => if value then "true" else "false"
  | .number value => value.text
  | .string value => quote value
  | .array items => "[" ++ ",".intercalate (compactItems items) ++ "]"
  | .object members => "\x7b" ++ ",".intercalate (compactMembers members) ++ "\x7d"

/-- The compact form of each item. -/
def compactItems : List Value → List String
  | [] => []
  | item :: items => item.compact :: compactItems items

/-- The compact form of each member. -/
def compactMembers : List (String × Value) → List String
  | [] => []
  | (key, value) :: members => (quote key ++ ":" ++ value.compact) :: compactMembers members

end

/-- The blanks in front of a line at a depth. -/
def margin (depth : Nat) : String := String.ofList (List.replicate (2 * depth) ' ')

/-- Lines between brackets, each bracket on a line of its own unless there is nothing between. -/
def bracketed (opening closing : String) (depth : Nat) : List String → String
  | [] => opening ++ closing
  | lines => opening ++ "\n" ++ ",\n".intercalate lines ++ "\n" ++ margin depth ++ closing

mutual

/-- The indented form of a value whose first line starts at a depth. -/
def Value.indented (depth : Nat) : Value → String
  | .array items => bracketed "[" "]" depth (indentedItems (depth + 1) items)
  | .object members => bracketed "\x7b" "\x7d" depth (indentedMembers (depth + 1) members)
  | .null => Value.null.compact
  | .bool value => (Value.bool value).compact
  | .number value => (Value.number value).compact
  | .string value => (Value.string value).compact

/-- The indented form of each item, on lines at a depth. -/
def indentedItems (depth : Nat) : List Value → List String
  | [] => []
  | item :: items => (margin depth ++ item.indented depth) :: indentedItems depth items

/-- The indented form of each member, on lines at a depth. -/
def indentedMembers (depth : Nat) : List (String × Value) → List String
  | [] => []
  | (key, value) :: members =>
    (margin depth ++ quote key ++ ": " ++ value.indented depth) :: indentedMembers depth members

end

end SchemaMigration.Json
