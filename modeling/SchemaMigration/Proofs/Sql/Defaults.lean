import SchemaMigration.Proofs.Sql.QuotedText
import SchemaMigration.Proofs.Sql.Tokens

/-!
# Default values

A default value other than null becomes one token, from which it can be told. Without quotes it is a
truth value or a number, and only for types that hold these. Otherwise it is a literal, whose
content is a string itself or the compact text of another value, and which ends at its own quote,
whatever follows that is no quote.

## Implementation notes

Whether a value is written without quotes depends on the type of the column and on the value alone.
The style of a type is looked up once, and the values are told apart once, by `Bare`.
-/

namespace SchemaMigration.Sql

/-- A word by itself is one token. -/
theorem tokens_scan_word (b : Bool) {text : String} (h : Word text.toList) :
    (scan b text).map tokens = some [.word text] := by
  have hscan : scan b (String.ofList (write b (plain text))) = some (plain text) :=
    scan_write b h.tidy
  rw [write_plain, String.ofList_toList] at hscan
  rw [hscan, Option.map_some, tokens_word h]

/-- A literal by itself is one token. -/
theorem tokens_scan_quoteLiteral (b : Bool) (s : String) :
    (scan b (quoteLiteral b s)).map tokens = some [.literal s] := by
  have hscan := scan_write b (tidy_literal s)
  rw [write_cons, write_nil, List.append_nil, Item.chars_literal, String.ofList_toList] at hscan
  rw [hscan]
  rfl

/-- A text is the literal of a content: it is one token, and the content is read back from it in
front of any text that does not go on with a quote. -/
structure Quotes (b : Bool) (content text : String) : Prop where
  token : (scan b text).map tokens = some [.literal content]
  closed : ∀ rest : List Char, rest.head? ≠ some '\'' →
    readQuoted '\'' b (text.toList ++ rest) = some (content, rest)

/-- A text without quotes stands for a value: it is one token, a truth value or in the characters of
a number, and denotes the value. -/
structure StandsFor (b : Bool) (value : Json.Value) (text : String) : Prop where
  token : (scan b text).map tokens = some [.word text]
  denotes : Denotes value text
  chars : text ∈ ["TRUE", "FALSE"] ∨ ∀ c ∈ text.toList, IsNumeralChar c

theorem quotes_quoteLiteral (b : Bool) (s : String) : Quotes b s (quoteLiteral b s) :=
  ⟨tokens_scan_quoteLiteral b s, fun _ => readQuoted_quoteLiteral b s⟩

theorem Denotes.standsFor {b : Bool} {value : Json.Value} {text : String}
    (h : Denotes value text) : StandsFor b value text :=
  ⟨tokens_scan_word b (word_of_denotes h), h, h.chars⟩

/-- The types whose values may stand without quotes. -/
def bareTypes : List AttributeType := [.boolean, .integer, .number, .currency]

variable {d : Dialect} {value : Json.Value}

/-- The registered dialects map every known type, and write values without quotes for the same
ones. -/
theorem map_literal_of_mem_known : ∀ d ∈ dialects, ∀ type ∈ AttributeType.known,
    (d.mapping? type).map (·.literal) =
      some (if type ∈ bareTypes then .bare else .quoted) := by
  decide

theorem mem_known_of_isKnown {type : AttributeType} (h : type.isKnown = true) :
    type ∈ AttributeType.known := by
  cases type with
  | other name => cases h
  | _ => decide

theorem exists_mapping (hd : d ∈ dialects) {type : AttributeType} (h : type.isKnown = true) :
    ∃ mapping, d.mapping? type = some mapping ∧ (mapping.literal = .bare ↔ type ∈ bareTypes) := by
  have hliteral := map_literal_of_mem_known d hd type (mem_known_of_isKnown h)
  obtain ⟨mapping, hmapping, hstyle⟩ := Option.map_eq_some_iff.mp hliteral
  refine ⟨mapping, hmapping, ?_⟩
  rw [hstyle]
  split <;> simp [*]

/-- In each registered dialect, a default value other than null, of a known type, becomes one token.
It stands without quotes exactly if the type is that of a truth value or of a number and the value
is one or spells one; the token denotes the value then. Otherwise it is a literal, whose content is
a string itself or the compact text of another value, and which ends at its last quote in front of
any text that does not go on with a quote. -/
theorem defaultLiteral_faithful (hd : d ∈ dialects) (model : String) {attr : Attribute}
    (hknown : attr.type.isKnown = true) (hvalue : attr.defaultValue = some value)
    (hnull : value ≠ .null) :
    ∃ text, d.defaultLiteral model attr = .ok (some text) ∧
      (attr.type ∈ bareTypes ∧ Bare value → StandsFor d.backslashes value text) ∧
      (¬ (attr.type ∈ bareTypes ∧ Bare value) →
        Quotes d.backslashes value.content text) := by
  obtain ⟨mapping, hmapping, hstyle⟩ := exists_mapping hd hknown
  have houtcome : d.defaultLiteral model attr = .ok (d.literal mapping.literal value) := by
    simp only [Dialect.defaultLiteral, Dialect.mapping, hmapping, hvalue]
    rfl
  rw [houtcome, ← hstyle]
  by_cases hbare : mapping.literal = .bare ∧ Bare value
  · obtain ⟨text, htext, hdenotes⟩ := exists_literal_of_bare (d := d) hbare.2
    rw [← hbare.1] at htext
    exact ⟨text, congrArg Except.ok htext, fun _ => hdenotes.standsFor,
      fun h => absurd hbare h⟩
  · exact ⟨_, congrArg Except.ok (literal_of_not_bare hnull hbare), fun h => absurd h hbare,
      fun _ => quotes_quoteLiteral d.backslashes value.content⟩

/-- An amount of money, whose default value has blanks around it. -/
def paddedAmount : Attribute where
  id := .number 1
  name := "amount"
  type := .currency
  defaultValue := some (.string " -1.5e3 ")

/-- A note, whose default value has quotes and a backslash in it. -/
def quotedNote : Attribute where
  id := .number 2
  name := "note"
  type := .document
  defaultValue := some (.array [.string "it's \\"])

theorem defaultLiteral_faithful_redshift :
    redshift ∈ dialects ∧ paddedAmount.type.isKnown = true ∧ quotedNote.type.isKnown = true ∧
      redshift.defaultLiteral "orders" paddedAmount = .ok (some "-1.5E3") ∧
      StandsFor true (.string " -1.5e3 ") "-1.5E3" ∧
      redshift.defaultLiteral "orders" quotedNote = .ok (some "'[\"it''s \\\\\\\\\"]'") ∧
      Quotes true "[\"it's \\\\\"]" "'[\"it''s \\\\\\\\\"]'" := by
  have hd : redshift ∈ dialects := by simp [dialects]
  have hamount : paddedAmount.type.isKnown = true := rfl
  have hnote : quotedNote.type.isKnown = true := rfl
  obtain ⟨amount, htext, hstands, -⟩ :=
    defaultLiteral_faithful hd "orders" hamount rfl (by simp)
  obtain ⟨note, hliteral, -, hquotes⟩ := defaultLiteral_faithful hd "orders" hnote rfl (by simp)
  have hamountText : redshift.defaultLiteral "orders" paddedAmount = .ok (some "-1.5E3") := by
    decide +kernel
  have hnoteText :
      redshift.defaultLiteral "orders" quotedNote = .ok (some "'[\"it''s \\\\\\\\\"]'") := rfl
  have hbare : isBareLiteral " -1.5e3 " = true := by decide +kernel
  cases htext.symm.trans hamountText
  cases hliteral.symm.trans hnoteText
  exact ⟨hd, hamount, hnote, hamountText, hstands ⟨by decide, hbare⟩, hnoteText,
    hquotes fun h => absurd h.1 (by decide)⟩

end SchemaMigration.Sql
