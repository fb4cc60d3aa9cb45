import SchemaMigration.Sql.Script
import SchemaMigration.Proofs.Outcome
import SchemaMigration.Proofs.Sql.Items
import SchemaMigration.Proofs.Sql.Numerals

/-!
# Words outside of quotes

A word is text outside of quotes that holds no blank, no parenthesis, no comma and no semicolon, and
in which no comment begins. The types of columns are words, some with a length in parentheses;
default values are words or quoted literals.

## Implementation notes

The sign is the only character of a number that can begin a comment. In a spelling, every sign is
followed by digits, so its parts are taken one by one.
-/

namespace SchemaMigration

/-- The content of a literal: a string itself, the compact text of any other value. -/
def Json.Value.content : Json.Value → String
  | .string s => s
  | value => value.compact

namespace Sql

/-- A character that is a token by itself. -/
def IsMark (c : Char) : Prop := c ∈ ['(', ')', ',', ';']

instance (c : Char) : Decidable (IsMark c) := inferInstanceAs (Decidable (_ ∈ _))

/-- A character that a word goes on with. -/
def IsWordChar (c : Char) : Prop := c.isWhitespace = false ∧ ¬ IsMark c

instance (c : Char) : Decidable (IsWordChar c) := inferInstanceAs (Decidable (_ ∧ _))

/-- Characters that make up a word. -/
structure Word (cs : List Char) : Prop where
  ne_nil : cs ≠ []
  chars : ∀ c ∈ cs, IsWordChar c
  tidy : Tidy (cs.map .plain)

/-- Characters that make up a word wherever they stand. -/
structure QuietWord (cs : List Char) : Prop where
  ne_nil : cs ≠ []
  chars : ∀ c ∈ cs, IsWordChar c
  quiet : ∀ c ∈ cs, IsQuiet c

instance (cs : List Char) : Decidable (QuietWord cs) :=
  have : Decidable (∀ c ∈ cs, IsWordChar c) := List.decidableBAll _ _
  have : Decidable (∀ c ∈ cs, IsQuiet c) := List.decidableBAll _ _
  decidable_of_iff (cs ≠ [] ∧ (∀ c ∈ cs, IsWordChar c) ∧ ∀ c ∈ cs, IsQuiet c)
    ⟨fun h => ⟨h.1, h.2.1, h.2.2⟩, fun h => ⟨h.ne_nil, h.chars, h.quiet⟩⟩

theorem QuietWord.word {cs : List Char} (h : QuietWord cs) : Word cs := by
  refine ⟨h.ne_nil, h.chars, ?_⟩
  have htidy : Tidy (cs.map .plain ++ []) := (tidy_quiet_append h.quiet).mpr tidy_nil
  simpa using htidy

/-- A quiet word may have a sign in front of it. -/
theorem QuietWord.signed {cs : List Char} {sign : Char} (h : QuietWord cs)
    (hs : sign ∈ ['+', '-']) : Word (sign :: cs) := by
  have hsign : IsWordChar sign ∧ (Item.plain sign).Unquoted := by
    simp only [List.mem_cons, List.not_mem_nil, or_false] at hs
    rcases hs with rfl | rfl
    · exact ⟨by decide, by decide, by decide⟩
    · exact ⟨by decide, by decide, by decide⟩
  refine ⟨by simp, ?_, ?_⟩
  · intro c hc
    rcases List.mem_cons.mp hc with rfl | hc
    · exact hsign.1
    · exact h.chars c hc
  · have hfirst : Tidy [.plain sign] := ⟨by simpa using hsign.2, .singleton _⟩
    have htidy : Tidy ([Item.plain sign] ++ (cs.map .plain ++ [])) :=
      (tidy_append_quiet h.ne_nil h.quiet).mpr ⟨hfirst, tidy_nil⟩
    simpa using htidy

/-- Two words may stand on both sides of a quiet character that words go on with. -/
theorem Word.append_cons {left right : List Char} {c : Char} (hl : Word left) (hr : Word right)
    (hword : IsWordChar c) (hquiet : IsQuiet c) : Word (left ++ c :: right) := by
  refine ⟨by simp, ?_, ?_⟩
  · intro a ha
    rcases List.mem_append.mp ha with ha | ha
    · exact hl.chars a ha
    · rcases List.mem_cons.mp ha with rfl | ha
      · exact hword
      · exact hr.chars a ha
  · rw [List.map_append, List.map_cons, tidy_append_cons hquiet]
    exact ⟨hl.tidy, hr.tidy⟩

/-- A digit or a point. -/
def IsNumeric (c : Char) : Prop := c.isDigit = true ∨ c = '.'

theorem IsNumeric.of_forall {p : Char → Prop} {c : Char} (h : IsNumeric c) (hpoint : p '.')
    (hdigits : ∀ n < 10, p (Char.ofNat (48 + n))) : p c := by
  rcases h with h | rfl
  · obtain ⟨hlow, hhigh⟩ := Char.isDigit_iff_toNat.mp h
    exact of_forall_ofNat hdigits hlow (Nat.lt_succ_of_le hhigh)
  · exact hpoint

theorem IsNumeric.facts {c : Char} (h : IsNumeric c) : IsWordChar c ∧ IsQuiet c :=
  h.of_forall (p := fun c => IsWordChar c ∧ IsQuiet c) (by decide) (by decide)

theorem quietWord_of_isNumeric {cs : List Char} (hne : cs ≠ []) (h : ∀ c ∈ cs, IsNumeric c) :
    QuietWord cs :=
  ⟨hne, fun c hc => (h c hc).facts.1, fun c hc => (h c hc).facts.2⟩

theorem quietWord_of_isDigit {cs : List Char} (hne : cs ≠ []) (h : ∀ c ∈ cs, c.isDigit = true) :
    QuietWord cs :=
  quietWord_of_isNumeric hne fun c hc => .inl (h c hc)

theorem quietWord_toDigits (n : Nat) : QuietWord (Nat.toDigits 10 n) :=
  quietWord_of_isDigit Nat.toDigits_ne_nil fun _ hc =>
    Nat.isDigit_of_mem_toDigits (by decide) (by decide) hc

/-- A mantissa is a quiet word. -/
theorem quietWord_of_spellsMantissa {whole fraction mantissa : List Char}
    (h : SpellsMantissa whole fraction mantissa) : QuietWord mantissa := by
  cases h with
  | whole hne hdigits => exact quietWord_of_isDigit hne hdigits
  | pointed hne hwhole hfraction =>
      apply quietWord_of_isNumeric (by simp)
      rw [List.forall_mem_append, List.forall_mem_cons]
      exact ⟨fun c hc => .inl (hwhole c hc), .inr rfl, fun c hc => .inl (hfraction c hc)⟩
  | fraction hne hdigits =>
      apply quietWord_of_isNumeric (by simp)
      rw [List.forall_mem_cons]
      exact ⟨.inr rfl, fun c hc => .inl (hdigits c hc)⟩

theorem QuietWord.word_signed {sign cs : List Char} (h : QuietWord cs)
    (hsign : sign ∈ [[], ['+'], ['-']]) : Word (sign ++ cs) := by
  simp only [List.mem_cons, List.not_mem_nil, or_false] at hsign
  rcases hsign with rfl | rfl | rfl
  · exact h.word
  · exact h.signed (by decide)
  · exact h.signed (by decide)

/-- A spelt number is a word. -/
theorem word_of_spells {d : Decimal} {text : List Char} (h : SpellsDecimal d text) :
    Word text := by
  obtain ⟨hsign, hmantissa, hexponent⟩ := h
  have hfront := (quietWord_of_spellsMantissa hmantissa).word_signed hsign
  cases hexponent with
  | none => rwa [List.append_nil]
  | @some mark _ _ hmark hexponentSign hne hdigits =>
      have hletter : IsWordChar mark ∧ IsQuiet mark := by
        simp only [List.mem_cons, List.not_mem_nil, or_false] at hmark
        rcases hmark with rfl | rfl
        · exact ⟨by decide, by decide⟩
        · exact ⟨by decide, by decide⟩
      have hback := (quietWord_of_isDigit hne hdigits).word_signed hexponentSign
      exact hfront.append_cons hback hletter.1 hletter.2

theorem word_of_denotes {value : Json.Value} {text : String} (h : Denotes value text) :
    Word text.toList := by
  have htruth : ∀ value, QuietWord (truthWord value).toList := by decide
  cases h with
  | bool value => exact (htruth value).word
  | truth value => exact (htruth value).word
  | integer hspells => exact word_of_spells hspells
  | real hspells => exact word_of_spells hspells
  | numeral _ htext => exact word_of_spells htext

section

variable {d : Dialect} {value : Json.Value}

/-- Truth values, numbers and strings that spell them are written without quotes where the style
allows it. -/
theorem exists_literal_of_bare (h : Bare value) :
    ∃ text, d.literal .bare value = some text ∧ Denotes value text := by
  cases value with
  | null => cases h
  | array items => cases h
  | object members => cases h
  | bool value => exact ⟨truthWord value, rfl, .bool value⟩
  | number value => exact ⟨value.text, rfl, denotes_number value⟩
  | string s =>
      have hbare : isBareLiteral s = true := h
      exact ⟨bareLiteral s, congrArg some (if_pos hbare), denotes_bareLiteral hbare⟩

/-- All other values are quoted. -/
theorem literal_of_not_bare {style : LiteralStyle} (hnull : value ≠ .null)
    (h : ¬ (style = .bare ∧ Bare value)) :
    d.literal style value = some (quoteLiteral d.backslashes value.content) := by
  cases style with
  | quoted => cases value with
    | null => exact absurd rfl hnull
    | bool value => rfl
    | number value => rfl
    | string s => rfl
    | array items => rfl
    | object members => rfl
  | bare => cases value with
    | null => exact absurd rfl hnull
    | bool value => exact absurd ⟨rfl, trivial⟩ h
    | number value => exact absurd ⟨rfl, trivial⟩ h
    | string s =>
        have hquoted : ¬ isBareLiteral s = true := fun hbare => h ⟨rfl, hbare⟩
        exact congrArg some (if_neg hquoted)
    | array items => rfl
    | object members => rfl

/-- The text of a default value: a literal between quotes or a word. -/
def IsLiteral (b : Bool) (text : String) : Prop :=
  (∃ s, text = quoteLiteral b s) ∨ Word text.toList

/-- What a dialect writes for a default value is a literal. -/
theorem isLiteral_of_literal {style : LiteralStyle} {text : String}
    (h : d.literal style value = some text) : IsLiteral d.backslashes text := by
  by_cases hbare : style = .bare ∧ Bare value
  · obtain ⟨found, hfound, hdenotes⟩ := exists_literal_of_bare (d := d) hbare.2
    rw [← hbare.1, h] at hfound
    cases hfound
    exact .inr (word_of_denotes hdenotes)
  · have hnull : value ≠ .null := by
      rintro rfl
      cases style <;> cases h
    rw [literal_of_not_bare hnull hbare] at h
    exact .inl ⟨value.content, (Option.some.inj h).symm⟩

end

/-- A word with a length in parentheses. -/
def sized (word size : String) : String := word ++ "(" ++ size ++ ")"

/-- The text of a column type: a word, or one with a length. -/
def IsType (text : String) : Prop :=
  QuietWord text.toList ∨
    ∃ word size, QuietWord word.toList ∧ QuietWord size.toList ∧ text = sized word size

/-- A column has the text of a type, and that of a literal for its default value. -/
structure Column.Sound (b : Bool) (c : Column) : Prop where
  type : IsType c.type
  literal : ∀ text ∈ c.defaultLiteral, IsLiteral b text

/-- A fixed column type is a word or text of the default length. -/
def ColumnType.Plain : ColumnType → Prop
  | .fixed sql => QuietWord sql.toList ∨ sql = sized "VARCHAR" "255"
  | .boundedText => True

instance : DecidablePred ColumnType.Plain
  | .fixed _ => inferInstanceAs (Decidable (_ ∨ _))
  | .boundedText => isTrue trivial

theorem plain_of_mapping : ∀ d ∈ dialects, ∀ entry ∈ d.mappings, entry.2.column.Plain := by
  decide

/-- The text of a plain column type is that of a type, whatever length it takes. -/
theorem isType_columnTypeOf {type : ColumnType} (h : type.Plain) (attr : Attribute) :
    IsType (Dialect.columnTypeOf attr type) := by
  have hname : QuietWord "VARCHAR".toList := by decide
  cases type with
  | fixed sql =>
      rcases h with h | rfl
      · exact .inl h
      · exact .inr ⟨"VARCHAR", "255", hname, by decide, rfl⟩
  | boundedText =>
      have hlength : QuietWord (toString (Dialect.textLength attr)).toList := by
        rw [Nat.toString_eq_repr, Nat.toList_repr]
        exact quietWord_toDigits _
      exact .inr ⟨"VARCHAR", _, hname, hlength, rfl⟩

/-- The column types of a registered dialect have the text of a type. -/
theorem isType_of_columnType {d : Dialect} (hd : d ∈ dialects) {model type : String}
    {attr : Attribute} (h : d.columnType model attr = .ok type) : IsType type := by
  obtain ⟨mapping, hm, htype⟩ := Outcome.bind_eq_ok.mp h
  cases htype
  simp only [Dialect.mapping, Dialect.mapping?] at hm
  cases hfound : d.mappings.find? (·.1 = attr.type.name) with
  | none => simp [hfound] at hm
  | some entry =>
      simp only [hfound, Option.map_some, Except.ok.injEq] at hm
      subst hm
      have hplain : entry.2.column.Plain :=
        plain_of_mapping d hd entry (List.mem_of_find?_eq_some hfound)
      exact isType_columnTypeOf hplain attr

theorem isLiteral_of_defaultLiteral {d : Dialect} {model : String} {attr : Attribute}
    {literal : Option String} (h : d.defaultLiteral model attr = .ok literal) :
    ∀ text ∈ literal, IsLiteral d.backslashes text := by
  obtain ⟨mapping, -, hliteral⟩ := Outcome.bind_eq_ok.mp h
  cases hliteral
  intro text htext
  obtain ⟨value, -, hvalue⟩ := Option.bind_eq_some_iff.mp htext
  exact isLiteral_of_literal hvalue

/-- A column has the name, the type and the default value of its attribute. -/
theorem column_eq_ok {d : Dialect} {model : String} {attr : Attribute} {c : Column} :
    d.column model attr = .ok c ↔ ∃ type literal, d.columnType model attr = .ok type ∧
      d.defaultLiteral model attr = .ok literal ∧
      ⟨attr.name, type, literal, attr.isPrimaryKey, attr.required⟩ = c := by
  simp only [Dialect.column]
  simp only [Outcome.bind_eq_ok, Outcome.pure_eq_ok, Except.ok.injEq]
  constructor
  · rintro ⟨type, htype, literal, hliteral, hc⟩
    exact ⟨type, literal, htype, hliteral, hc⟩
  · rintro ⟨type, literal, htype, hliteral, hc⟩
    exact ⟨type, htype, literal, hliteral, hc⟩

/-- Every column of a registered dialect is sound. -/
theorem sound_of_column {d : Dialect} (hd : d ∈ dialects) {model : String} {attr : Attribute}
    {c : Column} (h : d.column model attr = .ok c) : c.Sound d.backslashes := by
  obtain ⟨type, literal, htype, hliteral, rfl⟩ := column_eq_ok.mp h
  exact ⟨isType_of_columnType hd htype, isLiteral_of_defaultLiteral hliteral⟩

end Sql

end SchemaMigration
