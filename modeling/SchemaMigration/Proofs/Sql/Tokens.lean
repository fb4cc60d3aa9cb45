import SchemaMigration.Proofs.Sql.Statements

/-!
# Tokens of a table

Outside of quotes, blanks and marks end words. A statement that creates a table is a list of tokens:
its front, the name of the table, and between parentheses its clauses with one comma between any two
of them.
-/

namespace SchemaMigration.Sql

/-- A word, a name, a literal, or a mark. -/
inductive Token where
  | word (text : String)
  | name (text : String)
  | literal (text : String)
  | mark (c : Char)
deriving DecidableEq

/-- The word that ends here, if there is one. -/
def endedWord (word : List Char) : List Token :=
  if word = [] then [] else [.word (String.ofList word)]

/-- The tokens of items that follow the beginning of a word. -/
def tokensFrom (word : List Char) : List Item → List Token
  | [] => endedWord word
  | .name text :: rest => endedWord word ++ .name text :: tokensFrom [] rest
  | .literal text :: rest => endedWord word ++ .literal text :: tokensFrom [] rest
  | .plain c :: rest =>
    if c.isWhitespace then endedWord word ++ tokensFrom [] rest
    else if IsMark c then endedWord word ++ .mark c :: tokensFrom [] rest
    else tokensFrom (word ++ [c]) rest

/-- The tokens of items. -/
def tokens (items : List Item) : List Token := tokensFrom [] items

/-- An item that no word goes on with. -/
def Item.EndsWord : Item → Prop
  | plain c => ¬ IsWordChar c
  | _ => True

instance : DecidablePred Item.EndsWord
  | .plain _ => inferInstanceAs (Decidable (¬ _))
  | .name _ | .literal _ => isTrue trivial

/-- An item that no word goes on with ends the word in front of it. -/
theorem tokensFrom_cons {word : List Char} {item : Item} {rest : List Item}
    (h : item.EndsWord) :
    tokensFrom word (item :: rest) = endedWord word ++ tokens (item :: rest) := by
  cases item with
  | name text => rfl
  | literal text => rfl
  | plain c =>
      simp only [tokens, tokensFrom]
      by_cases hblank : c.isWhitespace = true
      · simp [hblank, endedWord]
      · have hmark : IsMark c := by
          by_contra hmark
          exact h ⟨by simpa using hblank, hmark⟩
        simp [hblank, hmark, endedWord]

/-- Tokens are found part by part where the second part ends the words of the first. -/
theorem tokensFrom_append (word : List Char) (left : List Item) {item : Item} {right : List Item}
    (h : item.EndsWord) :
    tokensFrom word (left ++ item :: right) =
      tokensFrom word left ++ tokens (item :: right) := by
  induction left generalizing word with
  | nil => exact tokensFrom_cons h
  | cons first left ih =>
      cases first with
      | name text => simp [tokensFrom, ih]
      | literal text => simp [tokensFrom, ih]
      | plain c =>
          by_cases hblank : c.isWhitespace = true
          · simp [tokensFrom, hblank, ih]
          · by_cases hmark : IsMark c
            · simp [tokensFrom, hblank, hmark, ih]
            · simp [tokensFrom, hblank, hmark, ih]

theorem tokens_append_blank (left right : List Item) :
    tokens (left ++ (plain " " ++ right)) = tokens left ++ tokens right :=
  tokensFrom_append [] left (by decide : (Item.plain ' ').EndsWord)

theorem tokens_lines (lines : List (List Item)) :
    tokens ((plain "\n").intercalate lines) = lines.flatMap tokens := by
  induction lines with
  | nil => rfl
  | cons line rest ih =>
      cases rest with
      | nil => simp
      | cons next rest =>
          have hline : tokens (line ++ (plain "\n" ++ (plain "\n").intercalate (next :: rest))) =
              tokens line ++ tokens ((plain "\n").intercalate (next :: rest)) :=
            tokensFrom_append [] line (by decide : (Item.plain '\n').EndsWord)
          rw [List.intercalate_cons_cons, List.append_assoc, hline, ih]
          rfl

theorem tokensFrom_word (word : List Char) {cs : List Char} (h : ∀ c ∈ cs, IsWordChar c) :
    tokensFrom word (cs.map .plain) = endedWord (word ++ cs) := by
  induction cs generalizing word with
  | nil => simp [tokensFrom]
  | cons c cs ih =>
      obtain ⟨hblank, hmark⟩ := h c (.head _)
      have hrest := ih (word ++ [c]) fun d hd => h d (.tail _ hd)
      simpa [tokensFrom, hblank, hmark] using hrest

theorem tokens_word {s : String} (h : Word s.toList) : tokens (plain s) = [.word s] := by
  have hword := tokensFrom_word [] h.chars
  rw [List.nil_append] at hword
  simp only [tokens, plain]
  rw [hword, endedWord, if_neg h.ne_nil, String.ofList_toList]

/-- The tokens of a type: a word, which may have a length in parentheses. -/
theorem tokens_type {text : String} (h : IsType text) :
    tokens (plain text) = [.word text] ∨ ∃ word size, text = sized word size ∧
      tokens (plain text) = [.word word, .mark '(', .word size, .mark ')'] := by
  rcases h with h | ⟨word, size, hword, hsize, rfl⟩
  · exact .inl (tokens_word h.word)
  · refine .inr ⟨word, size, rfl, ?_⟩
    have hplain : plain (sized word size) =
        plain word ++ (.plain '(' :: (plain size ++ [Item.plain ')'])) := by
      simp [plain, sized]
    have hopen : tokens (.plain '(' :: (plain size ++ [Item.plain ')'])) =
        .mark '(' :: tokens (plain size ++ [Item.plain ')']) := rfl
    have hsizes : tokens (plain size ++ [Item.plain ')']) =
        tokens (plain size) ++ [Token.mark ')'] :=
      tokensFrom_append [] (plain size) (by decide : (Item.plain ')').EndsWord)
    calc tokens (plain (sized word size))
      _ = tokens (plain word) ++ tokens (.plain '(' :: (plain size ++ [Item.plain ')'])) := by
        rw [hplain]
        exact tokensFrom_append [] (plain word) (by decide : (Item.plain '(').EndsWord)
      _ = [.word word, .mark '(', .word size, .mark ')'] := by
        rw [hopen, hsizes, tokens_word hword.word, tokens_word hsize.word]
        rfl

theorem tokens_literalItems {b : Bool} {text : String} (h : IsLiteral b text) :
    tokens (literalItems b text) = [.word text] ∨
      ∃ s, text = quoteLiteral b s ∧ tokens (literalItems b text) = [.literal s] := by
  rcases literalItems_cases h with ⟨s, htext, hitems⟩ | ⟨hword, hitems⟩
  · exact .inr ⟨s, htext, by rw [hitems]; rfl⟩
  · exact .inl (by rw [hitems, tokens_word hword])

namespace Column

/-- The tokens of a default value. -/
def defaultTokens (b : Bool) (c : Column) : List Token :=
  match c.defaultLiteral with
  | some text => .word "DEFAULT" :: tokens (literalItems b text)
  | none => []

/-- The tokens behind the default value. -/
def endTokens (c : Column) : List Token :=
  (if c.isPrimaryKey then [Token.word "PRIMARY", .word "KEY"] else []) ++
    if c.isRequired then [Token.word "NOT", .word "NULL"] else []

/-- The tokens of the definition of a column, without a comma. -/
def clause (b : Bool) (c : Column) : List Token :=
  .name c.name :: (tokens (plain c.type) ++ (c.defaultTokens b ++ c.endTokens))

end Column

/-- The tokens of a column are those of its clause and a comma, if one is asked for. -/
theorem tokens_column (b comma : Bool) (c : Column) :
    tokens (c.items b comma) = c.clause b ++ if comma then [Token.mark ','] else [] := by
  have hend : tokens (plain (c.ending comma)) =
      c.endTokens ++ if comma then [Token.mark ','] else [] := by
    simp only [Column.ending, Column.endTokens]
    cases c.isPrimaryKey <;> cases c.isRequired <;> cases comma <;> rfl
  have hdefault : tokens (c.defaultItems b ++ plain (c.ending comma)) =
      c.defaultTokens b ++ tokens (plain (c.ending comma)) := by
    simp only [Column.defaultItems, Column.defaultTokens]
    cases c.defaultLiteral with
    | none => rfl
    | some text =>
        simp only [List.append_assoc]
        change .word "DEFAULT" :: tokens (literalItems b text ++ _) = _
        rw [tokens_append_blank, List.cons_append]
  simp only [Column.items, Column.clause]
  simp only [List.append_assoc]
  change .name c.name :: tokens (plain c.type ++ _) = _
  rw [tokens_append_blank, hdefault, hend]
  simp

/-- Names with one comma between any two. -/
def nameList (columns : List String) : List Token :=
  [Token.mark ','].intercalate (columns.map fun column => [Token.name column])

/-- The tokens of a unique constraint. -/
def Unique.clause (u : Unique) : List Token :=
  (match u.name with
    | some name => [Token.word "CONSTRAINT", .name name]
    | none => []) ++
    [Token.word "UNIQUE", .mark '('] ++ nameList u.columns ++ [Token.mark ')']

/-- The tokens of names between commas and of the parenthesis behind them. -/
theorem tokens_nameList (columns : List String) :
    tokens ((plain ",").intercalate (columns.map fun column => [Item.name column]) ++ plain ")") =
      nameList columns ++ [Token.mark ')'] := by
  have hcomma (items : List Item) (column : String) :
      tokens ([Item.name column] ++ (plain "," ++ items)) =
        [Token.name column, .mark ','] ++ tokens items :=
    rfl
  simp only [nameList]
  induction columns with
  | nil => rfl
  | cons column rest ih =>
      cases rest with
      | nil => rfl
      | cons next rest =>
          simp only [List.map_cons, List.intercalate_cons_cons, List.append_assoc] at ih ⊢
          rw [hcomma, ih]
          rfl

theorem tokens_unique (u : Unique) : tokens u.items = u.clause := by
  have hfront (items : List Item) :
      tokens (plain "UNIQUE(" ++ items) = [Token.word "UNIQUE", .mark '('] ++ tokens items := rfl
  have hname (items : List Item) (name : String) :
      tokens (plain "CONSTRAINT " ++ ([Item.name name] ++ (plain " " ++ items))) =
        [Token.word "CONSTRAINT", .name name] ++ tokens items := rfl
  simp only [Unique.items, Unique.clause]
  simp only [List.append_assoc]
  cases u.name with
  | none => rw [List.nil_append, hfront, tokens_nameList, List.nil_append]
  | some name => simp only [List.append_assoc, hname, hfront, tokens_nameList]

/-- The clauses of a table: its columns, then its unique constraint. -/
def clauses (b : Bool) (columns : List Column) (unique : Option Unique) : List (List Token) :=
  columns.map (Column.clause b) ++ unique.toList.map Unique.clause

/-- The lines of the columns and of the unique constraint have the tokens of the clauses, with one
comma between any two and none behind the last. -/
theorem flatMap_tokens_columns (b : Bool) (columns : List Column) (unique : Option Unique) :
    (columnItems b unique.isSome columns).flatMap tokens ++
        unique.toList.flatMap Unique.clause =
      [Token.mark ','].intercalate (clauses b columns unique) := by
  simp only [clauses]
  induction columns with
  | nil =>
      cases unique with
      | none => rfl
      | some u => simp [columnItems]
  | cons column rest ih =>
      cases rest with
      | nil =>
          cases unique with
          | none => simp [columnItems, tokens_column]
          | some u => simp [columnItems, tokens_column]
      | cons next rest =>
          have hcomma : (unique.isSome || !(next :: rest).isEmpty) = true := by simp
          unfold columnItems
          rw [hcomma, List.flatMap_cons, tokens_column, if_pos rfl, List.append_assoc, ih]
          simp only [List.map_cons, List.cons_append, List.intercalate_cons_cons]

/-- The tokens in front of the name of a new table. -/
def creationFront : List Token :=
  [.word "CREATE", .word "TABLE", .word "IF", .word "NOT", .word "EXISTS"]

/-- The tokens of a statement that creates a table, up to its semicolon. -/
def tableTokens (b : Bool) (name : String) (columns : List Column) (unique : Option Unique) :
    List Token :=
  creationFront ++ .name name :: .mark '(' ::
    ([Token.mark ','].intercalate (clauses b columns unique) ++ [Token.mark ')'])

/-- A statement that creates a table has these tokens and a semicolon. -/
theorem tokens_table (b : Bool) (name : String) (columns : List Column) (unique : Option Unique) :
    tokens ((Statement.createTable name columns unique).items b) =
      tableTokens b name columns unique ++ [Token.mark ';'] := by
  have hfront : tokens (plain "CREATE TABLE IF NOT EXISTS " ++ [Item.name name] ++ plain " (") =
      creationFront ++ [Token.name name, .mark '('] := rfl
  have hunique : (unique.toList.map fun u => plain "  " ++ u.items).flatMap tokens =
      unique.toList.flatMap Unique.clause := by
    rw [List.flatMap_map]
    apply List.flatMap_congr
    intro u _
    rw [← tokens_unique u]
    rfl
  have hend : tokens (plain ");\n") = [.mark ')', .mark ';'] := rfl
  simp only [Statement.items, tableItems, tableTokens]
  rw [tokens_lines, ← flatMap_tokens_columns]
  simp only [List.flatMap_append, List.flatMap_cons, List.flatMap_nil, hfront, hunique, hend]
  simp

end SchemaMigration.Sql
