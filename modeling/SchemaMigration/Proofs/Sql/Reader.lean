import SchemaMigration.Proofs.Sql.Tokens

/-!
# Reading the statements that create tables

A reader of `CREATE TABLE` statements that knows nothing of how they are written: it cuts the tokens
of a text at semicolons, what stands between the parentheses of each statement at the commas that no
other parentheses enclose, and reads every piece as a column or, in the last place, a unique
constraint. A missing comma, two commas in a row and a comma behind the last clause are all refused.
-/

namespace SchemaMigration.Sql

/-- What a statement says that creates a table. -/
structure Declaration where
  name : String
  columns : List Column
  unique : Option Unique
deriving DecidableEq

namespace Declaration

/-- The statement that creates the table. -/
def statement (t : Declaration) : Statement := .createTable t.name t.columns t.unique

/-- The columns are sound, and a unique constraint is over some column. -/
structure Sound (b : Bool) (t : Declaration) : Prop where
  columns : ∀ column ∈ t.columns, column.Sound b
  unique : ∀ u ∈ t.unique, u.columns ≠ []

/-- The tokens of the statement, up to its semicolon. -/
def tokens (b : Bool) (t : Declaration) : List Token := tableTokens b t.name t.columns t.unique

end Declaration

/-- How many parentheses are open behind a token. -/
def Token.depth (depth : Nat) : Token → Nat
  | mark c => if c = '(' then depth + 1 else if c = ')' then depth - 1 else depth
  | _ => depth

/-- The clauses of tokens that follow the beginning of one, in some depth of parentheses. -/
def clausesFrom (depth : Nat) (clause : List Token) : List Token → List (List Token)
  | [] => [clause]
  | token :: rest =>
    if depth = 0 ∧ token = .mark ',' then clause :: clausesFrom 0 [] rest
    else clausesFrom (token.depth depth) (clause ++ [token]) rest

/-- The clauses between commas; no tokens are no clause. -/
def clausesOf (tokens : List Token) : List (List Token) :=
  if tokens = [] then [] else clausesFrom 0 [] tokens

/-- The statements of tokens that follow the beginning of one. Each ends in a semicolon. -/
def statementsFrom (statement : List Token) : List Token → Option (List (List Token))
  | [] => if statement = [] then some [] else none
  | token :: rest =>
    if token = .mark ';' then (statementsFrom [] rest).map (statement :: ·)
    else statementsFrom (statement ++ [token]) rest

/-- The type of a column, which may have a length in parentheses, and the tokens behind it. -/
def readType : List Token → Option (String × List Token)
  | .word word :: .mark '(' :: .word size :: .mark ')' :: rest => some (sized word size, rest)
  | .word word :: rest => some (word, rest)
  | _ => none

/-- The default value of a column as it is written, if it has one, and the tokens behind it. -/
def readDefault (b : Bool) : List Token → Option String × List Token
  | .word word :: .literal text :: rest =>
    if word = "DEFAULT" then (some (quoteLiteral b text), rest)
    else (none, .word word :: .literal text :: rest)
  | .word word :: .word text :: rest =>
    if word = "DEFAULT" then (some text, rest) else (none, .word word :: .word text :: rest)
  | rest => (none, rest)

/-- Whether two words come next, and the tokens behind them. -/
def readWords (first second : String) : List Token → Bool × List Token
  | .word a :: .word b :: rest =>
    if a = first ∧ b = second then (true, rest) else (false, .word a :: .word b :: rest)
  | rest => (false, rest)

/-- The column that a clause defines. -/
def readColumn (b : Bool) : List Token → Option Column
  | .name name :: rest => do
    let (type, rest) ← readType rest
    let (literal, rest) := readDefault b rest
    let (isPrimaryKey, rest) := readWords "PRIMARY" "KEY" rest
    let (isRequired, rest) := readWords "NOT" "NULL" rest
    if rest = [] then some ⟨name, type, literal, isPrimaryKey, isRequired⟩ else none
  | _ => none

/-- Names with one comma between any two, up to a parenthesis that ends the clause. -/
def readNames : List Token → Option (List String)
  | [.name name, .mark ')'] => some [name]
  | .name name :: .mark ',' :: rest => (readNames rest).map (name :: ·)
  | _ => none

/-- The unique constraint that a clause declares. -/
def readUnique : List Token → Option Unique
  | .word constraint :: .name name :: .word unique :: .mark '(' :: rest =>
    if constraint = "CONSTRAINT" ∧ unique = "UNIQUE" then
      (readNames rest).map (⟨some name, ·⟩)
    else none
  | .word unique :: .mark '(' :: rest =>
    if unique = "UNIQUE" then (readNames rest).map (⟨none, ·⟩) else none
  | _ => none

/-- The columns of clauses, and the unique constraint that the last one may be. -/
def readClauses (b : Bool) : List (List Token) → Option (List Column × Option Unique)
  | [] => some ([], none)
  | clause :: rest =>
    match readUnique clause, rest with
    | some unique, [] => some ([], some unique)
    | _, _ => do
      let column ← readColumn b clause
      let (columns, unique) ← readClauses b rest
      return (column :: columns, unique)

/-- What a statement says that creates a table. -/
def readTable (b : Bool) (statement : List Token) : Option Declaration :=
  match statement.take 5, statement.drop 5 with
  | front, .name name :: .mark '(' :: rest =>
    if front = creationFront ∧ rest.getLast? = some (.mark ')') then do
      let (columns, unique) ← readClauses b (clausesOf rest.dropLast)
      return ⟨name, columns, unique⟩
    else none
  | _, _ => none

/-- What the statements of a text say, if all of them create tables. -/
def readTables (b : Bool) (text : String) : Option (List Declaration) := do
  let items ← scan b text
  let statements ← statementsFrom [] (tokens items)
  statements.mapM (readTable b)

/-- Tokens that are cut neither at a comma nor at a semicolon: they hold commas in parentheses only,
which they close. -/
structure Solid (tokens : List Token) : Prop where
  uncut : ∀ start rest,
    clausesFrom 0 start (tokens ++ rest) = clausesFrom 0 (start ++ tokens) rest
  unended : .mark ';' ∉ tokens

theorem Solid.append {left right : List Token} (hl : Solid left) (hr : Solid right) :
    Solid (left ++ right) := by
  refine ⟨fun start rest => ?_, ?_⟩
  · rw [List.append_assoc, hl.uncut, hr.uncut, List.append_assoc]
  · rw [List.mem_append, not_or]
    exact ⟨hl.unended, hr.unended⟩

/-- Tokens without marks are solid. -/
theorem solid_of_unmarked {tokens : List Token} (h : ∀ c, .mark c ∉ tokens) : Solid tokens := by
  refine ⟨fun start rest => ?_, h ';'⟩
  induction tokens generalizing start with
  | nil => simp
  | cons token tokens ih =>
      have hrest := ih (fun c hc => h c (.tail _ hc)) (start ++ [token])
      have hdepth : token.depth 0 = 0 := by
        cases token with
        | mark c => exact absurd (.head _) (h c)
        | word text => rfl
        | name text => rfl
        | literal text => rfl
      have hcomma : token ≠ .mark ',' := by
        rintro rfl
        exact h ',' (.head _)
      rw [List.cons_append, clausesFrom, if_neg fun hc => hcomma hc.2, hdepth, hrest]
      simp

/-- Inside of parentheses, tokens that are no parentheses belong to one clause, commas too. -/
theorem clausesFrom_inside (depth : Nat) {inner : List Token}
    (h : ∀ token ∈ inner, ∀ n, token.depth n = n) (start rest : List Token) :
    clausesFrom (depth + 1) start (inner ++ rest) =
      clausesFrom (depth + 1) (start ++ inner) rest := by
  induction inner generalizing start with
  | nil => simp
  | cons token inner ih =>
      have hrest := ih (fun next hn => h next (.tail _ hn)) (start ++ [token])
      rw [List.cons_append, clausesFrom, if_neg (by simp), h token (.head _), hrest]
      simp

theorem solid_parentheses {inner : List Token} (h : ∀ token ∈ inner, ∀ n, token.depth n = n)
    (hended : .mark ';' ∉ inner) : Solid ([Token.mark '('] ++ inner ++ [Token.mark ')']) := by
  refine ⟨fun start rest => ?_, by simpa using hended⟩
  calc clausesFrom 0 start ([Token.mark '('] ++ inner ++ [Token.mark ')'] ++ rest)
    _ = clausesFrom 1 (start ++ [Token.mark '(']) (inner ++ .mark ')' :: rest) := by
      simp [clausesFrom, Token.depth]
    _ = clausesFrom 1 (start ++ [Token.mark '('] ++ inner) (.mark ')' :: rest) :=
      clausesFrom_inside 0 h _ _
    _ = clausesFrom 0 (start ++ [Token.mark '('] ++ inner ++ [Token.mark ')']) rest := by
      simp [clausesFrom, Token.depth]
    _ = clausesFrom 0 (start ++ ([Token.mark '('] ++ inner ++ [Token.mark ')'])) rest := by
      simp

/-- Solid clauses with one comma between any two are cut apart again. -/
theorem clausesOf_intercalate {clauses : List (List Token)}
    (h : ∀ clause ∈ clauses, clause ≠ [] ∧ Solid clause) :
    clausesOf ([Token.mark ','].intercalate clauses) = clauses := by
  have hcut : ∀ first rest, (∀ clause ∈ first :: rest, clause ≠ [] ∧ Solid clause) →
      clausesFrom 0 [] ([Token.mark ','].intercalate (first :: rest)) = first :: rest := by
    intro first rest
    induction rest generalizing first with
    | nil =>
        intro h
        have hsolid := (h first (.head _)).2.uncut [] []
        simpa [clausesFrom] using hsolid
    | cons next rest ih =>
        intro h
        have hsolid := (h first (.head _)).2.uncut []
          (.mark ',' :: [Token.mark ','].intercalate (next :: rest))
        have hrest := ih next fun clause hc => h clause (.tail _ hc)
        rw [List.intercalate_cons_cons, List.append_assoc, List.singleton_append, hsolid,
          List.nil_append, clausesFrom, if_pos ⟨rfl, rfl⟩, hrest]
  cases clauses with
  | nil => rfl
  | cons first rest =>
      have hne : [Token.mark ','].intercalate (first :: rest) ≠ [] := by
        have hfirst := (h first (.head _)).1
        cases rest with
        | nil => simpa using hfirst
        | cons next rest => simp [List.intercalate_cons_cons, hfirst]
      simp only [clausesOf]
      rw [if_neg hne, hcut first rest h]

/-- Behind the type of a column there are no marks. -/
theorem unmarked_ending {b : Bool} {c : Column} (h : c.Sound b) (mark : Char) :
    .mark mark ∉ c.defaultTokens b ++ c.endTokens := by
  rw [List.mem_append, not_or]
  constructor
  · simp only [Column.defaultTokens]
    cases hc : c.defaultLiteral with
    | none => simp
    | some text =>
        rcases tokens_literalItems (h.literal text hc) with htokens | ⟨s, -, htokens⟩
        · simp [htokens]
        · simp [htokens]
  · simp only [Column.endTokens]
    cases c.isPrimaryKey <;> cases c.isRequired <;> simp

theorem solid_column {b : Bool} {c : Column} (h : c.Sound b) : Solid (c.clause b) := by
  have htype : Solid (tokens (plain c.type)) := by
    rcases tokens_type h.type with htokens | ⟨word, size, -, htokens⟩
    · rw [htokens]
      exact solid_of_unmarked (by simp)
    · have hword : Solid [.word word] := solid_of_unmarked (by simp)
      have hsize : Solid ([Token.mark '('] ++ [Token.word size] ++ [Token.mark ')']) :=
        solid_parentheses (by simp [Token.depth]) (by simp)
      rw [htokens]
      exact hword.append hsize
  have hname : Solid [.name c.name] := solid_of_unmarked (by simp)
  exact hname.append (htype.append (solid_of_unmarked (unmarked_ending h)))

/-- A token of clauses between commas is a comma or in one of the clauses. -/
theorem of_mem_intercalate {token : Token} {clauses : List (List Token)}
    (h : token ∈ [Token.mark ','].intercalate clauses) :
    token = .mark ',' ∨ ∃ clause ∈ clauses, token ∈ clause := by
  induction clauses with
  | nil => cases h
  | cons first rest ih =>
      cases rest with
      | nil => exact .inr ⟨first, .head _, by simpa using h⟩
      | cons next rest =>
          rw [List.intercalate_cons_cons, List.mem_append, List.mem_append] at h
          rcases h with (h | h) | h
          · exact .inr ⟨first, .head _, h⟩
          · exact .inl (List.mem_singleton.mp h)
          · rcases ih h with hcomma | ⟨clause, hclause, htoken⟩
            · exact .inl hcomma
            · exact .inr ⟨clause, .tail _ hclause, htoken⟩

theorem of_mem_nameList {token : Token} {columns : List String} (h : token ∈ nameList columns) :
    token = .mark ',' ∨ ∃ name, token = .name name := by
  rcases of_mem_intercalate h with hcomma | ⟨clause, hclause, htoken⟩
  · exact .inl hcomma
  · obtain ⟨column, -, rfl⟩ := List.mem_map.mp hclause
    exact .inr ⟨column, List.mem_singleton.mp htoken⟩

/-- The clause of a unique constraint is solid. -/
theorem solid_unique (u : Unique) : Solid u.clause := by
  have hlist : Solid ([Token.mark '('] ++ nameList u.columns ++ [Token.mark ')']) := by
    refine solid_parentheses (fun token ht n => ?_) fun hended => ?_
    · rcases of_mem_nameList ht with rfl | ⟨name, rfl⟩ <;> rfl
    · rcases of_mem_nameList hended with h | ⟨name, h⟩
      · exact absurd h (by decide)
      · exact Token.noConfusion h
  have hword : Solid [.word "UNIQUE"] := solid_of_unmarked (by simp)
  have hrest := hword.append hlist
  simp only [Unique.clause]
  cases u.name with
  | none => simpa using hrest
  | some name =>
      have hname : Solid [.word "CONSTRAINT", .name name] := solid_of_unmarked (by simp)
      simpa using hname.append hrest

/-- The clauses of a table of sound columns are solid, and none is empty. -/
theorem solid_clauses {b : Bool} {columns : List Column} (unique : Option Unique)
    (h : ∀ column ∈ columns, column.Sound b) :
    ∀ clause ∈ clauses b columns unique, clause ≠ [] ∧ Solid clause := by
  simp only [clauses]
  rw [List.forall_mem_append]
  constructor
  · intro clause hclause
    obtain ⟨column, hc, rfl⟩ := List.mem_map.mp hclause
    exact ⟨by simp [Column.clause], solid_column (h column hc)⟩
  · intro clause hclause
    obtain ⟨u, -, rfl⟩ := List.mem_map.mp hclause
    exact ⟨by simp [Unique.clause], solid_unique u⟩

theorem readType_word (word : String) {rest : List Token} (h : ∀ c, .mark c ∉ rest) :
    readType (.word word :: rest) = some (word, rest) := by
  cases rest with
  | nil => rfl
  | cons token rest =>
      cases token with
      | mark c => exact absurd (.head _) (h c)
      | word text => rfl
      | name text => rfl
      | literal text => rfl

theorem readType_tokens {b : Bool} {c : Column} (h : c.Sound b) :
    readType (tokens (plain c.type) ++ (c.defaultTokens b ++ c.endTokens)) =
      some (c.type, c.defaultTokens b ++ c.endTokens) := by
  rcases tokens_type h.type with htokens | ⟨word, size, hc, htokens⟩
  · rw [htokens]
    exact readType_word c.type (unmarked_ending h)
  · rw [htokens, hc]
    rfl

theorem readDefault_defaultTokens {b : Bool} {c : Column} (h : c.Sound b) :
    readDefault b (c.defaultTokens b ++ c.endTokens) = (c.defaultLiteral, c.endTokens) := by
  simp only [Column.defaultTokens]
  cases hc : c.defaultLiteral with
  | none =>
      simp only [Column.endTokens]
      cases c.isPrimaryKey <;> cases c.isRequired <;> rfl
  | some text =>
      rcases tokens_literalItems (h.literal text hc) with htokens | ⟨s, rfl, htokens⟩
      · simp only [htokens]
        rfl
      · simp only [htokens]
        rfl

theorem readColumn_clause {b : Bool} {c : Column} (h : c.Sound b) :
    readColumn b (c.clause b) = some c := by
  have htype := readType_tokens h
  have hdefault := readDefault_defaultTokens h
  simp only [Column.clause, readColumn]
  simp only [htype, hdefault, Option.bind_eq_bind, Option.bind_some]
  obtain ⟨name, type, literal, isPrimaryKey, isRequired⟩ := c
  simp only [Column.endTokens]
  cases isPrimaryKey <;> cases isRequired <;> rfl

/-- A list of names is read back. -/
theorem readNames_nameList {columns : List String} (h : columns ≠ []) :
    readNames (nameList columns ++ [Token.mark ')']) = some columns := by
  simp only [nameList]
  induction columns with
  | nil => exact absurd rfl h
  | cons column rest ih =>
      cases rest with
      | nil => rfl
      | cons next rest =>
          have hrest := ih (by simp)
          simp only [List.map_cons, List.intercalate_cons_cons] at hrest ⊢
          simp only [List.cons_append, List.nil_append] at hrest ⊢
          rw [readNames, hrest]
          rfl

theorem readUnique_clause {u : Unique} (h : u.columns ≠ []) : readUnique u.clause = some u := by
  have hnames := readNames_nameList h
  obtain ⟨name, columns⟩ := u
  simp only [Unique.clause]
  cases name with
  | none => simpa [readUnique] using hnames
  | some name => simpa [readUnique] using hnames

/-- The clauses of a table are read back. -/
theorem readClauses_clauses {b : Bool} {columns : List Column} {unique : Option Unique}
    (hc : ∀ column ∈ columns, column.Sound b) (hu : ∀ u ∈ unique, u.columns ≠ []) :
    readClauses b (clauses b columns unique) = some (columns, unique) := by
  simp only [clauses]
  induction columns with
  | nil =>
      cases unique with
      | none => rfl
      | some u =>
          have hunique := readUnique_clause (hu u rfl)
          simp [readClauses, hunique]
  | cons column rest ih =>
      have hcolumn := readColumn_clause (hc column (.head _))
      have hrest := ih fun next hn => hc next (.tail _ hn)
      have hunique : readUnique (column.clause b) = none := rfl
      rw [List.map_cons, List.cons_append, readClauses]
      · simp [hcolumn, hrest]
      · simp [hunique]

/-- The statement of a sound declaration is read back. -/
theorem readTable_tokens {b : Bool} {t : Declaration} (h : t.Sound b) :
    readTable b (t.tokens b) = some t := by
  have hclauses := readClauses_clauses h.columns h.unique
  have hcut := clausesOf_intercalate (solid_clauses t.unique h.columns)
  simp only [readTable, Declaration.tokens, tableTokens]
  simp [creationFront, hcut, hclauses]

theorem unended_tokens {b : Bool} {t : Declaration} (h : t.Sound b) : .mark ';' ∉ t.tokens b := by
  have hbody : .mark ';' ∉ [Token.mark ','].intercalate (clauses b t.columns t.unique) := by
    intro hmem
    rcases of_mem_intercalate hmem with hcomma | ⟨clause, hclause, htoken⟩
    · exact absurd hcomma (by decide)
    · exact (solid_clauses t.unique h.columns clause hclause).2.unended htoken
  simp only [Declaration.tokens, tableTokens, creationFront]
  simpa using hbody

/-- A statement ends at the first semicolon. -/
theorem statementsFrom_append (start : List Token) {statement : List Token}
    (h : .mark ';' ∉ statement) (rest : List Token) :
    statementsFrom start (statement ++ .mark ';' :: rest) =
      (statementsFrom [] rest).map ((start ++ statement) :: ·) := by
  induction statement generalizing start with
  | nil => simp [statementsFrom]
  | cons token statement ih =>
      have hne : token ≠ .mark ';' := by
        rintro rfl
        exact h (.head _)
      have hrest := ih (start ++ [token]) fun hmem => h (.tail _ hmem)
      rw [List.cons_append, statementsFrom, if_neg hne, hrest]
      simp

/-- Statements that end in semicolons are cut apart again. -/
theorem statementsFrom_tokens {b : Bool} {tables : List Declaration}
    (h : ∀ t ∈ tables, t.Sound b) :
    statementsFrom [] (tables.flatMap fun t => t.tokens b ++ [Token.mark ';']) =
      some (tables.map (Declaration.tokens b)) := by
  induction tables with
  | nil => rfl
  | cons t rest ih =>
      have hrest := ih fun next hn => h next (.tail _ hn)
      have hfirst := statementsFrom_append [] (unended_tokens (h t (.head _)))
        (rest.flatMap fun t => t.tokens b ++ [Token.mark ';'])
      rw [List.flatMap_cons, List.append_assoc, List.singleton_append, hfirst, hrest]
      rfl

theorem mapM_readTable {b : Bool} {tables : List Declaration} (h : ∀ t ∈ tables, t.Sound b) :
    (tables.map (Declaration.tokens b)).mapM (readTable b) = some tables := by
  induction tables with
  | nil => rfl
  | cons t rest ih =>
      have hfirst := readTable_tokens (h t (.head _))
      have hrest := ih fun next hn => h next (.tail _ hn)
      rw [List.map_cons, List.mapM_cons, hfirst, hrest]
      rfl

/-- The declarations of sound tables are read back from the text that creates them. -/
theorem readTables_text {b : Bool} {tables : List Declaration} (h : ∀ t ∈ tables, t.Sound b) :
    readTables b ("\n".intercalate (tables.map fun t => t.statement.text '"')) = some tables := by
  have hitems : scan b ("\n".intercalate (tables.map fun t => t.statement.text '"')) =
      some ((plain "\n").intercalate (tables.map fun t => t.statement.items b)) := by
    have htidy : Tidy ((plain "\n").intercalate (tables.map fun t => t.statement.items b)) := by
      apply tidy_intercalate (by decide)
      intro line hline
      obtain ⟨t, ht, rfl⟩ := List.mem_map.mp hline
      exact tidy_statement (h t ht).columns
    have hwrite : (tables.map fun t => t.statement.items b).map (write b) =
        (tables.map fun t => t.statement.text '"').map String.toList := by
      rw [List.map_map, List.map_map]
      exact List.map_congr_left fun t ht => write_statement (h t ht).columns
    have hscan := scan_write b htidy
    rw [write_intercalate, hwrite, ← String.toList_intercalate, String.ofList_toList] at hscan
    exact hscan
  have htokens : tokens ((plain "\n").intercalate (tables.map fun t => t.statement.items b)) =
      tables.flatMap fun t => t.tokens b ++ [Token.mark ';'] := by
    rw [tokens_lines, List.flatMap_map]
    exact List.flatMap_congr fun t _ => tokens_table b t.name t.columns t.unique
  simp only [readTables]
  rw [hitems]
  simp only [Option.bind_eq_bind, Option.bind_some, htokens, statementsFrom_tokens h,
    mapM_readTable h]

example : readTables false "CREATE TABLE IF NOT EXISTS \"a\" (\n \"b\" TEXT\n);" =
    some [⟨"a", [⟨"b", "TEXT", none, false, false⟩], none⟩] := by
  decide

/-- A comma behind the last clause is refused. -/
example : readTables false "CREATE TABLE IF NOT EXISTS \"a\" (\n \"b\" TEXT ,\n);" = none := by
  decide

end SchemaMigration.Sql
