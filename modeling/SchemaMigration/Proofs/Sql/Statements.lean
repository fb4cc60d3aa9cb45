import Mathlib
import SchemaMigration.Proofs.Sql.Words

/-!
# The items of statements

The text of every statement is that of a list of items: its names, its literals, and quiet text
around them. `Statement.items` gives them; the names among them are those that the statement
carries, and the only semicolon is the one that ends it.

## Implementation notes

Types and default values are stored as text. `Statement.Sound` says that they have the forms that
dialects give them; without it, the text of a statement need not even end outside of quotes.
-/

namespace SchemaMigration.Sql

/-- The names among items, in order. -/
def namesOf (items : List Item) : List String := items.filterMap Item.name?

/-- The semicolons outside of quotes. -/
def semicolons (items : List Item) : Nat := items.count (.plain ';')

/-- The items of the text of a default value. -/
def literalItems (b : Bool) (text : String) : List Item := (scan b text).getD []

namespace Column

/-- What stands behind the default value in the definition of a column. -/
def ending (comma : Bool) (c : Column) : String :=
  (if c.isPrimaryKey then "PRIMARY KEY " else "") ++ (if c.isRequired then "NOT NULL " else "") ++
    (if comma then "," else "") ++ " "

/-- The items of the default value of a column. -/
def defaultItems (b : Bool) (c : Column) : List Item :=
  match c.defaultLiteral with
  | some text => plain "DEFAULT " ++ literalItems b text ++ plain " "
  | none => []

/-- The items of the definition of a column. -/
def items (b comma : Bool) (c : Column) : List Item :=
  plain "  " ++ [Item.name c.name] ++ plain " " ++ plain c.type ++ plain " " ++ c.defaultItems b ++
    plain (c.ending comma)

end Column

namespace Unique

/-- The names of a unique constraint. -/
def names (u : Unique) : List String := u.name.toList ++ u.columns

/-- The items of a unique constraint. -/
def items (u : Unique) : List Item :=
  (match u.name with
    | some name => plain "CONSTRAINT " ++ [Item.name name] ++ plain " "
    | none => []) ++
    plain "UNIQUE(" ++ (plain ",").intercalate (u.columns.map fun column => [Item.name column]) ++
    plain ")"

end Unique

/-- The items of the lines of the columns of a table. -/
def columnItems (b more : Bool) : List Column → List (List Item)
  | [] => []
  | column :: columns =>
    column.items b (more || !columns.isEmpty) :: columnItems b more columns

/-- The items of the lines of a statement that creates a table. -/
def tableItems (b : Bool) (name : String) (columns : List Column) (unique : Option Unique) :
    List (List Item) :=
  [plain "CREATE TABLE IF NOT EXISTS " ++ [Item.name name] ++ plain " ("] ++
    columnItems b unique.isSome columns ++
    unique.toList.map (fun u => plain "  " ++ u.items) ++
    [plain ");\n"]

namespace Statement

/-- The items of the front of a statement that alters a table. -/
def alterItems (table : String) : List Item := plain "ALTER TABLE " ++ [Item.name table]

/-- The items of a statement. -/
def items (b : Bool) : Statement → List Item
  | createTable name columns unique => (plain "\n").intercalate (tableItems b name columns unique)
  | dropTable name => plain "DROP TABLE IF EXISTS " ++ [Item.name name] ++ plain ";"
  | renameTable previous current =>
    alterItems previous ++ plain " RENAME TO " ++ [Item.name current] ++ plain ";"
  | addColumn table column =>
    alterItems table ++ plain "\nADD COLUMN " ++ column.items b false ++ plain ";\n"
  | dropColumn table column =>
    alterItems table ++ plain " DROP COLUMN " ++ [Item.name column] ++ plain ";"
  | renameColumn table previous current =>
    alterItems table ++ plain "\nRENAME COLUMN " ++ [Item.name previous] ++ plain " TO " ++
      [Item.name current] ++ plain ";\n"
  | setRequired table column required =>
    alterItems table ++ plain "\nALTER COLUMN " ++ [Item.name column] ++
      plain (if required then " SET NOT NULL;" else " DROP NOT NULL;")
  | setType table column type =>
    alterItems table ++ plain "\nALTER COLUMN " ++ [Item.name column] ++ plain " TYPE " ++
      plain type ++ plain ";\n"
  | dropConstraint table constraint ifThere =>
    alterItems table ++ plain "\nDROP CONSTRAINT " ++
      plain (if ifThere then "IF EXISTS " else "") ++ [Item.name constraint] ++ plain ";"
  | addConstraint table unique =>
    alterItems table ++ plain "\nADD " ++ unique.items ++ plain ";"

/-- The names of a statement, in order. -/
def names : Statement → List String
  | createTable name columns unique =>
    name :: columns.map (·.name) ++ unique.toList.flatMap Unique.names
  | dropTable name => [name]
  | renameTable previous current => [previous, current]
  | addColumn table column => [table, column.name]
  | dropColumn table column | setRequired table column _ | setType table column _ =>
    [table, column]
  | renameColumn table previous current => [table, previous, current]
  | dropConstraint table constraint _ => [table, constraint]
  | addConstraint table unique => table :: unique.names

/-- The types and default values of a statement have the forms that dialects give them. -/
def Sound (b : Bool) : Statement → Prop
  | createTable _ columns _ => ∀ column ∈ columns, column.Sound b
  | addColumn _ column => column.Sound b
  | setType _ _ type => IsType type
  | _ => True

end Statement

theorem write_intercalate (b : Bool) (s : String) (lines : List (List Item)) :
    write b ((plain s).intercalate lines) = s.toList.intercalate (lines.map (write b)) := by
  induction lines with
  | nil => rfl
  | cons line rest ih =>
      cases rest with
      | nil => simp
      | cons next rest =>
          rw [List.intercalate_cons_cons, write_append, write_append, ih, write_plain]
          simp

/-- The items of a literal are written as it is. -/
theorem literalItems_cases {b : Bool} {text : String} (h : IsLiteral b text) :
    (∃ s, text = quoteLiteral b s ∧ literalItems b text = [.literal s]) ∨
      (Word text.toList ∧ literalItems b text = plain text) := by
  simp only [literalItems]
  rcases h with ⟨s, rfl⟩ | h
  · refine .inl ⟨s, rfl, ?_⟩
    have hscan := scan_write b (tidy_literal s)
    simp only [write_cons, write_nil, List.append_nil, Item.chars_literal,
      String.ofList_toList] at hscan
    rw [hscan, Option.getD_some]
  · refine .inr ⟨h, ?_⟩
    have hscan : scan b (String.ofList (write b (plain text))) = some (plain text) :=
      scan_write b h.tidy
    rw [write_plain, String.ofList_toList] at hscan
    rw [hscan, Option.getD_some]

theorem write_literalItems {b : Bool} {text : String} (h : IsLiteral b text) :
    write b (literalItems b text) = text.toList := by
  rcases literalItems_cases h with ⟨s, rfl, hitems⟩ | ⟨-, hitems⟩
  · rw [hitems]
    simp
  · rw [hitems, write_plain]

/-- The text of a column is that of its items. -/
theorem write_column {b : Bool} (comma : Bool) {c : Column} (h : c.Sound b) :
    write b (c.items b comma) = (c.text '"' comma).toList := by
  simp only [Column.items, Column.defaultItems, Column.text, Column.ending]
  cases hdefault : c.defaultLiteral with
  | none => simp 
  | some text =>
      have hliteral := write_literalItems (h.literal text hdefault)
      simp [hliteral]

/-- The text of a unique constraint is that of its items. -/
theorem write_unique (b : Bool) (u : Unique) : write b u.items = (u.text '"').toList := by
  have hcolumns : (u.columns.map fun column => [Item.name column]).map (write b) =
      (u.columns.map (quoteName '"')).map String.toList := by
    rw [List.map_map, List.map_map]
    exact List.map_congr_left fun column _ => by simp
  simp only [Unique.items, Unique.text]
  cases u.name with
  | none => simp [write_intercalate, String.toList_intercalate, hcolumns]
  | some name => simp [write_intercalate, String.toList_intercalate, hcolumns]

/-- The text of the columns of a table is that of their items, line by line. -/
theorem write_columns {b : Bool} (more : Bool) {columns : List Column}
    (h : ∀ column ∈ columns, column.Sound b) :
    (columnItems b more columns).map (write b) =
      (columnLines '"' more columns).map String.toList := by
  induction columns with
  | nil => rfl
  | cons column columns ih =>
      have hcolumn := write_column (more || !columns.isEmpty) (h column (.head _))
      have hcolumns := ih fun next hn => h next (.tail _ hn)
      simp only [columnItems, columnLines, List.map_cons, hcolumn, hcolumns]

open Statement in
/-- The text of a statement is that of its items. -/
theorem write_statement {b : Bool} {statement : Statement} (h : statement.Sound b) :
    write b (statement.items b) = (statement.text '"').toList := by
  cases statement with
  | createTable name columns unique =>
      have hcolumns := write_columns unique.isSome h
      have hunique : (unique.toList.map fun u => plain "  " ++ u.items).map (write b) =
          (unique.toList.map fun u => "  " ++ u.text '"').map String.toList := by
        rw [List.map_map, List.map_map]
        exact List.map_congr_left fun u _ => by simp [write_unique]
      unfold Statement.items Statement.text tableItems tableLines
      rw [write_intercalate, String.toList_intercalate]
      simp only [List.map_append, hcolumns, hunique]
      simp 
  | dropTable name =>
      unfold Statement.items Statement.text
      simp
  | renameTable previous current =>
      unfold Statement.items Statement.text
      simp [alterItems, alter]
  | addColumn table column =>
      unfold Statement.items Statement.text
      simp [alterItems, alter, write_column false h]
  | dropColumn table column =>
      unfold Statement.items Statement.text
      simp [alterItems, alter]
  | renameColumn table previous current =>
      unfold Statement.items Statement.text
      simp [alterItems, alter]
  | setRequired table column required =>
      unfold Statement.items Statement.text
      simp [alterItems, alter]
  | setType table column type =>
      unfold Statement.items Statement.text
      simp [alterItems, alter]
  | dropConstraint table constraint ifThere =>
      unfold Statement.items Statement.text
      simp [alterItems, alter]
  | addConstraint table unique =>
      unfold Statement.items Statement.text
      simp [alterItems, alter, write_unique]

/-- Items that stand apart are tidy together. -/
theorem tidy_intercalate {s : String} (hs : Quiet s) {lines : List (List Item)}
    (h : ∀ line ∈ lines, Tidy line) : Tidy ((plain s).intercalate lines) := by
  induction lines with
  | nil => exact tidy_nil
  | cons line rest ih =>
      have hrest := ih fun next hn => h next (.tail _ hn)
      cases rest with
      | nil => simpa using h line (.head _)
      | cons next rest =>
          rw [List.intercalate_cons_cons, List.append_assoc]
          exact (tidy_append_plain hs).mpr ⟨h line (.head _), hrest⟩

/-- A type is quiet text. -/
theorem IsType.quiet {text : String} (h : IsType text) : Quiet text := by
  rcases h with h | ⟨word, size, hword, hsize, rfl⟩
  · exact ⟨h.ne_nil, h.quiet⟩
  · simp only [sized]
    refine ⟨by simp, ?_⟩
    simp only [String.toList_append, List.forall_mem_append]
    exact ⟨⟨⟨hword.quiet, by simp [IsQuiet]⟩, hsize.quiet⟩, by simp [IsQuiet]⟩

/-- The end of a column definition is quiet. -/
theorem quiet_ending (comma : Bool) (c : Column) : Quiet (c.ending comma) := by
  simp only [Column.ending]
  cases c.isPrimaryKey <;> cases c.isRequired <;> cases comma <;> decide

theorem tidy_literalItems {b : Bool} {text : String} (h : IsLiteral b text) :
    Tidy (literalItems b text) := by
  rcases literalItems_cases h with ⟨s, -, hitems⟩ | ⟨hword, hitems⟩
  · rw [hitems]
    exact tidy_literal s
  · rw [hitems]
    exact hword.tidy

/-- Quiet text is tidy. -/
theorem tidy_plain {s : String} (hs : Quiet s) : Tidy (plain s) := by
  have h : Tidy (plain s ++ []) := (tidy_plain_append hs).mpr tidy_nil
  simpa using h

/-- Quiet text may stand behind tidy items. -/
theorem tidy_append_end {s : String} {items : List Item} (hs : Quiet s) :
    Tidy (items ++ plain s) ↔ Tidy items := by
  have h : Tidy (items ++ (plain s ++ [])) ↔ Tidy items ∧ Tidy [] := tidy_append_plain hs
  simpa using h

/-- The items of a column are tidy. -/
theorem tidy_column {b : Bool} (comma : Bool) {c : Column} (h : c.Sound b) :
    Tidy (c.items b comma) := by
  have hend : Tidy (plain (c.ending comma)) := tidy_plain (quiet_ending comma c)
  have htype := h.type.quiet
  have hdefault : Tidy (c.defaultItems b ++ plain (c.ending comma)) := by
    simp only [Column.defaultItems]
    cases hc : c.defaultLiteral with
    | none => exact hend
    | some text =>
        simp only [List.append_assoc]
        rw [tidy_plain_append (by decide), tidy_append_plain (by decide)]
        exact ⟨tidy_literalItems (h.literal text hc), hend⟩
  simp only [Column.items]
  simp only [List.append_assoc]
  rw [tidy_plain_append (by decide), tidy_append_plain (by decide), tidy_plain_append htype,
    tidy_plain_append (by decide)]
  exact ⟨tidy_name c.name, hdefault⟩

/-- The items of a unique constraint are tidy. -/
theorem tidy_unique (u : Unique) : Tidy u.items := by
  have hcolumns :
      Tidy ((plain ",").intercalate (u.columns.map fun column => [Item.name column])) := by
    apply tidy_intercalate (by decide)
    intro line hline
    obtain ⟨column, -, rfl⟩ := List.mem_map.mp hline
    exact tidy_name column
  have hrest : Tidy (plain "UNIQUE(" ++
      ((plain ",").intercalate (u.columns.map fun column => [Item.name column]) ++ plain ")")) := by
    rw [tidy_plain_append (by decide), tidy_append_end (by decide)]
    exact hcolumns
  simp only [Unique.items]
  simp only [List.append_assoc]
  cases u.name with
  | none => exact hrest
  | some name =>
      simp only [List.append_assoc]
      rw [tidy_plain_append (by decide), tidy_append_plain (by decide)]
      exact ⟨tidy_name name, hrest⟩

/-- The items of every line of a table are tidy. -/
theorem tidy_columns {b : Bool} (more : Bool) {columns : List Column}
    (h : ∀ column ∈ columns, column.Sound b) :
    ∀ line ∈ columnItems b more columns, Tidy line := by
  induction columns with
  | nil => simp [columnItems]
  | cons column columns ih =>
      simp only [columnItems]
      rw [List.forall_mem_cons]
      exact ⟨tidy_column _ (h column (.head _)), ih fun next hn => h next (.tail _ hn)⟩

/-- The items of every line of a statement that creates a table are tidy. -/
theorem tidy_table {b : Bool} (name : String) {columns : List Column} (unique : Option Unique)
    (h : ∀ column ∈ columns, column.Sound b) :
    ∀ line ∈ tableItems b name columns unique, Tidy line := by
  simp only [tableItems]
  simp only [List.forall_mem_append, List.forall_mem_singleton]
  refine ⟨⟨⟨?_, tidy_columns _ h⟩, ?_⟩, tidy_plain (by decide)⟩
  · rw [List.append_assoc, tidy_plain_append (by decide), tidy_append_end (by decide)]
    exact tidy_name name
  · intro line hline
    obtain ⟨u, -, rfl⟩ := List.mem_map.mp hline
    rw [tidy_plain_append (by decide)]
    exact tidy_unique u

/-- What follows the name of the table that a statement alters decides whether it is tidy. -/
theorem tidy_alter (table : String) {s : String} {items : List Item} (hs : Quiet s) :
    Tidy (Statement.alterItems table ++ (plain s ++ items)) ↔ Tidy items := by
  simp only [Statement.alterItems]
  rw [List.append_assoc, tidy_plain_append (by decide), tidy_append_plain hs]
  exact and_iff_right (tidy_name table)

open Statement in
/-- The items of a statement are tidy. -/
theorem tidy_statement {b : Bool} {statement : Statement} (h : statement.Sound b) :
    Tidy (statement.items b) := by
  cases statement with
  | createTable name columns unique =>
      exact tidy_intercalate (by decide) (tidy_table name unique h)
  | dropTable name =>
      simp only [items]
      simp only [List.append_assoc]
      rw [tidy_plain_append (by decide), tidy_append_end (by decide)]
      exact tidy_name name
  | renameTable previous current =>
      simp only [items]
      simp only [List.append_assoc]
      rw [tidy_alter previous (by decide), tidy_append_end (by decide)]
      exact tidy_name current
  | addColumn table column =>
      simp only [items]
      simp only [List.append_assoc]
      rw [tidy_alter table (by decide), tidy_append_end (by decide)]
      exact tidy_column false h
  | dropColumn table column =>
      simp only [items]
      simp only [List.append_assoc]
      rw [tidy_alter table (by decide), tidy_append_end (by decide)]
      exact tidy_name column
  | renameColumn table previous current =>
      simp only [items]
      simp only [List.append_assoc]
      rw [tidy_alter table (by decide), tidy_append_plain (by decide), tidy_append_end (by decide)]
      exact ⟨tidy_name previous, tidy_name current⟩
  | setRequired table column required =>
      have hend : Quiet (if required then " SET NOT NULL;" else " DROP NOT NULL;") := by
        cases required <;> decide
      simp only [items]
      simp only [List.append_assoc]
      rw [tidy_alter table (by decide), tidy_append_end hend]
      exact tidy_name column
  | setType table column type =>
      have htype : Quiet type := IsType.quiet h
      simp only [items]
      simp only [List.append_assoc]
      rw [tidy_alter table (by decide), tidy_append_plain (by decide), tidy_append_end (by decide)]
      exact ⟨tidy_name column, tidy_plain htype⟩
  | dropConstraint table constraint ifThere =>
      have hname : Tidy ([Item.name constraint] ++ plain ";") :=
        (tidy_append_end (by decide)).mpr (tidy_name constraint)
      simp only [items]
      simp only [List.append_assoc]
      rw [tidy_alter table (by decide)]
      cases ifThere with
      | false => exact hname
      | true => exact (tidy_plain_append (by decide)).mpr hname
  | addConstraint table unique =>
      simp only [items]
      simp only [List.append_assoc]
      rw [tidy_alter table (by decide), tidy_append_end (by decide)]
      exact tidy_unique unique

@[simp] theorem namesOf_nil : namesOf [] = [] := rfl

@[simp] theorem namesOf_append (left right : List Item) :
    namesOf (left ++ right) = namesOf left ++ namesOf right :=
  List.filterMap_append

@[simp] theorem namesOf_plain (s : String) : namesOf (plain s) = [] := by
  simp only [namesOf, plain]
  rw [List.filterMap_map]
  exact List.filterMap_eq_nil_iff.mpr fun c _ => rfl

@[simp] theorem namesOf_name (text : String) (items : List Item) :
    namesOf (.name text :: items) = text :: namesOf items := rfl

theorem namesOf_intercalate (s : String) (lines : List (List Item)) :
    namesOf ((plain s).intercalate lines) = lines.flatMap namesOf := by
  induction lines with
  | nil => rfl
  | cons line rest ih =>
      cases rest with
      | nil => simp
      | cons next rest =>
          rw [List.intercalate_cons_cons, namesOf_append, namesOf_append, ih, namesOf_plain]
          simp

theorem namesOf_literalItems {b : Bool} {text : String} (h : IsLiteral b text) :
    namesOf (literalItems b text) = [] := by
  rcases literalItems_cases h with ⟨s, -, hitems⟩ | ⟨-, hitems⟩
  · rw [hitems]
    rfl
  · rw [hitems, namesOf_plain]

/-- The definition of a column has one name. -/
theorem namesOf_column {b : Bool} (comma : Bool) {c : Column} (h : c.Sound b) :
    namesOf (c.items b comma) = [c.name] := by
  simp only [Column.items, Column.defaultItems]
  cases hdefault : c.defaultLiteral with
  | none => simp
  | some text => simp [namesOf_literalItems (h.literal text hdefault)]

/-- A column between commas has one name. -/
theorem namesOf_flatMap_name (columns : List String) :
    (columns.map fun column => [Item.name column]).flatMap namesOf = columns := by
  induction columns with
  | nil => rfl
  | cons column columns ih => simp [ih]

theorem namesOf_unique (u : Unique) : namesOf u.items = u.names := by
  simp only [Unique.items, Unique.names]
  cases u.name with
  | none => simp [namesOf_intercalate, namesOf_flatMap_name]
  | some name => simp [namesOf_intercalate, namesOf_flatMap_name]

theorem namesOf_columns {b : Bool} (more : Bool) {columns : List Column}
    (h : ∀ column ∈ columns, column.Sound b) :
    (columnItems b more columns).flatMap namesOf = columns.map (·.name) := by
  induction columns with
  | nil => rfl
  | cons column columns ih =>
      have hcolumn := namesOf_column (more || !columns.isEmpty) (h column (.head _))
      have hcolumns := ih fun next hn => h next (.tail _ hn)
      simp [columnItems, hcolumn, hcolumns]

open Statement in
/-- The items of a statement have its names, in order. -/
theorem namesOf_statement {b : Bool} {statement : Statement} (h : statement.Sound b) :
    namesOf (statement.items b) = statement.names := by
  cases statement with
  | createTable name columns unique =>
      have hcolumns := namesOf_columns unique.isSome h
      simp only [items, names, tableItems]
      rw [namesOf_intercalate]
      cases unique with
      | none => simpa using hcolumns
      | some u => simpa [namesOf_unique] using hcolumns
  | dropTable name =>
      simp only [items, names]
      simp
  | renameTable previous current =>
      simp only [items, names, alterItems]
      simp
  | addColumn table column =>
      simp only [items, names, alterItems]
      simp [namesOf_column false h]
  | dropColumn table column =>
      simp only [items, names, alterItems]
      simp
  | renameColumn table previous current =>
      simp only [items, names, alterItems]
      simp
  | setRequired table column required =>
      simp only [items, names, alterItems]
      simp
  | setType table column type =>
      simp only [items, names, alterItems]
      simp
  | dropConstraint table constraint ifThere =>
      simp only [items, names, alterItems]
      simp
  | addConstraint table unique =>
      simp only [items, names, alterItems]
      simp [namesOf_unique]

@[simp] theorem semicolons_nil : semicolons [] = 0 := rfl

@[simp] theorem semicolons_append (left right : List Item) :
    semicolons (left ++ right) = semicolons left + semicolons right :=
  List.count_append

@[simp] theorem semicolons_name (text : String) (items : List Item) :
    semicolons (.name text :: items) = semicolons items :=
  List.count_cons_of_ne (by simp)

@[simp] theorem semicolons_plain (s : String) : semicolons (plain s) = s.toList.count ';' := by
  simp only [semicolons, plain]
  induction s.toList with
  | nil => rfl
  | cons c cs ih => simp [List.count_cons, ih]

theorem semicolons_intercalate {s : String} (hs : s.toList.count ';' = 0)
    (lines : List (List Item)) :
    semicolons ((plain s).intercalate lines) = (lines.map semicolons).sum := by
  induction lines with
  | nil => rfl
  | cons line rest ih =>
      cases rest with
      | nil => simp
      | cons next rest =>
          rw [List.intercalate_cons_cons, semicolons_append, semicolons_append, ih,
            semicolons_plain, hs]
          simp

/-- A word holds no semicolon. -/
theorem count_of_isWordChar {cs : List Char} (h : ∀ c ∈ cs, IsWordChar c) : cs.count ';' = 0 := by
  apply List.count_eq_zero.mpr
  intro hmem
  exact absurd (h ';' hmem) (by decide)

theorem semicolons_literalItems {b : Bool} {text : String} (h : IsLiteral b text) :
    semicolons (literalItems b text) = 0 := by
  rcases literalItems_cases h with ⟨s, -, hitems⟩ | ⟨hword, hitems⟩
  · rw [hitems]
    rfl
  · rw [hitems, semicolons_plain, count_of_isWordChar hword.chars]

theorem IsType.count {text : String} (h : IsType text) : text.toList.count ';' = 0 := by
  rcases h with h | ⟨word, size, hword, hsize, rfl⟩
  · exact count_of_isWordChar h.chars
  · simp [sized, count_of_isWordChar hword.chars, count_of_isWordChar hsize.chars]

theorem semicolons_column {b : Bool} (comma : Bool) {c : Column} (h : c.Sound b) :
    semicolons (c.items b comma) = 0 := by
  have hend : (c.ending comma).toList.count ';' = 0 := by
    simp only [Column.ending]
    cases c.isPrimaryKey <;> cases c.isRequired <;> cases comma <;> decide
  simp only [Column.items, Column.defaultItems]
  cases hdefault : c.defaultLiteral with
  | none => simp [hend, h.type.count]
  | some text =>
      simp [hend, h.type.count, semicolons_literalItems (h.literal text hdefault)]

/-- Lines without semicolons have none together. -/
theorem sum_semicolons {lines : List (List Item)} (h : ∀ line ∈ lines, semicolons line = 0) :
    (lines.map semicolons).sum = 0 := by
  apply List.sum_eq_zero_iff_forall_eq_nat.mpr
  intro count hcount
  obtain ⟨line, hline, rfl⟩ := List.mem_map.mp hcount
  exact h line hline

theorem semicolons_unique (u : Unique) : semicolons u.items = 0 := by
  have hcolumns :
      semicolons ((plain ",").intercalate (u.columns.map fun column => [Item.name column])) =
        0 := by
    rw [semicolons_intercalate (by decide)]
    apply sum_semicolons
    intro line hline
    obtain ⟨column, -, rfl⟩ := List.mem_map.mp hline
    rfl
  simp only [Unique.items]
  cases u.name with
  | none => simp [hcolumns]
  | some name => simp [hcolumns]

theorem semicolons_columns {b : Bool} (more : Bool) {columns : List Column}
    (h : ∀ column ∈ columns, column.Sound b) :
    ∀ line ∈ columnItems b more columns, semicolons line = 0 := by
  induction columns with
  | nil => simp [columnItems]
  | cons column columns ih =>
      simp only [columnItems]
      rw [List.forall_mem_cons]
      exact ⟨semicolons_column _ (h column (.head _)), ih fun next hn => h next (.tail _ hn)⟩

open Statement in
/-- A statement has one semicolon. -/
theorem semicolons_statement {b : Bool} {statement : Statement} (h : statement.Sound b) :
    semicolons (statement.items b) = 1 := by
  cases statement with
  | createTable name columns unique =>
      have hcolumns := sum_semicolons (semicolons_columns unique.isSome h)
      have hfront :
          semicolons (plain "CREATE TABLE IF NOT EXISTS " ++ [Item.name name] ++ plain " (") =
            0 := by
        simp only [semicolons_append, semicolons_plain, semicolons_name, semicolons_nil]
        decide
      have hunique : ((unique.toList.map fun u => plain "  " ++ u.items).map semicolons).sum =
          0 := by
        apply sum_semicolons
        intro line hline
        obtain ⟨u, -, rfl⟩ := List.mem_map.mp hline
        rw [semicolons_append, semicolons_unique]
        decide
      have hend : semicolons (plain ");\n") = 1 := by decide
      simp only [items, tableItems]
      rw [semicolons_intercalate (by decide)]
      simp only [List.map_append, List.sum_append, List.map_cons, List.map_nil, List.sum_cons,
        List.sum_nil, hfront, hcolumns, hunique, hend, Nat.add_zero]
  | dropTable name =>
      simp only [items]
      simp only [semicolons_append, semicolons_plain, semicolons_name, semicolons_nil]
      rfl
  | renameTable previous current =>
      simp only [items, alterItems]
      simp only [semicolons_append, semicolons_plain, semicolons_name, semicolons_nil]
      rfl
  | addColumn table column =>
      simp only [items, alterItems]
      simp only [semicolons_append, semicolons_plain, semicolons_name, semicolons_nil,
        semicolons_column false h]
      rfl
  | dropColumn table column =>
      simp only [items, alterItems]
      simp only [semicolons_append, semicolons_plain, semicolons_name, semicolons_nil]
      rfl
  | renameColumn table previous current =>
      simp only [items, alterItems]
      simp only [semicolons_append, semicolons_plain, semicolons_name, semicolons_nil]
      rfl
  | setRequired table column required =>
      simp only [items, alterItems]
      simp only [semicolons_append, semicolons_plain, semicolons_name, semicolons_nil]
      cases required <;> rfl
  | setType table column type =>
      simp only [items, alterItems]
      simp only [semicolons_append, semicolons_plain, semicolons_name, semicolons_nil,
        IsType.count h]
      rfl
  | dropConstraint table constraint ifThere =>
      simp only [items, alterItems]
      simp only [semicolons_append, semicolons_plain, semicolons_name, semicolons_nil]
      cases ifThere <;> rfl
  | addConstraint table unique =>
      simp only [items, alterItems]
      simp only [semicolons_append, semicolons_plain, semicolons_name, semicolons_nil,
        semicolons_unique]
      rfl

end SchemaMigration.Sql
