import SchemaMigration.Proofs.Sql.Scripts
import SchemaMigration.Proofs.Sql.Statements

/-!
# Names and values stay inside quotes

Whatever characters a list of operations has in its names, default values and bounds, a scan of its
migration script ends outside of quotes, and outside of quotes it meets no comment. It meets one
semicolon for each operation, but two where a new unique constraint follows the dropped one, and the
names it reads are those of the operations.

## Implementation notes

`Carries` holds of a text and not of its items, so that texts can be put together as scripts do it.
Every text that scripts put between two others is quiet.
-/

namespace SchemaMigration

/-- How many semicolons the text of an operation has. -/
def Operation.semicolons : Operation → Nat
  | changeUnique model => if model.uniqueNames = [] then 1 else 2
  | _ => 1

namespace Sql

/-- The names that `CREATE TABLE` has for the unique constraint of a model. -/
def Dialect.constraintNames (d : Dialect) (model : Model) : List String :=
  match d.uniqueStyle with
  | .unnamed => model.uniqueNames
  | .named => uniqueName model.name :: model.uniqueNames

open Dialect in
/-- The names of tables, columns and constraints in the text of an operation, in order. -/
def Dialect.operationNames (d : Dialect) : Operation → List String
  | .dropModel name => [name]
  | .addModel model =>
    model.name :: model.attributes.map (·.name) ++
      if model.uniqueNames = [] then [] else d.constraintNames model
  | .renameModel previous current => [previous, current]
  | .addAttribute model attr | .changeRequired model attr | .modifyAttribute model attr =>
    [model.name, attr.name]
  | .dropAttribute model attr => [model.name, attr.name]
  | .renameAttribute model previous current => [model.name, previous, current]
  | .changeUnique model =>
    [model.name, uniqueName model.name] ++
      if model.uniqueNames = [] then []
      else model.name :: uniqueName model.name :: model.uniqueNames

/-- No comment begins outside of quotes. -/
def CommentFree (items : List Item) : Prop :=
  items.IsChain fun a b => ∀ x y, a = .plain x → b = .plain y → ¬ OpensComment x y

theorem Tidy.commentFree {items : List Item} (h : Tidy items) : CommentFree items := by
  apply h.beside.imp
  intro a b hab x y ha hb
  subst ha hb
  exact hab

/-- A text is scanned as tidy items with these names and so many semicolons. -/
def Carries (b : Bool) (text : String) (names : List String) (count : Nat) : Prop :=
  ∃ items, text.toList = write b items ∧ Tidy items ∧ namesOf items = names ∧
    semicolons items = count

variable {b : Bool}

theorem carries_empty : Carries b "" [] 0 := ⟨[], rfl, tidy_nil, rfl, rfl⟩

theorem Carries.eq_of_empty {names : List String} {count : Nat} (h : Carries b "" names count) :
    names = [] ∧ count = 0 := by
  obtain ⟨items, htext, -, rfl, rfl⟩ := h
  cases items with
  | nil => exact ⟨rfl, rfl⟩
  | cons item items =>
      have hempty : item.chars b ++ write b items = [] := htext.symm
      have hitem : item.chars b ≠ [] := by
        cases item <;> simp [quoteName, quoteLiteral]
      exact absurd (List.append_eq_nil_iff.mp hempty).1 hitem

/-- Two texts carry together what each carries, with quiet text between them. -/
theorem Carries.between {left right s : String} {names others : List String} {count more : Nat}
    (hl : Carries b left names count) (hs : Quiet s) (hcount : s.toList.count ';' = 0)
    (hr : Carries b right others more) :
    Carries b (left ++ s ++ right) (names ++ others) (count + more) := by
  obtain ⟨leftItems, hleft, hlt, rfl, rfl⟩ := hl
  obtain ⟨rightItems, hright, hrt, rfl, rfl⟩ := hr
  refine ⟨leftItems ++ (plain s ++ rightItems), ?_, ?_, ?_, ?_⟩
  · simp [hleft, hright]
  · exact (tidy_append_plain hs).mpr ⟨hlt, hrt⟩
  · simp
  · simp [hcount]

theorem carries_statement {statement : Statement} (h : statement.Sound b) :
    Carries b (statement.text '"') statement.names 1 :=
  ⟨statement.items b, (write_statement h).symm, tidy_statement h, namesOf_statement h,
    semicolons_statement h⟩

/-- Statements on lines of their own carry the names of all and one semicolon each. -/
theorem carries_lines {statements : List Statement} (h : ∀ s ∈ statements, s.Sound b) :
    Carries b ("\n".intercalate (statements.map (Statement.text '"')))
      (statements.flatMap Statement.names) statements.length := by
  induction statements with
  | nil => exact carries_empty
  | cons statement rest ih =>
      have hfirst := carries_statement (h statement (.head _))
      cases rest with
      | nil => simpa using hfirst
      | cons next rest =>
          have hrest := ih fun s hs => h s (.tail _ hs)
          have hboth := hfirst.between (by decide : Quiet "\n") (by decide) hrest
          simpa [String.append_assoc, Nat.add_comm] using hboth

open Dialect

/-- The statement that creates a table has a column for each attribute, in order. -/
theorem creation_eq_ok {d : Dialect} {model : Model} {statement : Statement} :
    d.creation model = .ok statement ↔
      ∃ columns, List.Forall₂ (fun attr c => d.column model.name attr = .ok c)
        model.attributes columns ∧
        .createTable model.name columns (d.tableUnique? model) = statement := by
  simp only [Dialect.creation]
  simp only [Outcome.bind_eq_ok, Outcome.mapM_eq_ok_iff, Outcome.pure_eq_ok, Except.ok.injEq]

theorem name_of_column {d : Dialect} {model : String} {attr : Attribute} {c : Column}
    (h : d.column model attr = .ok c) : c.name = attr.name := by
  obtain ⟨type, literal, -, -, rfl⟩ := column_eq_ok.mp h
  rfl

/-- Columns are called what their attributes are. -/
theorem names_of_columns {d : Dialect} {model : String} {attributes : List Attribute}
    {columns : List Column}
    (h : List.Forall₂ (fun attr c => d.column model attr = .ok c) attributes columns) :
    columns.map (·.name) = attributes.map (·.name) := by
  induction h with
  | nil => rfl
  | cons hc _ ih => rw [List.map_cons, List.map_cons, name_of_column hc, ih]

/-- The columns of a registered dialect are sound. -/
theorem sound_of_columns {d : Dialect} (hd : d ∈ dialects) {model : String}
    {attributes : List Attribute} {columns : List Column}
    (h : List.Forall₂ (fun attr c => d.column model attr = .ok c) attributes columns) :
    ∀ column ∈ columns, column.Sound d.backslashes := by
  induction h with
  | nil => simp
  | cons hc _ ih => exact List.forall_mem_cons.mpr ⟨sound_of_column hd hc, ih⟩

theorem names_tableUnique? (d : Dialect) (model : Model) :
    (d.tableUnique? model).toList.flatMap Unique.names =
      if model.uniqueNames = [] then [] else d.constraintNames model := by
  simp only [tableUnique?, constraintNames, unnamedUnique?, namedUnique?, unique?]
  cases d.uniqueStyle with
  | unnamed => by_cases hu : model.uniqueNames = [] <;> simp [hu, Unique.names]
  | named => by_cases hu : model.uniqueNames = [] <;> simp [hu, Unique.names]

/-- The statements of an operation are sound, name what it names, and are as many as its
semicolons. -/
theorem statements_facts {d : Dialect} (hd : d ∈ dialects) {op : Operation}
    {statements : List Statement} (h : d.statements op = .ok statements) :
    (∀ s ∈ statements, s.Sound d.backslashes) ∧
      statements.flatMap Statement.names = d.operationNames op ∧
      statements.length = op.semicolons := by
  cases op with
  | dropModel name =>
      cases h
      exact ⟨by simp [Statement.Sound], rfl, rfl⟩
  | addModel model =>
      obtain ⟨statement, hs, hrest⟩ := Outcome.bind_eq_ok.mp h
      obtain ⟨columns, hcolumns, rfl⟩ := creation_eq_ok.mp hs
      cases hrest
      refine ⟨?_, ?_, rfl⟩
      · simpa [Statement.Sound] using sound_of_columns hd hcolumns
      · have hunique := names_tableUnique? d model
        have hnames := names_of_columns hcolumns
        simp [Statement.names, operationNames, hnames, hunique]
  | renameModel previous current =>
      cases h
      exact ⟨by simp [Statement.Sound], rfl, rfl⟩
  | addAttribute model attr =>
      obtain ⟨c, hc, hrest⟩ := Outcome.bind_eq_ok.mp h
      cases hrest
      refine ⟨?_, ?_, rfl⟩
      · simpa [Statement.Sound] using sound_of_column hd hc
      · simp [Statement.names, operationNames, name_of_column hc]
  | dropAttribute model attr =>
      cases h
      exact ⟨by simp [Statement.Sound], rfl, rfl⟩
  | renameAttribute model previous current =>
      cases h
      exact ⟨by simp [Statement.Sound], rfl, rfl⟩
  | changeRequired model attr =>
      cases h
      exact ⟨by simp [Statement.Sound], rfl, rfl⟩
  | modifyAttribute model attr =>
      obtain ⟨type, ht, hrest⟩ := Outcome.bind_eq_ok.mp h
      cases hrest
      refine ⟨?_, rfl, rfl⟩
      simpa [Statement.Sound] using isType_of_columnType hd ht
  | changeUnique model =>
      cases h
      simp only [uniqueChange, uniqueDrop, namedUnique?, unique?, operationNames,
        Operation.semicolons]
      by_cases hu : model.uniqueNames = []
      · simp [hu, Statement.Sound, Statement.names]
      · simp [hu, Statement.Sound, Statement.names, Unique.names]

/-- The registered dialects write names between double quotes. -/
theorem quote_eq {d : Dialect} (hd : d ∈ dialects) : d.quote = '"' := by
  have hall : ∀ d ∈ dialects, d.quote = '"' := by decide
  exact hall d hd

/-- The text of an operation carries its names and its semicolons. -/
theorem carries_operationText {d : Dialect} (hd : d ∈ dialects) {op : Operation} {text : String}
    (h : d.operationText op = .ok text) :
    Carries d.backslashes text (d.operationNames op) op.semicolons := by
  obtain ⟨statements, hs, htext⟩ := Outcome.bind_eq_ok.mp h
  obtain ⟨hsound, hnames, hlength⟩ := statements_facts hd hs
  have hlines := carries_lines hsound
  rw [hnames, hlength] at hlines
  have hrender : d.render statements = "\n".intercalate (statements.map (Statement.text '"')) := by
    simp only [render]
    rw [quote_eq hd]
  rw [← hrender] at hlines
  cases htext
  split
  · have hended := hlines.between (by decide : Quiet "\n") (by decide) carries_empty
    simpa using hended
  · exact hlines

theorem Carries.continued {script text : String} {names others : List String} {count more : Nat}
    (hs : Carries b script names count) (ht : Carries b text others more) :
    Carries b (continued script text) (names ++ others) (count + more) := by
  simp only [Dialect.continued]
  split
  · next hempty =>
    subst hempty
    obtain ⟨rfl, rfl⟩ := hs.eq_of_empty
    simpa using ht
  · split
    · exact hs.between (by decide) (by decide) ht
    · exact hs.between (by decide) (by decide) ht

/-- A script carries what its texts carry, in order. The induction goes over the texts; the script
grows by one in each step. -/
theorem carries_foldl {d : Dialect} (hd : d ∈ dialects) {ops : List Operation}
    {texts : List String}
    (h : List.Forall₂ (fun op text => d.operationText op = .ok text) ops texts)
    {script : String} {names : List String} {count : Nat}
    (hs : Carries d.backslashes script names count) :
    Carries d.backslashes (texts.foldl continued script)
      (names ++ ops.flatMap d.operationNames) (count + (ops.map Operation.semicolons).sum) := by
  induction h generalizing script names count with
  | nil => simpa using hs
  | cons htext _ ih =>
      have hnext := ih (hs.continued (carries_operationText hd htext))
      simpa [Nat.add_assoc] using hnext

/-- No text of an operation leaves its quotes in a migration script. The script is scanned to its
end outside of quotes, no comment begins outside of quotes, every operation has its semicolons
there, and the names between quotes are those of the operations, in order. -/
theorem scan_migrationScript {d : Dialect} (hd : d ∈ dialects) {ops : List Operation}
    {text : String} (h : (d.migrationScript ops).outcome = .ok text) :
    ∃ items, scan d.backslashes text = some items ∧ CommentFree items ∧
      semicolons items = (ops.map Operation.semicolons).sum ∧
      namesOf items = ops.flatMap d.operationNames := by
  rw [outcome_migrationScript] at h
  obtain ⟨texts, htexts, rfl⟩ := Outcome.map_eq_ok.mp h
  have hcarries := carries_foldl hd (Outcome.mapM_eq_ok_iff.mp htexts) carries_empty
  simp only [List.nil_append, Nat.zero_add] at hcarries
  obtain ⟨items, hwritten, htidy, hnames, hcount⟩ := hcarries
  refine ⟨items, ?_, htidy.commentFree, hcount, hnames⟩
  have hscan := scan_write d.backslashes htidy
  rw [← hwritten, String.ofList_toList] at hscan
  exact hscan

/-- A model whose names and default value look like the end of a statement. -/
def hostileModel : Model :=
  ⟨.number 1, "a\"; DROP TABLE \"b", [
    { id := .number 1, name := "--", type := .string, unique := true,
      defaultValue := some (.string "\\'; /* -- ") },
    { id := .number 2, name := "n", type := .integer, defaultValue := some (.string " -1e5 ") }]⟩

/-- The hostile model is added and loses its name and its unique constraint. -/
def hostileOperations : List Operation :=
  [.addModel hostileModel, .renameModel hostileModel.name "\"", .changeUnique hostileModel]

theorem scan_hostileOperations :
    redshift ∈ dialects ∧ ∃ text, (redshift.migrationScript hostileOperations).outcome = .ok text ∧
      ∃ items, scan true text = some items ∧ CommentFree items ∧ semicolons items = 4 ∧
        namesOf items = [
          "a\"; DROP TABLE \"b", "--", "n", "uc_a\"; DROP TABLE \"b", "--",
          "a\"; DROP TABLE \"b", "\"",
          "a\"; DROP TABLE \"b", "uc_a\"; DROP TABLE \"b",
          "a\"; DROP TABLE \"b", "uc_a\"; DROP TABLE \"b", "--"] := by
  have hd : redshift ∈ dialects := by simp [dialects]
  obtain ⟨text, h⟩ : ∃ text, (redshift.migrationScript hostileOperations).outcome = .ok text :=
    ⟨_, rfl⟩
  obtain ⟨items, hscan, hfree, hcount, hnames⟩ := scan_migrationScript hd h
  exact ⟨hd, text, h, items, hscan, hfree, hcount.trans (by decide), hnames.trans (by decide)⟩

end Sql

end SchemaMigration
