import Mathlib.Data.List.DropRight
import SchemaMigration.Proofs.Outcome
import SchemaMigration.Sql.Script

/-!
# Paragraphs of a script

The text of every operation ends in the semicolon of its last statement, and in one line end behind
it or in none. A script goes on by looking at how it ends so far, and puts what is missing of a
blank line in front of the next text. Seen from its texts, each but the last has its ending brought
to the semicolon and one blank line, and the last keeps its own, whatever characters the names and
literals inside them have.
-/

namespace SchemaMigration.Sql

open Dialect

/-- What a statement ends in. -/
def Statement.ending : Statement → String
  | createTable .. | addColumn .. | renameColumn .. | setType .. => ";\n"
  | dropTable .. | renameTable .. | dropColumn .. | setRequired .. | dropConstraint ..
  | addConstraint .. => ";"

/-- What the text of an operation of some kind ends in. -/
def ending : Operation.Kind → String
  | .addModel | .addAttribute | .renameAttribute | .modifyAttribute | .changeUnique => ";\n"
  | .dropModel | .renameModel | .dropAttribute | .changeRequired => ";"

/-- Texts that are joined end in the last one. -/
theorem exists_intercalate_concat (s : String) (texts : List String) (last : String) :
    ∃ front, s.intercalate (texts ++ [last]) = front ++ last := by
  cases texts with
  | nil => exact ⟨"", by simp⟩
  | cons text texts =>
      refine ⟨s.intercalate (text :: texts) ++ s, ?_⟩
      rw [String.intercalate_append_of_ne_nil (List.cons_ne_nil _ _) (List.cons_ne_nil _ _),
        String.intercalate_singleton]

theorem Statement.exists_body (mark : Char) (statement : Statement) :
    ∃ body, statement.text mark = body ++ statement.ending := by
  cases statement with
  | createTable name columns unique =>
      obtain ⟨front, hfront⟩ := exists_intercalate_concat "\n"
        (["CREATE TABLE IF NOT EXISTS " ++ quoteName mark name ++ " ("] ++
          columnLines mark unique.isSome columns ++
          unique.toList.map (fun u => "  " ++ u.text mark)) ");\n"
      have hclose : ");\n" = ")" ++ ";\n" := by decide
      refine ⟨front ++ ")", hfront.trans ?_⟩
      rw [hclose, ← String.append_assoc]
      rfl
  | setRequired table column required =>
      have hclause : (if required then " SET NOT NULL;" else " DROP NOT NULL;") =
          (if required then " SET NOT NULL" else " DROP NOT NULL") ++ ";" := by
        cases required <;> decide
      let front := alter mark table ++ "\nALTER COLUMN " ++ quoteName mark column
      exact ⟨_, (congrArg (front ++ ·) hclause).trans String.append_assoc.symm⟩
  | dropTable | renameTable | addColumn | dropColumn | renameColumn | setType | dropConstraint
  | addConstraint => exact ⟨_, rfl⟩

/-- An operation has a last statement, and its text ends as that does, but for the line end behind a
change of constraints. -/
theorem exists_last_statement {d : Dialect} {op : Operation} {statements : List Statement}
    (h : d.statements op = .ok statements) :
    ∃ front last, statements = front ++ [last] ∧
      ending op.kind = last.ending ++ if op.kind = .changeUnique then "\n" else "" := by
  cases op with
  | dropModel | renameModel | dropAttribute | renameAttribute | changeRequired =>
      obtain rfl := Except.ok.inj h
      exact ⟨[], _, rfl, rfl⟩
  | addModel model =>
      obtain ⟨statement, hs, hrest⟩ := Outcome.bind_eq_ok.mp h
      obtain ⟨columns, -, hstatement⟩ := Outcome.bind_eq_ok.mp hs
      obtain rfl := Except.ok.inj hrest
      obtain rfl := Except.ok.inj hstatement
      exact ⟨[], _, rfl, rfl⟩
  | addAttribute model attr =>
      obtain ⟨column, -, hrest⟩ := Outcome.bind_eq_ok.mp h
      obtain rfl := Except.ok.inj hrest
      exact ⟨[], _, rfl, rfl⟩
  | modifyAttribute model attr =>
      obtain ⟨type, -, hrest⟩ := Outcome.bind_eq_ok.mp h
      obtain rfl := Except.ok.inj hrest
      exact ⟨[], _, rfl, rfl⟩
  | changeUnique model =>
      obtain rfl := Except.ok.inj h
      cases hunique : namedUnique? model with
      | none => exact ⟨[], _, by rw [uniqueChange, hunique]; rfl, rfl⟩
      | some unique => exact ⟨[_], _, by rw [uniqueChange, hunique]; rfl, rfl⟩

/-- The text of an operation ends in the ending of its kind. -/
theorem exists_body_operationText {d : Dialect} {op : Operation} {text : String}
    (h : d.operationText op = .ok text) : ∃ body, text = body ++ ending op.kind := by
  obtain ⟨statements, hs, htext⟩ := Outcome.bind_eq_ok.mp h
  obtain ⟨front, last, rfl, hending⟩ := exists_last_statement hs
  obtain ⟨lastBody, hlast⟩ := last.exists_body d.quote
  obtain ⟨lines, hlines⟩ :=
    exists_intercalate_concat "\n" (front.map (Statement.text d.quote)) (last.text d.quote)
  have hrender : d.render (front ++ [last]) = lines ++ lastBody ++ last.ending := by
    rw [render, List.map_append, List.map_singleton, hlines, hlast, String.append_assoc]
  refine ⟨lines ++ lastBody, ?_⟩
  rw [hending, ← String.append_assoc, ← hrender, ← Except.ok.inj htext]
  split <;> simp

/-- A text starts with a letter. -/
def StartsStatement (text : String) : Prop :=
  ∃ letter, text.toList.head? = some letter ∧ letter.isAlpha

theorem StartsStatement.append {text : String} (h : StartsStatement text) (back : String) :
    StartsStatement (text ++ back) := by
  obtain ⟨letter, hhead, hletter⟩ := h
  exact ⟨letter, by simp [hhead], hletter⟩

theorem StartsStatement.intercalate {text : String} (h : StartsStatement text) (s : String)
    (rest : List String) : StartsStatement (s.intercalate (text :: rest)) := by
  cases rest with
  | nil => simpa using h
  | cons next rest =>
      rw [String.intercalate_cons_cons]
      exact (h.append s).append _

theorem startsStatement_alter (mark : Char) (table : String) :
    StartsStatement (Statement.alter mark table) :=
  StartsStatement.append ⟨'A', by decide, by decide⟩ _

theorem Statement.startsStatement (mark : Char) (statement : Statement) :
    StartsStatement (statement.text mark) := by
  have halter := startsStatement_alter mark
  cases statement with
  | createTable name columns unique =>
      have hkeywords : StartsStatement "CREATE TABLE IF NOT EXISTS " := ⟨'C', by decide, by decide⟩
      exact ((hkeywords.append _).append _).intercalate "\n" _
  | dropTable name =>
      have hkeywords : StartsStatement "DROP TABLE IF EXISTS " := ⟨'D', by decide, by decide⟩
      exact (hkeywords.append _).append _
  | renameTable previous current => exact (((halter previous).append _).append _).append _
  | addColumn table column => exact (((halter table).append _).append _).append _
  | dropColumn table column => exact (((halter table).append _).append _).append _
  | renameColumn table previous current =>
      exact (((((halter table).append _).append _).append _).append _).append _
  | setRequired table column required => exact (((halter table).append _).append _).append _
  | setType table column type =>
      exact (((((halter table).append _).append _).append _).append _).append _
  | dropConstraint table constraint ifThere =>
      exact ((((halter table).append _).append _).append _).append _
  | addConstraint table unique => exact (((halter table).append _).append _).append _

/-- The text of an operation starts with a letter. -/
theorem startsStatement_operationText {d : Dialect} {op : Operation} {text : String}
    (h : d.operationText op = .ok text) : StartsStatement text := by
  obtain ⟨statements, hs, htext⟩ := Outcome.bind_eq_ok.mp h
  obtain ⟨front, last, hlist, -⟩ := exists_last_statement hs
  have hrender : StartsStatement (d.render statements) := by
    cases statements with
    | nil => simp at hlist
    | cons first rest => exact (first.startsStatement d.quote).intercalate "\n" _
  rw [← Except.ok.inj htext]
  split
  · exact hrender.append _
  · exact hrender

/-- A text ends in a semicolon, with one line end behind it at most. -/
def EndsStatement (text : String) : Prop := ∃ body, text = body ++ ";" ∨ text = body ++ ";\n"

/-- A text with its ending brought to one blank line. -/
def spaced (text : String) : String :=
  String.ofList (text.toList.rdropWhile (· = '\n')) ++ "\n\n"

/-- Texts in order, one blank line apart. The last one keeps its ending. -/
def paragraphs : List String → String
  | [] => ""
  | [text] => text
  | text :: next :: rest => spaced text ++ paragraphs (next :: rest)

/-- Two scripts one blank line apart. Where one is empty there is the other alone. -/
def together (script more : String) : String :=
  if script = "" then more else if more = "" then script else spaced script ++ more

theorem spaced_semicolon (body : String) : spaced (body ++ ";") = body ++ ";\n\n" := by
  have hdrop : (body ++ ";").toList.rdropWhile (· = '\n') = (body ++ ";").toList := by
    rw [String.toList_append]
    exact List.rdropWhile_concat_neg _ _ _ (by decide)
  rw [spaced, hdrop, String.ofList_toList, String.append_assoc]
  rfl

theorem spaced_line (body : String) : spaced (body ++ ";\n") = body ++ ";\n\n" := by
  have hdrop : (body ++ ";\n").toList.rdropWhile (· = '\n') =
      (body ++ ";").toList.rdropWhile (· = '\n') := by
    have hlist : (body ++ ";\n").toList = (body ++ ";").toList ++ ['\n'] := by simp
    rw [hlist]
    exact List.rdropWhile_concat_pos _ _ _ (by decide)
  rw [spaced, hdrop, ← spaced_semicolon, spaced]

theorem spaced_ending (body : String) (kind : Operation.Kind) :
    spaced (body ++ ending kind) = body ++ ";\n\n" := by
  cases kind with
  | addModel | addAttribute | renameAttribute | modifyAttribute | changeUnique =>
      exact spaced_line body
  | dropModel | renameModel | dropAttribute | changeRequired => exact spaced_semicolon body

namespace EndsStatement

variable {text : String}

theorem append (front : String) (h : EndsStatement text) : EndsStatement (front ++ text) := by
  obtain ⟨body, rfl | rfl⟩ := h
  · exact ⟨front ++ body, .inl String.append_assoc.symm⟩
  · exact ⟨front ++ body, .inr String.append_assoc.symm⟩

theorem ne_empty (h : EndsStatement text) : text ≠ "" := by
  obtain ⟨body, rfl | rfl⟩ := h <;> simp

/-- Bringing the ending of a text to a blank line leaves what stands in front of it. -/
theorem spaced_append (front : String) (h : EndsStatement text) :
    spaced (front ++ text) = front ++ spaced text := by
  obtain ⟨body, rfl | rfl⟩ := h
  · rw [← String.append_assoc, spaced_semicolon, spaced_semicolon, String.append_assoc]
  · rw [← String.append_assoc, spaced_line, spaced_line, String.append_assoc]

/-- A script that ends in a statement goes on behind one blank line. -/
theorem continued (h : EndsStatement text) (next : String) :
    continued text next = spaced text ++ next := by
  rw [Dialect.continued, if_neg h.ne_empty]
  obtain ⟨body, rfl | rfl⟩ := h
  · rw [if_neg (by simp), spaced_semicolon]
    simp [String.append_assoc]
  · rw [if_pos (by simp), spaced_line]
    simp [String.append_assoc]

end EndsStatement

theorem endsStatement_operationText {d : Dialect} {op : Operation} {text : String}
    (h : d.operationText op = .ok text) : EndsStatement text := by
  obtain ⟨body, rfl⟩ := exists_body_operationText h
  cases op with
  | addModel | addAttribute | renameAttribute | modifyAttribute | changeUnique =>
      exact ⟨body, .inr rfl⟩
  | dropModel | renameModel | dropAttribute | changeRequired => exact ⟨body, .inl rfl⟩

/-- What stands in front of the first text stands in front of all. -/
theorem paragraphs_append_cons (front : String) {text : String} (h : EndsStatement text)
    (rest : List String) :
    paragraphs ((front ++ text) :: rest) = front ++ paragraphs (text :: rest) := by
  cases rest with
  | nil => rfl
  | cons next rest =>
      rw [paragraphs, paragraphs, h.spaced_append, String.append_assoc]

/-- A script that goes on with texts is the first of their paragraphs. The induction goes over the
texts; the script grows by one in each step and still ends in a statement. -/
theorem foldl_continued {texts : List String} (h : ∀ text ∈ texts, EndsStatement text)
    {script : String} (hs : EndsStatement script) :
    texts.foldl continued script = paragraphs (script :: texts) := by
  induction texts generalizing script with
  | nil => rfl
  | cons text rest ih =>
      obtain ⟨htext, hrest⟩ := List.forall_mem_cons.mp h
      rw [List.foldl_cons, hs.continued, ih hrest (htext.append _), paragraphs_append_cons _ htext,
        paragraphs]

/-- Texts in sequence are paragraphs. -/
theorem inSequence_eq_paragraphs {texts : List String} (h : ∀ text ∈ texts, EndsStatement text) :
    inSequence texts = paragraphs texts := by
  cases texts with
  | nil => rfl
  | cons text rest =>
      obtain ⟨htext, hrest⟩ := List.forall_mem_cons.mp h
      have hfirst : continued "" text = text := if_pos rfl
      rw [inSequence, List.foldl_cons, hfirst, foldl_continued hrest htext]

/-- Paragraphs that all end their lines are joined by line ends. -/
theorem paragraphs_eq_intercalate {texts : List String}
    (h : ∀ text ∈ texts, ∃ body, text = body ++ ";\n") :
    paragraphs texts = "\n".intercalate texts := by
  induction texts with
  | nil => simp [paragraphs]
  | cons text rest ih =>
      obtain ⟨⟨body, htext⟩, hrest⟩ := List.forall_mem_cons.mp h
      cases rest with
      | nil => simp [paragraphs]
      | cons next rest =>
          rw [paragraphs, ih hrest, String.intercalate_cons_cons, htext, spaced_line]
          simp [String.append_assoc]

theorem endsStatement_paragraphs {texts : List String} (hne : texts ≠ [])
    (h : ∀ text ∈ texts, EndsStatement text) : EndsStatement (paragraphs texts) := by
  induction texts with
  | nil => exact absurd rfl hne
  | cons text rest ih =>
      obtain ⟨htext, hrest⟩ := List.forall_mem_cons.mp h
      cases rest with
      | nil => exact htext
      | cons next rest => exact (ih (List.cons_ne_nil _ _) hrest).append _

theorem StartsStatement.spaced {text : String} (h : StartsStatement text)
    (he : EndsStatement text) : StartsStatement (spaced text) := by
  obtain ⟨body, rfl | rfl⟩ := he
  · rw [spaced_semicolon]
    simpa [String.append_assoc] using h.append "\n\n"
  · rw [spaced_line]
    simpa [String.append_assoc] using h.append "\n"

theorem startsStatement_paragraphs {texts : List String} (hne : texts ≠ [])
    (hs : ∀ text ∈ texts, StartsStatement text) (he : ∀ text ∈ texts, EndsStatement text) :
    StartsStatement (paragraphs texts) := by
  cases texts with
  | nil => exact absurd rfl hne
  | cons text rest =>
      have htext := hs text List.mem_cons_self
      cases rest with
      | nil => exact htext
      | cons next rest => exact (htext.spaced (he text List.mem_cons_self)).append _

/-- There are no paragraphs only where there are no texts. -/
theorem paragraphs_eq_empty_iff {texts : List String} (h : ∀ text ∈ texts, EndsStatement text) :
    paragraphs texts = "" ↔ texts = [] := by
  constructor
  · intro hempty
    by_contra hne
    exact (endsStatement_paragraphs hne h).ne_empty hempty
  · rintro rfl
    rfl

/-- Behind some paragraphs, more begin after a blank line. -/
theorem paragraphs_append_cons_of_ne_nil {texts : List String} (hne : texts ≠ [])
    (h : ∀ text ∈ texts, EndsStatement text) (first : String) (others : List String) :
    paragraphs (texts ++ first :: others) =
      spaced (paragraphs texts) ++ paragraphs (first :: others) := by
  induction texts with
  | nil => exact absurd rfl hne
  | cons text rest ih =>
      obtain ⟨-, hrest⟩ := List.forall_mem_cons.mp h
      cases rest with
      | nil => rfl
      | cons next rest =>
          have hlast := endsStatement_paragraphs (List.cons_ne_nil _ _) hrest
          rw [List.cons_append, List.cons_append, paragraphs, ← List.cons_append,
            ih (List.cons_ne_nil _ _) hrest, paragraphs, hlast.spaced_append, String.append_assoc]

/-- The paragraphs of two lists are those of each, one blank line apart. -/
theorem paragraphs_append {texts more : List String} (h : ∀ text ∈ texts, EndsStatement text)
    (hmore : ∀ text ∈ more, EndsStatement text) :
    paragraphs (texts ++ more) = together (paragraphs texts) (paragraphs more) := by
  simp only [together, paragraphs_eq_empty_iff h, paragraphs_eq_empty_iff hmore]
  by_cases hne : texts = []
  · rw [if_pos hne, hne, List.nil_append]
  rw [if_neg hne]
  cases more with
  | nil => rw [if_pos rfl, List.append_nil]
  | cons first others =>
      rw [if_neg (List.cons_ne_nil _ _)]
      exact paragraphs_append_cons_of_ne_nil hne h first others

/-- A script that ends in a statement and one that is not empty stand a semicolon and one blank line
apart. -/
theorem EndsStatement.exists_body_together {script rest : String} (h : EndsStatement script)
    (hrest : rest ≠ "") :
    ∃ body, (script = body ++ ";" ∨ script = body ++ ";\n") ∧
      together script rest = body ++ ";\n\n" ++ rest := by
  rw [together, if_neg h.ne_empty, if_neg hrest]
  obtain ⟨body, rfl | rfl⟩ := h
  · exact ⟨body, .inl rfl, by rw [spaced_semicolon]⟩
  · exact ⟨body, .inr rfl, by rw [spaced_line]⟩

end SchemaMigration.Sql
