import SchemaMigration.Proofs.Json.Values

/-!
# Indented texts

The indented form of a value is the lexemes of its compact form, in the same order, with nothing but
blanks between them. So whatever reads the value from its lexemes reads it from either form, at
every depth.
-/

namespace SchemaMigration.Json

open Scan

/-- More blanks may stand in front of the first lexeme. -/
theorem Spaced.behind {gap text : List Char} {lexemes : List Lexeme} (hgap : Blanks gap)
    (hne : lexemes ≠ []) (h : Spaced lexemes text) : Spaced lexemes (gap ++ text) := by
  cases h with
  | nil => exact absurd rfl hne
  | @cons inner lexeme text lexemes hinner h =>
      rw [← List.append_assoc]
      exact .cons (List.forall_mem_append.mpr ⟨hgap, hinner⟩) h

theorem spaced_single (lexeme : Lexeme) : Spaced [lexeme] lexeme := by
  have h := spaced_flatten [lexeme]
  rwa [List.flatten_singleton] at h

theorem blanks_cons {c : Char} {gap : List Char} (hc : isBlank c = true) (h : Blanks gap) :
    Blanks (c :: gap) :=
  List.forall_mem_cons.mpr ⟨hc, h⟩

/-- A line break and the margin behind it are blanks. -/
theorem blanks_line (depth : Nat) : Blanks ('\n' :: (margin depth).toList) := by
  refine blanks_cons rfl fun c hc => ?_
  rw [margin, String.toList_ofList] at hc
  rw [(List.mem_replicate.mp hc).2]
  rfl

/-- Rows stay rows when a comma stands between them and between their texts. -/
theorem spaced_intercalate {rows : List (List Lexeme)} {texts : List (List Char)}
    (h : List.Forall₂ Spaced rows texts) :
    Spaced ([[',']].intercalate rows) ([','].intercalate texts) := by
  have hcommas : ∀ {rows : List (List Lexeme)} {texts : List (List Char)},
      List.Forall₂ Spaced rows texts →
        Spaced (rows.flatMap ([','] :: ·)) (texts.flatMap (',' :: ·)) := by
    intro rows texts h
    induction h with
    | nil => exact .nil
    | cons hrow _ ih =>
        rw [List.flatMap_cons, List.flatMap_cons]
        exact Spaced.append (@Spaced.cons [] _ _ _ blanks_nil hrow) ih
  cases h with
  | nil => exact .nil
  | cons hrow hrows =>
      rw [intercalate_cons_eq_flatMap, intercalate_cons_eq_flatMap]
      exact hrow.append (hcommas hrows)

/-- A line break behind each comma stands in front of each line but the first. -/
theorem cons_intercalate_lines {lines : List (List Char)} (h : lines ≠ []) :
    '\n' :: [',', '\n'].intercalate lines = [','].intercalate (lines.map ('\n' :: ·)) := by
  obtain ⟨line, rest, rfl⟩ := List.exists_cons_of_ne_nil h
  clear h
  induction rest generalizing line with
  | nil => simp
  | cons next rest ih =>
      rw [List.map_cons, List.map_cons, List.intercalate_cons_cons, List.intercalate_cons_cons,
        ← List.map_cons, ← ih next]
      simp

/-- Rows between brackets, each on a line of its own, are spaced lexemes. -/
theorem spaced_bracketed {opening closing : Lexeme} (depth : Nat) {rows : List (List Lexeme)}
    {lines : List String} (h : List.Forall₂ Spaced rows (lines.map ('\n' :: ·.toList))) :
    Spaced (opening :: ([[',']].intercalate rows ++ [closing]))
      (bracketed (String.ofList opening) (String.ofList closing) depth lines).toList := by
  have hopen := spaced_single opening
  have hrows := spaced_intercalate h
  cases lines with
  | nil =>
      cases h
      simp only [bracketed, String.toList_append, String.toList_ofList]
      exact hopen.append (spaced_single closing)
  | cons line lines =>
      have hlines : '\n' :: (",\n".intercalate (line :: lines)).toList =
          [','].intercalate ((line :: lines).map ('\n' :: ·.toList)) := by
        rw [String.toList_intercalate]
        exact (cons_intercalate_lines (by simp)).trans (by rw [List.map_map]; rfl)
      have hclose : Spaced [closing] ('\n' :: (margin depth).toList ++ closing) :=
        (spaced_single closing).behind (blanks_line depth) (by simp)
      have hall := hopen.append ((hlines ▸ hrows).append hclose)
      simpa [bracketed] using hall

mutual

/-- The indented form of a value is its lexemes with blanks between them. -/
theorem spaced_indented (depth : Nat) :
    ∀ v : Value, Spaced v.lexemes (v.indented depth).toList
  | .null => spaced_single _
  | .bool _ => spaced_single _
  | .number _ => spaced_single _
  | .string _ => spaced_single _
  | .array items => spaced_bracketed depth (spaced_indentedItems (depth + 1) items)
  | .object members => spaced_bracketed depth (spaced_indentedMembers (depth + 1) members)

theorem spaced_indentedItems (depth : Nat) : ∀ items : List Value,
    List.Forall₂ Spaced (itemLexemes items)
      ((indentedItems depth items).map ('\n' :: ·.toList))
  | [] => .nil
  | item :: items => by
      have hline := (spaced_indented depth item).behind (blanks_line depth) (lexemes_ne_nil item)
      refine .cons ?_ (spaced_indentedItems depth items)
      simpa using hline

theorem spaced_indentedMembers (depth : Nat) : ∀ members : List (String × Value),
    List.Forall₂ Spaced ((printedMembers members).map Member.lexemes)
      ((indentedMembers depth members).map ('\n' :: ·.toList))
  | [] => .nil
  | (key, value) :: members => by
      have hblank : Blanks [' '] := blanks_cons rfl blanks_nil
      have hvalue := (spaced_indented depth value).behind hblank (lexemes_ne_nil value)
      have hcolon : Spaced [[':']] [':'] := spaced_single _
      have hkey := (spaced_single (quote key).toList).behind (blanks_line depth) (by simp)
      have hline := hkey.append (hcolon.append hvalue)
      refine .cons ?_ (spaced_indentedMembers depth members)
      simpa [Member.lexemes] using hline

end

/-- The indented form of a value is a text of its lexemes, blanks at its end included. -/
theorem isText_indented (depth : Nat) (v : Value) {gap : List Char} (hgap : Blanks gap) :
    IsText v.lexemes ((v.indented depth).toList ++ gap) :=
  ⟨_, gap, rfl, spaced_indented depth v, hgap⟩

end SchemaMigration.Json
