import Mathlib.Data.List.Infix
import Mathlib.Logic.Function.Basic
import SchemaMigration.Sql.Literal

/-!
# Quoted text read back

A reader of quoted text takes the mark in front, and then characters up to the mark that closes the
text: a mark that stands there twice is one character of it, and where backslashes are special, the
character behind one stands for itself. What is written between quotes is read back, and the text
behind it is left, whatever it is, unless it goes on with the mark.

## Implementation notes

A quoted name in front of other text is read by going on behind its inside, without a condition on
what follows. Only where the reader stops does it matter whether the next character is the mark.
-/

namespace SchemaMigration.Sql

/-- The inside of quoted text, up to the mark that closes it, and what follows that. -/
def readInside (mark : Char) (backslashes : Bool) : List Char → Option (List Char × List Char)
  | [] => none
  | [c] => if c = mark then some ([], []) else none
  | c :: next :: rest =>
    if c = mark then
      if next = mark then (readInside mark backslashes rest).map (Prod.map (mark :: ·) id)
      else some ([], next :: rest)
    else if backslashes ∧ c = '\\' then
      (readInside mark backslashes rest).map (Prod.map (next :: ·) id)
    else (readInside mark backslashes (next :: rest)).map (Prod.map (c :: ·) id)

/-- Quoted text, and what follows it. -/
def readQuoted (mark : Char) (backslashes : Bool) : List Char → Option (String × List Char)
  | [] => none
  | c :: rest =>
    if c = mark then (readInside mark backslashes rest).map (Prod.map String.ofList id) else none

section

variable {mark : Char} {b : Bool}

theorem readInside_twice (rest : List Char) :
    readInside mark b (mark :: mark :: rest) =
      (readInside mark b rest).map (Prod.map (mark :: ·) id) := by
  rw [readInside, if_pos rfl, if_pos rfl]

/-- A mark that no other one follows closes the text. -/
theorem readInside_mark {rest : List Char} (h : rest.head? ≠ some mark) :
    readInside mark b (mark :: rest) = some ([], rest) := by
  cases rest with
  | nil => exact if_pos rfl
  | cons next rest =>
      have hnext : next ≠ mark := fun hsame => h (congrArg some hsame)
      rw [readInside, if_pos rfl, if_neg hnext]

theorem readInside_backslash (hb : b = true) (hmark : mark ≠ '\\') (c : Char) (rest : List Char) :
    readInside mark b ('\\' :: c :: rest) =
      (readInside mark b rest).map (Prod.map (c :: ·) id) := by
  rw [readInside, if_neg (Ne.symm hmark), if_pos ⟨hb, rfl⟩]

theorem readInside_plain {c : Char} (hmark : c ≠ mark) (hc : ¬ (b = true ∧ c = '\\'))
    (rest : List Char) :
    readInside mark b (c :: rest) = (readInside mark b rest).map (Prod.map (c :: ·) id) := by
  cases rest with
  | nil => exact if_neg hmark
  | cons next rest => rw [readInside, if_neg hmark, if_neg hc]

end

theorem doubled_cons (mark c : Char) (s : List Char) :
    doubled mark (c :: s) = (if c = mark then [mark, mark] else [c]) ++ doubled mark s := rfl

theorem doubled_append (mark : Char) (s t : List Char) :
    doubled mark (s ++ t) = doubled mark s ++ doubled mark t :=
  List.flatMap_append

/-- The inside of text between marks: the mark is written twice, and so is a backslash where it is
special. -/
def body (mark : Char) (backslashes : Bool) (s : List Char) : List Char :=
  doubled mark (if backslashes then doubled '\\' s else s)

theorem toList_quoteName (mark : Char) (name : String) :
    (quoteName mark name).toList = mark :: (body mark false name.toList ++ [mark]) := by
  rw [quoteName, String.toList_ofList]
  rfl

theorem toList_quoteLiteral (b : Bool) (s : String) :
    (quoteLiteral b s).toList = '\'' :: (body '\'' b s.toList ++ ['\'']) := by
  simp [quoteLiteral, literalBody, body]

/-- Every character is written by itself. -/
theorem body_cons {mark : Char} {b : Bool} (hb : b = true → mark ≠ '\\') (c : Char)
    (s : List Char) :
    body mark b (c :: s) =
      (if c = mark then [mark, mark] else if b = true ∧ c = '\\' then ['\\', '\\'] else [c]) ++
        body mark b s := by
  cases b with
  | false => simp [body, doubled_cons]
  | true =>
      have hne := hb rfl
      by_cases hslash : c = '\\'
      · subst hslash
        simp [body, doubled_cons, Ne.symm hne]
      · simp [body, doubled_cons, hslash]

/-- The inside of quoted text is read as what it was written for, and the reading goes on behind
it. -/
theorem readInside_body_append {mark : Char} {b : Bool} (hb : b = true → mark ≠ '\\')
    (s rest : List Char) :
    readInside mark b (body mark b s ++ rest) =
      (readInside mark b rest).map (Prod.map (s ++ ·) id) := by
  induction s with
  | nil =>
      have hnone : body mark b [] = [] := by cases b <;> rfl
      rw [hnone, List.nil_append]
      cases readInside mark b rest <;> rfl
  | cons c s ih =>
      have hpush : ∀ reading : Option (List Char × List Char),
          (reading.map (Prod.map (s ++ ·) id)).map (Prod.map (c :: ·) id) =
            reading.map (Prod.map (c :: s ++ ·) id) := by
        intro reading
        cases reading <;> rfl
      rw [body_cons hb, List.append_assoc, ← hpush, ← ih]
      by_cases hmark : c = mark
      · subst hmark
        rw [if_pos rfl]
        exact readInside_twice _
      rw [if_neg hmark]
      by_cases hslash : b = true ∧ c = '\\'
      · obtain ⟨hspecial, rfl⟩ := hslash
        rw [if_pos ⟨hspecial, rfl⟩]
        exact readInside_backslash hspecial (hb hspecial) _ _
      · rw [if_neg hslash]
        exact readInside_plain hmark hslash _

theorem readInside_body {mark : Char} {b : Bool} (hb : b = true → mark ≠ '\\') (s : List Char)
    {rest : List Char} (h : rest.head? ≠ some mark) :
    readInside mark b (body mark b s ++ mark :: rest) = some (s, rest) := by
  rw [readInside_body_append hb, readInside_mark h]
  simp

/-- A literal is read back, and what follows it is left. -/
theorem readQuoted_quoteLiteral (b : Bool) (s : String) {rest : List Char}
    (h : rest.head? ≠ some '\'') :
    readQuoted '\'' b ((quoteLiteral b s).toList ++ rest) = some (s, rest) := by
  have hinside := readInside_body (b := b) (fun _ => by decide) s.toList h
  rw [toList_quoteLiteral, List.cons_append, List.append_assoc, List.singleton_append, readQuoted,
    if_pos rfl, hinside]
  simp

section

variable {mark : Char} {name other : String} {rest : List Char}

/-- A name is read back, and what follows it is left. -/
theorem readQuoted_name (name : String) (h : rest.head? ≠ some mark) :
    readQuoted mark false ((quoteName mark name).toList ++ rest) = some (name, rest) := by
  have hinside := readInside_body (b := false) (fun hb => absurd hb (by decide)) name.toList h
  rw [toList_quoteName, List.cons_append, List.append_assoc, List.singleton_append, readQuoted,
    if_pos rfl, hinside]
  simp

/-- Where a quoted name has the mark behind it, another name is read, which goes on with the mark
behind the first name. -/
theorem prefix_of_readQuoted {text left : List Char}
    (h : readQuoted mark false ((quoteName mark name).toList ++ mark :: text) =
      some (other, left)) : name.toList ++ [mark] <+: other.toList := by
  rw [toList_quoteName, List.cons_append, List.append_assoc, List.singleton_append, readQuoted,
    if_pos rfl, readInside_body_append (fun hb => absurd hb (by decide)), readInside_twice] at h
  obtain ⟨inside, hinside, hother⟩ := Option.map_eq_some_iff.mp h
  obtain ⟨found, hfound, rfl⟩ := Option.map_eq_some_iff.mp hinside
  obtain ⟨more, -, rfl⟩ := Option.map_eq_some_iff.mp hfound
  refine ⟨more.1, ?_⟩
  have htext := congrArg (fun reading => reading.1.toList) hother
  simpa using htext

/-- A quoted name begins another one, with text behind it that does not go on with the mark, exactly
if it is that name, or that name goes on with the mark behind it. -/
theorem quoteName_prefix_iff (h : rest.head? ≠ some mark) :
    (quoteName mark name).toList <+: (quoteName mark other).toList ++ rest ↔
      name = other ∨ name.toList ++ [mark] <+: other.toList := by
  have hother := readQuoted_name other h
  constructor
  · rintro ⟨behind, hbehind⟩
    rw [← hbehind] at hother
    by_cases hmark : behind.head? = some mark
    · obtain ⟨text, rfl⟩ := List.head?_eq_some_iff.mp hmark
      exact .inr (prefix_of_readQuoted hother)
    · rw [readQuoted_name name hmark] at hother
      exact .inl (congrArg Prod.fst (Option.some.inj hother))
  · rintro (rfl | ⟨more, hmore⟩)
    · exact List.prefix_append _ _
    · refine ⟨mark :: (body mark false more ++ mark :: rest), ?_⟩
      have hbody : body mark false other.toList =
          body mark false name.toList ++ mark :: mark :: body mark false more := by
        rw [← hmore]
        simp [body, doubled_append, doubled_cons]
      rw [toList_quoteName, toList_quoteName, hbody]
      simp

end

/-- A quoted name is read back, and what follows it is left, unless that goes on with the mark. So
quoted names are told apart, also with such text behind them. A quoted name begins another one with
such text behind it exactly if it is that name, or if that name goes on with the mark behind it. -/
theorem readQuoted_quoteName (mark : Char) :
    (∀ (name : String) (rest : List Char), rest.head? ≠ some mark →
      readQuoted mark false ((quoteName mark name).toList ++ rest) = some (name, rest)) ∧
    Function.Injective (quoteName mark) ∧
    (∀ (name other : String) (rest behind : List Char), rest.head? ≠ some mark →
      behind.head? ≠ some mark →
      (quoteName mark name).toList ++ rest = (quoteName mark other).toList ++ behind →
      name = other ∧ rest = behind) ∧
    ∀ (name other : String) (rest : List Char), rest.head? ≠ some mark →
      ((quoteName mark name).toList <+: (quoteName mark other).toList ++ rest ↔
        name = other ∨ name.toList ++ [mark] <+: other.toList) := by
  have happart : ∀ (name other : String) (rest behind : List Char), rest.head? ≠ some mark →
      behind.head? ≠ some mark →
      (quoteName mark name).toList ++ rest = (quoteName mark other).toList ++ behind →
      name = other ∧ rest = behind := by
    intro name other rest behind hrest hbehind hsame
    have hread := readQuoted_name name hrest
    rw [hsame, readQuoted_name other hbehind] at hread
    obtain ⟨hname, htext⟩ := Prod.mk.inj (Option.some.inj hread)
    exact ⟨hname.symm, htext.symm⟩
  refine ⟨fun name rest h => readQuoted_name name h, fun name other hsame => ?_, happart,
    fun name other rest h => quoteName_prefix_iff h⟩
  exact (happart name other [] [] (by simp) (by simp) (by rw [hsame])).1

/-- A name between bars that begins and ends with some, and text with one further on. -/
theorem readQuoted_quoteName_bars :
    ".|id|".toList.head? ≠ some '|' ∧
      readQuoted '|' false ("|||a|||||.|id|".toList) = some ("|a||", ".|id|".toList) ∧
      ¬ (quoteName '|' "|a").toList <+: (quoteName '|' "|b").toList ++ ".|id|".toList ∧
      (quoteName '|' "|a").toList <+: (quoteName '|' "|a||").toList ++ ".|id|".toList := by
  obtain ⟨hread, -, -, hbegins⟩ := readQuoted_quoteName '|'
  have hrest : ".|id|".toList.head? ≠ some '|' := by decide
  exact ⟨hrest, hread "|a||" _ hrest, mt (hbegins "|a" "|b" _ hrest).mp (by decide),
    (hbegins "|a" "|a||" _ hrest).mpr (by decide)⟩

/-- What closes a quoted name need not close another one that begins with it: of a name that is a
quote itself, the first two of four quotes are the quoted empty name. -/
theorem quoteName_empty_prefix :
    "" ≠ "\"" ∧ ([] : List Char).head? ≠ some '"' ∧
      (quoteName '"' "").toList <+: (quoteName '"' "\"").toList ++ [] ∧
      (quoteName '"' "").toList ≠ (quoteName '"' "\"").toList ++ [] :=
  ⟨by decide, by decide, ⟨['"', '"'], rfl⟩, by decide⟩

end SchemaMigration.Sql
