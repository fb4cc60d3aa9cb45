import SchemaMigration.Proofs.Json.Numbers
import SchemaMigration.Proofs.Json.Spacing
import SchemaMigration.Proofs.Keyed

/-!
# Scans of values

A value has the lexemes of its compact form. A value whose objects are in the order of their keys is
read back from them, with whatever blanks in front of each, as long as it nests no deeper than the
levels left and the literals in it are read as the numbers nearest to them. In particular it is read
back from its compact form.
-/

namespace SchemaMigration.Json

namespace Scan

variable {α σ : Type}

section Shapes

variable {list object : Scan α} {token : Value → Scan α}

theorem skipsBlanks_byShape : SkipsBlanks (byShape list object token) := skipsBlanks_look.bind _

theorem run_byShape_list (rest : List Char) :
    (byShape list object token).run ('[' :: rest) = list.run ('[' :: rest) := rfl

theorem run_byShape_string (s : String) (rest : List Char) :
    (byShape list object token).run ((quote s).toList ++ rest) = (token (.string s)).run rest := by
  have hshape : ∀ rest, (byShape list object token).run ('"' :: rest) =
      (quoted strictEscape >>= fun s => token (.string s)).run ('"' :: rest) := fun _ => rfl
  have hstring : (quoted strictEscape >>= fun s => token (.string s)).run
      ((quote s).toList ++ rest) = (token (.string s)).run rest :=
    run_bind_of_run (run_quoted s rest)
  simp only [quote, String.toList_append] at hstring ⊢
  exact (hshape _).trans hstring

theorem run_byShape_word {v : Value} {letters : List Char}
    (h : (v, letters) ∈ [(Value.null, "null".toList), (.bool true, "true".toList),
      (.bool false, "false".toList)]) (rest : List Char) :
    (byShape list object token).run (letters ++ rest) = (token v).run rest := by
  simp only [List.mem_cons, Prod.mk.injEq, List.not_mem_nil, or_false] at h
  rcases h with ⟨rfl, rfl⟩ | ⟨rfl, rfl⟩ | ⟨rfl, rfl⟩
  · rfl
  · rfl
  · rfl

/-- A number begins with a minus or a digit, as nothing else does. -/
theorem not_mem_of_numeric {c : Char} (h : (c = '-' || c.isDigit) = true) :
    c ∉ [' ', '\t', '\n', '\r', ']', '[', '{', '"', 'n', 't', 'f'] := by
  have hother : ∀ c ∈ [' ', '\t', '\n', '\r', ']', '[', '{', '"', 'n', 't', 'f'],
      (c = '-' || c.isDigit) = false := by simp
  intro hc
  rw [hother c hc] at h
  cases h

theorem isBlank_of_numeric {c : Char} (h : (c = '-' || c.isDigit) = true) : isBlank c = false := by
  have hother := not_mem_of_numeric h
  simp_all [isBlank]

theorem run_byShape_number {n : Number} {text rest : List Char}
    (hstart : ∃ c cs, text = c :: cs ∧ (c = '-' || c.isDigit) = true)
    (h : number.run (text ++ rest) = .ok (n, rest)) :
    (byShape list object token).run (text ++ rest) = (token (.number n)).run rest := by
  obtain ⟨c, cs, rfl, hc⟩ := hstart
  have hother := not_mem_of_numeric hc
  rw [byShape, List.cons_append, run_bind_of_run (run_look (isBlank_of_numeric hc) _)]
  split
  case h_8 hd =>
    cases hd
    rw [if_pos hc]
    exact run_bind_of_run h
  all_goals simp_all

end Shapes

end Scan

open Scan

/-- The value nests no deeper than the levels, and the members of its objects are in the order of
their keys. -/
inductive Value.Formed : Nat → Value → Prop
  | null (levels : Nat) : Formed levels .null
  | bool (levels : Nat) (value : Bool) : Formed levels (.bool value)
  | number (levels : Nat) (value : Number) : Formed levels (.number value)
  | string (levels : Nat) (value : String) : Formed levels (.string value)
  | array {levels : Nat} {items : List Value} (h : ∀ item ∈ items, Formed levels item) :
      Formed (levels + 1) (.array items)
  | object {levels : Nat} {members : List (String × Value)} (order : Keyed.Ascending members)
      (h : ∀ entry ∈ members, Formed levels entry.2) : Formed (levels + 1) (.object members)

/-- A value of one token is formed for any levels. -/
theorem Value.Formed.of_token {v : Value} (h : v.Formed 0) (levels : Nat) : v.Formed levels := by
  cases h with
  | null _ => exact .null levels
  | bool _ b => exact .bool levels b
  | number _ n => exact .number levels n
  | string _ s => exact .string levels s

/-- With more levels left, the same values are formed. -/
theorem Value.Formed.mono {levels more : Nat} {v : Value} (h : v.Formed levels)
    (hle : levels ≤ more) : v.Formed more := by
  induction h generalizing more with
  | null _ => exact .null more
  | bool _ b => exact .bool more b
  | number _ n => exact .number more n
  | string _ s => exact .string more s
  | array _ ih =>
      obtain ⟨more, rfl⟩ := Nat.exists_eq_add_one_of_ne_zero (by omega : more ≠ 0)
      exact .array fun item hitem => ih item hitem (by omega)
  | object order _ ih =>
      obtain ⟨more, rfl⟩ := Nat.exists_eq_add_one_of_ne_zero (by omega : more ≠ 0)
      exact .object order fun entry hentry => ih entry hentry (by omega)

mutual

/-- The binary64 numbers in a value. -/
def Value.reals : Value → List Binary64
  | .number value => value.reals
  | .array items => itemReals items
  | .object members => memberReals members
  | .null | .bool _ | .string _ => []

/-- The binary64 numbers in some items. -/
def itemReals : List Value → List Binary64
  | [] => []
  | item :: items => item.reals ++ itemReals items

/-- The binary64 numbers in some members. -/
def memberReals : List (String × Value) → List Binary64
  | [] => []
  | (_, value) :: members => value.reals ++ memberReals members

end

/-- The numbers of an item are numbers of its list. -/
theorem mem_reals_array {items : List Value} {item : Value} (h : item ∈ items) {x : Binary64}
    (hx : x ∈ item.reals) : x ∈ (Value.array items).reals := by
  have hitems : itemReals items = items.flatMap Value.reals := by
    clear h
    induction items with
    | nil => rfl
    | cons item items ih => rw [itemReals, ih, List.flatMap_cons]
  rw [Value.reals, hitems]
  exact List.mem_flatMap_of_mem h hx

/-- The numbers of a member are numbers of its object. -/
theorem mem_reals_object {members : List (String × Value)} {key : String} {v : Value}
    (h : (key, v) ∈ members) {x : Binary64} (hx : x ∈ v.reals) :
    x ∈ (Value.object members).reals := by
  have hmembers : memberReals members = members.flatMap fun entry => entry.2.reals := by
    clear h
    induction members with
    | nil => rfl
    | cons entry members ih => rw [memberReals, ih, List.flatMap_cons]
  rw [Value.reals, hmembers]
  exact List.mem_flatMap_of_mem h hx

theorem compactItems_eq (items : List Value) : compactItems items = items.map Value.compact := by
  induction items with
  | nil => rfl
  | cons item items ih => rw [compactItems, ih, List.map_cons]

theorem compactMembers_eq (members : List (String × Value)) : compactMembers members =
    members.map fun entry => quote entry.1 ++ ":" ++ entry.2.compact := by
  induction members with
  | nil => rfl
  | cons entry members ih => rw [compactMembers, ih, List.map_cons]

/-- The text of a member: its key, and its value behind a colon. -/
def entryText (entry : String × Value) : List Char :=
  (quote entry.1).toList ++ ':' :: entry.2.compact.toList

/-- A list is printed as its printed items between brackets. -/
theorem toList_compact_array (items : List Value) : (Value.array items).compact.toList =
    '[' :: ([','].intercalate (items.map fun item => item.compact.toList) ++ [']']) := by
  simp [Value.compact, compactItems_eq, String.toList_intercalate]
  rfl

/-- An object is printed as its printed members between braces. -/
theorem toList_compact_object (members : List (String × Value)) :
    (Value.object members).compact.toList =
      '{' :: ([','].intercalate (members.map entryText) ++ ['}']) := by
  simp [Value.compact, compactMembers_eq, String.toList_intercalate, Function.comp_def]
  rfl

/-- Printed values begin with a character that is no blank and closes no list; null alone begins
with its first letter. -/
theorem exists_cons_compact (v : Value) : ∃ c cs, v.compact.toList = c :: cs ∧
    isBlank c = false ∧ c ≠ ']' ∧ (c = 'n' → v = .null) := by
  cases v with
  | null => exact ⟨'n', _, rfl, rfl, by decide, fun _ => rfl⟩
  | bool b =>
      cases b with
      | false => exact ⟨'f', _, rfl, rfl, by decide, by simp⟩
      | true => exact ⟨'t', _, rfl, rfl, by decide, by simp⟩
  | number n =>
      obtain ⟨c, cs, htext, hc⟩ := exists_cons_of_number n
      have hother := not_mem_of_numeric hc
      refine ⟨c, cs, htext, isBlank_of_numeric hc, ?_, ?_⟩
      · simp_all
      · simp_all
  | string s => exact ⟨'"', _, by simp [Value.compact, quote]; rfl, rfl, by decide, by simp⟩
  | array items => exact ⟨'[', _, toList_compact_array items, rfl, by decide, by simp⟩
  | object members => exact ⟨'{', _, toList_compact_object members, rfl, by decide, by simp⟩

mutual

/-- The lexemes of a value, as they stand in its compact form. -/
def Value.lexemes : Value → List Lexeme
  | .array items => brackets (itemLexemes items)
  | .object members => braces (printedMembers members)
  | .null => [Value.null.compact.toList]
  | .bool value => [(Value.bool value).compact.toList]
  | .number value => [(Value.number value).compact.toList]
  | .string value => [(Value.string value).compact.toList]

/-- The lexemes of each item. -/
def itemLexemes : List Value → List (List Lexeme)
  | [] => []
  | item :: items => item.lexemes :: itemLexemes items

/-- The members of an object, their keys as they are printed. -/
def printedMembers : List (String × Value) → List Member
  | [] => []
  | (key, value) :: members => ⟨key, (quote key).toList, value.lexemes⟩ :: printedMembers members

end

/-- A member with its key as it is printed. -/
def Scan.Member.printed (key : String) (lexemes : List Lexeme) : Member :=
  ⟨key, (quote key).toList, lexemes⟩

theorem itemLexemes_eq (items : List Value) : itemLexemes items = items.map Value.lexemes := by
  induction items with
  | nil => rfl
  | cons item items ih => rw [itemLexemes, ih, List.map_cons]

theorem printedMembers_eq (members : List (String × Value)) :
    printedMembers members = members.map fun entry => .printed entry.1 entry.2.lexemes := by
  induction members with
  | nil => rfl
  | cons entry members ih => rw [printedMembers, ih, List.map_cons]; rfl

/-- A value of one token has one lexeme. -/
theorem lexemes_of_token {v : Value} (h : v.Formed 0) : v.lexemes = [v.compact.toList] := by
  cases h <;> rfl

/-- Rows with commas between them, without blanks. -/
theorem flatten_intercalate (rows : List (List Lexeme)) :
    ([[',']].intercalate rows).flatten = [','].intercalate (rows.map List.flatten) := by
  cases rows with
  | nil => rfl
  | cons row rows =>
      have hrows : (rows.flatMap ([','] :: ·)).flatten =
          (rows.map List.flatten).flatMap (',' :: ·) := by
        simp [List.flatMap_def, List.flatten_flatten, Function.comp_def]
      rw [intercalate_cons_eq_flatMap, List.flatten_append, hrows, List.map_cons,
        intercalate_cons_eq_flatMap]

mutual

/-- The compact form of a value is its lexemes without blanks. -/
theorem flatten_lexemes : ∀ v : Value, v.lexemes.flatten = v.compact.toList
  | .null => List.append_nil _
  | .bool _ => List.append_nil _
  | .number _ => List.append_nil _
  | .string _ => List.append_nil _
  | .array items => by
      have hitems := flatten_items items
      rw [toList_compact_array, Value.lexemes, brackets, List.flatten_cons, List.flatten_append,
        flatten_intercalate, hitems]
      rfl
  | .object members => by
      have hmembers := flatten_members members
      rw [toList_compact_object, Value.lexemes, braces, List.flatten_cons, List.flatten_append,
        flatten_intercalate, hmembers]
      rfl

theorem flatten_items : ∀ items : List Value,
    (itemLexemes items).map List.flatten = items.map fun item => item.compact.toList
  | [] => rfl
  | item :: items => by
      rw [itemLexemes, List.map_cons, List.map_cons, flatten_lexemes item, flatten_items items]

theorem flatten_members : ∀ members : List (String × Value),
    ((printedMembers members).map Member.lexemes).map List.flatten = members.map entryText
  | [] => rfl
  | (key, v) :: members => by
      have hvalue := flatten_lexemes v
      simp only [printedMembers, List.map_cons, flatten_members members, Member.lexemes,
        List.flatten_cons, hvalue]
      rfl

end

/-- A value shows with its first character that it closes no list, and whether it is null. -/
theorem exists_cons_lexemes (v : Value) : ∃ c cs rest, v.lexemes = (c :: cs) :: rest ∧
    isBlank c = false ∧ c ≠ ']' ∧ (c = 'n' → v = .null) := by
  cases v with
  | array items => exact ⟨'[', [], _, rfl, rfl, by decide, by simp⟩
  | object members => exact ⟨'{', [], _, rfl, rfl, by decide, by simp⟩
  | null | bool | number | string =>
      obtain ⟨c, cs, htext, hblank, hclose, hnull⟩ := exists_cons_compact _
      exact ⟨c, cs, [], congrArg (fun lexeme => [lexeme]) htext, hblank, hclose, hnull⟩

theorem lexemes_ne_nil (v : Value) : v.lexemes ≠ [] := by
  obtain ⟨c, cs, rest, hlexemes, -⟩ := exists_cons_lexemes v
  simp [hlexemes]

theorem starts_lexemes (v : Value) : Starts v.lexemes := by
  obtain ⟨c, cs, rest, hlexemes, hblank, hclose, -⟩ := exists_cons_lexemes v
  exact ⟨c, cs, rest, hlexemes, hblank, hclose⟩

/-- What is read from the lexemes of a value is taken from its compact form. -/
theorem Scan.Reads.takes_compact {α : Type} {scan : Scan α} {v : Value} {value : α}
    (h : Reads scan v.lexemes value) : Takes scan v.compact.toList value := by
  rw [← flatten_lexemes]
  exact h _ (spaced_flatten _)

/-- A value of one token is handed on when it has been read. -/
theorem run_byShape_token {α : Type} {list object : Scan α} {token : Value → Scan α} {v : Value}
    (h : v.Formed 0) (hreals : ∀ x ∈ v.reals, x.PrintsNearest) {rest : List Char}
    (hrest : Ends rest) :
    (byShape list object token).run (v.compact.toList ++ rest) = (token v).run rest := by
  cases h with
  | null _ => exact run_byShape_word (by simp [Value.compact]) rest
  | bool _ b =>
      cases b with
      | false => exact run_byShape_word (by simp [Value.compact]) rest
      | true => exact run_byShape_word (by simp [Value.compact]) rest
  | number _ n =>
      rw [Value.compact]
      exact run_byShape_number (exists_cons_of_number n) (takes_number_text hreals rest hrest)
  | string _ s =>
      rw [Value.compact]
      exact run_byShape_string s rest

/-- A value of one token is read as what it is made into. -/
theorem reads_byShape {α : Type} {list object : Scan α} {token : Value → Scan α} {v : Value}
    {value : α} (h : v.Formed 0) (hreals : ∀ x ∈ v.reals, x.PrintsNearest)
    (htoken : token v = pure value) : Reads (byShape list object token) v.lexemes value := by
  rw [lexemes_of_token h]
  apply skipsBlanks_byShape.reads_lexeme
  intro rest hrest
  rw [run_byShape_token h hreals hrest, htoken]
  rfl

theorem reads_value_token {v : Value} (h : v.Formed 0) (hreals : ∀ x ∈ v.reals, x.PrintsNearest)
    (levels : Nat) : Reads (value levels) v.lexemes v := by
  cases levels with
  | zero => exact reads_byShape h hreals rfl
  | succ levels => exact reads_byShape h hreals rfl

theorem skipsBlanks_colon : SkipsBlanks colon := skipsBlanks_look.bind _

/-- The colon behind a key is passed over. -/
theorem reads_colon {α : Type} {scan : Scan α} {lexemes : List Lexeme} {value : α}
    (h : Reads scan lexemes value) : Reads (colon >>= fun _ => scan) ([':'] :: lexemes) value := by
  apply (skipsBlanks_colon.bind _).reads
  intro text htext rest hrest
  have hcolon : ∀ text, colon.run (':' :: text) = .ok ((), text) := fun _ => rfl
  rw [List.append_assoc, List.singleton_append, run_bind_of_run (hcolon _)]
  exact h text htext rest hrest

/-- The members of an object are entered one by one, each behind those with lesser keys. -/
theorem steps_insert {scan : Scan Value} {front back : List (String × Value)}
    (order : Keyed.Ascending (front ++ back))
    (h : ∀ entry ∈ back, Reads scan entry.2.lexemes entry.2) :
    Steps (fun key entries => do
      colon
      return Keyed.insert key (← scan) entries) (printedMembers back) front (front ++ back) := by
  induction back generalizing front with
  | nil =>
      rw [List.append_nil]
      exact .nil front
  | cons entry back ih =>
      obtain ⟨hentry, hback⟩ := List.forall_mem_cons.mp h
      rw [List.append_cons] at order ⊢
      have hlast : Keyed.insert entry.1 entry.2 front = front ++ [entry] :=
        Keyed.insert_of_last entry.2 fun first hfirst => (List.pairwise_append.mp
          (List.pairwise_append.mp order).1).2.2 first hfirst entry List.mem_cons_self
      refine .cons (spells_quote entry.1) ?_ (ih order hback)
      have hread := reads_colon (hentry.bind_pure fun v => Keyed.insert entry.1 v front)
      rwa [hlast] at hread

/-- A value is read back from its lexemes. The induction is on the levels that it may nest: the
items of a list and the members of an object are read with one level less. -/
theorem reads_value {levels : Nat} {v : Value} (h : v.Formed levels)
    (hreals : ∀ x ∈ v.reals, x.PrintsNearest) : Reads (value levels) v.lexemes v := by
  induction h with
  | null levels => exact reads_value_token (.null 0) hreals levels
  | bool levels b => exact reads_value_token (.bool 0 b) hreals levels
  | number levels n => exact reads_value_token (.number 0 n) hreals levels
  | string levels s => exact reads_value_token (.string 0 s) hreals levels
  | @array levels items _ ih =>
      have hitems : List.Forall₂ (Reads (value levels)) (items.map Value.lexemes) items := by
        rw [List.forall₂_map_left_iff, List.forall₂_same]
        exact fun item hitem => ih item hitem fun x hx => hreals x (mem_reals_array hitem hx)
      have hstarts : ∀ row ∈ items.map Value.lexemes, Starts row := by
        intro row hrow
        obtain ⟨item, -, rfl⟩ := List.mem_map.mp hrow
        exact starts_lexemes item
      rw [Value.lexemes, itemLexemes_eq]
      apply skipsBlanks_byShape.reads
      intro text htext
      exact (takes_inList hitems hstarts htext).map Value.array
  | @object levels members order _ ih =>
      have hmembers : ∀ entry ∈ members, Reads (value levels) entry.2.lexemes entry.2 :=
        fun entry hentry => ih entry hentry fun x hx => hreals x (mem_reals_object hentry hx)
      have hsteps := @steps_insert (value levels) [] members order hmembers
      rw [Value.lexemes]
      apply skipsBlanks_byShape.reads
      intro text htext
      have htake := takes_inObject pure hsteps (fun _ => rfl) htext
      rw [bind_pure] at htake
      exact htake.map Value.object

end SchemaMigration.Json
