import SchemaMigration.Proofs.Json.Values

/-!
# Values that are skipped

A value that nobody wants may be any value of JSON: its strings may hold units that pair with
nothing, its numbers may be beyond all bounds, and it may nest as deep as it likes. Skipping takes
it to its end and no further.
-/

namespace SchemaMigration.Json

open Scan

/-- What may stand inside a string: characters as themselves, letters behind backslashes, and 16-bit
units, paired or not. -/
inductive IsChars : List Char → Prop
  | nil : IsChars []
  | plain {c : Char} {text : List Char} (hcontrol : 0x20 ≤ c.toNat) (hquote : c ≠ '"')
      (hbackslash : c ≠ '\\') (h : IsChars text) : IsChars (c :: text)
  | letter {letter c : Char} {text : List Char} (hletter : letter? letter = some c)
      (h : IsChars text) : IsChars ('\\' :: letter :: text)
  | unit {a b d e : Char} {value : Nat} {text : List Char} (hunit : unit? a b d e = some value)
      (h : IsChars text) : IsChars ('\\' :: 'u' :: a :: b :: d :: e :: text)

/-- A string between its quotes. -/
def IsString (lexeme : Lexeme) : Prop :=
  ∃ inside, IsChars inside ∧ lexeme = '"' :: (inside ++ ['"'])

/-- A number: its parts, and any spelling of the exponent. -/
def IsNumber (lexeme : Lexeme) : Prop := ∃ (l : Literal) (spelling : List Char),
  l.WellSpelt ∧ Literal.SpellsExponent l.exponent spelling ∧ lexeme = l.mantissa ++ spelling

/-- The lexemes of a value. -/
inductive IsValue : List Lexeme → Prop
  | word {lexeme : Lexeme} (h : lexeme ∈ ["null".toList, "true".toList, "false".toList]) :
      IsValue [lexeme]
  | number {lexeme : Lexeme} (h : IsNumber lexeme) : IsValue [lexeme]
  | string {lexeme : Lexeme} (h : IsString lexeme) : IsValue [lexeme]
  | list {rows : List (List Lexeme)} (h : ∀ row ∈ rows, IsValue row) : IsValue (brackets rows)
  | object {members : List Member} (hkeys : ∀ m ∈ members, IsString m.spelling)
      (h : ∀ m ∈ members, IsValue m.value) : IsValue (braces members)

theorem IsNumber.exists_cons {lexeme : Lexeme} (h : IsNumber lexeme) :
    ∃ c cs, lexeme = c :: cs ∧ (c = '-' || c.isDigit) = true := by
  obtain ⟨l, spelling, hspelt, -, rfl⟩ := h
  exact hspelt.exists_cons_mantissa spelling

theorem IsValue.starts {lexemes : List Lexeme} (h : IsValue lexemes) : Starts lexemes := by
  cases h with
  | word h =>
      simp only [List.mem_cons, List.not_mem_nil, or_false] at h
      rcases h with rfl | rfl | rfl
      · exact ⟨'n', _, [], rfl, rfl, by decide⟩
      · exact ⟨'t', _, [], rfl, rfl, by decide⟩
      · exact ⟨'f', _, [], rfl, rfl, by decide⟩
  | number h =>
      obtain ⟨c, cs, rfl, hc⟩ := h.exists_cons
      have hother := not_mem_of_numeric hc
      exact ⟨c, cs, [], rfl, isBlank_of_numeric hc, by simp_all⟩
  | string h =>
      obtain ⟨inside, -, rfl⟩ := h
      exact ⟨'"', _, [], rfl, rfl, by decide⟩
  | list _ => exact ⟨'[', [], _, rfl, rfl, by decide⟩
  | object _ _ => exact ⟨'{', [], _, rfl, rfl, by decide⟩

theorem isChars_of_spellsChars {cs text : List Char} (h : SpellsChars cs text) : IsChars text := by
  induction h with
  | nil => exact .nil
  | plain hcontrol hquote hbackslash _ ih => exact .plain hcontrol hquote hbackslash ih
  | letter hletter _ ih => exact .letter hletter ih
  | unit hunit _ _ _ ih => exact .unit hunit ih
  | pair hunit _ hunit' _ _ ih => exact .unit hunit (.unit hunit' ih)

/-- Every spelling of a string is a string of JSON. -/
theorem isString_of_spells {s : String} {lexeme : Lexeme} (h : Spells s lexeme) :
    IsString lexeme := by
  obtain ⟨inside, hinside, rfl⟩ := h
  exact ⟨inside, isChars_of_spellsChars hinside, rfl⟩

theorem isNumber_text (n : Number) : IsNumber n.text.toList := by
  obtain ⟨l, hspelt, htext⟩ := exists_wellSpelt n
  exact ⟨l, l.exponentText, hspelt, l.spellsExponent_exponentText, htext.symm⟩

mutual

/-- The lexemes of a printed value are those of a value of JSON. -/
theorem isValue_lexemes : ∀ v : Value, IsValue v.lexemes
  | .null => .word List.mem_cons_self
  | .bool true => .word (List.mem_cons_of_mem _ List.mem_cons_self)
  | .bool false => .word (List.mem_cons_of_mem _ (List.mem_cons_of_mem _ List.mem_cons_self))
  | .number n => .number (isNumber_text n)
  | .string s => .string (isString_of_spells (spells_quote s))
  | .array items => .list (isValue_itemLexemes items)
  | .object members => by
      have hmembers := isValue_printedMembers members
      exact .object (fun m hm => (hmembers m hm).1) (fun m hm => (hmembers m hm).2)

theorem isValue_itemLexemes : ∀ items : List Value, ∀ row ∈ itemLexemes items, IsValue row
  | [] => by simp [itemLexemes]
  | item :: items => by
      rw [itemLexemes, List.forall_mem_cons]
      exact ⟨isValue_lexemes item, isValue_itemLexemes items⟩

theorem isValue_printedMembers : ∀ members : List (String × Value),
    ∀ m ∈ printedMembers members, IsString m.spelling ∧ IsValue m.value
  | [] => by simp [printedMembers]
  | (key, v) :: members => by
      rw [printedMembers, List.forall_mem_cons]
      exact ⟨⟨isString_of_spells (spells_quote key), isValue_lexemes v⟩,
        isValue_printedMembers members⟩

end

/-- A row is no longer than all rows with commas between them. -/
theorem length_le_intercalate {γ : Type} (separator : γ) {row : List γ} {rows : List (List γ)}
    (h : row ∈ rows) : row.length ≤ ([separator].intercalate rows).length := by
  induction rows with
  | nil => cases h
  | cons first rows ih =>
      cases rows with
      | nil =>
          obtain rfl := List.mem_singleton.mp h
          simp
      | cons next rows =>
          rw [List.intercalate_cons_cons, List.length_append, List.length_append]
          rcases List.mem_cons.mp h with rfl | hlater
          · omega
          · have hlength := ih hlater
            omega

theorem length_lt_brackets {row : List Lexeme} {rows : List (List Lexeme)} (h : row ∈ rows) :
    row.length < (brackets rows).length := by
  have hlength := length_le_intercalate [','] h
  simp only [brackets, List.length_cons, List.length_append]
  omega

theorem length_lt_braces {m : Member} {members : List Member} (h : m ∈ members) :
    m.value.length < (braces members).length := by
  have hlength := length_le_intercalate [','] (List.mem_map_of_mem (f := Member.lexemes) h)
  simp only [braces, Member.lexemes, List.length_cons, List.length_append] at hlength ⊢
  omega

theorem mem_intercalate {γ : Type} {separator x : γ} {rows : List (List γ)}
    (h : x ∈ [separator].intercalate rows) : x = separator ∨ ∃ row ∈ rows, x ∈ row := by
  cases rows with
  | nil => cases h
  | cons row rows =>
      rw [intercalate_cons_eq_flatMap, List.mem_append, List.mem_flatMap] at h
      rcases h with h | ⟨later, hlater, h⟩
      · exact .inr ⟨row, List.mem_cons_self, h⟩
      · rcases List.mem_cons.mp h with rfl | h
        · exact .inl rfl
        · exact .inr ⟨later, List.mem_cons_of_mem _ hlater, h⟩

/-- No lexeme of a value is empty. -/
theorem IsValue.ne_nil {lexemes : List Lexeme} (h : IsValue lexemes) :
    ∀ lexeme ∈ lexemes, lexeme ≠ [] := by
  induction h with
  | word h =>
      simp only [List.mem_cons, List.not_mem_nil, or_false] at h
      rcases h with rfl | rfl | rfl <;> simp
  | number h =>
      obtain ⟨c, cs, rfl, -⟩ := h.exists_cons
      simp
  | string h =>
      obtain ⟨inside, -, rfl⟩ := h
      simp
  | list _ ih =>
      intro lexeme hlexeme
      simp only [brackets, List.mem_cons, List.mem_append, List.not_mem_nil, or_false] at hlexeme
      rcases hlexeme with rfl | hlexeme | rfl
      · simp
      · rcases mem_intercalate hlexeme with rfl | ⟨row, hrow, hlexeme⟩
        · simp
        · exact ih row hrow lexeme hlexeme
      · simp
  | object hkeys _ ih =>
      intro lexeme hlexeme
      simp only [braces, List.mem_cons, List.mem_append, List.not_mem_nil, or_false] at hlexeme
      rcases hlexeme with rfl | hlexeme | rfl
      · simp
      · rcases mem_intercalate hlexeme with rfl | ⟨row, hrow, hlexeme⟩
        · simp
        · obtain ⟨m, hm, rfl⟩ := List.mem_map.mp hrow
          simp only [Member.lexemes, List.mem_cons] at hlexeme
          rcases hlexeme with rfl | rfl | hlexeme
          · obtain ⟨inside, -, hspelling⟩ := hkeys m hm
            simp [hspelling]
          · simp
          · exact ih m hm lexeme hlexeme
      · simp

/-- Lexemes that are not empty take a character each. -/
theorem Spaced.length_le {lexemes : List Lexeme} {text : List Char} (h : Spaced lexemes text)
    (hne : ∀ lexeme ∈ lexemes, lexeme ≠ []) : lexemes.length ≤ text.length := by
  induction h with
  | nil => exact Nat.le_refl 0
  | @cons gap lexeme text lexemes _ _ ih =>
      obtain ⟨hfirst, hlater⟩ := List.forall_mem_cons.mp hne
      have hlength := ih hlater
      have hpos : 0 < lexeme.length := List.length_pos_of_ne_nil hfirst
      simp only [List.length_append, List.length_cons]
      omega

namespace Scan

/-- The loose reading of escapes goes to the closing quote. -/
theorem exists_stringChars {inside : List Char} (h : IsChars inside) (rest : List Char) :
    ∃ cs, stringChars looseEscape 0 (inside ++ '"' :: rest) = .ok (cs, rest) := by
  induction h with
  | nil => exact ⟨[], rfl⟩
  | plain hcontrol hquote hbackslash _ ih =>
      obtain ⟨cs, hcs⟩ := ih
      exact ⟨_, stringChars_plain hcontrol hquote hbackslash hcs⟩
  | @letter letter c _ hletter _ ih =>
      obtain ⟨cs, hcs⟩ := ih
      refine ⟨c :: cs, stringChars_backslash [letter] ?_ hcs⟩
      have hother := ne_unit_of_letter hletter
      simp only [List.singleton_append, List.length_singleton]
      unfold looseEscape
      split <;> simp_all [letterEscape]
  | @unit a b d e value _ hunit _ ih =>
      obtain ⟨cs, hcs⟩ := ih
      refine ⟨' ' :: cs, stringChars_backslash ['u', a, b, d, e] ?_ hcs⟩
      simp [looseEscape, Scan.unit, hunit]

/-- A string is skipped, whatever follows it. -/
theorem run_skipString {lexeme : Lexeme} (h : IsString lexeme) (rest : List Char) :
    skipString.run (lexeme ++ rest) = .ok ((), rest) := by
  obtain ⟨inside, hinside, rfl⟩ := h
  obtain ⟨cs, hcs⟩ := exists_stringChars hinside rest
  have hquoted : (quoted looseEscape).run ('"' :: (inside ++ '"' :: rest)) =
      .ok (String.ofList cs, rest) := by
    simp [quoted, StateT.run, hcs]
  rw [List.cons_append, List.append_assoc, List.singleton_append, skipString,
    run_bind_of_run hquoted]
  rfl

section Loops

variable {skip : Scan Unit} {first second gap : List Char} {fuel : Nat}

/-- Items are skipped up to and with the closing bracket. -/
theorem run_skipItems {row : List Lexeme} {rows : List (List Lexeme)}
    (h : ∀ r ∈ row :: rows, Reads skip r ()) (hfirst : Spaced row first)
    (hsecond : Spaced (rows.flatMap ([','] :: ·)) second) (hgap : Blanks gap)
    (hfuel : rows.length < fuel) (rest : List Char) :
    (skipItems skip fuel).run (first ++ (second ++ (gap ++ ']' :: rest))) = .ok ((), rest) := by
  obtain ⟨fuel, rfl⟩ := Nat.exists_eq_add_one_of_ne_zero (Nat.ne_zero_of_lt hfuel)
  induction rows generalizing row first second fuel with
  | nil =>
      have hends : Ends (second ++ (gap ++ ']' :: rest)) :=
        ends_of_spaced hsecond hgap (by decide) rest
      cases hsecond
      rw [skipItems, run_bind_of_run (h row List.mem_cons_self first hfirst _ hends),
        List.nil_append, run_bind_of_run (run_look_gap hgap rfl rest)]
      rfl
  | cons next rows ih =>
      obtain ⟨hrow, hrows⟩ := List.forall_mem_cons.mp h
      have hends : Ends (second ++ (gap ++ ']' :: rest)) :=
        ends_of_spaced hsecond hgap (by decide) rest
      rw [skipItems, run_bind_of_run (hrow first hfirst _ hends)]
      cases hsecond with
      | cons hbefore hlater =>
          obtain ⟨third, fourth, rfl, hthird, hfourth⟩ := spaced_append_iff.mp hlater
          simp only [List.append_assoc, List.cons_append, List.nil_append]
          rw [run_bind_of_run (run_look_gap hbefore rfl _)]
          obtain ⟨fuel, rfl⟩ := Nat.exists_eq_add_one_of_ne_zero
            (Nat.ne_zero_of_lt (Nat.lt_of_succ_lt_succ hfuel))
          exact ih hrows hthird hfourth fuel (Nat.lt_of_succ_lt_succ hfuel)

/-- What is done behind a member that has been skipped. -/
def behindMember (skip : Scan Unit) (fuel : Nat) : Scan Unit := do
  match ← look with
  | none => throw .endInObject
  | some ',' => do
    skipChar
    skipMembers skip fuel
  | some '}' => skipChar
  | some _ => throw .expectedObjectEnd

/-- One member is skipped. -/
theorem run_skipMembers_member {m : Member} (hkey : IsString m.spelling)
    (hskip : Reads skip m.value ()) (hfirst : Spaced m.lexemes first) {rest : List Char}
    (hrest : Ends rest) :
    (skipMembers skip (fuel + 1)).run (first ++ rest) = (behindMember skip fuel).run rest := by
  cases hfirst with
  | @cons lead _ after _ hlead hafter =>
      have hcolon := reads_colon hskip after hafter rest hrest
      have hlook : look.run (lead ++ (m.spelling ++ (after ++ rest))) =
          .ok (some '"', m.spelling ++ (after ++ rest)) := by
        obtain ⟨inside, -, hspelling⟩ := hkey
        rw [hspelling]
        exact run_look_gap hlead rfl _
      have hbody : (skipMembers skip (fuel + 1)).run (lead ++ (m.spelling ++ (after ++ rest))) =
          (skipString >>= fun _ => (colon >>= fun _ => skip) >>= fun _ =>
            behindMember skip fuel).run (m.spelling ++ (after ++ rest)) := by
        rw [skipMembers, run_bind_of_run hlook]
        simp only [bind_assoc]
        rfl
      rw [List.append_assoc, List.append_assoc, hbody, run_bind_of_run (run_skipString hkey _),
        run_bind_of_run hcolon]

/-- Members are skipped up to and with the closing brace. -/
theorem run_skipMembers {m : Member} {members : List Member}
    (hkeys : ∀ n ∈ m :: members, IsString n.spelling)
    (h : ∀ n ∈ m :: members, Reads skip n.value ()) (hfirst : Spaced m.lexemes first)
    (hsecond : Spaced ((members.map Member.lexemes).flatMap ([','] :: ·)) second)
    (hgap : Blanks gap) (hfuel : members.length < fuel) (rest : List Char) :
    (skipMembers skip fuel).run (first ++ (second ++ (gap ++ '}' :: rest))) = .ok ((), rest) := by
  obtain ⟨fuel, rfl⟩ := Nat.exists_eq_add_one_of_ne_zero (Nat.ne_zero_of_lt hfuel)
  induction members generalizing m first second fuel with
  | nil =>
      have hends : Ends (second ++ (gap ++ '}' :: rest)) :=
        ends_of_spaced hsecond hgap (by decide) rest
      rw [run_skipMembers_member (hkeys m List.mem_cons_self) (h m List.mem_cons_self) hfirst hends]
      cases hsecond
      rw [behindMember, List.nil_append, run_bind_of_run (run_look_gap hgap rfl rest)]
      rfl
  | cons next members ih =>
      obtain ⟨hkey, hkeys⟩ := List.forall_mem_cons.mp hkeys
      obtain ⟨hmember, hmembers⟩ := List.forall_mem_cons.mp h
      have hends : Ends (second ++ (gap ++ '}' :: rest)) :=
        ends_of_spaced hsecond hgap (by decide) rest
      rw [run_skipMembers_member hkey hmember hfirst hends]
      cases hsecond with
      | cons hbefore hlater =>
          obtain ⟨third, fourth, rfl, hthird, hfourth⟩ := spaced_append_iff.mp hlater
          simp only [List.append_assoc, List.cons_append, List.nil_append]
          rw [behindMember, run_bind_of_run (run_look_gap hbefore rfl _)]
          obtain ⟨fuel, rfl⟩ := Nat.exists_eq_add_one_of_ne_zero
            (Nat.ne_zero_of_lt (Nat.lt_of_succ_lt_succ hfuel))
          exact ih hkeys hmembers hthird hfourth fuel (Nat.lt_of_succ_lt_succ hfuel)

end Loops

/-- What is skipped of a list behind its opening bracket. -/
def skipInList (fuel : Nat) : Scan Unit := do
  match ← look with
  | none => throw .endInList
  | some ']' => skipChar
  | some _ => skipItems (skipLevels fuel) ((← get).length + 1)

/-- What is skipped of an object behind its opening brace. -/
def skipInObject (fuel : Nat) : Scan Unit := do
  match ← look with
  | none => throw .endInObject
  | some '}' => skipChar
  | some _ => skipMembers (skipLevels fuel) ((← get).length + 1)

theorem run_skipLevels_list (fuel : Nat) (rest : List Char) :
    (skipLevels (fuel + 1)).run ('[' :: rest) = (skipInList fuel).run rest := rfl

theorem run_skipLevels_object (fuel : Nat) (rest : List Char) :
    (skipLevels (fuel + 1)).run ('{' :: rest) = (skipInObject fuel).run rest := rfl

theorem skipsBlanks_skipLevels (fuel : Nat) : SkipsBlanks (skipLevels (fuel + 1)) :=
  skipsBlanks_look.bind _

section Levels

variable {fuel : Nat} {text : List Char}

/-- A number is skipped. -/
theorem takes_skipLevels_number {lexeme : Lexeme} (h : IsNumber lexeme) :
    Takes (skipLevels (fuel + 1)) lexeme () := by
  intro rest hrest
  obtain ⟨c, cs, hlexeme, hc⟩ := h.exists_cons
  obtain ⟨l, spelling, hspelt, hexponent, rfl⟩ := h
  have hliteral : (literal .invalidNumber).run (l.mantissa ++ spelling ++ rest) =
      .ok (l, rest) := Literal.takes_mantissa hspelt hexponent rest hrest
  have hother := not_mem_of_numeric hc
  rw [hlexeme, List.cons_append] at hliteral ⊢
  rw [skipLevels, run_bind_of_run (run_look (isBlank_of_numeric hc) _)]
  split
  case h_8 hd =>
    cases hd
    rw [if_pos hc, run_bind_of_run hliteral]
    rfl
  all_goals simp_all

/-- A list is skipped when its items are. -/
theorem takes_skipLevels_list {rows : List (List Lexeme)}
    (h : ∀ row ∈ rows, Reads (skipLevels fuel) row ()) (hstarts : ∀ row ∈ rows, Starts row)
    (htext : Spaced ([[',']].intercalate rows ++ [[']']]) text) :
    Takes (skipLevels (fuel + 1)) ('[' :: text) () := by
  intro rest _
  obtain ⟨items, close, rfl, hitems, hclose⟩ := spaced_append_iff.mp htext
  cases hclose with
  | @cons gap _ _ _ hgap hnil =>
      cases hnil
      simp only [List.append_nil, List.cons_append, List.append_assoc, List.nil_append]
      rw [run_skipLevels_list, skipInList]
      cases rows with
      | nil =>
          cases hitems
          rw [List.nil_append, run_bind_of_run (run_look_gap hgap rfl rest)]
          rfl
      | cons row rows =>
          rw [intercalate_cons_eq_flatMap] at hitems
          obtain ⟨first, second, rfl, hfirst, hsecond⟩ := spaced_append_iff.mp hitems
          obtain ⟨c, bare, hbare, -, hother, -, hlook⟩ :=
            run_look_spaced (hstarts row List.mem_cons_self) hfirst
          have hlength := length_le_of_spaced hsecond
          rw [List.append_assoc, run_bind_of_run (hlook _)]
          have hfuel : rows.length < (bare ++ (second ++ (gap ++ ']' :: rest))).length + 1 := by
            simp only [List.length_append]
            omega
          have hskip := run_skipItems h hbare hsecond hgap hfuel rest
          split
          · contradiction
          · simp_all
          · rw [run_bind_of_run (StateT.run_get _)]
            exact hskip

/-- An object is skipped when the values of its members are. -/
theorem takes_skipLevels_object {members : List Member}
    (hkeys : ∀ m ∈ members, IsString m.spelling)
    (h : ∀ m ∈ members, Reads (skipLevels fuel) m.value ())
    (htext : Spaced ([[',']].intercalate (members.map Member.lexemes) ++ [['}']]) text) :
    Takes (skipLevels (fuel + 1)) ('{' :: text) () := by
  intro rest _
  obtain ⟨inside, close, rfl, hinside, hclose⟩ := spaced_append_iff.mp htext
  cases hclose with
  | @cons gap _ _ _ hgap hnil =>
      cases hnil
      simp only [List.append_nil, List.cons_append, List.append_assoc, List.nil_append]
      rw [run_skipLevels_object, skipInObject]
      cases members with
      | nil =>
          cases hinside
          rw [List.nil_append, run_bind_of_run (run_look_gap hgap rfl rest)]
          rfl
      | cons m members =>
          rw [List.map_cons, intercalate_cons_eq_flatMap] at hinside
          obtain ⟨first, second, rfl, hfirst, hsecond⟩ := spaced_append_iff.mp hinside
          have hlength := length_le_of_spaced hsecond
          cases hfirst with
          | @cons lead _ after _ hlead hafter =>
              have hlook : ∀ rest, look.run (lead ++ (m.spelling ++ rest)) =
                  .ok (some '"', m.spelling ++ rest) := by
                obtain ⟨chars, -, hspelling⟩ := hkeys m List.mem_cons_self
                rw [hspelling]
                exact fun rest => run_look_gap hlead rfl _
              have hbare : Spaced m.lexemes (m.spelling ++ after) := .cons blanks_nil hafter
              have hfuel : members.length <
                  (m.spelling ++ (after ++ (second ++ (gap ++ '}' :: rest)))).length + 1 := by
                simp only [List.length_map, List.length_append] at hlength ⊢
                omega
              have hskip := run_skipMembers hkeys h hbare hsecond hgap hfuel rest
              rw [List.append_assoc] at hskip
              simp only [List.append_assoc]
              rw [run_bind_of_run (hlook _)]
              exact hskip

end Levels

/-- A value is skipped with more levels than it has lexemes. The induction is on the value: what
stands in a list or an object has fewer lexemes. -/
theorem reads_skipLevels {lexemes : List Lexeme} (h : IsValue lexemes) {fuel : Nat}
    (hfuel : lexemes.length ≤ fuel) : Reads (skipLevels (fuel + 1)) lexemes () := by
  induction h generalizing fuel with
  | word h =>
      apply (skipsBlanks_skipLevels fuel).reads_lexeme
      simp only [List.mem_cons, List.not_mem_nil, or_false] at h
      rcases h with rfl | rfl | rfl <;> exact fun _ _ => rfl
  | number h =>
      apply (skipsBlanks_skipLevels fuel).reads_lexeme
      exact takes_skipLevels_number h
  | string h =>
      apply (skipsBlanks_skipLevels fuel).reads_lexeme
      intro rest _
      have hstring := run_skipString h rest
      obtain ⟨inside, -, rfl⟩ := h
      exact hstring
  | @list rows h ih =>
      have hnonzero : fuel ≠ 0 := Nat.ne_zero_of_lt (Nat.lt_of_succ_le hfuel)
      obtain ⟨fuel, rfl⟩ := Nat.exists_eq_add_one_of_ne_zero hnonzero
      have hrows : ∀ row ∈ rows, Reads (skipLevels (fuel + 1)) row () := by
        intro row hrow
        have hlength := length_lt_brackets hrow
        exact ih row hrow (by omega)
      apply (skipsBlanks_skipLevels _).reads
      intro text htext
      exact takes_skipLevels_list hrows (fun row hrow => (h row hrow).starts) htext
  | @object members hkeys _ ih =>
      have hnonzero : fuel ≠ 0 := Nat.ne_zero_of_lt (Nat.lt_of_succ_le hfuel)
      obtain ⟨fuel, rfl⟩ := Nat.exists_eq_add_one_of_ne_zero hnonzero
      have hmembers : ∀ m ∈ members, Reads (skipLevels (fuel + 1)) m.value () := by
        intro m hm
        have hlength := length_lt_braces hm
        exact ih m hm (by omega)
      apply (skipsBlanks_skipLevels _).reads
      intro text htext
      exact takes_skipLevels_object hkeys hmembers htext

/-- Any value is skipped. -/
theorem reads_skip {lexemes : List Lexeme} (h : IsValue lexemes) : Reads skip lexemes () := by
  intro text htext rest hrest
  have hlength := htext.length_le h.ne_nil
  have hfuel : lexemes.length ≤ (text ++ rest).length := by
    rw [List.length_append]
    omega
  rw [skip, run_bind_of_run (StateT.run_get _)]
  exact reads_skipLevels h hfuel text htext rest hrest

end Scan

end SchemaMigration.Json
