import Mathlib.Data.List.Forall2
import Mathlib.Data.List.TakeWhile
import SchemaMigration.Proofs.Json.Scanning

/-!
# Scans of spaced lexemes

The lexemes of a text are its strings, numbers, words and marks. In front of each there may be
blanks, in any number. A scan reads lexemes for a value when it takes every text in which they stand
in order, whatever blanks there are. Items between brackets are read one by one, and so are members
between braces, each by the scan that reads it; a comma stands in front of all but the first.
-/

namespace SchemaMigration.Json

/-- A lexeme as it is spelt. -/
abbrev Lexeme := List Char

/-- Nothing but blanks. -/
def Blanks (gap : List Char) : Prop := ∀ c ∈ gap, isBlank c = true

/-- Lexemes in order, with blanks in front of each. -/
inductive Spaced : List Lexeme → List Char → Prop
  | nil : Spaced [] []
  | cons {gap lexeme text : List Char} {lexemes : List Lexeme} (hgap : Blanks gap)
      (h : Spaced lexemes text) : Spaced (lexeme :: lexemes) (gap ++ (lexeme ++ text))

theorem blanks_nil : Blanks [] := by simp [Blanks]

/-- Lexemes without blanks. -/
theorem spaced_flatten (lexemes : List Lexeme) : Spaced lexemes lexemes.flatten := by
  induction lexemes with
  | nil => exact .nil
  | cons lexeme lexemes ih => exact .cons blanks_nil ih

theorem Spaced.append {front back : List Lexeme} {text more : List Char} (h : Spaced front text)
    (h' : Spaced back more) : Spaced (front ++ back) (text ++ more) := by
  induction h with
  | nil => exact h'
  | cons hgap _ ih =>
      rw [List.append_assoc, List.append_assoc]
      exact .cons hgap ih

/-- A text of two runs of lexemes is cut between them. -/
theorem spaced_append_iff {front back : List Lexeme} {text : List Char} :
    Spaced (front ++ back) text ↔
      ∃ first second, text = first ++ second ∧ Spaced front first ∧ Spaced back second := by
  constructor
  · intro h
    induction front generalizing text with
    | nil => exact ⟨[], text, rfl, .nil, h⟩
    | cons lexeme front ih =>
        cases h with
        | @cons gap _ rest _ hgap hrest =>
            obtain ⟨first, second, rfl, hfirst, hsecond⟩ := ih hrest
            exact ⟨gap ++ (lexeme ++ first), second, by simp, .cons hgap hfirst, hsecond⟩
  · rintro ⟨first, second, rfl, hfirst, hsecond⟩
    exact hfirst.append hsecond

/-- The text is these lexemes with blanks in front of each, and blanks at its end. -/
def IsText (lexemes : List Lexeme) (text : List Char) : Prop :=
  ∃ spaced gap, text = spaced ++ gap ∧ Spaced lexemes spaced ∧ Blanks gap

/-- What is left of a text when lexemes are taken off it, with the blanks in front of each. -/
def afterLexemes : List Lexeme → List Char → Option (List Char)
  | [], text => some text
  | lexeme :: lexemes, text => do
    afterLexemes lexemes (← lexeme.isPrefixOf? (text.dropWhile isBlank))

/-- A text is made of the lexemes when nothing but blanks is left behind them. -/
theorem isText_of_afterLexemes {lexemes : List Lexeme} {text gap : List Char}
    (h : afterLexemes lexemes text = some gap) (hgap : Blanks gap) : IsText lexemes text := by
  induction lexemes generalizing text with
  | nil =>
      obtain rfl := Option.some.inj h
      exact ⟨[], text, rfl, .nil, hgap⟩
  | cons lexeme lexemes ih =>
      obtain ⟨rest, hlexeme, hrest⟩ := Option.bind_eq_some_iff.mp h
      obtain ⟨spaced, gap, rfl, hspaced, hgap⟩ := ih hrest
      have htext := List.append_eq_of_isPrefixOf?_eq_some hlexeme
      refine ⟨text.takeWhile isBlank ++ (lexeme ++ spaced), gap, ?_, .cons ?_ hspaced, hgap⟩
      · rw [List.append_assoc, List.append_assoc, htext, List.takeWhile_append_dropWhile]
      · exact fun c hc => List.mem_takeWhile_imp hc

namespace Scan

variable {α β σ : Type}

/-- The scan takes these lexemes for this value, with whatever blanks in front of them. -/
def Reads (scan : Scan α) (lexemes : List Lexeme) (value : α) : Prop :=
  ∀ text, Spaced lexemes text → Takes scan text value

theorem Reads.map {scan : Scan α} {lexemes : List Lexeme} {value : α}
    (h : Reads scan lexemes value) (f : α → β) : Reads (f <$> scan) lexemes (f value) :=
  fun text htext => (h text htext).map f

/-- What is made of a value that has been read. -/
theorem Reads.bind_pure {scan : Scan α} {lexemes : List Lexeme} {value : α}
    (h : Reads scan lexemes value) (f : α → β) :
    Reads (scan >>= fun value => pure (f value)) lexemes (f value) := by
  intro text htext rest hrest
  rw [run_bind_of_run (h text htext rest hrest)]
  rfl

/-- Behind blanks there may be whatever may be behind a value. -/
theorem Ends.behind {gap rest : List Char} (hgap : Blanks gap) (h : Ends rest) :
    Ends (gap ++ rest) := by
  cases gap with
  | nil => exact h
  | cons c gap =>
      have hblank := hgap c List.mem_cons_self
      simp only [isBlank, Bool.or_eq_true, decide_eq_true_eq] at hblank
      rw [List.cons_append, ends_cons]
      rcases hblank with ((rfl | rfl) | rfl) | rfl <;> decide

/-- The scan passes over blanks in front of what it reads. -/
def SkipsBlanks (scan : Scan α) : Prop :=
  ∀ gap text, Blanks gap → scan.run (gap ++ text) = scan.run text

theorem skipsBlanks_look : SkipsBlanks look := by
  intro gap text hgap
  simp only [look, StateT.run]
  rw [List.dropWhile_append_of_pos hgap]

theorem SkipsBlanks.bind {scan : Scan α} (h : SkipsBlanks scan) (next : α → Scan β) :
    SkipsBlanks (scan >>= next) := by
  intro gap text hgap
  rw [StateT.run_bind, StateT.run_bind, h gap text hgap]

/-- It is enough to read lexemes with no blanks in front of the first. -/
theorem SkipsBlanks.reads {scan : Scan α} (h : SkipsBlanks scan) {lexeme : Lexeme}
    {lexemes : List Lexeme} {value : α}
    (ht : ∀ text, Spaced lexemes text → Takes scan (lexeme ++ text) value) :
    Reads scan (lexeme :: lexemes) value := by
  intro text htext rest hrest
  cases htext with
  | @cons gap _ text _ hgap htext =>
      rw [List.append_assoc, h gap _ hgap]
      exact ht text htext rest hrest

theorem SkipsBlanks.reads_lexeme {scan : Scan α} (h : SkipsBlanks scan) {lexeme : Lexeme}
    {value : α} (ht : Takes scan lexeme value) : Reads scan [lexeme] value := by
  apply h.reads
  intro text htext
  cases htext
  rwa [List.append_nil]

theorem run_look_gap {gap : List Char} (hgap : Blanks gap) {c : Char} (hc : isBlank c = false)
    (rest : List Char) : look.run (gap ++ c :: rest) = .ok (some c, c :: rest) := by
  rw [skipsBlanks_look gap _ hgap, run_look hc]

/-- Lexemes in front of which a list may be closed, but is not. -/
def Starts (lexemes : List Lexeme) : Prop :=
  ∃ c cs rest, lexemes = (c :: cs) :: rest ∧ isBlank c = false ∧ c ≠ ']'

/-- The first character of a text is shown, and the blanks in front of it are gone. -/
theorem run_look_spaced {lexemes : List Lexeme} (h : Starts lexemes) {text : List Char}
    (htext : Spaced lexemes text) :
    ∃ c bare, Spaced lexemes bare ∧ isBlank c = false ∧ c ≠ ']' ∧
      (∃ cs, bare = c :: cs) ∧ ∀ rest, look.run (text ++ rest) = .ok (some c, bare ++ rest) := by
  obtain ⟨c, cs, others, rfl, hblank, hclose⟩ := h
  cases htext with
  | @cons gap _ text _ hgap htext =>
      refine ⟨c, c :: cs ++ text, .cons blanks_nil htext, hblank, hclose, ⟨_, rfl⟩, fun rest => ?_⟩
      rw [List.append_assoc, List.append_assoc]
      exact run_look_gap hgap hblank _

/-- Rows with commas between them are the first and a comma in front of each other. -/
theorem intercalate_cons_eq_flatMap {γ : Type} (separator : γ) (row : List γ)
    (rows : List (List γ)) : [separator].intercalate (row :: rows) =
      row ++ rows.flatMap (separator :: ·) := by
  induction rows generalizing row with
  | nil => simp
  | cons next rows ih => rw [List.intercalate_cons_cons, ih]; simp

/-- Every row with a comma in front takes a character. -/
theorem length_le_of_spaced {rows : List (List Lexeme)} {text : List Char}
    (h : Spaced (rows.flatMap ([','] :: ·)) text) : rows.length ≤ text.length := by
  induction rows generalizing text with
  | nil => exact Nat.zero_le _
  | cons row rows ih =>
      cases h with
      | cons _ hrest =>
          obtain ⟨first, second, rfl, -, hsecond⟩ := spaced_append_iff.mp hrest
          have hlength := ih hsecond
          simp only [List.length_append, List.length_cons]
          omega

/-- What stands behind a row: the next comma, or the closing bracket. -/
theorem ends_of_spaced {rows : List (List Lexeme)} {text gap : List Char}
    (h : Spaced (rows.flatMap ([','] :: ·)) text) (hgap : Blanks gap) {close : Char}
    (hclose : close ∈ [',', ']', '}', ' ', '\t', '\n', '\r']) (rest : List Char) :
    Ends (text ++ (gap ++ close :: rest)) := by
  cases rows with
  | nil =>
      cases h
      rw [List.nil_append]
      exact Ends.behind hgap (ends_cons.mpr hclose)
  | cons row rows =>
      cases h with
      | cons hbefore _ =>
          rw [List.append_assoc]
          exact Ends.behind hbefore (by simp)

/-- The lexemes of a list of rows between brackets. -/
def brackets (rows : List (List Lexeme)) : List Lexeme :=
  ['['] :: ([[',']].intercalate rows ++ [[']']])

theorem run_nextItem_end {gap : List Char} (hgap : Blanks gap) (first : Bool) (rest : List Char) :
    (nextItem first).run (gap ++ ']' :: rest) = .ok (false, ']' :: rest) := by
  rw [nextItem, run_bind_of_run (run_look_gap hgap rfl rest)]
  rfl

theorem run_nextItem_first {row : List Lexeme} (h : Starts row) {text : List Char}
    (htext : Spaced row text) : ∃ bare, Spaced row bare ∧
      ∀ rest, (nextItem true).run (text ++ rest) = .ok (true, bare ++ rest) := by
  obtain ⟨c, bare, hbare, -, hclose, -, hlook⟩ := run_look_spaced h htext
  refine ⟨bare, hbare, fun rest => ?_⟩
  rw [nextItem, run_bind_of_run (hlook rest)]
  split
  · contradiction
  · simp_all
  · rfl

theorem run_nextItem_later {row : List Lexeme} (h : Starts row) {gap text : List Char}
    (hgap : Blanks gap) (htext : Spaced row text) : ∃ bare, Spaced row bare ∧
      ∀ rest, (nextItem false).run (gap ++ ',' :: (text ++ rest)) = .ok (true, bare ++ rest) := by
  obtain ⟨c, bare, hbare, -, hclose, -, hlook⟩ := run_look_spaced h htext
  refine ⟨bare, hbare, fun rest => ?_⟩
  have hcomma : ∀ rest, (nextItem false).run (gap ++ ',' :: rest) = (do
      if (← look) = some ']' then throw .trailingComma else return true : Scan Bool).run rest := by
    intro rest
    rw [nextItem, run_bind_of_run (run_look_gap hgap rfl rest)]
    rfl
  rw [hcomma, run_bind_of_run (hlook rest)]
  simp [hclose]

section Items

variable {item : Scan α} {rows : List (List Lexeme)} {values : List α}

/-- Items with a comma in front of each are read up to the end of their list. -/
theorem run_itemsLoop (h : List.Forall₂ (Reads item) rows values)
    (hstarts : ∀ row ∈ rows, Starts row) {text gap : List Char}
    (htext : Spaced (rows.flatMap ([','] :: ·)) text) (hgap : Blanks gap) {fuel : Nat}
    (hfuel : rows.length < fuel) (rest : List Char) :
    (itemsLoop item fuel false).run (text ++ (gap ++ ']' :: rest)) = .ok (values, ']' :: rest) := by
  induction h generalizing fuel text with
  | nil =>
      obtain ⟨fuel, rfl⟩ := Nat.exists_eq_add_one_of_ne_zero (Nat.ne_of_gt hfuel)
      cases htext
      exact run_bind_of_run (run_nextItem_end hgap false rest)
  | @cons row value rows values hrow _ ih =>
      obtain ⟨fuel, rfl⟩ := Nat.exists_eq_add_one_of_ne_zero (Nat.ne_zero_of_lt hfuel)
      obtain ⟨hstart, hstarts⟩ := List.forall_mem_cons.mp hstarts
      cases htext with
      | cons hbefore hrest =>
          obtain ⟨first, second, rfl, hfirst, hsecond⟩ := spaced_append_iff.mp hrest
          obtain ⟨bare, hbare, hnext⟩ := run_nextItem_later hstart hbefore hfirst
          simp only [List.append_assoc, List.cons_append, List.nil_append]
          rw [itemsLoop, run_bind_of_run (hnext _), if_pos rfl,
            run_bind_of_run (hrow bare hbare _ (ends_of_spaced hsecond hgap (by decide) rest)),
            run_bind_of_run (ih hstarts hsecond (Nat.lt_of_succ_lt_succ hfuel))]
          rfl

/-- Items are read up to the end of their list. -/
theorem run_items (h : List.Forall₂ (Reads item) rows values) (hstarts : ∀ row ∈ rows, Starts row)
    {text gap : List Char} (htext : Spaced ([[',']].intercalate rows) text) (hgap : Blanks gap)
    (rest : List Char) :
    (items item).run (text ++ (gap ++ ']' :: rest)) = .ok (values, ']' :: rest) := by
  rw [items, run_bind_of_run (StateT.run_get _)]
  cases h with
  | nil =>
      cases htext
      exact run_bind_of_run (run_nextItem_end hgap true rest)
  | @cons row value rows values hrow hrows =>
      obtain ⟨hstart, hstarts⟩ := List.forall_mem_cons.mp hstarts
      rw [intercalate_cons_eq_flatMap] at htext
      obtain ⟨first, second, rfl, hfirst, hsecond⟩ := spaced_append_iff.mp htext
      obtain ⟨bare, hbare, hnext⟩ := run_nextItem_first hstart hfirst
      have hfuel := length_le_of_spaced hsecond
      rw [List.append_assoc, itemsLoop, run_bind_of_run (hnext _), if_pos rfl,
        run_bind_of_run (hrow bare hbare _ (ends_of_spaced hsecond hgap (by decide) rest)),
        run_bind_of_run (run_itemsLoop hrows hstarts hsecond hgap _ rest)]
      · rfl
      · simp only [List.length_append, List.length_cons]
        obtain ⟨c, cs, others, rfl, -⟩ := hstart
        cases hfirst with
        | cons _ _ =>
            simp only [List.length_append, List.length_cons]
            omega

/-- What stands between brackets is read item by item. -/
theorem takes_inList (h : List.Forall₂ (Reads item) rows values)
    (hstarts : ∀ row ∈ rows, Starts row) {text : List Char}
    (htext : Spaced ([[',']].intercalate rows ++ [[']']]) text) :
    Takes (inList (items item)) ('[' :: text) values := by
  intro rest _
  obtain ⟨first, second, rfl, hfirst, hsecond⟩ := spaced_append_iff.mp htext
  cases hsecond with
  | cons hgap hnil =>
      cases hnil
      have hitems := run_items h hstarts hfirst hgap rest
      simp only [inList, List.cons_append, List.append_assoc, List.append_nil, List.nil_append]
      rw [run_bind_of_run (run_skipChar _ _), run_bind_of_run hitems]
      rfl

end Items

/-- A member of an object: its key, how that is spelt, and the lexemes of its value. -/
structure Member where
  key : String
  spelling : Lexeme
  value : List Lexeme

/-- The lexemes of a member. -/
def Member.lexemes (m : Member) : List Lexeme := m.spelling :: [':'] :: m.value

/-- The lexemes of some members between braces. -/
def braces (members : List Member) : List Lexeme :=
  ['{'] :: ([[',']].intercalate (members.map Member.lexemes) ++ [['}']])

/-- Handing the keys of members to a scan, one by one, leads from one state to another. -/
inductive Steps (member : String → σ → Scan σ) : List Member → σ → σ → Prop
  | nil (state : σ) : Steps member [] state state
  | cons {m : Member} {members : List Member} {s t u : σ} (hkey : Spells m.key m.spelling)
      (step : Reads (member m.key s) ([':'] :: m.value) t) (steps : Steps member members t u) :
      Steps member (m :: members) s u

theorem run_nextKey_end {gap : List Char} (hgap : Blanks gap) (first : Bool) (rest : List Char) :
    (nextKey first).run (gap ++ '}' :: rest) = .ok (none, '}' :: rest) := by
  rw [nextKey, run_bind_of_run (run_look_gap hgap rfl rest)]
  rfl

section Keys

variable {key : String} {spelling gap : List Char}

theorem run_nextKey_first (h : Spells key spelling) (hgap : Blanks gap) (rest : List Char) :
    (nextKey true).run (gap ++ (spelling ++ rest)) = .ok (some key, rest) := by
  have hkey := run_map_of_run (f := some) (run_quoted_of_spells h rest)
  obtain ⟨inside, -, rfl⟩ := h
  rw [List.cons_append] at hkey ⊢
  rw [nextKey, run_bind_of_run (run_look_gap hgap rfl _)]
  exact hkey

theorem run_nextKey_later (h : Spells key spelling) {lead : List Char} (hlead : Blanks lead)
    (hgap : Blanks gap) (rest : List Char) :
    (nextKey false).run (gap ++ ',' :: (lead ++ (spelling ++ rest))) = .ok (some key, rest) := by
  have hkey := run_map_of_run (f := some) (run_quoted_of_spells h rest)
  obtain ⟨inside, -, rfl⟩ := h
  rw [List.cons_append] at hkey ⊢
  have hlook := run_look_gap hlead (c := '"') rfl (inside ++ ['"'] ++ rest)
  rw [nextKey, run_bind_of_run (run_look_gap hgap rfl _)]
  split
  · contradiction
  · simp_all
  · next hcomma =>
    obtain rfl := Option.some.inj hcomma
    simp only [Bool.false_eq_true, if_false, if_true]
    rw [run_bind_of_run (run_skipChar _ _), run_bind_of_run hlook]
    exact hkey

end Keys

section Members

variable {member : String → σ → Scan σ} {rows : List Member} {s t : σ} {text gap : List Char}

/-- Members with a comma in front of each are read up to the end of their object. -/
theorem run_membersLoop (h : Steps member rows s t)
    (htext : Spaced ((rows.map Member.lexemes).flatMap ([','] :: ·)) text) (hgap : Blanks gap)
    {fuel : Nat} (hfuel : rows.length < fuel) (rest : List Char) :
    (membersLoop member fuel false s).run (text ++ (gap ++ '}' :: rest)) =
      .ok (t, '}' :: rest) := by
  induction h generalizing fuel text with
  | nil =>
      obtain ⟨fuel, rfl⟩ := Nat.exists_eq_add_one_of_ne_zero (Nat.ne_of_gt hfuel)
      cases htext
      exact run_bind_of_run (run_nextKey_end hgap false rest)
  | @cons m rows s t u hkey step _ ih =>
      obtain ⟨fuel, rfl⟩ := Nat.exists_eq_add_one_of_ne_zero (Nat.ne_zero_of_lt hfuel)
      cases htext with
      | cons hbefore hrest =>
          obtain ⟨first, second, rfl, hfirst, hsecond⟩ := spaced_append_iff.mp hrest
          cases hfirst with
          | cons hlead hvalue =>
              simp only [List.append_assoc, List.cons_append, List.nil_append]
              rw [membersLoop, run_bind_of_run (run_nextKey_later hkey hlead hbefore _)]
              simp only
              rw [run_bind_of_run
                (step _ hvalue _ (ends_of_spaced hsecond hgap (by decide) rest))]
              exact ih hsecond (Nat.lt_of_succ_lt_succ hfuel)

/-- Members are read up to the end of their object. -/
theorem run_members (h : Steps member rows s t)
    (htext : Spaced ([[',']].intercalate (rows.map Member.lexemes)) text) (hgap : Blanks gap)
    (rest : List Char) :
    (members member s).run (text ++ (gap ++ '}' :: rest)) = .ok (t, '}' :: rest) := by
  rw [members, run_bind_of_run (StateT.run_get _)]
  cases h with
  | nil =>
      cases htext
      exact run_bind_of_run (run_nextKey_end hgap true rest)
  | @cons m rows s t u hkey step steps =>
      rw [List.map_cons, intercalate_cons_eq_flatMap] at htext
      obtain ⟨first, second, rfl, hfirst, hsecond⟩ := spaced_append_iff.mp htext
      have hfuel := length_le_of_spaced hsecond
      cases hfirst with
      | cons hlead hvalue =>
          simp only [List.append_assoc]
          rw [membersLoop, run_bind_of_run (run_nextKey_first hkey hlead _)]
          simp only
          rw [run_bind_of_run (step _ hvalue _ (ends_of_spaced hsecond hgap (by decide) rest)),
            run_membersLoop steps hsecond hgap _ rest]
          obtain ⟨inside, -, hspelling⟩ := hkey
          simp only [List.length_append, List.length_cons, List.length_map, hspelling] at hfuel ⊢
          omega

/-- What stands between braces is read member by member, and made into a value at the end. -/
theorem takes_inObject (finish : σ → Scan α) {value : α} (h : Steps member rows s t)
    (hfinish : ∀ rest, (finish t).run rest = .ok (value, rest))
    (htext : Spaced ([[',']].intercalate (rows.map Member.lexemes) ++ [['}']]) text) :
    Takes (inObject (members member s >>= finish)) ('{' :: text) value := by
  intro rest _
  obtain ⟨first, second, rfl, hfirst, hsecond⟩ := spaced_append_iff.mp htext
  cases hsecond with
  | @cons gap _ _ _ hgap hnil =>
      cases hnil
      have hmembers := run_members h hfirst hgap rest
      have hbody : (members member s >>= finish).run (first ++ (gap ++ '}' :: rest)) =
          .ok (value, '}' :: rest) :=
        (run_bind_of_run hmembers).trans (hfinish _)
      simp only [inObject, List.cons_append, List.append_assoc, List.append_nil, List.nil_append]
      rw [run_bind_of_run (run_skipChar _ _), run_bind_of_run hbody]
      rfl

end Members

end Scan

end SchemaMigration.Json
