import Mathlib.Data.List.Chain
import SchemaMigration.Sql.Literal

/-!
# Lexical items of SQL

A scan takes SQL apart character by character into names between double quotes, literals between
single quotes, and the characters outside of both. A quote written twice inside an item stands for
one; where backslashes are special inside literals, the character behind one stands for itself.

## Implementation notes

Whether a quote ends an item shows only in the next character, so the state of a scan remembers an
item that may be complete, and the end of the text completes it. A scan that ends anywhere else
inside quotes has no result.
-/

namespace SchemaMigration.Sql

/-- A name, a literal, or a character outside of both. -/
inductive Item where
  | name (text : String)
  | literal (text : String)
  | plain (c : Char)
deriving DecidableEq

namespace Item

/-- The name that an item is. -/
def name? : Item → Option String
  | name text => some text
  | _ => none

/-- The characters of an item in SQL; `backslashes` says whether they are special in literals. -/
def chars (backslashes : Bool) : Item → List Char
  | name text => (quoteName '"' text).toList
  | literal text => (quoteLiteral backslashes text).toList
  | plain c => [c]

@[simp] theorem chars_name (b : Bool) (text : String) :
    (name text).chars b = (quoteName '"' text).toList := rfl

@[simp] theorem chars_literal (b : Bool) (text : String) :
    (literal text).chars b = (quoteLiteral b text).toList := rfl

@[simp] theorem chars_plain (b : Bool) (c : Char) : (plain c).chars b = [c] := rfl

end Item

/-- The state of a scan, with the characters of the quoted item it is in. -/
inductive Mode where
  | outside
  | name (read : List Char)
  | nameQuote (read : List Char)
  | literal (read : List Char)
  | literalQuote (read : List Char)
  | escape (read : List Char)
deriving DecidableEq

namespace Mode

/-- The state behind a character that no quoted item holds, and the item that it is. -/
def enter (c : Char) : Mode × List Item :=
  if c = '"' then (name [], [])
  else if c = '\'' then (literal [], [])
  else (outside, [.plain c])

/-- The state behind one more character, and the items that are complete with it. -/
def step (backslashes : Bool) : Mode → Char → Mode × List Item
  | outside, c => enter c
  | name read, c => if c = '"' then (nameQuote read, []) else (name (read ++ [c]), [])
  | nameQuote read, c =>
    if c = '"' then (name (read ++ [c]), [])
    else ((enter c).1, .name (String.ofList read) :: (enter c).2)
  | literal read, c =>
    if c = '\'' then (literalQuote read, [])
    else if backslashes ∧ c = '\\' then (escape read, [])
    else (literal (read ++ [c]), [])
  | literalQuote read, c =>
    if c = '\'' then (literal (read ++ [c]), [])
    else ((enter c).1, .literal (String.ofList read) :: (enter c).2)
  | escape read, c => (literal (read ++ [c]), [])

/-- The items that the end of a text completes; none inside of quotes. -/
def finish : Mode → Option (List Item)
  | outside => some []
  | nameQuote read => some [.name (String.ofList read)]
  | literalQuote read => some [.literal (String.ofList read)]
  | _ => none

end Mode

/-- The items from a state on. -/
def scanFrom (backslashes : Bool) (mode : Mode) : List Char → Option (List Item)
  | [] => mode.finish
  | c :: rest =>
    (scanFrom backslashes (mode.step backslashes c).1 rest).map
      ((mode.step backslashes c).2 ++ ·)

/-- The items of a text, unless it ends inside of quotes. -/
def scan (backslashes : Bool) (text : String) : Option (List Item) :=
  scanFrom backslashes .outside text.toList

/-- The text of items one after the other. -/
def write (backslashes : Bool) (items : List Item) : List Char :=
  items.flatMap (Item.chars backslashes)

/-- Text outside of quotes. -/
def plain (s : String) : List Item := s.toList.map .plain

/-- Two characters that begin a comment outside of quotes. -/
def OpensComment (a b : Char) : Prop := (a = '-' ∧ b = '-') ∨ (a = '/' ∧ b = '*')

instance (a b : Char) : Decidable (OpensComment a b) := inferInstanceAs (Decidable (_ ∨ _))

/-- Two items may stand side by side: no two names, no two literals, and no beginning of a
comment. -/
def Item.Beside : Item → Item → Prop
  | name _, name _ | literal _, literal _ => False
  | plain a, plain b => ¬ OpensComment a b
  | _, _ => True

/-- The item is no quote outside of quotes. -/
def Item.Unquoted : Item → Prop
  | plain c => c ≠ '"' ∧ c ≠ '\''
  | _ => True

/-- Items may be written one after the other. -/
structure Tidy (items : List Item) : Prop where
  unquoted : ∀ item ∈ items, item.Unquoted
  beside : items.IsChain Item.Beside

/-- The front of tidy items is tidy. -/
theorem Tidy.left_of_append {left right : List Item} (h : Tidy (left ++ right)) : Tidy left :=
  ⟨fun item hi => h.unquoted item (List.mem_append_left _ hi), h.beside.left_of_append⟩

theorem Tidy.right_of_append {left right : List Item} (h : Tidy (left ++ right)) : Tidy right :=
  ⟨fun item hi => h.unquoted item (List.mem_append_right _ hi), h.beside.right_of_append⟩

/-- A character that neither quotes nor begins or continues a comment. -/
def IsQuiet (c : Char) : Prop := c ∉ ['"', '\'', '-', '/', '*']

instance (c : Char) : Decidable (IsQuiet c) := inferInstanceAs (Decidable (¬ _))

/-- A text is not empty and has quiet characters only. -/
def Quiet (s : String) : Prop := s.toList ≠ [] ∧ ∀ c ∈ s.toList, IsQuiet c

instance (s : String) : Decidable (Quiet s) :=
  have : Decidable (∀ c ∈ s.toList, IsQuiet c) := List.decidableBAll _ _
  inferInstanceAs (Decidable (_ ∧ _))

/-- A quiet character may stand behind every item. -/
theorem beside_of_isQuiet {c : Char} (hc : IsQuiet c) (item : Item) : item.Beside (.plain c) := by
  cases item with
  | name text => trivial
  | literal text => trivial
  | plain a =>
      rintro (⟨rfl, rfl⟩ | ⟨rfl, rfl⟩)
      · exact hc (by decide)
      · exact hc (by decide)

/-- A quiet character may stand in front of every item. -/
theorem isQuiet_beside {c : Char} (hc : IsQuiet c) (item : Item) :
    (Item.plain c).Beside item := by
  cases item with
  | name text => trivial
  | literal text => trivial
  | plain a =>
      rintro (⟨rfl, rfl⟩ | ⟨rfl, rfl⟩)
      · exact hc (by decide)
      · exact hc (by decide)

/-- A quiet character is no quote. -/
theorem unquoted_of_isQuiet {c : Char} (hc : IsQuiet c) : (Item.plain c).Unquoted := by
  constructor
  · rintro rfl
    exact hc (by decide)
  · rintro rfl
    exact hc (by decide)

@[simp] theorem tidy_nil : Tidy [] := ⟨by simp, .nil⟩

@[simp] theorem tidy_name (text : String) : Tidy [.name text] :=
  ⟨by simp [Item.Unquoted], .singleton _⟩

@[simp] theorem tidy_literal (text : String) : Tidy [.literal text] :=
  ⟨by simp [Item.Unquoted], .singleton _⟩

/-- A quiet character may stand between any items that are tidy themselves. -/
theorem tidy_append_cons {left right : List Item} {c : Char} (hc : IsQuiet c) :
    Tidy (left ++ .plain c :: right) ↔ Tidy left ∧ Tidy right := by
  constructor
  · intro h
    have hright : Tidy ([Item.plain c] ++ right) := h.right_of_append
    exact ⟨h.left_of_append, hright.right_of_append⟩
  · rintro ⟨hl, hr⟩
    constructor
    · intro item hi
      rcases List.mem_append.mp hi with hi | hi
      · exact hl.unquoted item hi
      · rcases List.mem_cons.mp hi with rfl | hi
        · exact unquoted_of_isQuiet hc
        · exact hr.unquoted item hi
    · refine hl.beside.append (hr.beside.cons fun item _ => isQuiet_beside hc item) ?_
      intro item _ next hn
      obtain rfl : Item.plain c = next := by simpa using hn
      exact beside_of_isQuiet hc item

/-- Quiet characters may stand in front of tidy items. -/
theorem tidy_quiet_append {cs : List Char} {items : List Item} (hcs : ∀ c ∈ cs, IsQuiet c) :
    Tidy (cs.map .plain ++ items) ↔ Tidy items := by
  induction cs with
  | nil => rfl
  | cons c cs ih =>
      have hfirst : Tidy ([] ++ .plain c :: (cs.map .plain ++ items)) ↔ _ :=
        tidy_append_cons (hcs c (.head _))
      have hrest := ih fun c hc => hcs c (.tail _ hc)
      simpa [hrest] using hfirst

/-- Items may be put together wherever quiet characters stand between them. -/
theorem tidy_append_quiet {left right : List Item} {cs : List Char} (hne : cs ≠ [])
    (hcs : ∀ c ∈ cs, IsQuiet c) :
    Tidy (left ++ (cs.map .plain ++ right)) ↔ Tidy left ∧ Tidy right := by
  obtain ⟨c, rest, rfl⟩ := List.exists_cons_of_ne_nil hne
  have hrest : Tidy (rest.map .plain ++ right) ↔ Tidy right :=
    tidy_quiet_append fun c hc => hcs c (.tail _ hc)
  rw [List.map_cons, List.cons_append, tidy_append_cons (hcs c (.head _)), hrest]

/-- Quiet text may stand in front of tidy items. -/
theorem tidy_plain_append {s : String} {items : List Item} (hs : Quiet s) :
    Tidy (plain s ++ items) ↔ Tidy items :=
  tidy_quiet_append hs.2

/-- Items may be put together wherever quiet text stands between them. -/
theorem tidy_append_plain {left right : List Item} {s : String} (hs : Quiet s) :
    Tidy (left ++ (plain s ++ right)) ↔ Tidy left ∧ Tidy right :=
  tidy_append_quiet hs.1 hs.2

variable (b : Bool)

@[simp] theorem write_nil : write b [] = [] := rfl

@[simp] theorem write_cons (item : Item) (items : List Item) :
    write b (item :: items) = item.chars b ++ write b items := rfl

@[simp] theorem write_append (left right : List Item) :
    write b (left ++ right) = write b left ++ write b right :=
  List.flatMap_append

@[simp] theorem write_plain (s : String) : write b (plain s) = s.toList := by
  simp only [write, plain]
  induction s.toList with
  | nil => rfl
  | cons c cs ih => simp [ih]

/-- A scan inside a name goes through the characters of a name up to its last quote. -/
theorem scanFrom_name (read name rest : List Char) :
    scanFrom b (.name read) (doubled '"' name ++ '"' :: rest) =
      scanFrom b (.nameQuote (read ++ name)) rest := by
  induction name generalizing read with
  | nil => simp [doubled, scanFrom, Mode.step]
  | cons c cs ih =>
      by_cases hc : c = '"'
      · subst hc
        simpa [doubled, scanFrom, Mode.step] using ih (read ++ ['"'])
      · simpa [doubled, scanFrom, Mode.step, hc] using ih (read ++ [c])

/-- A scan inside a literal goes through the characters of a literal up to its last quote. -/
theorem scanFrom_literal (read rest : List Char) (text : String) :
    scanFrom b (.literal read) ((literalBody b text).toList ++ '\'' :: rest) =
      scanFrom b (.literalQuote (read ++ text.toList)) rest := by
  simp only [literalBody]
  simp only [String.toList_ofList]
  induction text.toList generalizing read with
  | nil => simp [doubled, scanFrom, Mode.step]
  | cons c cs ih =>
      cases b with
      | false =>
          by_cases hc : c = '\''
          · subst hc
            simpa [doubled, scanFrom, Mode.step] using ih (read ++ ['\''])
          · simpa [doubled, scanFrom, Mode.step, hc] using ih (read ++ [c])
      | true =>
          by_cases hc : c = '\''
          · subst hc
            simpa [doubled, scanFrom, Mode.step] using ih (read ++ ['\''])
          · by_cases hb : c = '\\'
            · subst hb
              simpa [doubled, scanFrom, Mode.step] using ih (read ++ ['\\'])
            · simpa [doubled, scanFrom, Mode.step, hc, hb] using ih (read ++ [c])

/-- What may be complete in a state is complete before a character that goes on with no item. -/
theorem step_of_finish {mode : Mode} {pending : List Item} {c : Char} {next : Item}
    (hm : mode.finish = some pending) (ht : Tidy (pending ++ [next]))
    (hname : c = '"' → ∃ text, next = .name text)
    (hliteral : c = '\'' → ∃ text, next = .literal text) :
    mode.step b c = ((Mode.enter c).1, pending ++ (Mode.enter c).2) := by
  cases mode with
  | outside =>
      obtain rfl : [] = pending := by simpa [Mode.finish] using hm
      rfl
  | nameQuote read =>
      obtain rfl : [Item.name (String.ofList read)] = pending := by simpa [Mode.finish] using hm
      have hc : c ≠ '"' := by
        intro hc
        obtain ⟨text, rfl⟩ := hname hc
        exact List.isChain_pair.mp ht.beside
      simp [Mode.step, hc]
  | literalQuote read =>
      obtain rfl : [Item.literal (String.ofList read)] = pending := by
        simpa [Mode.finish] using hm
      have hc : c ≠ '\'' := by
        intro hc
        obtain ⟨text, rfl⟩ := hliteral hc
        exact List.isChain_pair.mp ht.beside
      simp [Mode.step, hc]
  | name read => simp [Mode.finish] at hm
  | literal read => simp [Mode.finish] at hm
  | escape read => simp [Mode.finish] at hm

/-- From a state in which an item may be complete, tidy items are scanned from their text. The
induction goes over the items; the state changes with them. -/
theorem scanFrom_write {mode : Mode} {pending items : List Item}
    (hm : mode.finish = some pending) (ht : Tidy (pending ++ items)) :
    scanFrom b mode (write b items) = some (pending ++ items) := by
  induction items generalizing mode pending with
  | nil => simpa [scanFrom] using hm
  | cons item items ih =>
      have hrest : Tidy (item :: items) := ht.right_of_append
      have hnext : Tidy (pending ++ [item]) := by
        rw [List.append_cons] at ht
        exact ht.left_of_append
      cases item with
      | plain c =>
          obtain ⟨hquote, hapostrophe⟩ : c ≠ '"' ∧ c ≠ '\'' :=
            hrest.unquoted (.plain c) (.head _)
          have hstep := step_of_finish b hm hnext
            (fun h => absurd h hquote) (fun h => absurd h hapostrophe)
          have hplain : Tidy ([Item.plain c] ++ items) := hrest
          have hscan : scanFrom b .outside (write b items) = some ([] ++ items) :=
            ih rfl hplain.right_of_append
          simp [scanFrom, hstep, Mode.enter, hquote, hapostrophe, hscan]
      | name text =>
          have hstep := step_of_finish b hm hnext
            (fun _ => ⟨text, rfl⟩) (fun h => absurd h (by decide : '"' ≠ '\''))
          have hfinish : (Mode.nameQuote text.toList).finish = some [.name text] := by
            simp [Mode.finish]
          have hscan := ih hfinish hrest
          have hname := scanFrom_name b [] text.toList (write b items)
          simp only [List.nil_append] at hname
          simp [quoteName, scanFrom, hstep, Mode.enter, hname, hscan]
      | literal text =>
          have hstep := step_of_finish b hm hnext
            (fun h => absurd h (by decide : '\'' ≠ '"')) (fun _ => ⟨text, rfl⟩)
          have hfinish : (Mode.literalQuote text.toList).finish = some [.literal text] := by
            simp [Mode.finish]
          have hscan := ih hfinish hrest
          have hliteral := scanFrom_literal b [] (write b items) text
          simp only [List.nil_append] at hliteral
          simp [quoteLiteral, scanFrom, hstep, Mode.enter, hliteral, hscan]

/-- Tidy items are scanned back from their text. -/
theorem scan_write {items : List Item} (ht : Tidy items) :
    scan b (String.ofList (write b items)) = some items := by
  have h : scanFrom b .outside (write b items) = some ([] ++ items) := scanFrom_write b rfl ht
  simpa [scan] using h

end SchemaMigration.Sql
