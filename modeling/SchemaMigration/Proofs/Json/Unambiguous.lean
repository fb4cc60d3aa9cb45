import SchemaMigration.Proofs.Json.Values

/-!
# Printed values are told apart

Two values that are printed alike are equal, whatever they hold: a printed value shows where it ends
and what it is. This does not depend on how literals are read. A number is printed with digits that
it is the nearest number to, so the literal tells the number even where reading would round it to a
neighbour.
-/

namespace SchemaMigration.Json

open Scan

variable {α : Type}

/-- A text of this value is a text of no other, and shows where it ends. -/
def Told (text : α → List Char) (value : α) : Prop :=
  ∀ other rest after, Ends rest → Ends after → text value ++ rest = text other ++ after →
    value = other ∧ rest = after

/-- The number nearest to what a literal spells. -/
def Scan.Literal.nearest? (l : Literal) : Option Number :=
  match l.integer? with
  | some i => if h : InWord i then some (.integer i h) else none
  | none => l.decimal.binary?.map .real

/-- A number is printed as a literal to which it is nearest. -/
theorem exists_nearest (n : Number) :
    ∃ l : Literal, l.WellSpelt ∧ l.text = n.text.toList ∧ l.nearest? = some n := by
  cases n with
  | integer i hi =>
      obtain ⟨l, hspelt, htext, hinteger⟩ := Literal.spells_integer i
      exact ⟨l, hspelt, htext, by simp [Literal.nearest?, hinteger, hi]⟩
  | real x =>
      obtain ⟨d, htext, hbinary, hzero⟩ := x.exists_decimal
      obtain ⟨l, hspells⟩ := Literal.exists_spells hzero
      refine ⟨l, hspells.wellSpelt, ?_, ?_⟩
      · rw [Number.text, String.toList_ofList, hspells.text_eq, htext]
      · rw [Literal.nearest?, hspells.integer?_eq]
        simp only [hspells.binary?_eq, hbinary, Option.map_some]

theorem told_number (n : Number) : Told (fun n : Number => n.text.toList) n := by
  intro other rest after hrest hafter h
  obtain ⟨l, hspelt, htext, hn⟩ := exists_nearest n
  obtain ⟨m, hspelt', htext', hother⟩ := exists_nearest other
  have htakes : ∀ {l : Literal}, l.WellSpelt → Takes (literal .endInValue) l.text l :=
    Literal.takes_literal
  have hscan := htakes hspelt rest hrest
  have hscan' := htakes hspelt' after hafter
  rw [htext] at hscan
  rw [htext', ← h, hscan] at hscan'
  obtain ⟨rfl, rfl⟩ : l = m ∧ rest = after := by simpa using hscan'
  exact ⟨Option.some.inj (hn.symm.trans hother), rfl⟩

theorem quote_append_inj {s t : String} {rest after : List Char}
    (h : (quote s).toList ++ rest = (quote t).toList ++ after) : s = t ∧ rest = after := by
  have hscan := run_quoted s rest
  rw [h, run_quoted t after] at hscan
  obtain ⟨rfl, rfl⟩ : t = s ∧ after = rest := by simpa using hscan
  exact ⟨rfl, rfl⟩

/-- What stands behind an item: the next comma, or the closing bracket. -/
theorem ends_flatMap (texts : List (List Char)) {close : Char} (h : close ∈ [']', '}'])
    (rest : List Char) : Ends (texts.flatMap (',' :: ·) ++ close :: rest) := by
  have hall : ∀ c ∈ [']', '}'], c ∈ [',', ']', '}', ' ', '\t', '\n', '\r'] := by simp
  cases texts with
  | nil => exact ends_cons.mpr (hall close h)
  | cons text texts => simp

section Items

variable {text : α → List Char} {close : Char} {xs ys : List α} {rest after : List Char}

/-- Items with a comma in front of each are told apart up to the closing bracket. -/
theorem flatMap_append_inj (hclose : close ∈ [']', '}']) (h : ∀ x ∈ xs, Told text x)
    (he : (xs.map text).flatMap (',' :: ·) ++ close :: rest =
      (ys.map text).flatMap (',' :: ·) ++ close :: after) : xs = ys ∧ rest = after := by
  have hcomma : close ≠ ',' := by
    rintro rfl
    simp at hclose
  induction xs generalizing ys with
  | nil =>
      cases ys with
      | nil => exact ⟨rfl, (List.cons.inj he).2⟩
      | cons y ys => exact absurd (List.cons.inj he).1 hcomma
  | cons x xs ih =>
      obtain ⟨hx, hxs⟩ := List.forall_mem_cons.mp h
      cases ys with
      | nil => exact absurd (List.cons.inj he).1.symm hcomma
      | cons y ys =>
          simp only [List.map_cons, List.flatMap_cons, List.cons_append, List.append_assoc,
            List.cons.injEq, true_and] at he
          obtain ⟨rfl, hlater⟩ :=
            hx y _ _ (ends_flatMap _ hclose rest) (ends_flatMap _ hclose after) he
          obtain ⟨rfl, rfl⟩ := ih hxs hlater
          exact ⟨rfl, rfl⟩

/-- Items with commas between them are told apart up to the closing bracket, with which none of
them begins. -/
theorem intercalate_append_inj (hclose : close ∈ [']', '}']) (h : ∀ x ∈ xs, Told text x)
    (hstarts : ∀ x, ∃ c cs, text x = c :: cs ∧ c ≠ close)
    (he : [','].intercalate (xs.map text) ++ close :: rest =
      [','].intercalate (ys.map text) ++ close :: after) : xs = ys ∧ rest = after := by
  cases xs with
  | nil =>
      cases ys with
      | nil => exact ⟨rfl, (List.cons.inj he).2⟩
      | cons y ys =>
          obtain ⟨c, cs, htext, hc⟩ := hstarts y
          rw [List.map_cons, intercalate_cons_eq_flatMap, htext] at he
          exact absurd (List.cons.inj he).1.symm hc
  | cons x xs =>
      obtain ⟨hx, hxs⟩ := List.forall_mem_cons.mp h
      cases ys with
      | nil =>
          obtain ⟨c, cs, htext, hc⟩ := hstarts x
          rw [List.map_cons, intercalate_cons_eq_flatMap, htext] at he
          exact absurd (List.cons.inj he).1 hc
      | cons y ys =>
          rw [List.map_cons, List.map_cons, intercalate_cons_eq_flatMap,
            intercalate_cons_eq_flatMap, List.append_assoc, List.append_assoc] at he
          obtain ⟨rfl, hlater⟩ :=
            hx y _ _ (ends_flatMap _ hclose rest) (ends_flatMap _ hclose after) he
          obtain ⟨rfl, rfl⟩ := flatMap_append_inj hclose hxs hlater
          exact ⟨rfl, rfl⟩

end Items

/-- The character that a value begins with; a zero stands for whatever a number begins with. -/
def Value.lead : Value → Char
  | .null => 'n'
  | .bool b => if b then 't' else 'f'
  | .number _ => '0'
  | .string _ => '"'
  | .array _ => '['
  | .object _ => '{'

theorem exists_lead (v : Value) : ∃ c cs, v.compact.toList = c :: cs ∧
    (if c = '-' || c.isDigit then '0' else c) = v.lead := by
  cases v with
  | null => exact ⟨'n', _, rfl, rfl⟩
  | bool b =>
      cases b with
      | false => exact ⟨'f', _, rfl, rfl⟩
      | true => exact ⟨'t', _, rfl, rfl⟩
  | number n =>
      obtain ⟨c, cs, htext, hc⟩ := exists_cons_of_number n
      exact ⟨c, cs, htext, if_pos hc⟩
  | string s => exact ⟨'"', _, by simp [Value.compact, quote]; rfl, rfl⟩
  | array items => exact ⟨'[', _, toList_compact_array items, rfl⟩
  | object members => exact ⟨'{', _, toList_compact_object members, rfl⟩

/-- Texts that are equal begin with the same character. -/
theorem lead_eq_of_compact {v w : Value} {rest after : List Char}
    (h : v.compact.toList ++ rest = w.compact.toList ++ after) : v.lead = w.lead := by
  obtain ⟨c, cs, htext, hv⟩ := exists_lead v
  obtain ⟨d, ds, htext', hw⟩ := exists_lead w
  rw [htext, htext'] at h
  obtain rfl : c = d := (List.cons.inj h).1
  exact hv.symm.trans hw

theorem told_entry {entry : String × Value}
    (h : Told (fun v : Value => v.compact.toList) entry.2) : Told entryText entry := by
  rintro ⟨key, v⟩ rest after hrest hafter he
  simp only [entryText, List.append_assoc, List.cons_append] at he
  obtain ⟨hkey, htail⟩ := quote_append_inj he
  obtain ⟨hv, hsame⟩ := h v rest after hrest hafter (List.cons.inj htail).2
  exact ⟨Prod.ext hkey hv, hsame⟩

mutual

/-- A printed value is told from every other, and so is where it ends. -/
theorem told_compact : ∀ v : Value, Told (fun v : Value => v.compact.toList) v
  | .null => by
      intro other rest after _ _ h
      have hlead := lead_eq_of_compact h
      cases other with
      | null => exact ⟨rfl, List.append_cancel_left h⟩
      | bool c => cases c <;> simp [Value.lead] at hlead
      | number | string | array | object => simp [Value.lead] at hlead
  | .bool b => by
      intro other rest after _ _ h
      have hlead := lead_eq_of_compact h
      cases other with
      | bool c =>
          obtain rfl : b = c := by cases b <;> cases c <;> simp [Value.lead] at hlead ⊢
          exact ⟨rfl, List.append_cancel_left h⟩
      | null | number | string | array | object => cases b <;> simp [Value.lead] at hlead
  | .number n => by
      intro other rest after hrest hafter h
      have hlead := lead_eq_of_compact h
      cases other with
      | number m =>
          obtain ⟨rfl, hsame⟩ := told_number n m rest after hrest hafter h
          exact ⟨rfl, hsame⟩
      | bool c => cases c <;> simp [Value.lead] at hlead
      | null | string | array | object => simp [Value.lead] at hlead
  | .string s => by
      intro other rest after _ _ h
      have hlead := lead_eq_of_compact h
      cases other with
      | string t =>
          obtain ⟨rfl, hsame⟩ := quote_append_inj h
          exact ⟨rfl, hsame⟩
      | bool c => cases c <;> simp [Value.lead] at hlead
      | null | number | array | object => simp [Value.lead] at hlead
  | .array items => by
      intro other rest after _ _ h
      have hlead := lead_eq_of_compact h
      cases other with
      | array others =>
          simp only [toList_compact_array, List.cons_append, List.append_assoc, List.nil_append,
            List.cons.injEq, true_and] at h
          have hstarts : ∀ v : Value, ∃ c cs, v.compact.toList = c :: cs ∧ c ≠ ']' := by
            intro v
            obtain ⟨c, cs, htext, -, hclose, -⟩ := exists_cons_compact v
            exact ⟨c, cs, htext, hclose⟩
          obtain ⟨rfl, hsame⟩ := intercalate_append_inj (by decide) (told_items items) hstarts h
          exact ⟨rfl, hsame⟩
      | bool c => cases c <;> simp [Value.lead] at hlead
      | null | number | string | object => simp [Value.lead] at hlead
  | .object members => by
      intro other rest after _ _ h
      have hlead := lead_eq_of_compact h
      cases other with
      | object others =>
          simp only [toList_compact_object, List.cons_append, List.append_assoc,
            List.nil_append, List.cons.injEq, true_and] at h
          have hstarts : ∀ entry, ∃ c cs, entryText entry = c :: cs ∧ c ≠ '}' := by
            intro entry
            exact ⟨'"', _, by simp [entryText, quote]; rfl, by decide⟩
          obtain ⟨rfl, hsame⟩ := intercalate_append_inj (by decide) (told_members members) hstarts h
          exact ⟨rfl, hsame⟩
      | bool c => cases c <;> simp [Value.lead] at hlead
      | null | number | string | array => simp [Value.lead] at hlead

theorem told_items : ∀ items : List Value,
    ∀ v ∈ items, Told (fun v : Value => v.compact.toList) v
  | [] => by simp
  | v :: items => List.forall_mem_cons.mpr ⟨told_compact v, told_items items⟩

theorem told_members : ∀ members : List (String × Value), ∀ entry ∈ members, Told entryText entry
  | [] => by simp
  | (_, v) :: members =>
      List.forall_mem_cons.mpr ⟨told_entry (told_compact v), told_members members⟩

end

/-- Values with the same compact form are equal. -/
theorem compact_injective : Function.Injective Value.compact := by
  intro v w h
  have htext : v.compact.toList ++ [] = w.compact.toList ++ [] := by rw [h]
  exact (told_compact v w [] [] ends_nil ends_nil htext).1

end SchemaMigration.Json
