import SchemaMigration.Proofs.Json.Skipping
import SchemaMigration.Proofs.Json.Yields

/-!
# Records are read

A record is written as an object. It is read when each member is read by the field of its key, one
after the other from the draft with nothing read, and the end of reading gives the record for the
last draft. Members that are no fields are skipped.
-/

namespace SchemaMigration.Json

namespace Scan

variable {α β : Type}

/-- A value of one token is read by a scan that chooses it. -/
theorem reads_token {wanted : String} {choose : Value → Option α} {v : Value} {chosen : α}
    (h : v.Formed 0) (hreals : ∀ x ∈ v.reals, x.PrintsNearest) (hchoose : choose v = some chosen) :
    Reads (token wanted choose) v.lexemes chosen := by
  apply reads_byShape h hreals
  rw [hchoose]

theorem reads_string {wanted : String} (s : String) :
    Reads (stringToken wanted) (Value.string s).lexemes s :=
  reads_token (.string 0 s) (by simp [Value.reals]) rfl

theorem reads_bool (b : Bool) : Reads boolToken (Value.bool b).lexemes b :=
  reads_token (.bool 0 b) (by simp [Value.reals]) rfl

theorem reads_numberToken {n : Number} (h : ∀ x ∈ n.reals, x.PrintsNearest) :
    Reads numberToken (Value.number n).lexemes n :=
  reads_token (.number 0 n) h rfl

theorem skipsBlanks_optional (reading : Scan α) : SkipsBlanks (optional reading) :=
  skipsBlanks_look.bind _

/-- What may be absent is there when its value is, unless that is null. -/
theorem reads_optional {reading : Scan α} {v : Value} {value : α} (hnull : v ≠ .null)
    (h : Reads reading v.lexemes value) : Reads (optional reading) v.lexemes (some value) := by
  obtain ⟨c, cs, others, hlexemes, hblank, -, hfirst⟩ := exists_cons_lexemes v
  have hother : some c ≠ some 'n' := fun hsame => hnull (hfirst (Option.some.inj hsame))
  rw [hlexemes] at h ⊢
  apply (skipsBlanks_optional reading).reads
  intro text htext rest hrest
  have hread := run_map_of_run (f := some)
    (h (c :: cs ++ text) (Spaced.cons blanks_nil htext) rest hrest)
  rw [List.cons_append, List.cons_append] at hread ⊢
  rw [optional, run_bind_of_run (run_look hblank _), if_neg hother]
  exact hread

theorem reads_optional_null (reading : Scan α) :
    Reads (optional reading) Value.null.lexemes none :=
  (skipsBlanks_optional reading).reads_lexeme fun _ _ => rfl

/-- A list is read item by item. -/
theorem reads_listOf {item : Setting → Scan α} {setting inner : Setting}
    {rows : List (List Lexeme)} {values : List α}
    (hinner : { inner with levels := inner.levels + 1 } = setting)
    (h : List.Forall₂ (Reads (item inner)) rows values) (hstarts : ∀ row ∈ rows, Starts row) :
    Reads (listOf item setting) (brackets rows) values := by
  subst hinner
  apply skipsBlanks_byShape.reads
  intro text htext rest hrest
  rw [List.singleton_append, List.cons_append, run_byShape_list]
  exact takes_inList h hstarts htext rest hrest

end Scan

namespace Record

open Scan

variable {α σ : Type} {record : Record σ α} {setting : Setting}

/-- A member is read by the field of its key, if this has not been read yet. -/
theorem reads_readMember {field : RecordField σ} {key : String} {draft next : σ}
    {lexemes : List Lexeme} (hfind : record.fields.find? (·.name = key) = some field)
    (hnew : field.isRead draft = false) (h : Reads (field.read setting draft) lexemes next) :
    Reads (record.readMember setting key draft) ([':'] :: lexemes) next := by
  simp only [readMember, hfind, hnew, Bool.false_eq_true, if_false]
  exact reads_colon h

/-- Printed members are read one by one, each by the field of its key. -/
theorem steps_cons {field : RecordField σ} {key : String} {v : Value}
    {entries : List (String × Value)} {draft next last : σ}
    (hfind : record.fields.find? (·.name = key) = some field) (hnew : field.isRead draft = false)
    (h : Reads (field.read setting draft) v.lexemes next)
    (rest : Steps (record.readMember setting) (printedMembers entries) next last) :
    Steps (record.readMember setting) (printedMembers ((key, v) :: entries)) draft last := by
  rw [printedMembers]
  exact .cons (spells_quote key) (reads_readMember hfind hnew h) rest

theorem reads_readMember_foreign {key : String} (draft : σ) {lexemes : List Lexeme}
    (hfind : record.fields.find? (·.name = key) = none) (h : IsValue lexemes) :
    Reads (record.readMember setting key draft) ([':'] :: lexemes) draft := by
  simp only [readMember, hfind]
  exact reads_colon ((reads_skip h).bind_pure fun _ => draft)

section Objects

variable {members : List Member} {inner : Setting} {draft : σ} {value : α}

theorem takes_readObject (hinner : { inner with levels := inner.levels + 1 } = setting)
    (hsteps : Steps (record.readMember inner) members record.start draft)
    (hfinish : record.finish draft = .ok value) {text : List Char}
    (htext : Spaced ([[',']].intercalate (members.map Member.lexemes) ++ [['}']]) text) :
    Takes (record.readObject setting) ('{' :: text) value := by
  subst hinner
  apply takes_inObject _ hsteps _ htext
  intro rest
  rw [hfinish]
  rfl

/-- A record is read when the members of its object lead to a draft that gives it. -/
theorem reads_read (hinner : { inner with levels := inner.levels + 1 } = setting)
    (hsteps : Steps (record.readMember inner) members record.start draft)
    (hfinish : record.finish draft = .ok value) :
    Reads (record.read setting) (braces members) value := by
  apply skipsBlanks_byShape.reads
  intro text htext
  exact takes_readObject hinner hsteps hfinish htext

/-- A printed record is read back where only objects are read. -/
theorem reads_readOnlyObject {entries : List (String × Value)}
    (hinner : { inner with levels := inner.levels + 1 } = setting)
    (hsteps : Steps (record.readMember inner) (printedMembers entries) record.start draft)
    (hfinish : record.finish draft = .ok value) :
    Reads (record.readOnlyObject setting) (Value.object entries).lexemes value := by
  rw [Value.lexemes]
  apply skipsBlanks_byShape.reads
  intro text htext
  exact takes_readObject hinner hsteps hfinish htext

end Objects

end Record

section Texts

open Scan

variable {α : Type} {reading : Setting → Scan α} {value : α}

/-- What is read of a whole text is what the scan gives. -/
theorem exists_run_of_readText {text : String} (h : readText reading text = .ok value) :
    ∃ rest, (reading .fresh).run text.toList = .ok (value, rest) := by
  obtain ⟨⟨read, rest⟩, hread, hrest⟩ := Outcome.bind_eq_ok.mp h
  simp only at hrest
  split at hrest
  · obtain rfl := Except.ok.inj hrest
    exact ⟨rest, hread⟩
  · cases hrest

theorem readText_of_takes {text : String} (h : Takes (reading .fresh) text.toList value) :
    readText reading text = .ok value := by
  have hread := h [] ends_nil
  rw [List.append_nil] at hread
  rw [readText, hread]
  rfl

/-- Lexemes that a scan reads are read of a whole text. -/
theorem readText_of_reads {lexemes : List Lexeme} (h : Reads (reading .fresh) lexemes value)
    {text : String} (htext : IsText lexemes text.toList) : readText reading text = .ok value := by
  obtain ⟨spaced, gap, heq, hspaced, hgap⟩ := htext
  have hends : Ends gap := by
    have hbehind := Ends.behind hgap ends_nil
    rwa [List.append_nil] at hbehind
  have hblank : gap.all isBlank = true := List.all_eq_true.mpr hgap
  rw [readText, heq, h spaced hspaced gap hends]
  simp only [Outcome.ok_bind, hblank, if_true]

end Texts

end SchemaMigration.Json
