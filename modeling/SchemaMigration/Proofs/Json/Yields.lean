import Mathlib.Data.List.DropRight
import SchemaMigration.Proofs.Json.Values

/-!
# What scans give

A scan yields a property when whatever it reads has the property, on every text. Each way to build a
scan from others has its rule; a loop yields what each of its turns preserves. So a value that has
been read is formed for the levels that were left, and a record has what each of its fields keeps of
its draft.
-/

namespace SchemaMigration.Json

namespace Scan

variable {α β σ : Type} {p : α → Prop} {q : β → Prop}

/-- Whatever the scan reads has the property. -/
structure Yields (scan : Scan α) (p : α → Prop) : Prop where
  of_run : ∀ {text value rest}, scan.run text = .ok (value, rest) → p value

theorem yields_true (scan : Scan α) : Yields scan fun _ => True := ⟨fun _ => trivial⟩

theorem yields_pure {value : α} (h : p value) : Yields (pure value) p := by
  constructor
  intro text other rest hrun
  cases hrun
  exact h

theorem yields_throw (fault : Fault) : Yields (throw fault) p := by
  constructor
  intro text value rest hrun
  cases hrun

theorem Yields.bind {scan : Scan α} {next : α → Scan β} (h : Yields scan p)
    (hnext : ∀ value, p value → Yields (next value) q) : Yields (scan >>= next) q := by
  constructor
  intro text result rest hrun
  rw [StateT.run_bind] at hrun
  obtain ⟨⟨value, middle⟩, hvalue, hresult⟩ := Outcome.bind_eq_ok.mp hrun
  exact (hnext value (h.of_run hvalue)).of_run hresult

/-- Where nothing is asked of the first part, the second has to give the property. -/
theorem yields_bind {scan : Scan α} {next : α → Scan β} (h : ∀ value, Yields (next value) q) :
    Yields (scan >>= next) q :=
  (yields_true scan).bind fun value _ => h value

theorem Yields.map {scan : Scan α} {f : α → β} (h : Yields scan p)
    (hf : ∀ value, p value → q (f value)) : Yields (f <$> scan) q := by
  rw [map_eq_pure_bind]
  apply h.bind
  intro value hvalue
  exact yields_pure (hf value hvalue)

theorem yields_inList {body : Scan α} (h : Yields body p) : Yields (inList body) p := by
  apply yields_bind
  intro _
  apply h.bind
  intro value hvalue
  exact yields_bind fun _ => yields_pure hvalue

theorem yields_inObject {body : Scan α} (h : Yields body p) : Yields (inObject body) p := by
  apply yields_bind
  intro _
  apply h.bind
  intro value hvalue
  exact yields_bind fun _ => yields_pure hvalue

theorem yields_itemsLoop {item : Scan α} (h : Yields item p) (fuel : Nat) (first : Bool) :
    Yields (itemsLoop item fuel first) fun values => ∀ value ∈ values, p value := by
  induction fuel generalizing first with
  | zero => exact yields_throw _
  | succ fuel ih =>
      apply yields_bind
      intro due
      split
      · apply h.bind
        intro value hvalue
        apply (ih false).bind
        intro values hvalues
        exact yields_pure (List.forall_mem_cons.mpr ⟨hvalue, hvalues⟩)
      · exact yields_pure (by simp)

/-- Every item of a list comes from the scan of items. -/
theorem yields_items {item : Scan α} (h : Yields item p) :
    Yields (items item) fun values => ∀ value ∈ values, p value :=
  yields_bind fun text => yields_itemsLoop h (text.length + 1) true

/-- What each member keeps of a state, all of them keep. -/
theorem yields_membersLoop {member : String → σ → Scan σ} {p : σ → Prop}
    (h : ∀ key state, p state → Yields (member key state) p) (fuel : Nat) (first : Bool) {state : σ}
    (hstate : p state) : Yields (membersLoop member fuel first state) p := by
  induction fuel generalizing first state with
  | zero => exact yields_throw _
  | succ fuel ih =>
      apply yields_bind
      intro key
      cases key with
      | none => exact yields_pure hstate
      | some key =>
          apply (h key state hstate).bind
          intro next hnext
          exact ih false hnext

theorem yields_members {member : String → σ → Scan σ} {p : σ → Prop}
    (h : ∀ key state, p state → Yields (member key state) p) {state : σ} (hstate : p state) :
    Yields (members member state) p :=
  yields_bind fun text => yields_membersLoop h (text.length + 1) true hstate

/-- What is read by shape comes from a list, from an object or from a value of one token, which is
null only where the first letter of it is next. -/
theorem of_run_byShape {list object : Scan α} {token : Value → Scan α} {text rest : List Char}
    {value : α} (hlist : Yields list p) (hobject : Yields object p)
    (htoken : ∀ v : Value, v.Formed 0 →
      (v = .null → (text.dropWhile isBlank).head? = some 'n') → Yields (token v) p)
    (h : (byShape list object token).run text = .ok (value, rest)) : p value := by
  have hlook : look.run text = .ok ((text.dropWhile isBlank).head?, text.dropWhile isBlank) := rfl
  rw [byShape, run_bind_of_run hlook] at h
  -- one case for each character that the shape is told by
  split at h
  · exact (yields_throw _).of_run h
  · exact hlist.of_run h
  · exact hobject.of_run h
  · exact (yields_bind fun s => htoken _ (.string 0 s) (by simp)).of_run h
  · next hnext => exact (yields_bind fun _ => htoken _ (.null 0) fun _ => hnext).of_run h
  · exact (yields_bind fun _ => htoken _ (.bool 0 true) (by simp)).of_run h
  · exact (yields_bind fun _ => htoken _ (.bool 0 false) (by simp)).of_run h
  · split at h
    · exact (yields_bind fun n => htoken _ (.number 0 n) (by simp)).of_run h
    · exact (yields_throw _).of_run h

theorem yields_byShape {list object : Scan α} {token : Value → Scan α} (hlist : Yields list p)
    (hobject : Yields object p) (htoken : ∀ v : Value, v.Formed 0 → Yields (token v) p) :
    Yields (byShape list object token) p :=
  ⟨of_run_byShape hlist hobject fun v hv _ => htoken v hv⟩

/-- An object that has been read is in the order of its keys. -/
theorem yields_insert {scan : Scan Value} {p : Value → Prop} (h : Yields scan p) :
    Yields (members (fun key entries => do
      colon
      return Keyed.insert key (← scan) entries) [])
      fun entries => Keyed.Ascending entries ∧ ∀ entry ∈ entries, p entry.2 := by
  apply yields_members
  · rintro key entries ⟨horder, hentries⟩
    apply yields_bind
    intro _
    apply h.bind
    intro v hv
    apply yields_pure
    refine ⟨Keyed.ascending_insert key v horder, fun entry hentry => ?_⟩
    rcases Keyed.mem_of_mem_insert hentry with rfl | hentry
    · exact hv
    · exact hentries entry hentry
  · exact ⟨.nil, by simp⟩

/-- A value that has been read is formed for the levels that were left. -/
theorem yields_value (levels : Nat) : Yields (value levels) (Value.Formed levels) := by
  induction levels with
  | zero => exact yields_byShape (yields_throw _) (yields_throw _) fun v hv => yields_pure hv
  | succ levels ih =>
      apply yields_byShape
      · exact (yields_inList (yields_items ih)).map fun items hitems => .array hitems
      · exact (yields_inObject (yields_insert ih)).map fun members h => .object h.1 h.2
      · intro v hv
        exact yields_pure (hv.of_token _)

/-- Null is read where the first letter of it is next, and nowhere else. -/
theorem ne_null_of_run_value {levels : Nat} {text rest : List Char} {v : Value}
    (hnext : (text.dropWhile isBlank).head? ≠ some 'n')
    (h : (value levels).run text = .ok (v, rest)) : v ≠ .null := by
  have htoken : ∀ v : Value, v.Formed 0 →
      (v = .null → (text.dropWhile isBlank).head? = some 'n') → Yields (pure v) (· ≠ .null) := by
    intro v _ hnull
    exact yields_pure fun h => hnext (hnull h)
  cases levels with
  | zero => exact of_run_byShape (p := (· ≠ .null)) (yields_throw _) (yields_throw _) htoken h
  | succ levels =>
      refine of_run_byShape (p := (· ≠ .null)) ?_ ?_ htoken h
      · exact (yields_true _).map (by simp)
      · exact (yields_true _).map (by simp)

/-- What may be absent is not null when it is there. -/
theorem yields_optional_value (levels : Nat) :
    Yields (optional (value levels)) fun v => ∀ w ∈ v, w ≠ .null ∧ w.Formed levels := by
  constructor
  intro text v rest h
  have hlook : look.run text = .ok ((text.dropWhile isBlank).head?, text.dropWhile isBlank) := rfl
  rw [optional, run_bind_of_run hlook] at h
  split at h
  · have hnone : Yields (word "null".toList >>= fun _ => pure (none : Option Value)) (· = none) :=
      yields_bind fun _ => yields_pure rfl
    simp [hnone.of_run h]
  · next hnext =>
    rw [StateT.run_map] at h
    obtain ⟨⟨w, after⟩, hw, hv⟩ := Outcome.map_eq_ok.mp h
    cases hv
    rintro _ ⟨⟩
    rw [← List.dropWhile_idempotent] at hnext
    exact ⟨ne_null_of_run_value hnext hw, (yields_value levels).of_run hw⟩

/-- What is read a level deeper. -/
theorem yields_deeper {setting : Setting} {body : Setting → Scan α}
    (h : ∀ inner, inner.levels + 1 = setting.levels → Yields (body inner) p) :
    Yields (deeper setting body) p := by
  unfold deeper
  split
  · exact yields_throw _
  · next levels hlevels => exact h _ hlevels.symm

/-- Every item of a list comes from the scan of items, which has one level less. -/
theorem yields_listOf {item : Setting → Scan α} {setting : Setting}
    (h : ∀ inner, inner.levels + 1 = setting.levels → Yields (item inner) p) :
    Yields (listOf item setting) fun values => ∀ value ∈ values, p value := by
  apply yields_byShape
  · apply yields_deeper
    intro inner hinner
    exact yields_inList (yields_items (h inner hinner))
  · exact yields_throw _
  · exact fun _ _ => yields_throw _

end Scan

namespace Record

open Scan

variable {α σ : Type} {p : α → Prop} {record : Record σ α} {setting : Setting}

theorem yields_readItems {keeps : σ → Prop} {fields : List (RecordField σ)}
    (h : ∀ field ∈ fields, ∀ draft, keeps draft → Yields (field.read setting draft) keeps)
    (count : Nat) {draft : σ} (hdraft : keeps draft) :
    Yields (readItems setting fields count draft) fun result => keeps result.1 := by
  induction fields generalizing count draft with
  | nil => exact yields_pure hdraft
  | cons field fields ih =>
      obtain ⟨hfield, hfields⟩ := List.forall_mem_cons.mp h
      apply yields_bind
      intro due
      split
      · apply (hfield draft hdraft).bind
        intro next hnext
        exact ih hfields (count + 1) hnext
      · exact yields_pure hdraft

theorem yields_readMember {keeps : σ → Prop}
    (h : ∀ field ∈ record.fields, ∀ draft, keeps draft → Yields (field.read setting draft) keeps)
    (key : String) {draft : σ} (hdraft : keeps draft) :
    Yields (record.readMember setting key draft) keeps := by
  unfold readMember
  split
  · exact yields_bind fun _ => yields_bind fun _ => yields_pure hdraft
  · next field hfind =>
    split
    · exact yields_throw _
    · exact yields_bind fun _ => h field (List.mem_of_find?_eq_some hfind) draft hdraft

/-- What every field keeps of a draft, in either form of a record, and the end of reading makes into
a property of the record, all records that are read have. -/
theorem yields_read (keeps : σ → Prop)
    (hfields : ∀ field ∈ record.fields, ∀ inner, inner.levels + 1 = setting.levels →
      ∀ draft, keeps draft → Yields (field.read inner draft) keeps)
    (hstart : keeps record.start)
    (hfinish : ∀ draft value, keeps draft → record.finish draft = .ok value → p value) :
    Yields (record.read setting) p := by
  apply yields_byShape
  · apply yields_deeper
    intro inner hinner
    apply yields_inList
    apply (yields_readItems (fun field hfield => hfields field hfield inner hinner) 0 hstart).bind
    rintro ⟨draft, count⟩ hdraft
    simp only
    split
    · exact yields_throw _
    · next value hvalue =>
      exact yields_bind fun _ => yields_pure (hfinish draft value hdraft hvalue)
  · apply yields_deeper
    intro inner hinner
    apply yields_inObject
    have hmember : ∀ key draft, keeps draft → Yields (record.readMember inner key draft) keeps :=
      fun key _ => yields_readMember (fun field hfield => hfields field hfield inner hinner) key
    apply (yields_members hmember hstart).bind
    intro draft hdraft
    split
    · exact yields_throw _
    · next value hvalue => exact yields_pure (hfinish draft value hdraft hvalue)
  · exact fun _ _ => yields_throw _

end Record

end SchemaMigration.Json
