import SchemaMigration.Proofs.Json.Arrangements
import SchemaMigration.Schema.Document

/-!
# Schema documents read back

A schema that has been read from a document is in a normal form: the type of an attribute is the one
its name stands for, and a default is no null, nests no deeper than the levels that were left for
it, and has its objects in the order of their keys. A schema in normal form is read from all
lexemes that say what it is, whatever the order of members and whatever may be left out, if the
numbers in it are read as the numbers nearest to their literals. Its compact form is one way to
write it.
-/

namespace SchemaMigration

open Json Json.Scan Json.Record

/-- The type is the one its name stands for, and the default is a value that can be read with the
given levels left. -/
structure Attribute.Formed (levels : Nat) (a : Attribute) : Prop where
  type_eq : AttributeType.ofName a.type.name = a.type
  defaultValue : ∀ v ∈ a.defaultValue, v ≠ .null ∧ v.Formed levels

/-- What a draft of an attribute has of the normal form. -/
structure AttributeDraft.Formed (levels : Nat) (d : AttributeDraft) : Prop where
  type_eq : ∀ type ∈ d.type, AttributeType.ofName type.name = type
  defaultValue : ∀ v ∈ d.defaultValue.getD none, v ≠ .null ∧ v.Formed levels

theorem AttributeType.yields_read :
    Yields AttributeType.read fun type => AttributeType.ofName type.name = type := by
  apply (yields_true readName).map
  intro name _
  rw [AttributeType.name_ofName]

/-- An attribute that has been read is in normal form. -/
theorem Attribute.yields_read {setting : Setting} {levels : Nat}
    (h : setting.levels = levels + 1) :
    Yields (Attribute.record.read setting) (Attribute.Formed levels) := by
  apply Record.yields_read (AttributeDraft.Formed levels)
  · intro field hfield inner hinner draft hdraft
    have hlevels : inner.levels = levels := by omega
    simp only [Attribute.record, List.mem_cons, List.not_mem_nil, or_false] at hfield
    rcases hfield with rfl | rfl | rfl | rfl | rfl | rfl | rfl | rfl
    -- all fields but the type and the default leave these two as they are
    all_goals try exact yields_bind fun _ => yields_pure ⟨hdraft.type_eq, hdraft.defaultValue⟩
    · apply AttributeType.yields_read.bind
      intro type htype
      apply yields_pure
      refine ⟨fun other hother => ?_, hdraft.defaultValue⟩
      cases hother
      exact htype
    · apply (yields_optional_value inner.levels).bind
      intro v hv
      rw [hlevels] at hv
      exact yields_pure ⟨hdraft.type_eq, hv⟩
  · exact ⟨by simp [Attribute.record], by simp [Attribute.record]⟩
  · intro draft a hdraft hfinish
    simp only [Attribute.record] at hfinish
    split at hfinish
    · split at hfinish
      · split at hfinish
        · next type htype =>
          cases hfinish
          exact ⟨hdraft.type_eq type htype, hdraft.defaultValue⟩
        · cases hfinish
      · cases hfinish
    · cases hfinish

/-- The attributes of a model that has been read are in normal form. -/
theorem Model.yields_read {setting : Setting} {levels : Nat} (h : setting.levels = levels + 3) :
    Yields (Model.record.read setting) fun m => ∀ a ∈ m.attributes, a.Formed levels := by
  apply Record.yields_read fun draft => ∀ a ∈ draft.attributes.getD [], a.Formed levels
  · intro field hfield inner hinner draft hdraft
    simp only [Model.record, List.mem_cons, List.not_mem_nil, or_false] at hfield
    rcases hfield with rfl | rfl | rfl
    · exact yields_bind fun _ => yields_pure hdraft
    · exact yields_bind fun _ => yields_pure hdraft
    · have hitem : ∀ deep : Setting, deep.levels + 1 = inner.levels →
          Yields (Attribute.record.read deep) (Attribute.Formed levels) := by
        intro deep hdeep
        exact Attribute.yields_read (by omega)
      apply (yields_listOf hitem).bind
      intro attributes hattributes
      exact yields_pure hattributes
  · simp [Model.record]
  · intro draft m hdraft hfinish
    simp only [Model.record] at hfinish
    split at hfinish
    · split at hfinish
      · cases hfinish
        exact hdraft
      · cases hfinish
    · cases hfinish

/-- The attributes of a schema that has been read are in normal form. -/
theorem Schema.yields_read {setting : Setting} {levels : Nat} (h : setting.levels = levels + 5) :
    Yields (Schema.record.read setting) fun s =>
      ∀ m ∈ s.models, ∀ a ∈ m.attributes, a.Formed levels := by
  apply Record.yields_read fun draft =>
    ∀ m ∈ draft.models.getD [], ∀ a ∈ m.attributes, a.Formed levels
  · intro field hfield inner hinner draft hdraft
    simp only [Schema.record, List.mem_singleton] at hfield
    subst hfield
    have hitem : ∀ deep : Setting, deep.levels + 1 = inner.levels →
        Yields (Model.record.read deep) fun m => ∀ a ∈ m.attributes, a.Formed levels := by
      intro deep hdeep
      exact Model.yields_read (by omega)
    apply (yields_listOf hitem).bind
    intro models hmodels
    exact yields_pure hmodels
  · simp [Schema.record]
  · intro draft s hdraft hfinish
    cases hfinish
    exact hdraft

namespace Attribute

/-- The slots of an attribute. -/
def slots (a : Attribute) : List Slot :=
  [("id", WritesValue a.id.toJson), ("name", WritesValue (.string a.name)),
    ("type", WritesValue a.type.toJson), ("isRequired", WritesFlag a.required),
    ("isUnique", WritesFlag a.unique), ("min", WritesOptional (a.min.map .number)),
    ("max", WritesOptional (a.max.map .number)), ("defaultValue", WritesOptional a.defaultValue)]

/-- The lexemes are those of an object that says what the attribute is. -/
def WrittenAs (a : Attribute) (lexemes : List Lexeme) : Prop := WritesObject a.slots lexemes

end Attribute

namespace Model

/-- The slots of a model. -/
def slots (m : Model) : List Slot :=
  [("id", WritesValue m.id.toJson), ("name", WritesValue (.string m.name)),
    ("attributes", WritesList Attribute.WrittenAs m.attributes)]

/-- The lexemes are those of an object that says what the model is. -/
def WrittenAs (m : Model) (lexemes : List Lexeme) : Prop := WritesObject m.slots lexemes

end Model

namespace Schema

/-- The slots of a schema. -/
def slots (s : Schema) : List Slot := [("models", WritesList Model.WrittenAs s.models)]

/-- The lexemes are those of an object that says what the schema is. -/
def WrittenAs (s : Schema) (lexemes : List Lexeme) : Prop := WritesObject s.slots lexemes

end Schema

/-- An identifier is read back. -/
theorem ObjectId.reads_read (setting : Setting) (id : ObjectId) :
    Reads (ObjectId.read setting) id.toJson.lexemes id := by
  have hvalue : Reads (value setting.levels) id.toJson.lexemes id.toJson := by
    cases id with
    | number i => exact reads_value (.number _ _) (by simp [toJson, Value.reals, Number.reals])
    | text s => exact reads_value (.string _ s) (by simp [toJson, Value.reals])
  have hid : ObjectId.ofValue? id.toJson = some id := by
    cases id with
    | number i => simp [toJson, ofValue?, i.toInt_le, Int64.ofInt_toInt]
    | text s => rfl
  intro text htext rest hrest
  rw [ObjectId.read, run_bind_of_run (hvalue text htext rest hrest), hid]
  rfl

theorem reads_readName (name : String) : Reads readName (Value.string name).lexemes name :=
  reads_string name

theorem AttributeType.reads_read {type : AttributeType}
    (h : AttributeType.ofName type.name = type) :
    Reads AttributeType.read type.toJson.lexemes type := by
  have hname := (reads_readName type.name).map AttributeType.ofName
  rwa [h] at hname

theorem reads_writesValue {α : Type} {reading : Scan α} {v : Value} {value : α}
    {lexemes : List Lexeme} (hread : Reads reading v.lexemes value)
    (h : WritesValue v (some lexemes)) : Reads reading lexemes value := by
  cases h with
  | written => exact hread

theorem reads_writesFlag {flag : Bool} {lexemes : List Lexeme}
    (h : WritesFlag flag (some lexemes)) : Reads boolToken lexemes flag := by
  cases h with
  | written _ => exact reads_bool flag

/-- A bound is read wherever it is written, as a number or as null. -/
theorem reads_writesBound {bound : Option Number} {lexemes : List Lexeme}
    (hreals : ∀ n ∈ bound, ∀ x ∈ n.reals, x.PrintsNearest)
    (h : WritesOptional (bound.map .number) (some lexemes)) :
    Reads (optional numberToken) lexemes bound := by
  cases bound with
  | none =>
      cases h with
      | null => exact reads_optional_null _
  | some n =>
      cases h with
      | written _ => exact reads_optional (by simp) (reads_numberToken (hreals n rfl))

/-- A default is read wherever it is written, as a value or as null. -/
theorem reads_writesDefault {levels : Nat} {default? : Option Value} {lexemes : List Lexeme}
    (hformed : ∀ v ∈ default?, v ≠ .null ∧ v.Formed levels)
    (hreals : ∀ v ∈ default?, ∀ x ∈ v.reals, x.PrintsNearest)
    (h : WritesOptional default? (some lexemes)) :
    Reads (optional (value levels)) lexemes default? := by
  cases h with
  | null => exact reads_optional_null _
  | written v =>
      obtain ⟨hnull, hv⟩ := hformed v rfl
      exact reads_optional hnull (reads_value hv (hreals v rfl))

namespace Attribute

/-- The numbers of an attribute are those of its bounds and of its default. -/
theorem mem_reals {a : Attribute} {v : Value} {x : Binary64} (hx : x ∈ v.reals)
    (h : v ∈ a.min.map Value.number ∨ v ∈ a.max.map Value.number ∨ v ∈ a.defaultValue) :
    x ∈ a.toJson.reals := by
  rcases h with h | h | h
  · exact @mem_reals_object _ "min" v (by simp [memberOf, Option.mem_def.mp h]) x hx
  · exact @mem_reals_object _ "max" v (by simp [memberOf, Option.mem_def.mp h]) x hx
  · exact @mem_reals_object _ "defaultValue" v (by simp [memberOf, Option.mem_def.mp h]) x hx

/-- The draft of an attribute once the members with these keys have been read. -/
def draft (a : Attribute) (keys : List String) : AttributeDraft where
  id := seen keys "id" a.id
  name := seen keys "name" a.name
  type := seen keys "type" a.type
  required := seen keys "isRequired" a.required
  unique := seen keys "isUnique" a.unique
  min := seen keys "min" a.min
  max := seen keys "max" a.max
  defaultValue := seen keys "defaultValue" a.defaultValue

/-- Every field of an attribute reads its slot. -/
theorem readsSlot {inner : Setting} {a : Attribute} (ha : a.Formed inner.levels)
    (hreals : ∀ x ∈ a.toJson.reals, x.PrintsNearest) :
    ∀ slot ∈ a.slots, ∃ field, record.ReadsSlot inner a.draft slot field := by
  have hmin : ∀ n ∈ a.min, ∀ x ∈ n.reals, x.PrintsNearest := fun n hn x hx =>
    hreals x (mem_reals (v := .number n) hx (.inl (Option.mem_map_of_mem _ hn)))
  have hmax : ∀ n ∈ a.max, ∀ x ∈ n.reals, x.PrintsNearest := fun n hn x hx =>
    hreals x (mem_reals (v := .number n) hx (.inr (.inl (Option.mem_map_of_mem _ hn))))
  have hdefault : ∀ v ∈ a.defaultValue, ∀ x ∈ v.reals, x.PrintsNearest := fun v hv x hx =>
    hreals x (mem_reals hx (.inr (.inr hv)))
  simp only [slots, List.forall_mem_cons]
  refine ⟨?id, ?name, ?type, ?required, ?unique, ?min, ?max, ?default, by simp⟩
  case id =>
    exact exists_readsSlot rfl (fun _ => isSome_seen ..) (by simp [draft, seen])
      fun _ => reads_writesValue (ObjectId.reads_read inner a.id)
  case name =>
    exact exists_readsSlot rfl (fun _ => isSome_seen ..) (by simp [draft, seen])
      fun _ => reads_writesValue (reads_readName a.name)
  case type =>
    exact exists_readsSlot rfl (fun _ => isSome_seen ..) (by simp [draft, seen])
      fun _ => reads_writesValue (AttributeType.reads_read ha.type_eq)
  case required =>
    exact exists_readsSlot rfl (fun _ => isSome_seen ..) (by simp [draft, seen])
      fun _ => reads_writesFlag
  case unique =>
    exact exists_readsSlot rfl (fun _ => isSome_seen ..) (by simp [draft, seen])
      fun _ => reads_writesFlag
  case min =>
    exact exists_readsSlot rfl (fun _ => isSome_seen ..) (by simp [draft, seen])
      fun _ => reads_writesBound hmin
  case max =>
    exact exists_readsSlot rfl (fun _ => isSome_seen ..) (by simp [draft, seen])
      fun _ => reads_writesBound hmax
  case default =>
    exact exists_readsSlot rfl (fun _ => isSome_seen ..) (by simp [draft, seen])
      fun _ => reads_writesDefault ha.defaultValue hdefault

/-- What is left out of an attribute is what stands for its absence. -/
theorem finish_draft {a : Attribute} {keys : List String}
    (h : ∀ slot ∈ a.slots, slot.1 ∈ keys ∨ slot.2 none) : record.finish (a.draft keys) = .ok a := by
  simp only [slots, List.forall_mem_cons] at h
  obtain ⟨hid, hname, htype, hrequired, hunique, hmin, hmax, hdefault, -⟩ := h
  have hbound : ∀ {bound : Option Number}, WritesOptional (bound.map .number) none → bound = none :=
    fun h => Option.map_eq_none_iff.mp h.eq_none
  simp only [record, draft, seen_of_mem (hid.resolve_right (not_writesValue_none _)),
    seen_of_mem (hname.resolve_right (not_writesValue_none _)),
    seen_of_mem (htype.resolve_right (not_writesValue_none _)),
    getD_seen (hrequired.imp_right WritesFlag.eq_false),
    getD_seen (hunique.imp_right WritesFlag.eq_false), getD_seen (hmin.imp_right hbound),
    getD_seen (hmax.imp_right hbound), getD_seen (hdefault.imp_right WritesOptional.eq_none)]
  rfl

theorem reads_of_writtenAs {setting inner : Setting} {a : Attribute} {lexemes : List Lexeme}
    (hinner : { inner with levels := inner.levels + 1 } = setting) (ha : a.Formed inner.levels)
    (hreals : ∀ x ∈ a.toJson.reals, x.PrintsNearest) (h : a.WrittenAs lexemes) :
    Reads (record.read setting) lexemes a :=
  reads_arranged hinner (readsSlot ha hreals) rfl (by simp [slots]) rfl
    (fun _ => finish_draft) h

end Attribute

namespace Model

/-- The draft of a model once the members with these keys have been read. -/
def draft (m : Model) (keys : List String) : ModelDraft where
  id := seen keys "id" m.id
  name := seen keys "name" m.name
  attributes := seen keys "attributes" m.attributes

/-- Every field of a model reads its slot. -/
theorem readsSlot {inner : Setting} {m : Model}
    (hm : ∀ a ∈ m.attributes, a.Formed inner.levels)
    (hreals : ∀ x ∈ m.toJson.reals, x.PrintsNearest) :
    ∀ slot ∈ m.slots, ∃ field,
      record.ReadsSlot { inner with levels := inner.levels + 2 } m.draft slot field := by
  have hattribute : ∀ a ∈ m.attributes, ∀ row, a.WrittenAs row →
      Reads (Attribute.record.read { inner with levels := inner.levels + 1 }) row a := by
    intro a ha row hrow
    apply Attribute.reads_of_writtenAs rfl (hm a ha) _ hrow
    intro x hx
    exact hreals x (@mem_reals_object _ "attributes" (.array (m.attributes.map Attribute.toJson))
      (by simp) x (mem_reals_array (List.mem_map_of_mem ha) hx))
  simp only [slots, List.forall_mem_cons]
  refine ⟨?id, ?name, ?attributes, by simp⟩
  case id =>
    exact exists_readsSlot rfl (fun _ => isSome_seen ..) (by simp [draft, seen])
      fun _ => reads_writesValue (ObjectId.reads_read _ m.id)
  case name =>
    exact exists_readsSlot rfl (fun _ => isSome_seen ..) (by simp [draft, seen])
      fun _ => reads_writesValue (reads_readName m.name)
  case attributes =>
    exact exists_readsSlot rfl (fun _ => isSome_seen ..) (by simp [draft, seen])
      fun _ => reads_writesList rfl (fun _ _ h => h.starts) hattribute

theorem finish_draft {m : Model} {keys : List String}
    (h : ∀ slot ∈ m.slots, slot.1 ∈ keys ∨ slot.2 none) : record.finish (m.draft keys) = .ok m := by
  simp only [slots, List.forall_mem_cons] at h
  obtain ⟨hid, hname, hattributes, -⟩ := h
  simp only [record, draft, seen_of_mem (hid.resolve_right (not_writesValue_none _)),
    seen_of_mem (hname.resolve_right (not_writesValue_none _)),
    getD_seen (hattributes.imp_right WritesList.eq_nil)]
  rfl

theorem reads_of_writtenAs {setting inner : Setting} {m : Model} {lexemes : List Lexeme}
    (hinner : { inner with levels := inner.levels + 3 } = setting)
    (hm : ∀ a ∈ m.attributes, a.Formed inner.levels)
    (hreals : ∀ x ∈ m.toJson.reals, x.PrintsNearest) (h : m.WrittenAs lexemes) :
    Reads (record.read setting) lexemes m :=
  reads_arranged hinner (readsSlot hm hreals) rfl (by simp [slots]) rfl
    (fun _ => finish_draft) h

end Model

namespace Schema

/-- The draft of a schema once the members with these keys have been read. -/
def draft (s : Schema) (keys : List String) : SchemaDraft where
  models := seen keys "models" s.models

/-- The field of a schema reads its slot. -/
theorem readsSlot {inner : Setting} {s : Schema}
    (hs : ∀ m ∈ s.models, ∀ a ∈ m.attributes, a.Formed inner.levels)
    (hreals : ∀ x ∈ s.toJson.reals, x.PrintsNearest) :
    ∀ slot ∈ s.slots, ∃ field,
      record.ReadsSlot { inner with levels := inner.levels + 4 } s.draft slot field := by
  have hmodel : ∀ m ∈ s.models, ∀ row, m.WrittenAs row →
      Reads (Model.record.read { inner with levels := inner.levels + 3 }) row m := by
    intro m hm row hrow
    apply Model.reads_of_writtenAs rfl (hs m hm) _ hrow
    intro x hx
    exact hreals x (@mem_reals_object _ "models" (.array (s.models.map Model.toJson)) (by simp) x
      (mem_reals_array (List.mem_map_of_mem hm) hx))
  simp only [slots, List.forall_mem_cons]
  refine ⟨?_, by simp⟩
  exact exists_readsSlot rfl (fun _ => isSome_seen ..) (by simp [draft, seen])
    fun _ => reads_writesList rfl (fun _ _ h => h.starts) hmodel

theorem finish_draft {s : Schema} {keys : List String}
    (h : ∀ slot ∈ s.slots, slot.1 ∈ keys ∨ slot.2 none) : record.finish (s.draft keys) = .ok s := by
  simp only [slots, List.forall_mem_cons] at h
  simp only [record, draft, getD_seen (h.1.imp_right WritesList.eq_nil)]
  rfl

theorem reads_of_writtenAs {setting inner : Setting} {s : Schema} {lexemes : List Lexeme}
    (hinner : { inner with levels := inner.levels + 5 } = setting)
    (hs : ∀ m ∈ s.models, ∀ a ∈ m.attributes, a.Formed inner.levels)
    (hreals : ∀ x ∈ s.toJson.reals, x.PrintsNearest) (h : s.WrittenAs lexemes) :
    Reads (record.read setting) lexemes s :=
  reads_arranged hinner (readsSlot hs hreals) rfl (by simp [slots]) rfl
    (fun _ => finish_draft) h

end Schema

theorem written_memberOf {key : String} {v? : Option Value} {slots : List Slot}
    {members : List Member} (h : Written slots members) :
    Written ((key, WritesOptional v?) :: slots) (printedMembers (memberOf key v?) ++ members) := by
  cases v? with
  | none => exact .leftOut .leftOut h
  | some v => exact .member (.written v) h

/-- The lexemes of a list of which each item is written. -/
theorem writesList_lexemes {α : Type} {writes : α → List Lexeme → Prop} {json : α → Value}
    {items : List α} (h : ∀ item ∈ items, writes item (json item).lexemes) :
    WritesList writes items (some (Value.array (items.map json)).lexemes) := by
  have hrows : List.Forall₂ writes items (items.map fun item => (json item).lexemes) := by
    rw [List.forall₂_map_right_iff, List.forall₂_same]
    exact h
  have hlexemes : (Value.array (items.map json)).lexemes =
      brackets (items.map fun item => (json item).lexemes) := by
    rw [Value.lexemes, itemLexemes_eq, List.map_map]
    rfl
  rw [hlexemes]
  exact .written hrows

/-- An attribute is written as it is printed. -/
theorem Attribute.writtenAs_lexemes (a : Attribute) : a.WrittenAs a.toJson.lexemes := by
  have hoptional : Written [("min", WritesOptional (a.min.map .number)),
      ("max", WritesOptional (a.max.map .number)), ("defaultValue", WritesOptional a.defaultValue)]
      (printedMembers (memberOf "min" (a.min.map .number)) ++
        (printedMembers (memberOf "max" (a.max.map .number)) ++
          (printedMembers (memberOf "defaultValue" a.defaultValue) ++ []))) :=
    written_memberOf (written_memberOf (written_memberOf .nil))
  have hall : Written a.slots _ := .member .written (.member .written (.member .written
    (.member (.written _) (.member (.written _) hoptional))))
  refine ⟨_, hall.arranged, ?_⟩
  simp only [toJson, Value.lexemes, printedMembers_eq, List.map_append, List.append_assoc,
    List.append_nil, List.map_cons, List.cons_append, List.nil_append]

theorem Model.writtenAs_lexemes (m : Model) : m.WrittenAs m.toJson.lexemes :=
  ⟨_, Written.arranged (.member .written (.member .written
    (.member (writesList_lexemes fun a _ => a.writtenAs_lexemes) .nil))), rfl⟩

theorem Schema.writtenAs_lexemes (s : Schema) : s.WrittenAs s.toJson.lexemes :=
  ⟨_, Written.arranged (.member (writesList_lexemes fun m _ => m.writtenAs_lexemes) .nil), rfl⟩

/-- A schema whose attributes are in normal form is read back from its compact form. -/
theorem Schema.takes_read {setting inner : Setting} {s : Schema}
    (hinner : { inner with levels := inner.levels + 5 } = setting)
    (hs : ∀ m ∈ s.models, ∀ a ∈ m.attributes, a.Formed inner.levels)
    (hreals : ∀ x ∈ s.toJson.reals, x.PrintsNearest) :
    Takes (Schema.record.read setting) s.toJson.compact.toList s :=
  (reads_of_writtenAs hinner hs hreals s.writtenAs_lexemes).takes_compact

/-- A schema that has been read from a document is read back from its compact form, which is printed
again the same, if the numbers in it are read as the numbers nearest to their literals. Numbers with
short literals always are. -/
theorem Schema.ofText_compact {document : String} {s : Schema} (h : Schema.ofText document = .ok s)
    (hreals : ∀ x ∈ s.toJson.reals, x.PrintsShort ∨ x.PrintsNearest) :
    ∃ again, Schema.ofText s.toJson.compact = .ok again ∧ again = s ∧
      again.toJson.compact = s.toJson.compact := by
  obtain ⟨⟨read, rest⟩, hread, hrest⟩ := Outcome.bind_eq_ok.mp h
  have hsame : read = s := by
    simp only at hrest
    split at hrest
    · exact Except.ok.inj hrest
    · cases hrest
  subst hsame
  have hformed := (Schema.yields_read rfl).of_run hread
  have hnearest : ∀ x ∈ read.toJson.reals, x.PrintsNearest :=
    fun x hx => (hreals x hx).elim Binary64.PrintsShort.printsNearest id
  have hagain := @Schema.takes_read .fresh ⟨122, false⟩ read rfl hformed hnearest [] ends_nil
  rw [List.append_nil] at hagain
  refine ⟨read, ?_, rfl, rfl⟩
  rw [Schema.ofText, readText, hagain]
  rfl

/-- A document in several of the forms that can be read: records as lists and as objects, members in
another order, an unknown one, a null, a key that comes twice, and a minus zero. -/
def gaugeDocument : String :=
  "[[[\"g\",\"u\",[\x7b\"type\":\"spline\",\"id\":7,\"name\":\"\\u0001\"," ++
    "\"max\":null,\"min\":-0,\"x\":[]," ++
    "\"defaultValue\":\x7b\"b\":2.50,\"a\":1e2,\"b\":[\x7b\x7d]\x7d\x7d]]]]"

/-- The schema of the document. -/
def gaugeSchema : Schema := ⟨[⟨.text "g", "u", [{
  id := .number 7
  name := "\x01"
  type := .other "spline"
  min := some (.real (.zero true))
  defaultValue := some (.object [
    ("a", .number (.real ⟨false, 7036874417766400, -46, by decide⟩)),
    ("b", .array [.object []])]) }]⟩]⟩

theorem Schema.ofText_gaugeSchema : Schema.ofText gaugeDocument = .ok gaugeSchema ∧
    (∀ x ∈ gaugeSchema.toJson.reals, x.PrintsNearest) ∧
    ∃ again, Schema.ofText gaugeSchema.toJson.compact = .ok again ∧ again = gaugeSchema ∧
      again.toJson.compact = gaugeSchema.toJson.compact := by
  have hread : Schema.ofText gaugeDocument = .ok gaugeSchema := by decide +kernel
  have hreals : ∀ x ∈ gaugeSchema.toJson.reals, x.PrintsNearest := by decide +kernel
  exact ⟨hread, hreals, Schema.ofText_compact hread fun x hx => .inr (hreals x hx)⟩

/-- A schema with one bound. -/
def boundedSchema (bound : Binary64) : Schema := ⟨[⟨.number 1, "m", [{
  id := .number 1
  name := "a"
  type := .number
  max := some (.real bound) }]⟩]⟩

/-- The condition cannot be left out: five times ten to the thirty-second is read as a neighbour of
the number nearest to it, and that one's shortest digits as the nearest number. -/
theorem Schema.ofText_boundedSchema : ∃ s again,
    Schema.ofText "[[[1,\"m\",[[1,\"a\",\"number\",false,false,null,5e+32]]]]]" = .ok s ∧
      Schema.ofText s.toJson.compact = .ok again ∧ again ≠ s := by
  refine ⟨boundedSchema ⟨false, 6938893903907229, 56, by decide⟩,
    boundedSchema ⟨false, 6938893903907228, 56, by decide⟩, ?_, ?_, ?_⟩
  · decide +kernel
  · decide +kernel
  · decide +kernel

end SchemaMigration
