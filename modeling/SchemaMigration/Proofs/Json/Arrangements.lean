import Mathlib.Data.List.Nodup
import SchemaMigration.Proofs.Json.Records

/-!
# Objects whose members are arranged

What a record says does not hang on how its object is arranged: the members may come in any order
and among others whose keys are no fields, and some may be written in more than one way, or left
out. The slots of a record are the keys of its fields, each with the ways in which its value may be
written.

While an object is read, the draft depends on the keys that have been read and not on their order.
-/

namespace SchemaMigration.Json

namespace Scan

/-- The ways in which a value may be written: by some lexemes, or not at all. -/
abbrev Ways := Option (List Lexeme) → Prop

/-- A value is written out. -/
inductive WritesValue (v : Value) : Ways
  | written : WritesValue v (some v.lexemes)

/-- A flag is written out, or left out where it is false. -/
inductive WritesFlag : Bool → Ways
  | written (flag : Bool) : WritesFlag flag (some (Value.bool flag).lexemes)
  | leftOut : WritesFlag false none

/-- What may be absent is written out if it is there; otherwise it is null or left out. -/
inductive WritesOptional : Option Value → Ways
  | written (v : Value) : WritesOptional (some v) (some v.lexemes)
  | null : WritesOptional none (some Value.null.lexemes)
  | leftOut : WritesOptional none none

/-- A list is written item by item, or left out where it is empty. -/
inductive WritesList {α : Type} (writes : α → List Lexeme → Prop) : List α → Ways
  | written {items : List α} {rows : List (List Lexeme)} (h : List.Forall₂ writes items rows) :
      WritesList writes items (some (brackets rows))
  | leftOut : WritesList writes [] none

theorem not_writesValue_none (v : Value) : ¬ WritesValue v none := nofun

theorem WritesFlag.eq_false {flag : Bool} (h : WritesFlag flag none) : flag = false := by
  cases h
  rfl

theorem WritesOptional.eq_none {v? : Option Value} (h : WritesOptional v? none) : v? = none := by
  cases h
  rfl

theorem WritesList.eq_nil {α : Type} {writes : α → List Lexeme → Prop} {items : List α}
    (h : WritesList writes items none) : items = [] := by
  cases h
  rfl

/-- A key and the ways to write the value behind it. -/
abbrev Slot := String × Ways

/-- The members are the slots that are not left out, each written in one of its ways. -/
inductive Written : List Slot → List Member → Prop
  | nil : Written [] []
  | member {key : String} {ways : Ways} {lexemes : List Lexeme} {slots : List Slot}
      {members : List Member} (h : ways (some lexemes)) (rest : Written slots members) :
      Written ((key, ways) :: slots) (.printed key lexemes :: members)
  | leftOut {key : String} {ways : Ways} {slots : List Slot} {members : List Member}
      (h : ways none) (rest : Written slots members) : Written ((key, ways) :: slots) members

/-- A slot that is written in one of its ways. -/
def IsOwn (slots : List Slot) (m : Member) : Prop :=
  ∃ key ways lexemes, m = .printed key lexemes ∧ (key, ways) ∈ slots ∧ ways (some lexemes)

/-- A member with a key, however spelt, that is none of these, and with any value of JSON. -/
structure IsForeign (keys : List String) (m : Member) : Prop where
  key_notMem : m.key ∉ keys
  spelling : Spells m.key m.spelling
  value : IsValue m.value

/-- The members are the written slots and foreign ones, in any order. -/
def Arranged (slots : List Slot) (members : List Member) : Prop :=
  ∃ own foreign, Written slots own ∧ (∀ m ∈ foreign, IsForeign (slots.map Prod.fst) m) ∧
    members.Perm (own ++ foreign)

/-- The lexemes of an object whose members are arranged slots. -/
def WritesObject (slots : List Slot) (lexemes : List Lexeme) : Prop :=
  ∃ members, Arranged slots members ∧ lexemes = braces members

theorem WritesObject.starts {slots : List Slot} {lexemes : List Lexeme}
    (h : WritesObject slots lexemes) : Starts lexemes := by
  obtain ⟨members, -, rfl⟩ := h
  exact ⟨'{', [], _, rfl, rfl, by decide⟩

theorem Written.arranged {slots : List Slot} {members : List Member} (h : Written slots members) :
    Arranged slots members :=
  ⟨members, [], h, by simp, by rw [List.append_nil]⟩

/-- Written members come from slots. -/
theorem Written.isOwn {slots : List Slot} {members : List Member} (h : Written slots members)
    {m : Member} (hm : m ∈ members) : IsOwn slots m := by
  induction h with
  | nil => cases hm
  | @member key ways lexemes _ _ hway _ ih =>
      rcases List.mem_cons.mp hm with rfl | hm
      · exact ⟨key, ways, lexemes, rfl, List.mem_cons_self, hway⟩
      · obtain ⟨key, ways, lexemes, heq, hslot, hway⟩ := ih hm
        exact ⟨key, ways, lexemes, heq, List.mem_cons_of_mem _ hslot, hway⟩
  | leftOut _ _ ih =>
      obtain ⟨key, ways, lexemes, heq, hslot, hway⟩ := ih hm
      exact ⟨key, ways, lexemes, heq, List.mem_cons_of_mem _ hslot, hway⟩

/-- Every slot is the key of a written member, or may be left out. -/
theorem Written.mem_or_leftOut {slots : List Slot} {members : List Member}
    (h : Written slots members) {slot : Slot} (hslot : slot ∈ slots) :
    (∃ m ∈ members, m.key = slot.1) ∨ slot.2 none := by
  induction h with
  | nil => cases hslot
  | member _ _ ih =>
      rcases List.mem_cons.mp hslot with rfl | hslot
      · exact .inl ⟨_, List.mem_cons_self, rfl⟩
      · exact (ih hslot).imp_left fun ⟨m, hm, hkey⟩ => ⟨m, List.mem_cons_of_mem _ hm, hkey⟩
  | leftOut hway _ ih =>
      rcases List.mem_cons.mp hslot with rfl | hslot
      · exact .inr hway
      · exact ih hslot

/-- Written members have the keys of their slots, in order. -/
theorem Written.keys_sublist {slots : List Slot} {members : List Member}
    (h : Written slots members) : (members.map Member.key).Sublist (slots.map Prod.fst) := by
  induction h with
  | nil => exact .refl _
  | member _ _ ih => exact ih.cons_cons _
  | leftOut _ _ ih => exact ih.cons _

/-- Of members that are arranged, only foreign ones share a key. -/
theorem Arranged.pairwise {slots : List Slot} {members : List Member} (h : Arranged slots members)
    (hkeys : (slots.map Prod.fst).Nodup) :
    members.Pairwise fun m n => m.key = n.key → m.key ∉ slots.map Prod.fst := by
  obtain ⟨own, foreign, hown, hforeign, hperm⟩ := h
  rw [hperm.pairwise_iff fun h hsame => hsame ▸ h hsame.symm, List.pairwise_append]
  refine ⟨?_, ?_, ?_⟩
  · have hdistinct := List.pairwise_map.mp (hkeys.sublist hown.keys_sublist)
    exact hdistinct.imp fun hne hsame => absurd hsame hne
  · exact List.pairwise_of_forall_mem_list fun m hm _ _ _ => (hforeign m hm).key_notMem
  · exact fun m _ n hn hsame => hsame ▸ (hforeign n hn).key_notMem

end Scan

namespace Record

open Scan

variable {α σ : Type} {record : Record σ α} {setting : Setting} {draft : List String → σ}

/-- What a draft has of a value behind a key, once the keys have been read. -/
def seen {β : Type} (keys : List String) (key : String) (value : β) : Option β :=
  if key ∈ keys then some value else none

theorem isSome_seen {β : Type} (keys : List String) (key : String) (value : β) :
    (seen keys key value).isSome = decide (key ∈ keys) := by
  by_cases h : key ∈ keys <;> simp [seen, h]

theorem seen_of_mem {β : Type} {keys : List String} {key : String} (h : key ∈ keys) (value : β) :
    seen keys key value = some value := if_pos h

/-- Where a key has not been read, the value is the one that stands for its absence. -/
theorem getD_seen {β : Type} {keys : List String} {key : String} {value absent : β}
    (h : key ∈ keys ∨ value = absent) : (seen keys key value).getD absent = value := by
  by_cases hkey : key ∈ keys
  · rw [seen_of_mem hkey, Option.getD_some]
  · obtain rfl := h.resolve_left hkey
    simp [seen, hkey]

/-- The field of a slot reads the value in all the ways in which it may be written, and adds the key
to those that the draft stands for. -/
structure ReadsSlot (record : Record σ α) (setting : Setting) (draft : List String → σ)
    (slot : Slot) (field : RecordField σ) : Prop where
  find : record.fields.find? (·.name = slot.1) = some field
  isRead : ∀ keys, field.isRead (draft keys) = decide (slot.1 ∈ keys)
  read : ∀ keys lexemes, slot.2 (some lexemes) →
    Reads (field.read setting (draft keys)) lexemes (draft (slot.1 :: keys))

/-- A field that puts the value it reads into the draft reads its slot. -/
theorem exists_readsSlot {β : Type} {key : String} {ways : Ways} {isRead : σ → Bool}
    {reading : Setting → Scan β} {put : σ → β → σ} {value : β}
    (hfind : record.fields.find? (·.name = key) = some ⟨key, isRead, fun setting draft =>
      reading setting >>= fun value => pure (put draft value)⟩)
    (hisRead : ∀ keys, isRead (draft keys) = decide (key ∈ keys))
    (hput : ∀ keys, put (draft keys) value = draft (key :: keys))
    (h : ∀ lexemes, ways (some lexemes) → Reads (reading setting) lexemes value) :
    ∃ field, record.ReadsSlot setting draft (key, ways) field := by
  refine ⟨_, hfind, hisRead, fun keys lexemes hway => ?_⟩
  have hread := (h lexemes hway).bind_pure (put (draft keys))
  rwa [hput] at hread

/-- A list is read wherever it is written, if each item is. -/
theorem reads_writesList {β : Type} {item : Setting → Scan β} {inner outer : Setting}
    {writes : β → List Lexeme → Prop} {items : List β} {lexemes : List Lexeme}
    (houter : { inner with levels := inner.levels + 1 } = outer)
    (hstarts : ∀ value row, writes value row → Starts row)
    (hitems : ∀ value ∈ items, ∀ row, writes value row → Reads (item inner) row value)
    (h : WritesList writes items (some lexemes)) : Reads (listOf item outer) lexemes items := by
  cases h with
  | @written _ rows h =>
      have hrows : List.Forall₂ (fun row value => Starts row ∧ Reads (item inner) row value)
          rows items :=
        ((List.forall₂_and_left _ _).mpr ⟨hitems, h⟩).imp
          (fun value row h => ⟨hstarts value row h.2, h.1 row h.2⟩) |>.flip
      obtain ⟨hstart, hread⟩ := (List.forall₂_and_left _ _).mp hrows
      exact reads_listOf houter hread hstart

/-- A key that is none of the names of fields finds no field. -/
theorem find?_eq_none_of_notMem {key : String} (h : key ∉ record.fields.map (·.name)) :
    record.fields.find? (·.name = key) = none := by
  rw [List.find?_eq_none]
  intro field hfield hname
  apply h
  rw [← of_decide_eq_true hname]
  exact List.mem_map_of_mem hfield

/-- Arranged members are read one by one, and afterwards the draft stands for the keys of all that
are fields. The induction is on the members in the order in which they come. -/
theorem exists_steps_of_members {slots : List Slot} {members : List Member}
    (hslots : ∀ slot ∈ slots, ∃ field, record.ReadsSlot setting draft slot field)
    (hfields : record.fields.map (·.name) = slots.map Prod.fst)
    (hmembers : ∀ m ∈ members, IsOwn slots m ∨ IsForeign (slots.map Prod.fst) m)
    (hdistinct : members.Pairwise fun m n => m.key = n.key → m.key ∉ slots.map Prod.fst)
    (keys : List String) (hnew : ∀ m ∈ members, m.key ∈ slots.map Prod.fst → m.key ∉ keys) :
    ∃ all, Steps (record.readMember setting) members (draft keys) (draft all) ∧ keys ⊆ all ∧
      ∀ m ∈ members, m.key ∈ slots.map Prod.fst → m.key ∈ all := by
  induction members generalizing keys with
  | nil => exact ⟨keys, .nil _, List.Subset.refl _, by simp⟩
  | cons m members ih =>
      obtain ⟨hm, hlater⟩ := List.forall_mem_cons.mp hmembers
      obtain ⟨hdifferent, hpairwise⟩ := List.pairwise_cons.mp hdistinct
      obtain ⟨hunseen, hunseenLater⟩ := List.forall_mem_cons.mp hnew
      rcases hm with ⟨key, ways, lexemes, rfl, hslot, hway⟩ | hforeign
      · have hkey : key ∈ slots.map Prod.fst := List.mem_map_of_mem (f := Prod.fst) hslot
        have hother : ∀ n ∈ members, n.key ∈ slots.map Prod.fst → n.key ∉ key :: keys := by
          intro n hn hnkey hmem
          rcases List.mem_cons.mp hmem with hsame | hmem
          · exact hdifferent n hn hsame.symm hkey
          · exact hunseenLater n hn hnkey hmem
        obtain ⟨field, hfield⟩ := hslots _ hslot
        have hunread : field.isRead (draft keys) = false := by
          rw [hfield.isRead]
          exact decide_eq_false (hunseen hkey)
        obtain ⟨all, hsteps, hsubset, hall⟩ := ih hlater hpairwise (key :: keys) hother
        refine ⟨all, .cons (spells_quote key) ?_ hsteps, ?_, ?_⟩
        · exact reads_readMember hfield.find hunread (hfield.read keys lexemes hway)
        · exact List.Subset.trans (List.subset_cons_self key keys) hsubset
        · exact List.forall_mem_cons.mpr ⟨fun _ => hsubset List.mem_cons_self, hall⟩
      · obtain ⟨all, hsteps, hsubset, hall⟩ := ih hlater hpairwise keys hunseenLater
        have hfind := find?_eq_none_of_notMem (hfields ▸ hforeign.key_notMem)
        refine ⟨all, .cons hforeign.spelling ?_ hsteps, hsubset, ?_⟩
        · exact reads_readMember_foreign (draft keys) hfind hforeign.value
        · exact List.forall_mem_cons.mpr ⟨fun hkey => absurd hkey hforeign.key_notMem, hall⟩

/-- A record is read from every arrangement of its slots. -/
theorem reads_arranged {slots : List Slot} {lexemes : List Lexeme} {outer : Setting} {value : α}
    (houter : { setting with levels := setting.levels + 1 } = outer)
    (hslots : ∀ slot ∈ slots, ∃ field, record.ReadsSlot setting draft slot field)
    (hfields : record.fields.map (·.name) = slots.map Prod.fst)
    (hkeys : (slots.map Prod.fst).Nodup) (hstart : record.start = draft [])
    (hfinish : ∀ keys, (∀ slot ∈ slots, slot.1 ∈ keys ∨ slot.2 none) →
      record.finish (draft keys) = .ok value)
    (h : WritesObject slots lexemes) : Reads (record.read outer) lexemes value := by
  obtain ⟨members, harranged, rfl⟩ := h
  have hdistinct := harranged.pairwise hkeys
  obtain ⟨own, foreign, hown, hforeign, hperm⟩ := harranged
  have hmembers : ∀ m ∈ members, IsOwn slots m ∨ IsForeign (slots.map Prod.fst) m := by
    intro m hm
    exact (List.mem_append.mp (hperm.subset hm)).imp hown.isOwn (hforeign m)
  obtain ⟨all, hsteps, -, hall⟩ :=
    exists_steps_of_members hslots hfields hmembers hdistinct [] (by simp)
  rw [← hstart] at hsteps
  apply reads_read houter hsteps
  apply hfinish
  intro slot hslot
  refine (hown.mem_or_leftOut hslot).imp_left ?_
  rintro ⟨m, hm, hkey⟩
  rw [← hkey]
  apply hall m (hperm.symm.subset (List.mem_append_left _ hm))
  rw [hkey]
  exact List.mem_map_of_mem hslot

end Record

end SchemaMigration.Json
