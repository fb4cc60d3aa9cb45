import Mathlib.Data.List.Induction
import Mathlib.Data.List.Pairwise
import SchemaMigration.Keyed

/-!
# Entries ordered by key are determined by their look-ups

Two ascending lists of entries in which every key finds the same are the same list. So the entries
of some keys, inserted one by one with a value that depends on the key alone, do not depend on the
order of the keys nor on how often each comes. And entries that come in ascending order are left in
this order by inserting them one by one.
-/

namespace SchemaMigration.Keyed

variable {α : Type}

@[simp] theorem find?_nil (key : String) : find? key ([] : List (String × α)) = none := rfl

theorem find?_cons (key : String) (entry : String × α) (entries : List (String × α)) :
    find? key (entry :: entries) = if entry.1 = key then some entry.2 else find? key entries := by
  by_cases h : entry.1 = key <;> simp [find?, h]

/-- An entry of an ascending list is what is found at its key. -/
theorem mem_iff_find? {entries : List (String × α)} (h : Ascending entries)
    {entry : String × α} : entry ∈ entries ↔ find? entry.1 entries = some entry.2 := by
  induction entries with
  | nil => simp
  | cons first rest ih =>
      obtain ⟨before, later⟩ := List.pairwise_cons.mp h
      rw [List.mem_cons, find?_cons]
      by_cases same : first.1 = entry.1
      · have absent : entry ∉ rest :=
          fun there => String.lt_irrefl entry.1 (same ▸ before entry there)
        simp only [absent, or_false, if_pos same, Option.some.injEq]
        constructor
        · rintro rfl
          rfl
        · exact fun value => Prod.ext same.symm value.symm
      · have other : entry ≠ first := fun e => same (e ▸ rfl)
        simp only [other, false_or, if_neg same]
        exact ih later

/-- The keys of an ascending list do not repeat. -/
theorem Ascending.nodup {entries : List (String × α)} (h : Ascending entries) : entries.Nodup := by
  apply List.Pairwise.imp _ h
  intro a b less same
  exact String.lt_irrefl b.1 (same ▸ less)

/-- Ascending lists in which every key finds the same are the same. -/
theorem eq_of_find?_eq {a b : List (String × α)} (ha : Ascending a) (hb : Ascending b)
    (h : ∀ key, find? key a = find? key b) : a = b := by
  have perm : a.Perm b := by
    apply (List.perm_ext_iff_of_nodup ha.nodup hb.nodup).mpr
    intro entry
    rw [mem_iff_find? ha, mem_iff_find? hb, h]
  exact perm.eq_of_pairwise (fun _ _ _ _ less more => absurd less (String.lt_asymm more)) ha hb

/-- After an insertion there is what is inserted and what was there. -/
theorem mem_of_mem_insert {key : String} {value : α} {entries : List (String × α)}
    {entry : String × α} (h : entry ∈ insert key value entries) :
    entry = (key, value) ∨ entry ∈ entries := by
  induction entries with
  | nil => exact .inl (List.mem_singleton.mp h)
  | cons first rest ih =>
      unfold insert at h
      split at h
      · exact List.mem_cons.mp h
      · split at h
        · rcases List.mem_cons.mp h with same | there
          · exact .inl same
          · exact .inr (List.mem_cons_of_mem _ there)
        · rcases List.mem_cons.mp h with same | there
          · exact .inr (same ▸ List.mem_cons_self)
          · exact (ih there).imp_right (List.mem_cons_of_mem _)

/-- The entries of some keys, each with the value that a function has there. -/
def ofKeys (value : String → α) (keys : List String) : List (String × α) :=
  keys.foldl (fun entries key => insert key (value key) entries) []

theorem ofKeys_concat (value : String → α) (keys : List String) (key : String) :
    ofKeys value (keys ++ [key]) = insert key (value key) (ofKeys value keys) := by
  simp [ofKeys]

theorem ascending_ofKeys (value : String → α) (keys : List String) :
    Ascending (ofKeys value keys) := by
  induction keys using List.reverseRecOn with
  | nil => exact .nil
  | append_singleton keys key ih =>
      rw [ofKeys_concat]
      exact ascending_insert key _ ih

theorem find?_ofKeys (value : String → α) (keys : List String) (key : String) :
    find? key (ofKeys value keys) = if key ∈ keys then some (value key) else none := by
  induction keys using List.reverseRecOn with
  | nil => simp [ofKeys]
  | append_singleton keys last ih =>
      rw [ofKeys_concat]
      by_cases same : key = last
      · subst same
        simp [find?_insert_self]
      · rw [find?_insert_of_ne _ _ same, ih]
        simp [same]

/-- The entries are those of the keys, with their values. -/
theorem mem_ofKeys {value : String → α} {keys : List String} {entry : String × α} :
    entry ∈ ofKeys value keys ↔ entry.1 ∈ keys ∧ value entry.1 = entry.2 := by
  rw [mem_iff_find? (ascending_ofKeys value keys), find?_ofKeys]
  by_cases h : entry.1 ∈ keys <;> simp [h]

theorem mem_map_ofKeys {value : String → α} {keys : List String} {key : String} :
    key ∈ (ofKeys value keys).map (·.1) ↔ key ∈ keys := by
  rw [List.mem_map]
  constructor
  · rintro ⟨entry, hentry, rfl⟩
    exact (mem_ofKeys.mp hentry).1
  · intro h
    exact ⟨(key, value key), mem_ofKeys.mpr ⟨h, rfl⟩, rfl⟩

/-- Neither the order of the keys nor their repetitions matter. -/
theorem ofKeys_congr (value : String → α) {keys others : List String}
    (h : ∀ key, key ∈ keys ↔ key ∈ others) : ofKeys value keys = ofKeys value others := by
  apply eq_of_find?_eq (ascending_ofKeys value keys) (ascending_ofKeys value others)
  intro key
  simp only [find?_ofKeys, h]

/-- A key beyond all others is inserted at the end. -/
theorem insert_of_last {entries : List (String × α)} {key : String} (value : α)
    (h : ∀ entry ∈ entries, entry.1 < key) :
    insert key value entries = entries ++ [(key, value)] := by
  induction entries with
  | nil => rfl
  | cons first rest ih =>
      obtain ⟨less, later⟩ := List.forall_mem_cons.mp h
      have notBefore : ¬ key < first.1 := String.lt_asymm less
      have notSame : key ≠ first.1 := fun same => String.lt_irrefl key (same ▸ less)
      rw [insert, if_neg notBefore, if_neg notSame, ih later, List.cons_append]

end SchemaMigration.Keyed
