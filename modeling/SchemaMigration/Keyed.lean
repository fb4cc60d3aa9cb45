/-!
# Entries ordered by key

A list of entries in ascending order of their keys, without repetition. Text keys compare character
by character, which is also the order of their bytes in UTF-8. Inserting keeps the order, is found
again at its key, and leaves every other key as it was.
-/

namespace SchemaMigration.Keyed

variable {α : Type}

/-- The entries with the value at the key, which replaces what was there. -/
def insert (key : String) (value : α) : List (String × α) → List (String × α)
  | [] => [(key, value)]
  | entry :: rest =>
    if key < entry.1 then (key, value) :: entry :: rest
    else if key = entry.1 then (key, value) :: rest
    else entry :: insert key value rest

/-- The value at a key. -/
def find? (key : String) (entries : List (String × α)) : Option α :=
  (entries.find? (·.1 = key)).map (·.2)

/-- An inserted value is found at its key. -/
theorem find?_insert_self (key : String) (value : α) (entries : List (String × α)) :
    find? key (insert key value entries) = some value := by
  induction entries with
  | nil => simp [insert, find?]
  | cons entry rest ih =>
    by_cases before : key < entry.1
    · simp [insert, find?, before]
    · by_cases same : key = entry.1
      · simp [insert, find?, same]
      · have other : entry.1 ≠ key := fun h => same h.symm
        simpa [insert, find?, before, same, other] using ih

/-- Inserting at one key leaves what is found at another. -/
theorem find?_insert_of_ne {key other : String} (value : α) (entries : List (String × α))
    (h : other ≠ key) : find? other (insert key value entries) = find? other entries := by
  induction entries with
  | nil => simp [insert, find?, Ne.symm h]
  | cons entry rest ih =>
    by_cases before : key < entry.1
    · simp [insert, find?, before, Ne.symm h]
    · by_cases same : key = entry.1
      · have : entry.1 ≠ other := fun e => h (same.trans e).symm
        simp [insert, find?, same, this]
      · rw [insert, if_neg before, if_neg same]
        by_cases here : entry.1 = other
        · simp [find?, here]
        · simpa [find?, here] using ih

/-- The entries are in ascending order of their keys. -/
def Ascending (entries : List (String × α)) : Prop := entries.Pairwise fun a b => a.1 < b.1

/-- The keys after an insertion are those before and the inserted one. -/
theorem mem_insert_key {key : String} {value : α} {entries : List (String × α)}
    {entry : String × α} (h : entry ∈ insert key value entries) :
    entry.1 = key ∨ ∃ old ∈ entries, old.1 = entry.1 := by
  induction entries with
  | nil => simp_all [insert]
  | cons first rest ih =>
    unfold insert at h
    split at h
    · rcases List.mem_cons.mp h with rfl | there
      · exact .inl rfl
      · exact .inr ⟨entry, there, rfl⟩
    · split at h
      · rcases List.mem_cons.mp h with rfl | there
        · exact .inl rfl
        · exact .inr ⟨entry, .tail _ there, rfl⟩
      · rcases List.mem_cons.mp h with rfl | there
        · exact .inr ⟨entry, .head _, rfl⟩
        · rcases ih there with same | ⟨old, member, same⟩
          · exact .inl same
          · exact .inr ⟨old, .tail _ member, same⟩

/-- Inserting keeps the order of the keys. -/
theorem ascending_insert (key : String) (value : α) {entries : List (String × α)}
    (h : Ascending entries) : Ascending (insert key value entries) := by
  induction entries with
  | nil => exact List.pairwise_singleton _ _
  | cons first rest ih =>
    obtain ⟨before, later⟩ := List.pairwise_cons.mp h
    unfold insert
    split
    · next less =>
      refine List.pairwise_cons.mpr ⟨fun entry member => ?_, h⟩
      rcases List.mem_cons.mp member with rfl | there
      · exact less
      · exact String.lt_trans less (before entry there)
    · split
      · next same =>
        exact List.pairwise_cons.mpr ⟨fun entry member => same ▸ before entry member, later⟩
      · next notLess notSame =>
        refine List.pairwise_cons.mpr ⟨fun entry member => ?_, ih later⟩
        rcases mem_insert_key member with same | ⟨old, there, same⟩
        · rw [same]
          have le : first.1 ≤ key := String.not_lt.mp notLess
          exact Std.lt_of_le_of_ne le (Ne.symm notSame)
        · exact same ▸ before old there

end SchemaMigration.Keyed
