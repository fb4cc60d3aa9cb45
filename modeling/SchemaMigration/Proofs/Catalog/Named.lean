import Mathlib.Data.List.Nodup
import Mathlib.Logic.Function.Basic
import SchemaMigration.Keyed
import SchemaMigration.Proofs.Outcome

/-!
# Collections of named things

A database holds tables under names, and a table columns. Creating, dropping, renaming and altering
a named thing fails when nothing has the name it uses or something else has the name it gives.

What a collection holds is shown as a list of entries with distinct names. Their order is of no
account, so that each operation can be described where its entry stands in front.
-/

namespace SchemaMigration.Catalog

open Outcome

/-- Why something cannot be done to a collection of named things. -/
inductive Obstacle where
  | absent (name : String)
  | taken (name : String)
deriving DecidableEq

/-- Things under names, at most one under each. -/
abbrev Named (α : Type) := String → Option α

namespace Named

variable {α : Type}

/-- The thing of a name. -/
def get (name : String) (things : Named α) : Except Obstacle α :=
  match things name with
  | some thing => .ok thing
  | none => .error (.absent name)

/-- A new thing under a name that nothing has. -/
def create (name : String) (thing : α) (things : Named α) : Except Obstacle (Named α) :=
  if (things name).isSome then .error (.taken name)
  else .ok (Function.update things name (some thing))

/-- All things but the one of a name. -/
def drop (name : String) (things : Named α) : Except Obstacle (Named α) := do
  let _ ← get name things
  return Function.update things name none

/-- A thing under another name, which nothing else has. -/
def rename (previous current : String) (things : Named α) : Except Obstacle (Named α) := do
  let thing ← get previous things
  create current thing (Function.update things previous none)

/-- A thing changed under its name. -/
def alter (name : String) (change : α → Except Obstacle α) (things : Named α) :
    Except Obstacle (Named α) := do
  let thing ← get name things
  return Function.update things name (some (← change thing))

/-- The collection, if it has something under each of the names. -/
def withAll : List String → Named α → Except Obstacle (Named α)
  | [], things => .ok things
  | name :: names, things => do
    let _ ← get name things
    withAll names things

/-- The collection that holds the entries of a list. -/
def ofEntries (entries : List (String × α)) : Named α := fun name => Keyed.find? name entries

/-- The names of entries. -/
def names (entries : List (String × α)) : List String := entries.map Prod.fst

@[simp] theorem names_nil : names ([] : List (String × α)) = [] := rfl

@[simp] theorem names_cons (entry : String × α) (entries : List (String × α)) :
    names (entry :: entries) = entry.1 :: names entries := rfl

@[simp] theorem names_append (front back : List (String × α)) :
    names (front ++ back) = names front ++ names back := List.map_append

theorem mem_names {name : String} {thing : α} {entries : List (String × α)}
    (h : (name, thing) ∈ entries) : name ∈ names entries :=
  List.mem_map.mpr ⟨(name, thing), h, rfl⟩

theorem nodup_names_cons {name : String} {thing : α} {entries : List (String × α)} :
    (names ((name, thing) :: entries)).Nodup ↔ name ∉ names entries ∧ (names entries).Nodup :=
  List.nodup_cons

theorem ofEntries_cons_self (name : String) (thing : α) (entries : List (String × α)) :
    ofEntries ((name, thing) :: entries) name = some thing := by
  simp [ofEntries, Keyed.find?]

theorem ofEntries_cons_of_ne {name other : String} (thing : α) (entries : List (String × α))
    (h : other ≠ name) : ofEntries ((name, thing) :: entries) other = ofEntries entries other := by
  simp [ofEntries, Keyed.find?, Ne.symm h]

/-- A name that no entry has has nothing under it. -/
theorem ofEntries_eq_none_iff {name : String} {entries : List (String × α)} :
    ofEntries entries name = none ↔ name ∉ names entries := by
  simp only [ofEntries, Keyed.find?, Option.map_eq_none_iff, List.find?_eq_none,
    decide_eq_true_eq, names, List.mem_map]
  constructor
  · rintro h ⟨entry, hmem, he⟩
    exact h entry hmem he
  · intro h entry hmem he
    exact h ⟨entry, hmem, he⟩

theorem isSome_ofEntries_iff {name : String} {entries : List (String × α)} :
    (ofEntries entries name).isSome = true ↔ name ∈ names entries := by
  rw [← not_iff_not, ← ofEntries_eq_none_iff, Bool.not_eq_true, Option.isSome_eq_false_iff,
    Option.isNone_iff_eq_none]

/-- Under distinct names, a thing is found exactly where an entry has it. -/
theorem ofEntries_eq_some_iff {entries : List (String × α)} (hn : (names entries).Nodup)
    {name : String} {thing : α} :
    ofEntries entries name = some thing ↔ (name, thing) ∈ entries := by
  induction entries with
  | nil => simp [ofEntries, Keyed.find?]
  | cons entry rest ih =>
      obtain ⟨first, value⟩ := entry
      obtain ⟨hfirst, hrest⟩ := nodup_names_cons.mp hn
      by_cases he : name = first
      · subst he
        have hno : (name, thing) ∉ rest := by
          intro hmem
          exact hfirst (mem_names hmem)
        rw [ofEntries_cons_self]
        simp [hno, eq_comm]
      · rw [ofEntries_cons_of_ne value rest he, ih hrest]
        simp [he]

/-- Among entries made from items of distinct names, a thing is found exactly if it is made from an
item of that name. -/
theorem ofEntries_map_eq_some_iff {ι : Type} {name : ι → String} {content : ι → α} {items : List ι}
    (hn : (items.map name).Nodup) {wanted : String} {thing : α} :
    ofEntries (items.map fun item => (name item, content item)) wanted = some thing ↔
      ∃ item ∈ items, name item = wanted ∧ content item = thing := by
  rw [ofEntries_eq_some_iff (by simpa only [names, List.map_map, Function.comp_def] using hn)]
  simp only [List.mem_map, Prod.mk.injEq]

/-- The order of entries with distinct names is of no account. -/
theorem ofEntries_perm {entries others : List (String × α)} (h : entries.Perm others)
    (hn : (names entries).Nodup) : ofEntries entries = ofEntries others := by
  have hn' : (names others).Nodup := (h.map Prod.fst).nodup_iff.mp hn
  funext name
  apply Option.ext
  intro thing
  rw [ofEntries_eq_some_iff hn, ofEntries_eq_some_iff hn', h.mem_iff]

theorem update_ofEntries (name : String) (thing : α) (entries : List (String × α)) :
    Function.update (ofEntries entries) name (some thing) =
      ofEntries ((name, thing) :: entries) := by
  funext other
  by_cases h : other = name
  · subst h
    rw [Function.update_self, ofEntries_cons_self]
  · rw [Function.update_of_ne h, ofEntries_cons_of_ne thing entries h]

theorem update_ofEntries_cons (name : String) (thing other : α) (entries : List (String × α)) :
    Function.update (ofEntries ((name, thing) :: entries)) name (some other) =
      ofEntries ((name, other) :: entries) := by
  rw [← update_ofEntries name thing, Function.update_idem, update_ofEntries]

theorem erase_ofEntries_cons {name : String} {entries : List (String × α)}
    (h : name ∉ names entries) (thing : α) :
    Function.update (ofEntries ((name, thing) :: entries)) name none = ofEntries entries := by
  rw [← update_ofEntries name thing, Function.update_idem, Function.update_eq_self_iff]
  exact (ofEntries_eq_none_iff.mpr h).symm

theorem get_ofEntries_cons (name : String) (thing : α) (entries : List (String × α)) :
    get name (ofEntries ((name, thing) :: entries)) = .ok thing := by
  simp only [get, ofEntries_cons_self]

theorem create_ofEntries (name : String) (thing : α) (entries : List (String × α)) :
    create name thing (ofEntries entries) =
      if name ∈ names entries then .error (.taken name)
      else .ok (ofEntries ((name, thing) :: entries)) := by
  simp only [create, isSome_ofEntries_iff, update_ofEntries]

theorem drop_ofEntries_cons {name : String} {entries : List (String × α)}
    (h : name ∉ names entries) (thing : α) :
    drop name (ofEntries ((name, thing) :: entries)) = .ok (ofEntries entries) := by
  simp only [drop, get_ofEntries_cons, ok_bind, pure_eq_ok, erase_ofEntries_cons h]

theorem rename_ofEntries_cons {previous : String} {entries : List (String × α)}
    (h : previous ∉ names entries) (current : String) (thing : α) :
    rename previous current (ofEntries ((previous, thing) :: entries)) =
      if current ∈ names entries then .error (.taken current)
      else .ok (ofEntries ((current, thing) :: entries)) := by
  simp only [rename, get_ofEntries_cons, ok_bind, erase_ofEntries_cons h, create_ofEntries]

/-- A thing goes under its current name, whether or not that is another one. -/
theorem moved_ofEntries_cons {previous : String} {entries : List (String × α)}
    (h : previous ∉ names entries) (current : String) (thing : α) :
    (if previous = current then .ok (ofEntries ((previous, thing) :: entries))
      else rename previous current (ofEntries ((previous, thing) :: entries))) =
      if current ∈ names entries then .error (.taken current)
      else .ok (ofEntries ((current, thing) :: entries)) := by
  split
  · next he =>
    subst he
    rw [if_neg h]
  · rw [rename_ofEntries_cons h]

theorem alter_ofEntries_cons (name : String) (change : α → Except Obstacle α) (thing : α)
    (entries : List (String × α)) :
    alter name change (ofEntries ((name, thing) :: entries)) =
      (fun changed => ofEntries ((name, changed) :: entries)) <$> change thing := by
  simp only [alter, get_ofEntries_cons, ok_bind]
  cases change thing with
  | error obstacle => rfl
  | ok changed => simp [update_ofEntries_cons]

/-- A thing can be changed exactly if it is there and the change succeeds. -/
theorem alter_eq_ok_iff {name : String} {change : α → Except Obstacle α} {things result : Named α} :
    alter name change things = .ok result ↔
      ∃ thing changed, things name = some thing ∧ change thing = .ok changed ∧
        result = Function.update things name (some changed) := by
  simp only [alter, get, bind_eq_ok]
  cases things name with
  | none => simp
  | some thing => simp [eq_comm]

/-- Two changes of the same thing are one. -/
theorem alter_bind_alter (name : String) (change next : α → Except Obstacle α) (things : Named α) :
    (alter name change things >>= alter name next) =
      alter name (fun thing => change thing >>= next) things := by
  simp only [alter]
  cases get name things with
  | error obstacle => rfl
  | ok thing =>
      simp only [ok_bind]
      cases change thing with
      | error obstacle => rfl
      | ok changed => simp [alter, get, Function.update_idem]

/-- A collection that has all the names passes. -/
theorem withAll_of_isSome {wanted : List String} {things : Named α}
    (h : ∀ name ∈ wanted, (things name).isSome = true) : withAll wanted things = .ok things := by
  induction wanted with
  | nil => rfl
  | cons name rest ih =>
      obtain ⟨thing, ht⟩ := Option.isSome_iff_exists.mp (h name List.mem_cons_self)
      simp only [withAll, get, ht, ok_bind]
      exact ih fun other hmem => h other (List.mem_cons_of_mem _ hmem)

/-- Dropping the entries in front, one by one, leaves the others. -/
theorem foldlM_drop_ofEntries {gone rest : List (String × α)}
    (hn : (names (gone ++ rest)).Nodup) :
    (names gone).foldlM (fun things name => drop name things) (ofEntries (gone ++ rest)) =
      .ok (ofEntries rest) := by
  induction gone with
  | nil => rfl
  | cons entry gone ih =>
      obtain ⟨name, thing⟩ := entry
      rw [List.cons_append] at hn ⊢
      obtain ⟨hfirst, hothers⟩ := nodup_names_cons.mp hn
      rw [names_cons, List.foldlM_cons, drop_ofEntries_cons hfirst thing, ok_bind]
      exact ih hothers

end Named

end SchemaMigration.Catalog
