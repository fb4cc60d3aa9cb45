import SchemaMigration.Proofs.Catalog.Named
import SchemaMigration.Proofs.Matching

/-!
# Passes over a collection, one item after the other

A pass goes over a list of items. Some of them were in the collection before, under names of their
own; the step of an item puts it under its current name, as what its outcome says. Half way, the
collection holds what is settled under current names and what still waits under previous ones.

A pass from one version of a list to another matches the two by identifiers; what is gone is dropped
before it starts.

A pass over items whose current names are distinct succeeds exactly when every outcome does and no
item takes the name under which a later one still waits; it then holds every item under its current
name, and otherwise it fails because a name is taken.

## Implementation notes

The step is described on a collection whose first entry is that of the item. Entries with distinct
names may be reordered, so a pass brings each item's entry to the front in turn.
-/

namespace SchemaMigration.Catalog

open Outcome Named Matching

/-- What a pass does for each item: its current name, the entry it had before, what becomes of it,
and the step that is carried out. -/
structure Pass (ι α : Type) where
  name : ι → String
  before : ι → Option (String × α)
  outcome : ι → Except Obstacle α
  step : ι → Named α → Except Obstacle (Named α)

namespace Pass

variable {ι α : Type} (pass : Pass ι α)

/-- The step of an item exchanges its previous entry for one under its current name, unless another
entry has that name. -/
def Settles (item : ι) : Prop :=
  ∀ entries, (names ((pass.before item).toList ++ entries)).Nodup →
    pass.step item (ofEntries ((pass.before item).toList ++ entries)) =
      if pass.name item ∈ names entries then .error (.taken (pass.name item))
      else (fun thing => ofEntries ((pass.name item, thing) :: entries)) <$> pass.outcome item

/-- The steps of the items, in order. -/
def run (items : List ι) (things : Named α) : Except Obstacle (Named α) :=
  items.foldlM (fun things item => pass.step item things) things

/-- The entries of items that are not settled yet. -/
def waiting (items : List ι) : List (String × α) := items.filterMap pass.before

/-- No item takes the name under which a later one still waits. -/
def InOrder (items : List ι) : Prop :=
  items.Pairwise fun item later => ∀ entry ∈ pass.before later, entry.1 ≠ pass.name item

/-- The state half way: all names are distinct, and nothing settled has a name that is to come. -/
structure Ready (done : List (String × α)) (items : List ι) : Prop where
  entries : (names (done ++ pass.waiting items)).Nodup
  current : (items.map pass.name).Nodup
  apart : ∀ item ∈ items, pass.name item ∉ names done

variable {pass}

theorem waiting_cons (item : ι) (rest : List ι) :
    pass.waiting (item :: rest) = (pass.before item).toList ++ pass.waiting rest := by
  simp only [waiting, List.filterMap_cons]
  cases pass.before item <;> rfl

theorem mem_names_waiting {items : List ι} {name : String} :
    name ∈ names (pass.waiting items) ↔
      ∃ item ∈ items, ∃ entry ∈ pass.before item, entry.1 = name := by
  simp only [names, waiting, List.mem_map, List.mem_filterMap, Option.mem_def]
  constructor
  · rintro ⟨entry, ⟨item, hitem, hentry⟩, he⟩
    exact ⟨item, hitem, entry, hentry, he⟩
  · rintro ⟨item, hitem, entry, hentry, he⟩
    exact ⟨entry, ⟨item, hitem, hentry⟩, he⟩

/-- The name of the next item is taken exactly if a later item still waits under it. -/
theorem Ready.taken_iff {done : List (String × α)} {item : ι} {rest : List ι}
    (hr : pass.Ready done (item :: rest)) :
    pass.name item ∈ names (done ++ pass.waiting rest) ↔
      ¬ ∀ later ∈ rest, ∀ entry ∈ pass.before later, entry.1 ≠ pass.name item := by
  rw [names_append, List.mem_append, mem_names_waiting]
  have hdone := hr.apart item List.mem_cons_self
  push Not
  exact or_iff_right hdone

/-- Settling the next item under a free name leads to the next state half way. -/
theorem Ready.next {done : List (String × α)} {item : ι} {rest : List ι}
    (hr : pass.Ready done (item :: rest))
    (hfree : pass.name item ∉ names (done ++ pass.waiting rest)) (thing : α) :
    pass.Ready ((pass.name item, thing) :: done) rest where
  entries := by
    apply nodup_names_cons.mpr
    refine ⟨hfree, hr.entries.sublist ?_⟩
    rw [waiting_cons]
    exact ((List.sublist_append_right _ _).append_left done).map Prod.fst
  current := (List.nodup_cons.mp hr.current).2
  apart := by
    intro later hlater
    have hne : pass.name later ≠ pass.name item := by
      intro he
      exact (List.nodup_cons.mp hr.current).1 (he ▸ List.mem_map_of_mem hlater)
    rw [names_cons, List.mem_cons, not_or]
    exact ⟨hne, hr.apart later (List.mem_cons_of_mem _ hlater)⟩

/-- One step of a pass that is half way. -/
theorem run_cons {done : List (String × α)} {item : ι} {rest : List ι}
    (hs : pass.Settles item) (hr : pass.Ready done (item :: rest)) :
    pass.run (item :: rest) (ofEntries (done ++ pass.waiting (item :: rest))) =
      if pass.name item ∈ names (done ++ pass.waiting rest) then .error (.taken (pass.name item))
      else pass.outcome item >>= fun thing =>
        pass.run rest (ofEntries ((pass.name item, thing) :: done ++ pass.waiting rest)) := by
  have hperm : (done ++ pass.waiting (item :: rest)).Perm
      ((pass.before item).toList ++ (done ++ pass.waiting rest)) := by
    rw [waiting_cons, ← List.append_assoc, ← List.append_assoc]
    exact List.perm_append_comm.append_right _
  have hn : (names ((pass.before item).toList ++ (done ++ pass.waiting rest))).Nodup :=
    (hperm.map Prod.fst).nodup_iff.mp hr.entries
  rw [run, List.foldlM_cons, ofEntries_perm hperm hr.entries, hs _ hn]
  split
  · rfl
  · cases pass.outcome item with
    | error obstacle => rfl
    | ok thing => rfl

/-- A pass in order whose outcomes succeed puts every item under its current name. -/
theorem run_eq_ok {result : ι → α} {items : List ι} {done : List (String × α)}
    (hs : ∀ item ∈ items, pass.Settles item) (hr : pass.Ready done items)
    (ho : pass.InOrder items) (hresult : ∀ item ∈ items, pass.outcome item = .ok (result item)) :
    pass.run items (ofEntries (done ++ pass.waiting items)) =
      .ok (ofEntries ((items.map fun item => (pass.name item, result item)).reverse ++ done)) := by
  induction items generalizing done with
  | nil => simp [run, waiting]
  | cons item rest ih =>
      obtain ⟨hfirst, hrest⟩ := List.pairwise_cons.mp ho
      have hfree : pass.name item ∉ names (done ++ pass.waiting rest) := by
        rw [hr.taken_iff, not_not]
        exact hfirst
      rw [run_cons (hs item List.mem_cons_self) hr, if_neg hfree,
        hresult item List.mem_cons_self, ok_bind]
      have hnext := ih (fun later hl => hs later (List.mem_cons_of_mem _ hl))
        (hr.next hfree (result item)) hrest
        (fun later hl => hresult later (List.mem_cons_of_mem _ hl))
      rw [hnext, List.map_cons, List.reverse_cons, List.append_assoc, List.singleton_append]

/-- A pass from its start to its end. -/
theorem run_waiting_eq_ok {result : ι → α} {items : List ι}
    (hs : ∀ item ∈ items, pass.Settles item) (hr : pass.Ready [] items)
    (ho : pass.InOrder items) (hresult : ∀ item ∈ items, pass.outcome item = .ok (result item)) :
    pass.run items (ofEntries (pass.waiting items)) =
      .ok (ofEntries (items.map fun item => (pass.name item, result item))) := by
  have hrun := run_eq_ok hs hr ho hresult
  rw [List.nil_append, List.append_nil] at hrun
  rw [hrun]
  refine congrArg _ (ofEntries_perm (List.reverse_perm _) ?_)
  have hperm := (List.reverse_perm (items.map fun item => (pass.name item, result item))).map
    Prod.fst
  apply hperm.nodup_iff.mpr
  simpa only [List.map_map, Function.comp_def] using hr.current

/-- A pass that succeeds was in order, and so did every outcome. -/
theorem inOrder_of_run {items : List ι} {done : List (String × α)} {things : Named α}
    (hs : ∀ item ∈ items, pass.Settles item) (hr : pass.Ready done items)
    (h : pass.run items (ofEntries (done ++ pass.waiting items)) = .ok things) :
    pass.InOrder items ∧ ∀ item ∈ items, ∃ thing, pass.outcome item = .ok thing := by
  induction items generalizing done with
  | nil => exact ⟨.nil, fun item hitem => absurd hitem List.not_mem_nil⟩
  | cons item rest ih =>
      rw [run_cons (hs item List.mem_cons_self) hr] at h
      split at h
      · cases h
      · next hfree =>
        obtain ⟨thing, hthing, hrun⟩ := bind_eq_ok.mp h
        obtain ⟨horder, houtcome⟩ := ih (fun later hl => hs later (List.mem_cons_of_mem _ hl))
          (hr.next hfree thing) hrun
        rw [hr.taken_iff, not_not] at hfree
        exact ⟨List.pairwise_cons.mpr ⟨hfree, horder⟩,
          List.forall_mem_cons.mpr ⟨⟨thing, hthing⟩, houtcome⟩⟩

/-- A pass whose outcomes fail for no other reason fails because a name is taken. -/
theorem taken_of_run {items : List ι} {done : List (String × α)} {obstacle : Obstacle}
    (hs : ∀ item ∈ items, pass.Settles item) (hr : pass.Ready done items)
    (houtcome : ∀ item ∈ items, ∀ fault, pass.outcome item = .error fault →
      ∃ name, fault = .taken name)
    (h : pass.run items (ofEntries (done ++ pass.waiting items)) = .error obstacle) :
    ∃ name, obstacle = .taken name := by
  induction items generalizing done with
  | nil => cases h
  | cons item rest ih =>
      rw [run_cons (hs item List.mem_cons_self) hr] at h
      split at h
      · cases h
        exact ⟨_, rfl⟩
      · next hfree =>
        cases hthing : pass.outcome item with
        | error fault =>
            rw [hthing, error_bind] at h
            cases h
            exact houtcome item List.mem_cons_self obstacle hthing
        | ok thing =>
            rw [hthing, ok_bind] at h
            exact ih (fun later hl => hs later (List.mem_cons_of_mem _ hl))
              (hr.next hfree thing)
              (fun later hl => houtcome later (List.mem_cons_of_mem _ hl)) h

/-- The pass finds the previous items by their identifiers, each in the state that is given. -/
def Follows (pass : Pass ι α) (key : ι → ObjectId) (previous : List ι) (state : ι → α) : Prop :=
  ∀ item, pass.before item =
    (byKey? key previous (key item)).map fun old => (pass.name old, state old)

variable {key : ι → ObjectId} {previous current : List ι} {state : ι → α}

theorem Follows.waiting_eq (hf : pass.Follows key previous state) (current : List ι) :
    pass.waiting current =
      (kept key previous current).map fun old => (pass.name old, state old) := by
  rw [waiting, kept, List.map_filterMap]
  exact congrArg (List.filterMap · current) (funext hf)

/-- The entries of the previous items are those that are gone and those that wait. -/
theorem Follows.entries_perm (hf : pass.Follows key previous state)
    (hp : (previous.map key).Nodup) (hc : (current.map key).Nodup) :
    ((gone key previous current).map (fun old => (pass.name old, state old)) ++
      pass.waiting current).Perm (previous.map fun old => (pass.name old, state old)) := by
  rw [hf.waiting_eq, ← List.map_append]
  exact (gone_append_kept_perm hp hc).map _

theorem names_map (name : ι → String) (state : ι → α) (items : List ι) :
    names (items.map fun item => (name item, state item)) = items.map name := by
  simp only [names, List.map_map, Function.comp_def]

/-- Once everything that is gone has been dropped, the pass can start. -/
theorem Follows.drop_gone (hf : pass.Follows key previous state)
    (hp : (previous.map key).Nodup) (hc : (current.map key).Nodup)
    (hnames : (previous.map pass.name).Nodup) :
    ((gone key previous current).map pass.name).foldlM (fun things name => drop name things)
        (ofEntries (previous.map fun old => (pass.name old, state old))) =
      .ok (ofEntries (pass.waiting current)) := by
  have hperm := hf.entries_perm hp hc
  have hn : (names (previous.map fun old => (pass.name old, state old))).Nodup := by
    rw [names_map]
    exact hnames
  have hn' := (hperm.map Prod.fst).nodup_iff.mpr hn
  rw [← ofEntries_perm hperm hn', ← names_map pass.name state]
  exact foldlM_drop_ofEntries hn'

theorem Follows.ready (hf : pass.Follows key previous state)
    (hp : (previous.map key).Nodup) (hc : (current.map key).Nodup)
    (hnames : (previous.map pass.name).Nodup) (hnew : (current.map pass.name).Nodup) :
    pass.Ready [] current where
  entries := by
    have hperm := (hf.entries_perm hp hc).map Prod.fst
    have hn : (names (previous.map fun old => (pass.name old, state old))).Nodup := by
      rw [names_map]
      exact hnames
    have hboth := hperm.nodup_iff.mpr hn
    rw [List.map_append] at hboth
    exact (List.nodup_append'.mp hboth).2.1
  current := hnew
  apart := fun _ _ => List.not_mem_nil

end Pass

end SchemaMigration.Catalog
