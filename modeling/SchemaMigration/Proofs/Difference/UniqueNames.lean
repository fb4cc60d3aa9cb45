import SchemaMigration.Proofs.Difference.Parts
import SchemaMigration.Proofs.Execution.UniqueConstraints

/-!
# When a unique constraint is replaced

A difference takes attributes for the same by their identifiers everywhere but in one place: whether
the unique constraint of a model has changed is decided by the names of its unique attributes. The
two agree as long as no name under the constraint passes from one attribute to another. Then the
constraint is replaced whenever other attributes are unique than before, and apart from that only
when one of them is renamed.

A name that passes on hides such a change. So a unique attribute that is dropped, and its column and
its constraint with it, can be followed by another of the same name for which no constraint is made.
-/

namespace SchemaMigration

open Execution (uniqueIds)

namespace Model

/-- The attributes under the unique constraint. -/
def uniqueAttributes (m : Model) : List Attribute := m.attributes.filter (·.inUnique)

/-- A name under the unique constraint passes from one attribute to another. -/
def PassesUniqueName (previous current : Model) : Prop :=
  ∃ a ∈ previous.uniqueAttributes, ∃ b ∈ current.uniqueAttributes, a.name = b.name ∧ a.id ≠ b.id

/-- An attribute stays under the unique constraint with another name. -/
def RenamesUnique (previous current : Model) : Prop :=
  ∃ a ∈ previous.uniqueAttributes, ∃ b ∈ current.uniqueAttributes, a.id = b.id ∧ a.name ≠ b.name

instance (previous current : Model) : Decidable (previous.PassesUniqueName current) :=
  inferInstanceAs (Decidable (∃ a ∈ previous.uniqueAttributes, ∃ b ∈ current.uniqueAttributes,
    a.name = b.name ∧ a.id ≠ b.id))

theorem map_name_uniqueAttributes (m : Model) :
    m.uniqueAttributes.map (·.name) = m.uniqueNames := rfl

theorem map_id_uniqueAttributes (m : Model) : m.uniqueAttributes.map (·.id) = uniqueIds m := rfl

end Model

/-- Where two lists show the same of their items under one view and not under another, there is an
item in each that look alike under the first view and not under the second. -/
theorem exists_ne_of_mem_map_iff {α β γ : Type} {f : α → β} {g : α → γ} {xs ys : List α}
    (hf : ∀ b, b ∈ xs.map f ↔ b ∈ ys.map f) {c : γ} (hg : ¬ (c ∈ xs.map g ↔ c ∈ ys.map g)) :
    ∃ x ∈ xs, ∃ y ∈ ys, f x = f y ∧ g x ≠ g y := by
  by_cases hc : c ∈ xs.map g
  · have hnot : c ∉ ys.map g := fun hy => hg (iff_of_true hc hy)
    obtain ⟨x, hx, rfl⟩ := List.mem_map.mp hc
    obtain ⟨y, hy, hxy⟩ := List.mem_map.mp ((hf _).mp (List.mem_map_of_mem hx))
    exact ⟨x, hx, y, hy, hxy.symm, fun he => hnot (he ▸ List.mem_map_of_mem hy)⟩
  · have hthere : c ∈ ys.map g := by
      by_contra hy
      exact hg (iff_of_false hc hy)
    obtain ⟨y, hy, rfl⟩ := List.mem_map.mp hthere
    obtain ⟨x, hx, hxy⟩ := List.mem_map.mp ((hf _).mpr (List.mem_map_of_mem hy))
    exact ⟨x, hx, y, hy, hxy, fun he => hc (he ▸ List.mem_map_of_mem hx)⟩

section

variable {p c : Schema} {m n : Model}

/-- The constraint of a model in both schemas is replaced exactly if its unique names differ. -/
theorem Diff.changeUnique_mem_diff_iff (hp : p.DistinctIds) (hm : m ∈ p.models)
    (hn : n ∈ c.models) (hid : m.id = n.id) :
    Operation.changeUnique n ∈ diff p c ↔
      ¬ ∀ name, name ∈ m.uniqueNames ↔ name ∈ n.uniqueNames := by
  have hfound : p.byId? n.id = some m := by
    rw [← hid]
    exact Schema.byId?_self hp.ids hm
  rw [← Model.sameUnique_iff, mem_diff_iff]
  constructor
  · rintro (⟨model, -, hdrop⟩ | ⟨model, -, hstep⟩)
    · cases hdrop
    rcases mem_modelStep_iff.mp hstep with ⟨-, hadd⟩ | ⟨before, hbefore, hchange⟩
    · cases hadd
    rcases mem_modelChanges_iff.mp hchange with
      ⟨-, hrename⟩ | ⟨attr, -, hdrop⟩ | ⟨attr, -, hattr⟩ | ⟨hunique, hsame⟩
    · cases hrename
    · cases hdrop
    · exact absurd rfl (kind_of_mem_attributeStep hattr).2.2
    · obtain rfl := Operation.changeUnique.inj hsame
      rw [hfound] at hbefore
      obtain rfl := Option.some.inj hbefore
      exact hunique
  · intro hunique
    refine .inr ⟨n, hn, mem_modelStep_iff.mpr (.inr ⟨m, hfound, ?_⟩)⟩
    exact mem_modelChanges_iff.mpr (.inr (.inr (.inr ⟨hunique, rfl⟩)))

/-- While no unique name passes to another attribute, the names differ exactly if the identifiers do
or a unique attribute is renamed. -/
theorem Model.uniqueNames_ne_iff (hn : (n.attributes.map (·.id)).Nodup)
    (hpasses : ¬ m.PassesUniqueName n) :
    (¬ ∀ name, name ∈ m.uniqueNames ↔ name ∈ n.uniqueNames) ↔
      (∃ id, ¬ (id ∈ uniqueIds m ↔ id ∈ uniqueIds n)) ∨ m.RenamesUnique n := by
  simp only [← map_name_uniqueAttributes, ← map_id_uniqueAttributes]
  constructor
  · intro hnames
    by_contra hnone
    obtain ⟨hids, hrenames⟩ := not_or.mp hnone
    obtain ⟨name, hname⟩ := not_forall.mp hnames
    have hsame : ∀ id, id ∈ m.uniqueAttributes.map (·.id) ↔ id ∈ n.uniqueAttributes.map (·.id) :=
      fun id => by_contra fun hid => hids ⟨id, hid⟩
    exact hrenames (exists_ne_of_mem_map_iff hsame hname)
  · rintro (⟨id, hid⟩ | ⟨a, ha, b, hb, hab, hrenamed⟩) hnames
    · exact hpasses (exists_ne_of_mem_map_iff hnames hid)
    · -- the old name has to belong to the same attribute, which is called otherwise by now
      obtain ⟨other, hother, hname⟩ := List.mem_map.mp ((hnames a.name).mp (List.mem_map_of_mem ha))
      have hkept : a.id = other.id := by
        by_contra hne
        exact hpasses ⟨a, ha, other, hother, hname.symm, hne⟩
      obtain rfl : b = other := List.inj_on_of_nodup_map hn (List.mem_of_mem_filter hb)
        (List.mem_of_mem_filter hother) (hab.symm.trans hkept)
      exact hrenamed hname.symm

/-- The unique constraint of a model in both schemas is replaced exactly if the names of its unique
attributes differ. As long as no name under the constraint passes from one attribute to another,
this is so whenever the identifiers of the unique attributes differ, and apart from that only when
one of them is renamed. -/
theorem changeUnique_mem_diff (hp : p.DistinctIds) (hc : c.DistinctIds) (hm : m ∈ p.models)
    (hn : n ∈ c.models) (hid : m.id = n.id) :
    (Operation.changeUnique n ∈ diff p c ↔
      ¬ ∀ name, name ∈ m.uniqueNames ↔ name ∈ n.uniqueNames) ∧
    (¬ m.PassesUniqueName n →
      (Operation.changeUnique n ∈ diff p c ↔
        (∃ id, ¬ (id ∈ uniqueIds m ↔ id ∈ uniqueIds n)) ∨ m.RenamesUnique n)) := by
  have hnames := Diff.changeUnique_mem_diff_iff hp hm hn hid
  refine ⟨hnames, fun hpasses => hnames.trans ?_⟩
  exact Model.uniqueNames_ne_iff (hc.attributes n hn) hpasses

end

/-- Desks with a number, which one of two attributes holds under a name. -/
def deskModel (id : ObjectId) (name : String) : Model := ⟨.text "desks", "desks", [
  { id := .text "place", name := "place", type := .text },
  { id := id, name := name, type := .integer, unique := true }]⟩

/-- The desks alone. -/
def deskSchema (id : ObjectId) (name : String) : Schema := ⟨[deskModel id name]⟩

theorem changeUnique_mem_diff_desks :
    (deskSchema (.number 1) "number").DistinctIds ∧ (deskSchema (.number 2) "code").DistinctIds ∧
      ¬ (deskModel (.number 1) "number").PassesUniqueName (deskModel (.number 2) "code") ∧
      Operation.changeUnique (deskModel (.number 2) "code") ∈
        diff (deskSchema (.number 1) "number") (deskSchema (.number 2) "code") := by
  have hp : (deskSchema (.number 1) "number").DistinctIds := by decide
  have hc : (deskSchema (.number 2) "code").DistinctIds := by decide
  have hm : deskModel (.number 1) "number" ∈ (deskSchema (.number 1) "number").models :=
    List.mem_singleton_self _
  have hn : deskModel (.number 2) "code" ∈ (deskSchema (.number 2) "code").models :=
    List.mem_singleton_self _
  have hpasses : ¬ (deskModel (.number 1) "number").PassesUniqueName
      (deskModel (.number 2) "code") := by decide
  have hids : ¬ (ObjectId.number 1 ∈ uniqueIds (deskModel (.number 1) "number") ↔
      ObjectId.number 1 ∈ uniqueIds (deskModel (.number 2) "code")) := by decide
  exact ⟨hp, hc, hpasses,
    ((changeUnique_mem_diff hp hc hm hn rfl).2 hpasses).mpr (.inl ⟨_, hids⟩)⟩

/-- A unique attribute is dropped and another takes its name: the constraint goes with the column
and is not made anew. -/
theorem changeUnique_notMem_diff_of_passed :
    ¬ ∀ p c : Schema, p.DistinctIds → c.DistinctIds →
      ∀ m ∈ p.models, ∀ n ∈ c.models, m.id = n.id →
        (∃ id, ¬ (id ∈ uniqueIds m ↔ id ∈ uniqueIds n)) →
        ∃ changed : Model, changed.id = m.id ∧ Operation.changeUnique changed ∈ diff p c := by
  intro h
  have hids : ¬ (ObjectId.number 1 ∈ uniqueIds (deskModel (.number 1) "number") ↔
      ObjectId.number 1 ∈ uniqueIds (deskModel (.number 2) "number")) := by decide
  obtain ⟨changed, -, hchanged⟩ := h (deskSchema (.number 1) "number")
    (deskSchema (.number 2) "number") (by decide) (by decide) _ (List.mem_singleton_self _) _
    (List.mem_singleton_self _) rfl ⟨_, hids⟩
  have hkinds : ∀ op ∈ diff (deskSchema (.number 1) "number") (deskSchema (.number 2) "number"),
      op.kind ≠ .changeUnique := by decide +kernel
  exact hkinds _ hchanged rfl

end SchemaMigration
