import Mathlib.Data.List.Perm.Basic

/-!
# Lists that correspond

Two lists can be related item by item where they stand, or in whatever order. In the latter case
their items correspond one to one, and each is related to its partner: some rearrangement of the one
list is related to the other item by item.
-/

namespace SchemaMigration

section

variable {α β γ : Type} {r s : α → β → Prop} {xs : List α} {ys : List β}

/-- Lists that are related item by item are related together with the membership of the items. -/
theorem forall₂_mem (h : List.Forall₂ r xs ys) :
    List.Forall₂ (fun x y => (x ∈ xs ∧ y ∈ ys) ∧ r x y) xs ys := by
  induction h with
  | nil => exact .nil
  | cons hr _ ih =>
      refine .cons ⟨⟨List.mem_cons_self, List.mem_cons_self⟩, hr⟩ (ih.imp ?_)
      rintro x y ⟨⟨hx, hy⟩, hxy⟩
      exact ⟨⟨List.mem_cons_of_mem _ hx, List.mem_cons_of_mem _ hy⟩, hxy⟩

/-- Lists are related item by item in two ways exactly when they are in each. -/
theorem forall₂_and_iff :
    List.Forall₂ (fun x y => r x y ∧ s x y) xs ys ↔
      List.Forall₂ r xs ys ∧ List.Forall₂ s xs ys := by
  constructor
  · intro h
    exact ⟨h.imp fun _ _ => And.left, h.imp fun _ _ => And.right⟩
  · rintro ⟨hr, hs⟩
    induction hr with
    | nil => exact .nil
    | cons h _ ih =>
        cases hs with
        | cons h' hrest => exact .cons ⟨h, h'⟩ (ih hrest)

/-- Lists have the same images exactly when their items do, one by one. -/
theorem map_eq_map_iff_forall₂ {f : α → γ} {g : β → γ} :
    xs.map f = ys.map g ↔ List.Forall₂ (fun x y => f x = g y) xs ys := by
  rw [← List.forall₂_eq_eq_eq, List.forall₂_map_left_iff, List.forall₂_map_right_iff]

/-- The items of two lists correspond one to one, each related to its partner, whatever the orders
of the lists. -/
def Paired (r : α → β → Prop) (xs : List α) (ys : List β) : Prop :=
  ∃ zs, xs.Perm zs ∧ List.Forall₂ r zs ys

end

namespace Paired

section

variable {α β : Type} {r : α → β → Prop} {xs us : List α} {ys vs : List β}

theorem of_forall₂ (h : List.Forall₂ r xs ys) : Paired r xs ys := ⟨xs, .refl xs, h⟩

theorem nil : Paired r [] [] := of_forall₂ .nil

theorem singleton {x : α} {y : β} (h : r x y) : Paired r [x] [y] := of_forall₂ (.cons h .nil)

theorem eq_nil_of_left (h : Paired r [] ys) : ys = [] := by
  obtain ⟨zs, hperm, hrel⟩ := h
  rw [← hperm.nil_eq] at hrel
  exact List.forall₂_nil_left_iff.mp hrel

/-- Partners are items of their lists. -/
theorem mem (h : Paired r xs ys) : Paired (fun x y => (x ∈ xs ∧ y ∈ ys) ∧ r x y) xs ys := by
  obtain ⟨zs, hperm, hrel⟩ := h
  refine ⟨zs, hperm, (forall₂_mem hrel).imp ?_⟩
  rintro x y ⟨⟨hx, hy⟩, hxy⟩
  exact ⟨⟨hperm.mem_iff.mpr hx, hy⟩, hxy⟩

theorem perm_left (hperm : xs.Perm us) (h : Paired r us ys) : Paired r xs ys := by
  obtain ⟨zs, hzs, hrel⟩ := h
  exact ⟨zs, hperm.trans hzs, hrel⟩

/-- The order of the second list does not matter either. -/
theorem perm_right (h : Paired r xs ys) (hperm : ys.Perm vs) : Paired r xs vs := by
  obtain ⟨zs, hzs, hrel⟩ := h
  -- rearranging what stands beside the items comes to rearranging the items
  have hcomp : Relation.Comp (List.Forall₂ r) List.Perm zs vs := ⟨ys, hrel, hperm⟩
  rw [List.forall₂_comp_perm_eq_perm_comp_forall₂] at hcomp
  obtain ⟨zs', hzs', hrel'⟩ := hcomp
  exact ⟨zs', hzs.trans hzs', hrel'⟩

theorem append (hfront : Paired r xs ys) (hback : Paired r us vs) :
    Paired r (xs ++ us) (ys ++ vs) := by
  obtain ⟨zs, hzs, hrel⟩ := hfront
  obtain ⟨ws, hws, hrel'⟩ := hback
  exact ⟨zs ++ ws, hzs.append hws, List.rel_append hrel hrel'⟩

/-- Items that are there under equivalent conditions correspond if they are related. -/
theorem ite {p q : Prop} [Decidable p] [Decidable q] (hpq : p ↔ q) {x : α} {y : β} (h : r x y) :
    Paired r (if p then [] else [x]) (if q then [] else [y]) := by
  by_cases hp : p
  · rw [if_pos hp, if_pos (hpq.mp hp)]
    exact nil
  · rw [if_neg hp, if_neg (mt hpq.mpr hp)]
    exact singleton h

end

/-- Lists with the same items correspond, if every item is related to itself. -/
theorem of_perm {α : Type} {r : α → α → Prop} (hr : ∀ x, r x x) {xs ys : List α}
    (h : xs.Perm ys) : Paired r xs ys :=
  ⟨ys, h, List.forall₂_same.mpr fun x _ => hr x⟩

section

variable {α β γ δ : Type} {r : α → β → Prop} {s : γ → δ → Prop} {xs : List α} {ys : List β}

/-- Lists that are put together from parts correspond if the parts of partners do. -/
theorem flatMap (h : Paired r xs ys) {f : α → List γ} {g : β → List δ}
    (hparts : ∀ x y, r x y → Paired s (f x) (g y)) : Paired s (xs.flatMap f) (ys.flatMap g) := by
  obtain ⟨zs, hperm, hrel⟩ := h
  refine perm_left (hperm.flatMap_right f) ?_
  -- now partners stand at the same place
  clear hperm
  induction hrel with
  | nil => exact nil
  | @cons x y _ _ hxy _ ih =>
      rw [List.flatMap_cons, List.flatMap_cons]
      exact (hparts x y hxy).append ih

theorem map (h : Paired r xs ys) {f : α → γ} {g : β → δ} (himage : ∀ x y, r x y → s (f x) (g y)) :
    Paired s (xs.map f) (ys.map g) := by
  rw [List.map_eq_flatMap, List.map_eq_flatMap]
  exact h.flatMap fun x y hxy => singleton (himage x y hxy)

/-- The parts that the same items give correspond if they do item by item. -/
theorem flatMap_same {f : α → List γ} {g : α → List δ} (h : ∀ x ∈ xs, Paired s (f x) (g x)) :
    Paired s (xs.flatMap f) (xs.flatMap g) := by
  have hsame : Paired Eq xs xs := of_perm Eq.refl (.refl xs)
  refine hsame.mem.flatMap ?_
  rintro x _ ⟨⟨hx, -⟩, rfl⟩
  exact h x hx

theorem map_same {f : α → γ} {g : α → δ} (h : ∀ x ∈ xs, s (f x) (g x)) :
    Paired s (xs.map f) (xs.map g) := by
  rw [List.map_eq_flatMap, List.map_eq_flatMap]
  exact flatMap_same fun x hx => singleton (h x hx)

/-- Partners with the same image give lists with the same images. -/
theorem map_perm (h : Paired r xs ys) {f : α → γ} {g : β → γ} (himage : ∀ x y, r x y → f x = g y) :
    (xs.map f).Perm (ys.map g) := by
  obtain ⟨zs, hperm, hrel⟩ := h
  rw [← map_eq_map_iff_forall₂.mpr (hrel.imp himage)]
  exact hperm.map f

/-- Lists still correspond when partners are kept or left out together. -/
theorem filter (h : Paired r xs ys) {p : α → Bool} {q : β → Bool} (hpq : ∀ x y, r x y → p x = q y) :
    Paired r (xs.filter p) (ys.filter q) := by
  obtain ⟨zs, hperm, hrel⟩ := h
  refine ⟨zs.filter p, hperm.filter p, List.rel_filter ?_ hrel⟩
  intro x y hxy
  have hkept : p x = true ↔ q y = true := by rw [hpq x y hxy]
  exact hkept

theorem exists_right (h : Paired r xs ys) {x : α} (hx : x ∈ xs) : ∃ y ∈ ys, r x y := by
  obtain ⟨zs, hperm, hrel⟩ := h
  have hz := hperm.mem_iff.mp hx
  clear hperm
  induction hrel with
  | nil => cases hz
  | @cons z y _ _ hzy _ ih =>
      rcases List.mem_cons.mp hz with rfl | hz
      · exact ⟨y, List.mem_cons_self, hzy⟩
      · obtain ⟨y, hy, hxy⟩ := ih hz
        exact ⟨y, List.mem_cons_of_mem _ hy, hxy⟩

end

end Paired

end SchemaMigration
