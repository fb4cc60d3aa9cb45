import Mathlib.Data.List.Nodup
import Mathlib.Data.Prod.Basic
import SchemaMigration.Proofs.Pairing
import SchemaMigration.Schema.Basic

/-!
# Matching by identifiers

Two versions of a list are matched by the identifiers of their items. Where identifiers are
distinct, a look-up finds exactly the item that has the identifier, and the previous items are those
that are gone and those that the current items find.

What is found does not depend on the order of a list with distinct identifiers, nor on items that
have other identifiers. The versions of the items that are in both lists are the same whichever list
is gone through, up to their order.
-/

namespace SchemaMigration.Matching

variable {ι : Type} (key : ι → ObjectId)

/-- The first item with an identifier. -/
def byKey? (items : List ι) (id : ObjectId) : Option ι := items.find? fun item => key item = id

/-- The previous items whose identifier no current item has. -/
def gone (previous current : List ι) : List ι :=
  previous.filter fun item => (byKey? key current (key item)).isNone

/-- The previous items that the current ones find, in the order of the current ones. -/
def kept (previous current : List ι) : List ι :=
  current.filterMap fun item => byKey? key previous (key item)

/-- The two versions of each current item that was there before, in the order of these. -/
def versions (previous current : List ι) : List (ι × ι) :=
  current.filterMap fun item =>
    (byKey? key previous (key item)).map fun before => (before, item)

/-- What is done about two lists: for each item that is gone, for each that is new, and for the two
versions of each that is in both. -/
def parts {β : Type} (drop fresh : ι → β) (changes : ι → ι → List β) (previous current : List ι) :
    List β :=
  (gone key previous current).map drop ++ ((gone key current previous).map fresh ++
    (versions key previous current).flatMap fun pair => changes pair.1 pair.2)

/-- Two lists have the same identifiers, and items that share one are related. -/
structure Matched (r : ι → ι → Prop) (previous current : List ι) : Prop where
  ids : ∀ id, id ∈ previous.map key ↔ id ∈ current.map key
  related : ∀ before ∈ previous, ∀ item ∈ current, key before = key item → r before item

/-- The current list still has every previous identifier, and items that share one are related. -/
structure Retained (r : ι → ι → Prop) (previous current : List ι) : Prop where
  ids : ∀ id ∈ previous.map key, id ∈ current.map key
  related : ∀ before ∈ previous, ∀ item ∈ current, key before = key item → r before item

instance (r : ι → ι → Prop) [DecidableRel r] (previous current : List ι) :
    Decidable (Retained key r previous current) :=
  decidable_of_iff ((∀ id ∈ previous.map key, id ∈ current.map key) ∧
      ∀ before ∈ previous, ∀ item ∈ current, key before = key item → r before item)
    ⟨fun h => ⟨h.1, h.2⟩, fun h => ⟨h.ids, h.related⟩⟩

variable {key}

theorem key_of_byKey? {items : List ι} {id : ObjectId} {item : ι}
    (h : byKey? key items id = some item) : key item = id := by
  simpa using List.find?_some h

theorem mem_of_byKey? {items : List ι} {id : ObjectId} {item : ι}
    (h : byKey? key items id = some item) : item ∈ items := List.mem_of_find?_eq_some h

/-- Among distinct identifiers, every item is found under its own. -/
theorem byKey?_self {items : List ι} (hn : (items.map key).Nodup) {item : ι} (h : item ∈ items) :
    byKey? key items (key item) = some item := by
  have hinj : ∀ x ∈ items, ∀ y ∈ items, key x = key y → x = y :=
    fun x hx y hy he => List.inj_on_of_nodup_map hn hx hy he
  cases hfound : byKey? key items (key item) with
  | none =>
      have hno := List.find?_eq_none.mp hfound item h
      simp at hno
  | some found =>
      rw [hinj found (mem_of_byKey? hfound) item h (key_of_byKey? hfound)]

theorem isSome_byKey?_iff {items : List ι} {id : ObjectId} :
    (byKey? key items id).isSome ↔ id ∈ items.map key := by
  simp [byKey?, List.find?_isSome]

theorem byKey?_eq_none_iff {items : List ι} {id : ObjectId} :
    byKey? key items id = none ↔ id ∉ items.map key := by
  rw [← isSome_byKey?_iff, Option.not_isSome_iff_eq_none]

theorem mem_kept {previous current : List ι} {item : ι} :
    item ∈ kept key previous current ↔
      ∃ other ∈ current, byKey? key previous (key other) = some item := List.mem_filterMap

/-- The identifiers that are kept are among the current ones, in their order. -/
theorem map_kept_sublist (previous current : List ι) :
    ((kept key previous current).map key).Sublist (current.map key) := by
  induction current with
  | nil => exact .slnil
  | cons item rest ih =>
      simp only [kept, List.filterMap_cons]
      cases hfound : byKey? key previous (key item) with
      | none => exact ih.cons _
      | some found =>
          simp only [List.map_cons, key_of_byKey? hfound]
          exact ih.cons_cons _

/-- With distinct identifiers, the previous items are those that are gone and those kept. -/
theorem gone_append_kept_perm {previous current : List ι} (hp : (previous.map key).Nodup)
    (hc : (current.map key).Nodup) :
    (gone key previous current ++ kept key previous current).Perm previous := by
  have hpart := List.filter_append_perm
    (fun item => (byKey? key current (key item)).isNone) previous
  refine (List.Perm.append_left _ ?_).trans hpart
  have hnodup : (kept key previous current).Nodup :=
    ((map_kept_sublist previous current).nodup hc).of_map
  apply (List.perm_ext_iff_of_nodup hnodup (hp.of_map.filter _)).mpr
  intro item
  rw [mem_kept, List.mem_filter, Bool.not_eq_true', Option.isNone_eq_false_iff,
    Option.isSome_iff_exists]
  constructor
  · rintro ⟨other, hother, hfound⟩
    refine ⟨mem_of_byKey? hfound, other, ?_⟩
    rw [key_of_byKey? hfound]
    exact byKey?_self hc hother
  · rintro ⟨hitem, other, hfound⟩
    refine ⟨other, mem_of_byKey? hfound, ?_⟩
    rw [key_of_byKey? hfound]
    exact byKey?_self hp hitem

section Matched

variable {r : ι → ι → Prop} {xs ys zs : List ι}

theorem Matched.refl (hn : (xs.map key).Nodup) (hr : ∀ x ∈ xs, r x x) : Matched key r xs xs where
  ids _ := Iff.rfl
  related x hx y hy he := by
    obtain rfl : x = y := List.inj_on_of_nodup_map hn hx hy he
    exact hr x hx

theorem Matched.symm (h : Matched key r xs ys) (hr : ∀ x y, r x y → r y x) :
    Matched key r ys xs where
  ids id := (h.ids id).symm
  related y hy x hx he := hr x y (h.related x hx y hy he.symm)

theorem Matched.trans (hxy : Matched key r xs ys) (hyz : Matched key r ys zs)
    (hr : ∀ x y z, r x y → r y z → r x z) : Matched key r xs zs where
  ids id := (hxy.ids id).trans (hyz.ids id)
  related x hx z hz he := by
    obtain ⟨y, hy, hey⟩ := List.mem_map.mp ((hxy.ids (key x)).mp (List.mem_map_of_mem hx))
    exact hr x y z (hxy.related x hx y hy hey.symm) (hyz.related y hy z hz (hey.trans he))

/-- Over previous items with distinct identifiers, lists are matched exactly when every previous
item is still there and every current one finds a previous one to which it is related. -/
theorem matched_iff {previous current : List ι} (hp : (previous.map key).Nodup) :
    Matched key r previous current ↔
      (∀ item ∈ previous, (byKey? key current (key item)).isSome) ∧
        ∀ item ∈ current, ∃ before ∈ byKey? key previous (key item), r before item := by
  constructor
  · rintro ⟨hids, hrelated⟩
    refine ⟨fun item hitem => ?_, fun item hitem => ?_⟩
    · exact isSome_byKey?_iff.mpr ((hids _).mp (List.mem_map_of_mem hitem))
    · have hid : key item ∈ previous.map key := (hids _).mpr (List.mem_map_of_mem hitem)
      obtain ⟨before, hfound⟩ := Option.isSome_iff_exists.mp (isSome_byKey?_iff.mpr hid)
      have hr := hrelated before (mem_of_byKey? hfound) item hitem (key_of_byKey? hfound)
      exact ⟨before, hfound, hr⟩
  · rintro ⟨hkept, hrelated⟩
    refine ⟨fun id => ⟨fun hid => ?_, fun hid => ?_⟩, fun before hbefore item hitem he => ?_⟩
    · obtain ⟨item, hitem, rfl⟩ := List.mem_map.mp hid
      exact isSome_byKey?_iff.mp (hkept item hitem)
    · obtain ⟨item, hitem, rfl⟩ := List.mem_map.mp hid
      obtain ⟨before, hfound, -⟩ := hrelated item hitem
      exact isSome_byKey?_iff.mp (Option.isSome_iff_exists.mpr ⟨before, hfound⟩)
    · obtain ⟨found, hfound, hr⟩ := hrelated item hitem
      rw [← he, byKey?_self hp hbefore] at hfound
      obtain rfl := Option.some.inj hfound
      exact hr

end Matched

/-- Over previous items with distinct identifiers, all are retained exactly when none is gone and
every current item is related to what it finds among them. -/
theorem retained_iff {r : ι → ι → Prop} {previous current : List ι}
    (hp : (previous.map key).Nodup) :
    Retained key r previous current ↔ gone key previous current = [] ∧
      ∀ item ∈ current, ∀ before ∈ byKey? key previous (key item), r before item := by
  simp only [gone, List.filter_eq_nil_iff, Option.isNone_iff_eq_none,
    ← Option.isSome_iff_ne_none, isSome_byKey?_iff]
  constructor
  · rintro ⟨hids, hrelated⟩
    refine ⟨fun item hitem => hids _ (List.mem_map_of_mem hitem),
      fun item hitem before hfound => ?_⟩
    exact hrelated before (mem_of_byKey? hfound) item hitem (key_of_byKey? hfound)
  · rintro ⟨hkept, hrelated⟩
    refine ⟨List.forall_mem_map.mpr hkept, fun before hbefore item hitem he => ?_⟩
    apply hrelated item hitem
    rw [← he]
    exact byKey?_self hp hbefore

theorem isNone_byKey?_of_perm {xs ys : List ι} (h : (xs.map key).Perm (ys.map key))
    (id : ObjectId) : (byKey? key xs id).isNone = (byKey? key ys id).isNone := by
  rw [Bool.eq_iff_iff, Option.isNone_iff_eq_none, Option.isNone_iff_eq_none, byKey?_eq_none_iff,
    byKey?_eq_none_iff, h.mem_iff]

/-- Among distinct identifiers, what is found in a list has its partner found in the other. -/
theorem exists_byKey?_of_paired {r : ι → ι → Prop} {xs ys : List ι} (hn : (xs.map key).Nodup)
    (h : Paired r xs ys) (hkey : ∀ x y, r x y → key x = key y) {id : ObjectId} {x : ι}
    (hx : byKey? key xs id = some x) : ∃ y, byKey? key ys id = some y ∧ r x y := by
  obtain ⟨y, hy, hxy⟩ := h.exists_right (mem_of_byKey? hx)
  have hys : (ys.map key).Nodup := (h.map_perm hkey).nodup_iff.mp hn
  refine ⟨y, ?_, hxy⟩
  rw [← key_of_byKey? hx, hkey x y hxy]
  exact byKey?_self hys hy

/-- Among distinct identifiers, the order does not matter to what is found. -/
theorem byKey?_of_perm {xs ys : List ι} (hn : (xs.map key).Nodup) (h : xs.Perm ys)
    (id : ObjectId) : byKey? key xs id = byKey? key ys id := by
  cases hx : byKey? key xs id with
  | none =>
      have hnone := isNone_byKey?_of_perm (h.map key) id
      rw [hx] at hnone
      exact (Option.isNone_iff_eq_none.mp hnone.symm).symm
  | some x =>
      obtain ⟨y, hy, rfl⟩ :=
        exists_byKey?_of_paired hn (.of_perm Eq.refl h) (fun _ _ => congrArg key) hx
      exact hy.symm

/-- What is found in two lists put together is found in the one that has the identifier. -/
theorem byKey?_append_of_notMem_right {xs ys : List ι} {id : ObjectId} (h : id ∉ ys.map key) :
    byKey? key (xs ++ ys) id = byKey? key xs id := by
  have hnone := byKey?_eq_none_iff.mpr h
  unfold byKey? at hnone ⊢
  rw [List.find?_append, hnone, Option.or_none]

theorem byKey?_append_of_notMem_left {xs ys : List ι} {id : ObjectId} (h : id ∉ xs.map key) :
    byKey? key (xs ++ ys) id = byKey? key ys id := by
  have hnone := byKey?_eq_none_iff.mpr h
  unfold byKey? at hnone ⊢
  rw [List.find?_append, hnone, Option.none_or]

/-- The versions are the pairs of a previous and a current item that share an identifier. -/
theorem mem_versions {previous current : List ι} (hp : (previous.map key).Nodup) {pair : ι × ι} :
    pair ∈ versions key previous current ↔
      pair.1 ∈ previous ∧ pair.2 ∈ current ∧ key pair.1 = key pair.2 := by
  obtain ⟨before, item⟩ := pair
  simp only [versions, List.mem_filterMap, Option.map_eq_some_iff, Prod.mk.injEq]
  constructor
  · rintro ⟨item, hitem, before, hfound, rfl, rfl⟩
    exact ⟨mem_of_byKey? hfound, hitem, key_of_byKey? hfound⟩
  · rintro ⟨hbefore, hitem, he⟩
    refine ⟨item, hitem, before, ?_, rfl, rfl⟩
    rw [← he]
    exact byKey?_self hp hbefore

/-- The current items of the versions stand as they do among all current items. -/
theorem map_snd_versions_sublist (previous current : List ι) :
    ((versions key previous current).map Prod.snd).Sublist current := by
  induction current with
  | nil => exact .slnil
  | cons item rest ih =>
      simp only [versions, List.filterMap_cons]
      cases byKey? key previous (key item) with
      | none => exact ih.cons _
      | some before => exact ih.cons_cons _

theorem nodup_versions {previous current : List ι} (hc : (current.map key).Nodup) :
    (versions key previous current).Nodup :=
  ((map_snd_versions_sublist previous current).nodup hc.of_map).of_map

/-- Going through the previous items instead of the current ones gives the same versions, turned
round. -/
theorem versions_swap_perm {previous current : List ι} (hp : (previous.map key).Nodup)
    (hc : (current.map key).Nodup) :
    (versions key current previous).Perm ((versions key previous current).map Prod.swap) := by
  have hnodup : ((versions key previous current).map Prod.swap).Nodup :=
    (nodup_versions hc).map Prod.swap_injective
  -- no pair is there twice, so that comparing members is enough
  apply (List.perm_ext_iff_of_nodup (nodup_versions hp) hnodup).mpr
  rintro ⟨item, before⟩
  rw [mem_versions hc, List.mem_map]
  constructor
  · rintro ⟨hitem, hbefore, he⟩
    exact ⟨(before, item), (mem_versions hp).mpr ⟨hbefore, hitem, he.symm⟩, rfl⟩
  · rintro ⟨pair, hpair, he⟩
    obtain ⟨rfl, rfl⟩ := Prod.mk.inj he
    obtain ⟨hbefore, hitem, hid⟩ := (mem_versions hp).mp hpair
    exact ⟨hitem, hbefore, hid.symm⟩

section Parts

variable {β : Type} {drop fresh : ι → β} {changes : ι → ι → List β}

/-- Going through the current items, each with one step for a new item or the changes of a version,
does the parts in another order. -/
theorem perm_parts {previous : List ι} {step : ι → List β}
    (hfresh : ∀ item, byKey? key previous (key item) = none → step item = [fresh item])
    (hchanges : ∀ item before, byKey? key previous (key item) = some before →
      step item = changes before item) (current : List ι) :
    ((gone key previous current).map drop ++ current.flatMap step).Perm
      (parts key drop fresh changes previous current) := by
  refine List.Perm.append_left _ ?_
  induction current with
  | nil => exact .nil
  | cons item rest ih =>
      cases hfound : byKey? key previous (key item) with
      | none =>
          have hgone : gone key (item :: rest) previous = item :: gone key rest previous := by
            simp [gone, hfound]
          have hversions : versions key previous (item :: rest) = versions key previous rest := by
            simp [versions, hfound]
          rw [hgone, hversions, List.flatMap_cons, hfresh item hfound]
          exact ih.cons _
      | some before =>
          have hgone : gone key (item :: rest) previous = gone key rest previous := by
            simp [gone, hfound]
          have hversions : versions key previous (item :: rest) =
              (before, item) :: versions key previous rest := by
            simp [versions, hfound]
          rw [hgone, hversions, List.flatMap_cons, List.flatMap_cons, hchanges item before hfound]
          -- the changes of a version come behind all that is new
          exact (ih.append_left _).trans (List.perm_append_comm_assoc _ _ _)

/-- The parts of two lists correspond to those of the same lists the other way round: what is
dropped one way is new the other way, and each pair of versions is turned round. -/
theorem paired_parts {r : β → β → Prop} {previous current : List ι}
    (hp : (previous.map key).Nodup) (hc : (current.map key).Nodup) {dropBack freshBack : ι → β}
    {changesBack : ι → ι → List β} (hdropped : ∀ item, r (drop item) (freshBack item))
    (hadded : ∀ item, r (fresh item) (dropBack item))
    (hchanged : ∀ before ∈ previous, ∀ item ∈ current, key before = key item →
      Paired r (changes before item) (changesBack item before)) :
    Paired r (parts key drop fresh changes previous current)
      (parts key dropBack freshBack changesBack current previous) := by
  have hversions : Paired r
      ((versions key previous current).flatMap fun pair => changes pair.1 pair.2)
      ((versions key current previous).flatMap fun pair => changesBack pair.1 pair.2) := by
    refine .perm_right ?_ ((versions_swap_perm hp hc).flatMap_right _).symm
    rw [List.flatMap_map]
    refine .flatMap_same fun pair hpair => ?_
    obtain ⟨hbefore, hitem, hid⟩ := (mem_versions hp).mp hpair
    exact hchanged pair.1 hbefore pair.2 hitem hid
  -- what is dropped one way and what is new the other way stand in different places
  refine .perm_right ?_ (List.perm_append_comm_assoc _ _ _)
  exact (Paired.map_same fun item _ => hdropped item).append
    ((Paired.map_same fun item _ => hadded item).append hversions)

end Parts

end SchemaMigration.Matching

namespace SchemaMigration.Model

open Matching

theorem id_of_byId? {m : Model} {id : ObjectId} {attr : Attribute} (h : m.byId? id = some attr) :
    attr.id = id :=
  have hfound : byKey? Attribute.id m.attributes id = some attr := h
  key_of_byKey? hfound

/-- Among distinct identifiers, every attribute is found under its own. -/
theorem byId?_self {m : Model} (hn : (m.attributes.map (·.id)).Nodup) {attr : Attribute}
    (h : attr ∈ m.attributes) : m.byId? attr.id = some attr :=
  have hfound : byKey? Attribute.id m.attributes (Attribute.id attr) = some attr := byKey?_self hn h
  hfound

end SchemaMigration.Model

namespace SchemaMigration.Schema

open Matching

/-- Among distinct identifiers, every model is found under its own. -/
theorem byId?_self {s : Schema} (hn : (s.models.map (·.id)).Nodup) {model : Model}
    (h : model ∈ s.models) : s.byId? model.id = some model :=
  have hfound : byKey? Model.id s.models (Model.id model) = some model := byKey?_self hn h
  hfound

end SchemaMigration.Schema
