import Mathlib.Data.List.Forall2
import SchemaMigration.Log

/-!
# Outcomes of computations that can fail

Equations for going on after a success or a failure, and runs over a list: a run succeeds exactly
when each of its parts does, and fails with the fault of its first part that fails.
-/

namespace SchemaMigration.Outcome

variable {ε α β : Type}

@[simp] theorem ok_bind (value : α) (next : α → Except ε β) :
    (Except.ok value >>= next) = next value := rfl

@[simp] theorem error_bind (fault : ε) (next : α → Except ε β) :
    (Except.error fault >>= next) = .error fault := rfl

@[simp] theorem bind_ok (x : Except ε α) : (x >>= Except.ok) = x := by
  cases x <;> rfl

@[simp] theorem map_ok (f : α → β) (value : α) :
    f <$> (Except.ok value : Except ε α) = .ok (f value) := rfl

@[simp] theorem map_error (f : α → β) (fault : ε) :
    f <$> (Except.error fault : Except ε α) = .error fault := rfl

@[simp] theorem pure_eq_ok (value : α) : (pure value : Except ε α) = .ok value := rfl

/-- A chain succeeds when its first part does and the rest succeeds on what that gives. -/
theorem bind_eq_ok {x : Except ε α} {next : α → Except ε β} {result : β} :
    x >>= next = .ok result ↔ ∃ value, x = .ok value ∧ next value = .ok result := by
  cases x with
  | error fault => simp
  | ok value => simp

/-- A mapped computation succeeds when the computation does. -/
theorem map_eq_ok {x : Except ε α} {f : α → β} {result : β} :
    f <$> x = .ok result ↔ ∃ value, x = .ok value ∧ f value = result := by
  cases x with
  | error fault => simp
  | ok value => simp

/-- A mapped computation fails when the computation does. -/
theorem map_eq_error {x : Except ε α} {f : α → β} {fault : ε} :
    f <$> x = .error fault ↔ x = .error fault := by
  cases x <;> simp

/-- A run over a list succeeds exactly when it succeeds on every item, and gives their results. -/
theorem mapM_eq_ok_iff {f : α → Except ε β} {xs : List α} {ys : List β} :
    xs.mapM f = .ok ys ↔ List.Forall₂ (fun x y => f x = .ok y) xs ys := by
  induction xs generalizing ys with
  | nil => cases ys <;> simp
  | cons x xs ih =>
      simp only [List.mapM_cons, bind_eq_ok, pure_eq_ok, Except.ok.injEq, ih,
        List.forall₂_cons_left_iff]
      constructor
      · rintro ⟨y, hy, rest, hrest, rfl⟩
        exact ⟨y, rest, hy, hrest, rfl⟩
      · rintro ⟨y, rest, hy, hrest, rfl⟩
        exact ⟨y, hy, rest, hrest, rfl⟩

/-- What a run over a list gives comes from its items. -/
theorem exists_of_mem_mapM {f : α → Except ε β} {xs : List α} {ys : List β}
    (h : xs.mapM f = .ok ys) {y : β} (hy : y ∈ ys) : ∃ x ∈ xs, f x = .ok y := by
  have hpairs := mapM_eq_ok_iff.mp h
  clear h
  induction hpairs with
  | nil => cases hy
  | @cons x value xs values hvalue _ ih =>
      rcases List.mem_cons.mp hy with rfl | hy
      · exact ⟨x, List.mem_cons_self, hvalue⟩
      · obtain ⟨x, hx, hxy⟩ := ih hy
        exact ⟨x, List.mem_cons_of_mem _ hx, hxy⟩

/-- The fault of a computation, if it fails. -/
def fault? : Except ε α → Option ε
  | .ok _ => none
  | .error fault => some fault

@[simp] theorem fault?_ok (value : α) : fault? (.ok value : Except ε α) = none := rfl

@[simp] theorem fault?_error (fault : ε) : fault? (.error fault : Except ε α) = some fault := rfl

@[simp] theorem fault?_map (f : α → β) (x : Except ε α) : fault? (f <$> x) = fault? x := by
  cases x <;> rfl

theorem fault?_eq_some_iff {x : Except ε α} {fault : ε} :
    fault? x = some fault ↔ x = .error fault := by
  cases x <;> simp

theorem fault?_eq_none_iff {x : Except ε α} : fault? x = none ↔ ∃ value, x = .ok value := by
  cases x <;> simp

/-- A run over a list fails with the fault of the first item on which it fails. -/
theorem fault?_mapM (f : α → Except ε β) (xs : List α) :
    fault? (xs.mapM f) = xs.findSome? fun x => fault? (f x) := by
  induction xs with
  | nil => rfl
  | cons x xs ih =>
      rw [List.mapM_cons, List.findSome?_cons]
      cases h : f x with
      | error fault => rfl
      | ok y =>
          simp only [fault?_ok, ← ih]
          cases xs.mapM f <;> rfl

/-- A run over a list fails exactly when it fails on some item. -/
theorem exists_mapM_eq_error_iff {f : α → Except ε β} {xs : List α} :
    (∃ fault, xs.mapM f = .error fault) ↔ ∃ x ∈ xs, ∃ fault, f x = .error fault := by
  simp only [← fault?_eq_some_iff, ← Option.isSome_iff_exists, fault?_mapM,
    List.findSome?_isSome_iff]

/-- A run over a list fails exactly when an item fails and all those in front of it succeed. -/
theorem mapM_eq_error_iff {f : α → Except ε β} {xs : List α} {fault : ε} :
    xs.mapM f = .error fault ↔ ∃ front x back, xs = front ++ x :: back ∧
      (∀ earlier ∈ front, ∃ value, f earlier = .ok value) ∧ f x = .error fault := by
  rw [← fault?_eq_some_iff, fault?_mapM, List.findSome?_eq_some_iff]
  constructor
  · rintro ⟨front, x, back, rfl, hx, hfront⟩
    exact ⟨front, x, back, rfl, fun earlier he => fault?_eq_none_iff.mp (hfront earlier he),
      fault?_eq_some_iff.mp hx⟩
  · rintro ⟨front, x, back, rfl, hfront, hx⟩
    exact ⟨front, x, back, rfl, fault?_eq_some_iff.mpr hx,
      fun earlier he => fault?_eq_none_iff.mpr (hfront earlier he)⟩

end SchemaMigration.Outcome
