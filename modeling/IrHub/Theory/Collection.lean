/-
# Theory.Collection -- keyed records in a list: find, assign, push, remove

A collection of records in insertion order, addressed by a key that nothing forces
to be unique.  `find` gives the first record with a key and `assign` changes that
one in place; `remove` drops every record with the key; a push is `xs ++ [x]`.

The laws say what a later `find` sees of each operation, at the key it touched and
at any other.  None of them asks for unique keys.
-/
import Mathlib.Data.List.Nodup
import Mathlib.Tactic.Common

namespace IrHub.Theory.Collection

set_option autoImplicit false

universe u v

variable {α : Type u} {κ : Type v} [DecidableEq κ]

/-- The first record with the key. -/
def find (key : α → κ) (k : κ) (xs : List α) : Option α := xs.find? fun x => key x = k

/-- The first record with the key, changed in place. -/
def assign (key : α → κ) (k : κ) (f : α → α) : List α → List α
  | [] => []
  | x :: xs => if key x = k then f x :: xs else x :: assign key k f xs

/-- Every record without the key. -/
def remove (key : α → κ) (k : κ) (xs : List α) : List α := xs.filter fun x => key x ≠ k

variable (key : α → κ)

theorem find_cons (k : κ) (x : α) (xs : List α) :
    find key k (x :: xs) = if key x = k then some x else find key k xs := by
  by_cases same : key x = k <;> simp [find, same]

variable {key} in
theorem mem_of_find {k : κ} {x : α} {xs : List α} (found : find key k xs = some x) : x ∈ xs :=
  List.mem_of_find?_eq_some found

variable {key} in
theorem key_of_find {k : κ} {x : α} {xs : List α} (found : find key k xs = some x) : key x = k := by
  simpa using List.find?_some found

variable {key} in
theorem find_eq_none_iff {k : κ} {xs : List α} : find key k xs = none ↔ ∀ x ∈ xs, key x ≠ k := by
  simp [find]

/-! ## Assign -/

theorem find_assign_self (k : κ) (f : α → α) (keeps : ∀ x, key (f x) = key x) (xs : List α) :
    find key k (assign key k f xs) = (find key k xs).map f := by
  induction xs with
  | nil => rfl
  | cons x xs ih =>
      by_cases same : key x = k
      · simp [assign, find_cons, same, keeps]
      · simp [assign, find_cons, same, ih]

theorem find_assign_ne {k l : κ} (ne : l ≠ k) (f : α → α) (keeps : ∀ x, key (f x) = key x)
    (xs : List α) : find key l (assign key k f xs) = find key l xs := by
  induction xs with
  | nil => rfl
  | cons x xs ih =>
      by_cases same : key x = k
      · have other : key x ≠ l := fun h => ne (h.symm.trans same)
        simp [assign, find_cons, same, keeps, ne.symm]
      · simp only [assign, if_neg same, find_cons, ih]

/-- The keys stay as they are where the change is made. -/
theorem map_key_assign_of (k : κ) (f : α → α) (keeps : ∀ x, key x = k → key (f x) = key x)
    (xs : List α) : (assign key k f xs).map key = xs.map key := by
  induction xs with
  | nil => rfl
  | cons x xs ih =>
      rw [assign]
      split
      · rename_i same
        simp [keeps x same]
      · simp [ih]

theorem map_key_assign (k : κ) (f : α → α) (keeps : ∀ x, key (f x) = key x) (xs : List α) :
    (assign key k f xs).map key = xs.map key :=
  map_key_assign_of key k f (fun x _ => keeps x) xs

/-- No record is added or lost. -/
theorem length_assign (k : κ) (f : α → α) (xs : List α) :
    (assign key k f xs).length = xs.length := by
  induction xs with
  | nil => rfl
  | cons x xs ih =>
      rw [assign]
      split
      · rfl
      · rw [List.length_cons, List.length_cons, ih]

/-- With distinct keys, a record is assigned where it stands. -/
theorem assign_eq_set {xs : List α} (distinct : (xs.map key).Nodup) {i : Nat} {x : α}
    (at_i : xs[i]? = some x) (f : α → α) : assign key (key x) f xs = xs.set i (f x) := by
  induction xs generalizing i with
  | nil => cases at_i
  | cons y ys ih =>
      rw [List.map_cons, List.nodup_cons] at distinct
      cases i with
      | zero =>
          rw [List.getElem?_cons_zero, Option.some.injEq] at at_i
          subst at_i
          rw [assign, if_pos rfl, List.set_cons_zero]
      | succ i =>
          rw [List.getElem?_cons_succ] at at_i
          have other : key y ≠ key x := by
            intro same
            exact distinct.1 (same ▸ List.mem_map_of_mem (List.mem_of_getElem? at_i))
          rw [assign, if_neg other, ih distinct.2 at_i, List.set_cons_succ]

theorem mem_assign {k : κ} {f : α → α} {x : α} {xs : List α} (member : x ∈ assign key k f xs) :
    x ∈ xs ∨ ∃ y ∈ xs, key y = k ∧ x = f y := by
  induction xs with
  | nil => exact .inl member
  | cons y ys ih =>
      rw [assign] at member
      split at member
      · rename_i same
        rcases List.mem_cons.mp member with rfl | later
        · exact .inr ⟨y, List.mem_cons_self, same, rfl⟩
        · exact .inl (List.mem_cons_of_mem _ later)
      · rcases List.mem_cons.mp member with rfl | later
        · exact .inl List.mem_cons_self
        · rcases ih later with old | ⟨z, before, named, made⟩
          · exact .inl (List.mem_cons_of_mem _ old)
          · exact .inr ⟨z, List.mem_cons_of_mem _ before, named, made⟩

/-! ## Push and remove -/

theorem find_push (k : κ) (x : α) (xs : List α) :
    find key k (xs ++ [x]) = (find key k xs).or (if key x = k then some x else none) := by
  induction xs with
  | nil => simp [find]
  | cons y ys ih =>
      simp only [List.cons_append, find_cons, ih]
      split <;> rfl

theorem find_remove_self (k : κ) (xs : List α) : find key k (remove key k xs) = none := by
  rw [find, List.find?_eq_none]
  intro x member
  simpa using (List.mem_filter.mp member).2

theorem find_remove_ne {k l : κ} (ne : l ≠ k) (xs : List α) :
    find key l (remove key k xs) = find key l xs := by
  induction xs with
  | nil => rfl
  | cons x xs ih =>
      by_cases same : key x = k
      · have other : key x ≠ l := fun h => ne (h.symm.trans same)
        rw [find_cons, if_neg other, ← ih]
        simp [remove, same]
      · rw [find_cons, ← ih, ← find_cons]
        simp [remove, same]

/-! ## Distinct keys -/

theorem nodup_assign {k : κ} {f : α → α} {xs : List α} (distinct : (xs.map key).Nodup)
    (keeps : ∀ x, key x = k → key (f x) = key x) : ((assign key k f xs).map key).Nodup := by
  rw [map_key_assign_of key k f keeps]
  exact distinct

/-- A record with a new key. -/
theorem nodup_push {x : α} {xs : List α} (distinct : (xs.map key).Nodup)
    (new : find key (key x) xs = none) : ((xs ++ [x]).map key).Nodup := by
  rw [List.map_append, List.nodup_append]
  refine ⟨distinct, List.nodup_singleton _, ?_⟩
  rintro a member b last rfl
  obtain ⟨y, inside, same⟩ := List.mem_map.mp member
  exact find_eq_none_iff.mp new y inside (same.trans (List.mem_singleton.mp last))

theorem nodup_remove {k : κ} {xs : List α} (distinct : (xs.map key).Nodup) :
    ((remove key k xs).map key).Nodup :=
  distinct.sublist (List.filter_sublist.map key)

/-! ## A collection computed from a list -/

/-- The first record with a key comes from the first element that makes one. -/
theorem find_mapIdx {β : Type u} (k : κ) (p : β → Bool) (f : Nat → β → α)
    (names : ∀ i x, key (f i x) = k ↔ p x = true) (xs : List β) :
    (xs.find? p = none ∧ find key k (xs.mapIdx f) = none) ∨
      ∃ i x, xs.find? p = some x ∧ find key k (xs.mapIdx f) = some (f i x) := by
  induction xs generalizing f with
  | nil => exact .inl ⟨rfl, rfl⟩
  | cons x xs ih =>
      rw [List.mapIdx_cons, find_cons, List.find?_cons]
      cases chosen : p x with
      | true => exact .inr ⟨0, x, rfl, if_pos ((names 0 x).mpr chosen)⟩
      | false =>
          have other : key (f 0 x) ≠ k := fun same => by
            rw [(names 0 x).mp same] at chosen
            cases chosen
          rw [if_neg other]
          obtain none | ⟨i, y, found, made⟩ := ih (fun i => f (i + 1)) fun i y => names (i + 1) y
          · exact .inl none
          · exact .inr ⟨i + 1, y, found, made⟩

end IrHub.Theory.Collection
