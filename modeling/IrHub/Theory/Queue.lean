/-
# Theory.Queue -- what goes through a bounded queue

`contents` is the queue that a ring of slots with a head and a count stands for:
`contents_set` appends to it and `contents_succ` takes its first, wherever the
head is.

A `Ledger` is a queue with its past: what has left it, in order, each with what
became of it.  What has entered is what has left followed by what is waiting
(`entered`); nothing that enters or leaves changes this order.  `push` is the
entry of a queue that loses its oldest when it is full; `Fresh` bounds what such a
queue can lose, by how many entered behind it.
-/
import Mathlib.Algebra.GroupWithZero.Nat
import Mathlib.Data.Vector.Basic

namespace IrHub.Theory

set_option autoImplicit false

/-! ## Rings -/

section Ring

variable {α : Type*} {n : Nat} [NeZero n]

/-- The queue in a ring: `count` slots from `head` on. -/
def contents (slots : List.Vector α n) (head count : Nat) : List α :=
  (List.range count).map fun i => slots.get (Fin.ofNat n (head + i))

@[simp] theorem contents_zero (slots : List.Vector α n) (head : Nat) :
    contents slots head 0 = [] := rfl

@[simp] theorem length_contents (slots : List.Vector α n) (head count : Nat) :
    (contents slots head count).length = count := by
  rw [contents, List.length_map, List.length_range]

/-- Less than a turn apart, slots are different. -/
theorem slot_ne {head i j : Nat} (less : i < j) (turn : j < i + n) :
    Fin.ofNat n (head + i) ≠ Fin.ofNat n (head + j) := by
  intro same
  have equal : (head + i) % n = (head + j) % n := congrArg Fin.val same
  have apart : (head + j - (head + i)) % n = 0 :=
    Nat.sub_mod_eq_zero_of_mod_eq equal.symm
  rw [show head + j - (head + i) = j - i by omega, Nat.mod_eq_of_lt (by omega)] at apart
  omega

/-- A ring with room takes one more behind the others. -/
theorem contents_set (slots : List.Vector α n) (head : Nat) {count : Nat} (room : count < n)
    (a : α) : contents (slots.set (Fin.ofNat n (head + count)) a) head (count + 1) =
      contents slots head count ++ [a] := by
  have before : ∀ i ∈ List.range count,
      (slots.set (Fin.ofNat n (head + count)) a).get (Fin.ofNat n (head + i)) =
        slots.get (Fin.ofNat n (head + i)) := by
    intro i member
    have less := List.mem_range.mp member
    exact List.Vector.get_set_of_ne (slot_ne less (by omega)).symm a
  rw [contents, List.range_succ, List.map_append, List.map_congr_left before, List.map_singleton,
    List.Vector.get_set_same]
  rfl

/-- The first is the one at the head, the others follow from the next slot on. -/
theorem contents_succ (slots : List.Vector α n) (head count : Nat) :
    contents slots head (count + 1) =
      slots.get (Fin.ofNat n head) :: contents slots ((head + 1) % n) count := by
  rw [contents, contents, List.range_succ_eq_map, List.map_cons, List.map_map, Nat.add_zero]
  congr 1
  refine List.map_congr_left ?_
  intro i _
  have same : Fin.ofNat n (head + (i + 1)) = Fin.ofNat n ((head + 1) % n + i) := by
    refine Fin.ext ?_
    show (head + (i + 1)) % n = ((head + 1) % n + i) % n
    rw [Nat.mod_add_mod, show head + (i + 1) = head + 1 + i by omega]
  rw [Function.comp_apply, Nat.succ_eq_add_one, same]

end Ring

/-! ## Ledgers -/

/-- What has left a queue, with what became of it, and what is waiting. -/
structure Ledger (α φ : Type*) where
  left : List (α × φ)
  waiting : List α
  deriving DecidableEq

namespace Ledger

variable {α φ : Type*}

def empty : Ledger α φ := ⟨[], []⟩

/-- All that has entered, in order. -/
def entered (q : Ledger α φ) : List α := q.left.map Prod.fst ++ q.waiting

/-- One more enters. -/
def enter (q : Ledger α φ) (a : α) : Ledger α φ := { q with waiting := q.waiting ++ [a] }

/-- The oldest leaves, if there is one. -/
def leave (q : Ledger α φ) (fate : φ) : Ledger α φ where
  left := q.left ++ (q.waiting.take 1).map fun a => (a, fate)
  waiting := q.waiting.drop 1

/-- One more enters a queue of `cap` places, which loses its oldest when it is full. -/
def push (cap : Nat) (lost : φ) (q : Ledger α φ) (a : α) : Ledger α φ :=
  (if q.waiting.length = cap then q.leave lost else q).enter a

/-- What has left to such a fate. -/
def fated [DecidableEq φ] (q : Ledger α φ) (fate : φ) : List α :=
  (q.left.filter fun entry => entry.2 = fate).map Prod.fst

@[simp] theorem entered_enter (q : Ledger α φ) (a : α) :
    (q.enter a).entered = q.entered ++ [a] := by
  simp [entered, enter]

@[simp] theorem entered_leave (q : Ledger α φ) (fate : φ) : (q.leave fate).entered = q.entered := by
  have first : ((q.waiting.take 1).map fun a => (a, fate)).map Prod.fst = q.waiting.take 1 := by
    simp [Function.comp_def]
  rw [entered, leave, List.map_append, first, List.append_assoc, List.take_append_drop]
  rfl

@[simp] theorem entered_push (cap : Nat) (lost : φ) (q : Ledger α φ) (a : α) :
    (push cap lost q a).entered = q.entered ++ [a] := by
  rw [push, entered_enter]
  split <;> simp

theorem fated_leave [DecidableEq φ] (q : Ledger α φ) (fate gone : φ) :
    (q.leave gone).fated fate = q.fated fate ++ if gone = fate then q.waiting.take 1 else [] := by
  rw [fated, leave, List.filter_append, List.map_append]
  cases q.waiting with
  | nil => simp [fated]
  | cons a rest =>
      by_cases same : gone = fate
      · simp [fated, same]
      · simp [fated, same]

/-- Nothing that is lost has left to another fate. -/
theorem fated_push [DecidableEq φ] (cap : Nat) {lost fate : φ} (other : lost ≠ fate)
    (q : Ledger α φ) (a : α) : (push cap lost q a).fated fate = q.fated fate := by
  have enters : ∀ q : Ledger α φ, (q.enter a).fated fate = q.fated fate := fun _ => rfl
  rw [push, enters]
  split
  · rw [fated_leave, if_neg other, List.append_nil]
  · rfl

/-- What has left to one fate and what is waiting are in the order they entered. -/
theorem fated_sublist [DecidableEq φ] (q : Ledger α φ) (fate : φ) :
    (q.fated fate ++ q.waiting).Sublist q.entered :=
  (List.filter_sublist.map Prod.fst).append_right q.waiting

/-- What is on the ledger once the oldest has left. -/
theorem getElem?_leave {q : Ledger α φ} {fate : φ} {i : Nat} {entry : α × φ}
    (gone : (q.leave fate).left[i]? = some entry) :
    q.left[i]? = some entry ∨
      (i = q.left.length ∧ q.waiting.head? = some entry.1 ∧ entry.2 = fate) := by
  by_cases old : i < q.left.length
  · rw [leave, List.getElem?_append_left old] at gone
    exact .inl gone
  · rw [leave, List.getElem?_append_right (Nat.le_of_not_lt old)] at gone
    cases waiting : q.waiting with
    | nil =>
        rw [waiting] at gone
        cases gone
    | cons a rest =>
        rw [waiting] at gone
        obtain ⟨place, same⟩ := List.getElem?_eq_some_iff.mp gone
        obtain rfl : i = q.left.length := by
          simp only [List.take_succ_cons, List.take_zero, List.map_cons, List.map_nil,
            List.length_singleton] at place
          omega
        have same : (a, fate) = entry := by simpa using same
        exact .inr ⟨rfl, congrArg (some ∘ Prod.fst) same, congrArg Prod.snd same.symm⟩

/-- What a push loses: the oldest, and only when there is no place. -/
theorem getElem?_push {cap : Nat} {lost : φ} {q : Ledger α φ} {a : α} {i : Nat} {entry : α × φ}
    (gone : (push cap lost q a).left[i]? = some entry) :
    q.left[i]? = some entry ∨
      (i = q.left.length ∧ q.waiting.length = cap ∧ q.waiting.head? = some entry.1) := by
  unfold push at gone
  split at gone
  · rename_i full
    rcases getElem?_leave gone with before | ⟨last, oldest, -⟩
    · exact .inl before
    · exact .inr ⟨last, full, oldest⟩
  · exact .inl gone

/-- At least `cap` entered behind each that was lost. -/
def Fresh (cap : Nat) (lost : φ) (q : Ledger α φ) : Prop :=
  ∀ i a, q.left[i]? = some (a, lost) → i + cap < q.entered.length

theorem fresh_empty (cap : Nat) (lost : φ) : Fresh cap lost (empty : Ledger α φ) := by
  rintro i a ⟨⟩

theorem Fresh.push {cap : Nat} {lost : φ} {q : Ledger α φ} (fresh : Fresh cap lost q) (a : α) :
    Fresh cap lost (push cap lost q a) := by
  intro i b gone
  rw [entered_push, List.length_append, List.length_singleton]
  rcases getElem?_push gone with before | ⟨last, full, -⟩
  · have bound := fresh i b before
    omega
  · rw [entered, List.length_append, List.length_map]
    omega

theorem Fresh.leave {cap : Nat} {lost fate : φ} {q : Ledger α φ} (fresh : Fresh cap lost q)
    (other : fate ≠ lost) : Fresh cap lost (q.leave fate) := by
  intro i b gone
  rw [entered_leave]
  rcases getElem?_leave gone with before | ⟨-, -, same⟩
  · exact fresh i b before
  · exact absurd same.symm other

end Ledger

end IrHub.Theory
