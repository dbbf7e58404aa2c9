/-
# Theory.Objects -- an array of objects that others hold on to

Who has a reference to an object sees every change that is made to it in place, and
keeps the object when the array drops it.  `heap` has every object there ever was, at
the index that is its reference; `refs` are those in the array.

`values` is the array as a list of records, and what is done to the array is done to it
by `Collection` (`values_push`, `values_assign`, `values_remove`).  The other laws are
about a reference: only an assignment that finds the object changes what it gets.
-/
import IrHub.Theory.Collection

namespace IrHub.Theory

set_option autoImplicit false

universe u v

structure Objects (α : Type u) where
  heap : List α
  refs : List Nat
  live : ∀ r ∈ refs, r < heap.length
  distinct : refs.Nodup

namespace Objects

variable {α : Type u} {κ : Type v} [DecidableEq κ]

def empty : Objects α := ⟨[], [], by simp, List.nodup_nil⟩

/-- The object of a reference. -/
def get? (o : Objects α) (r : Nat) : Option α := o.heap[r]?

/-- The array as records. -/
def values (o : Objects α) : List α := o.refs.filterMap o.get?

variable (key : α → κ)

def named (o : Objects α) (k : κ) (r : Nat) : Bool := (o.get? r).any fun x => key x = k

/-- The first object with the key. -/
def lookup (o : Objects α) (k : κ) : Option Nat := o.refs.find? (o.named key k)

/-- The first object with the key, changed in place. -/
def assign (o : Objects α) (k : κ) (f : α → α) : Objects α :=
  match o.lookup key k with
  | none => o
  | some r => { o with
      heap := o.heap.modify r f
      live := by
        intro s member
        rw [List.length_modify]
        exact o.live s member }

/-- A new object at the end of the array. -/
def push (o : Objects α) (x : α) : Objects α where
  heap := o.heap ++ [x]
  refs := o.refs ++ [o.heap.length]
  live := by
    intro r member
    rw [List.length_append, List.length_singleton]
    rcases List.mem_append.mp member with before | last
    · have := o.live r before
      omega
    · rw [List.mem_singleton.mp last]
      omega
  distinct := by
    refine List.nodup_append.mpr ⟨o.distinct, List.nodup_singleton _, ?_⟩
    intro r before s last same
    rw [List.mem_singleton.mp last] at same
    have := o.live r before
    omega

/-- The array without the objects with the key. -/
def remove (o : Objects α) (k : κ) : Objects α where
  heap := o.heap
  refs := o.refs.filter fun r => !o.named key k r
  live r member := o.live r (List.mem_filter.mp member).1
  distinct := o.distinct.filter _

/-! ## What a reference gets -/

variable {key}

theorem get?_of_mem {o : Objects α} {r : Nat} (member : r ∈ o.refs) : ∃ x, o.get? r = some x :=
  ⟨_, List.getElem?_eq_getElem (o.live r member)⟩

theorem named_eq {o : Objects α} {r : Nat} {x : α} (here : o.get? r = some x) (k : κ) :
    o.named key k r = decide (key x = k) := by
  simp [named, here]

theorem get?_lookup {o : Objects α} {k : κ} {r : Nat} (found : o.lookup key k = some r) :
    ∃ x, o.get? r = some x ∧ key x = k := by
  simpa [named, Option.any_eq_true] using List.find?_some found

theorem get?_assign (o : Objects α) (k : κ) (f : α → α) (r : Nat) :
    (o.assign key k f).get? r =
      if o.lookup key k = some r then (o.get? r).map f else o.get? r := by
  unfold assign
  cases found : o.lookup key k with
  | none => rw [if_neg (by simp)]
  | some s =>
      show (o.heap.modify s f)[r]? = _
      rw [List.getElem?_modify]
      by_cases same : s = r
      · subst same
        rw [if_pos rfl]
        simp [get?]
      · rw [if_neg fun h => same (Option.some.inj h)]
        simp [get?, same]

theorem refs_assign (o : Objects α) (k : κ) (f : α → α) : (o.assign key k f).refs = o.refs := by
  unfold assign
  split <;> rfl

theorem length_assign (o : Objects α) (k : κ) (f : α → α) :
    (o.assign key k f).heap.length = o.heap.length := by
  unfold assign
  split
  · rfl
  · exact List.length_modify ..

theorem get?_push {o : Objects α} {r : Nat} {x : α} (held : o.get? r = some x) (y : α) :
    (o.push y).get? r = some x := by
  have inHeap := (List.getElem?_eq_some_iff.mp held).1
  exact (List.getElem?_append_left inHeap).trans held

/-! ## The array as records -/

variable (key)

theorem find_values (o : Objects α) (k : κ) :
    Collection.find key k o.values = (o.lookup key k).bind o.get? := by
  have along : ∀ {refs : List Nat}, (∀ r ∈ refs, ∃ x, o.get? r = some x) →
      Collection.find key k (refs.filterMap o.get?) =
        (refs.find? (o.named key k)).bind o.get? := by
    intro refs live
    induction refs with
    | nil => rfl
    | cons r rest ih =>
        obtain ⟨x, here⟩ := live r List.mem_cons_self
        have tail := ih fun s member => live s (List.mem_cons_of_mem _ member)
        rw [List.filterMap_cons_some here, Collection.find_cons, List.find?_cons, tail,
          named_eq here]
        by_cases same : key x = k
        · rw [if_pos same, decide_eq_true same, Option.bind_some, here]
        · rw [if_neg same, decide_eq_false same]
  exact along fun r member => get?_of_mem member

theorem values_push (o : Objects α) (x : α) : (o.push x).values = o.values ++ [x] := by
  have before : ∀ r ∈ o.refs, (o.push x).get? r = o.get? r := by
    intro r member
    obtain ⟨y, held⟩ := get?_of_mem member
    rw [get?_push held, held]
  have last : (o.push x).get? o.heap.length = some x := by
    show (o.heap ++ [x])[o.heap.length]? = some x
    simp
  show (o.refs ++ [o.heap.length]).filterMap _ = _
  rw [List.filterMap_append, List.filterMap_congr before, List.filterMap_cons_some last]
  rfl

theorem values_remove (o : Objects α) (k : κ) :
    (o.remove key k).values = Collection.remove key k o.values := by
  show (o.refs.filter _).filterMap o.get? = (o.refs.filterMap o.get?).filter _
  rw [List.filterMap_filter, List.filter_filterMap]
  refine List.filterMap_congr fun r member => ?_
  obtain ⟨x, here⟩ := get?_of_mem member
  rw [named_eq here, here]
  by_cases same : key x = k <;> simp [Option.filter, same]

theorem values_assign (o : Objects α) (k : κ) (f : α → α) :
    (o.assign key k f).values = Collection.assign key k f o.values := by
  have along : ∀ {refs : List Nat}, refs.Nodup → (∀ r ∈ refs, ∃ x, o.get? r = some x) →
      Collection.assign key k f (refs.filterMap o.get?) =
        refs.filterMap fun r => if refs.find? (o.named key k) = some r then (o.get? r).map f
          else o.get? r := by
    intro refs distinct live
    induction refs with
    | nil => rfl
    | cons r rest ih =>
        obtain ⟨x, here⟩ := live r List.mem_cons_self
        obtain ⟨new, distinct⟩ := List.nodup_cons.mp distinct
        have tail := ih distinct fun s member => live s (List.mem_cons_of_mem _ member)
        rw [List.filterMap_cons_some here, Collection.assign, List.find?_cons, named_eq here]
        by_cases same : key x = k
        · rw [if_pos same, decide_eq_true same]
          rw [List.filterMap_cons_some (b := f x) (by simp [here])]
          refine congrArg _ (List.filterMap_congr fun s member => ?_)
          have other : ¬some r = some s := by
            rintro ⟨⟩
            exact new member
          rw [if_neg other]
        · have elsewhere : rest.find? (o.named key k) ≠ some r := fun found =>
            new (List.mem_of_find?_eq_some found)
          rw [if_neg same, decide_eq_false same, tail]
          rw [List.filterMap_cons_some (b := x) (by simp [here, elsewhere])]
  rw [values, values, along o.distinct fun r member => get?_of_mem member]
  rw [refs_assign]
  exact List.filterMap_congr fun r _ => get?_assign o k f r

end Objects

end IrHub.Theory
