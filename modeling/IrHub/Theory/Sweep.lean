/-
# Theory.Sweep -- an iteration over an array that changes under it

An iterator keeps an index into the array itself.  Between two of its steps the array
may grow at its end or lose elements anywhere.  It never visits an element twice
(`Sound.once`); but when elements in front of the index go, as many of those behind it
move in front of it and are missed (`moved`).  At the end each element of the array has
been visited or missed, and not both: `visited_iff`.
-/
import Mathlib.Data.List.Nodup
import Mathlib.Data.List.Count
import Mathlib.Tactic.Common

namespace IrHub.Theory

set_option autoImplicit false

/-- The array, the index of the next element, and what the iterator has visited and
missed. -/
structure Sweep (α : Type*) where
  items : List α
  index : Nat
  visited : List α
  missed : List α

namespace Sweep

variable {α : Type*}

def start (items : List α) : Sweep α := ⟨items, 0, [], []⟩

/-- The next element. -/
def visit (w : Sweep α) (x : α) : Sweep α :=
  { w with index := w.index + 1, visited := w.visited ++ [x] }

/-- The elements behind the index that are in front of it once only those with `p` are
left. -/
def moved [DecidableEq α] (w : Sweep α) (p : α → Bool) : List α :=
  ((w.items.filter p).take w.index).filter fun x => x ∉ w.items.take w.index

def keep [DecidableEq α] (w : Sweep α) (p : α → Bool) : Sweep α :=
  { w with items := w.items.filter p, missed := w.missed ++ w.moved p }

/-- One more element, which is missed if the index is already past the end. -/
def push (w : Sweep α) (x : α) : Sweep α :=
  { w with
    items := w.items ++ [x]
    missed := if w.items.length < w.index then w.missed ++ [x] else w.missed }

/-- What is in front of the index has been visited or missed, what is behind it has
not. -/
structure Sound (w : Sweep α) : Prop where
  distinct : w.items.Nodup
  once : w.visited.Nodup
  apart : ∀ x ∈ w.missed, x ∉ w.visited
  front : ∀ x ∈ w.items.take w.index, x ∈ w.visited ∨ x ∈ w.missed
  behind : ∀ x ∈ w.items.drop w.index, x ∉ w.visited ∧ x ∉ w.missed

theorem sound_start {items : List α} (distinct : items.Nodup) : (start items).Sound where
  distinct := distinct
  once := List.nodup_nil
  apart := nofun
  front := nofun
  behind _ _ := ⟨List.not_mem_nil, List.not_mem_nil⟩

/-- What is in front of an index and what is behind it. -/
theorem front_ne_behind {xs : List α} (distinct : xs.Nodup) {i : Nat} {x y : α}
    (front : x ∈ xs.take i) (behind : y ∈ xs.drop i) : x ≠ y := by
  rw [← List.take_append_drop i xs, List.nodup_append] at distinct
  exact distinct.2.2 x front y behind

theorem Sound.visit {w : Sweep α} (sound : w.Sound) {x : α} {rest : List α}
    (next : w.items.drop w.index = x :: rest) : (w.visit x).Sound := by
  obtain ⟨unvisited, unmissed⟩ := sound.behind x (by rw [next]; exact List.mem_cons_self)
  have later : w.items.drop (w.index + 1) = rest := by
    rw [← List.drop_drop, next]
    rfl
  have front : w.items.take (w.index + 1) = w.items.take w.index ++ [x] := by
    rw [List.take_add, next]
    rfl
  have distinct : (x :: rest).Nodup := next ▸ sound.distinct.sublist (List.drop_sublist _ _)
  constructor
  · exact sound.distinct
  · exact List.nodup_append.mpr ⟨sound.once, List.nodup_singleton x, by
      rintro y before z last rfl
      rw [List.mem_singleton.mp last] at before
      exact unvisited before⟩
  · intro y gone again
    rcases List.mem_append.mp again with before | now
    · exact sound.apart y gone before
    · rw [List.mem_singleton.mp now] at gone
      exact unmissed gone
  · intro y member
    have member : y ∈ w.items.take (w.index + 1) := member
    rw [front] at member
    rcases List.mem_append.mp member with before | now
    · rcases sound.front y before with seen | gone
      · exact .inl (List.mem_append_left _ seen)
      · exact .inr gone
    · exact .inl (List.mem_append_right _ now)
  · intro y member
    have member : y ∈ w.items.drop (w.index + 1) := member
    rw [later] at member
    obtain ⟨unseen, kept⟩ := sound.behind y (by rw [next]; exact List.mem_cons_of_mem _ member)
    refine ⟨?_, kept⟩
    intro seen
    rcases List.mem_append.mp seen with before | now
    · exact unseen before
    · rw [List.mem_singleton.mp now] at member
      exact (List.nodup_cons.mp distinct).1 member

/-- What is behind the index when elements are gone was behind it before. -/
theorem mem_drop_filter {p : α → Bool} {xs : List α} {i : Nat} {x : α}
    (member : x ∈ (xs.filter p).drop i) : x ∈ xs.drop i := by
  have parts : xs.filter p = (xs.take i).filter p ++ (xs.drop i).filter p := by
    rw [← List.filter_append, List.take_append_drop]
  have short : ((xs.take i).filter p).length ≤ i :=
    Nat.le_trans (List.length_filter_le _ _) (List.length_take_le i xs)
  rw [parts, List.drop_append, List.drop_of_length_le short, List.nil_append] at member
  exact (List.mem_filter.mp (List.mem_of_mem_drop member)).1

theorem Sound.keep [DecidableEq α] {w : Sweep α} (sound : w.Sound) (p : α → Bool) :
    (w.keep p).Sound := by
  have distinct : (w.items.filter p).Nodup := sound.distinct.filter p
  have mem_moved : ∀ {x}, x ∈ w.moved p ↔
      x ∈ (w.items.filter p).take w.index ∧ x ∉ w.items.take w.index := by
    intro x
    rw [moved, List.mem_filter, decide_eq_true_iff]
  constructor
  · exact distinct
  · exact sound.once
  · intro x gone
    rcases List.mem_append.mp gone with before | now
    · exact sound.apart x before
    · obtain ⟨front, late⟩ := mem_moved.mp now
      have member : x ∈ w.items := (List.mem_filter.mp (List.mem_of_mem_take front)).1
      rw [← List.take_append_drop w.index w.items] at member
      rcases List.mem_append.mp member with early | behind
      · exact absurd early late
      · exact (sound.behind x behind).1
  · intro x member
    by_cases early : x ∈ w.items.take w.index
    · rcases sound.front x early with seen | gone
      · exact .inl seen
      · exact .inr (List.mem_append_left _ gone)
    · exact .inr (List.mem_append_right _ (mem_moved.mpr ⟨member, early⟩))
  · intro x member
    obtain ⟨unseen, kept⟩ := sound.behind x (mem_drop_filter member)
    refine ⟨unseen, fun gone => ?_⟩
    rcases List.mem_append.mp gone with before | now
    · exact kept before
    · exact front_ne_behind distinct (mem_moved.mp now).1 member rfl

theorem Sound.push {w : Sweep α} (sound : w.Sound) {x : α} (new : x ∉ w.items)
    (unseen : x ∉ w.visited) (kept : x ∉ w.missed) : (w.push x).Sound := by
  have distinct : (w.items ++ [x]).Nodup := List.nodup_append.mpr ⟨sound.distinct,
    List.nodup_singleton x, by
      rintro y before z last rfl
      rw [List.mem_singleton.mp last] at before
      exact new before⟩
  by_cases past : w.items.length < w.index
  · have missed : (w.push x).missed = w.missed ++ [x] := if_pos past
    have front : w.items.take w.index = w.items := List.take_of_length_le (Nat.le_of_lt past)
    refine ⟨distinct, sound.once, ?_, ?_, ?_⟩
    · rw [missed]
      intro y gone
      rcases List.mem_append.mp gone with before | now
      · exact sound.apart y before
      · rw [List.mem_singleton.mp now]
        exact unseen
    · rw [missed]
      intro y member
      rcases List.mem_append.mp (List.mem_of_mem_take member) with before | last
      · rcases sound.front y (by rw [front]; exact before) with seen | gone
        · exact .inl seen
        · exact .inr (List.mem_append_left _ gone)
      · exact .inr (List.mem_append_right _ last)
    · intro y member
      have none : (w.items ++ [x]).drop w.index = [] :=
        List.drop_of_length_le (by rw [List.length_append, List.length_singleton]; exact past)
      have member : y ∈ (w.items ++ [x]).drop w.index := member
      rw [none] at member
      cases member
  · have room : w.index ≤ w.items.length := Nat.le_of_not_lt past
    have missed : (w.push x).missed = w.missed := if_neg past
    refine ⟨distinct, sound.once, missed ▸ sound.apart, ?_, ?_⟩
    · rw [missed]
      intro y member
      have member : y ∈ (w.items ++ [x]).take w.index := member
      rw [List.take_append_of_le_length room] at member
      exact sound.front y member
    · rw [missed]
      intro y member
      have member : y ∈ (w.items ++ [x]).drop w.index := member
      rw [List.drop_append_of_le_length room] at member
      rcases List.mem_append.mp member with before | last
      · exact sound.behind y before
      · rw [List.mem_singleton.mp last]
        exact ⟨unseen, kept⟩

/-- **At the end an element has been visited, once, exactly when it was not missed.** -/
theorem Sound.visited_iff {w : Sweep α} (sound : w.Sound) (over_ : w.items.length ≤ w.index) {x : α}
    (member : x ∈ w.items) : x ∈ w.visited ↔ x ∉ w.missed := by
  have front : w.items.take w.index = w.items := List.take_of_length_le over_
  constructor
  · exact fun seen gone => sound.apart x gone seen
  · exact fun kept => (sound.front x (front.symm ▸ member)).resolve_right kept

end Sweep

end IrHub.Theory
