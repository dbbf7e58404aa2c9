/-
# Theory.Edges -- a train of level changes, filtered by their distance

The times of a line's level changes, in order.  The first is accepted, and then each
that is at least `width` after the one accepted before it (`accepted`).  What lies
between two accepted ones in a row is a span.

* `accepted_append`, `spans_append`: a train is read from left to right.
* `accepted_spike`: a pair of changes closer than `width`, in a stretch that is steady
  for longer, loses its second change and keeps its first.
* `marks_iff`: on a line that is high before the first change, the spans are low and
  high in turn exactly when none of their changes was filtered.
-/
import Mathlib.Algebra.GroupWithZero.Nat
import Mathlib.Data.List.Chain
import Mathlib.Tactic.Common

namespace IrHub.Theory.Edges

set_option autoImplicit false

variable (width : Nat)

/-! ## Accepted changes and their spans -/

/-- The changes accepted after `last`. -/
def acceptedAfter (last : Nat) : List Nat → List Nat
  | [] => []
  | t :: ts => if t - last < width then acceptedAfter last ts else t :: acceptedAfter t ts

/-- The first change, and each at least `width` after the last one accepted. -/
def accepted : List Nat → List Nat
  | [] => []
  | t :: ts => t :: acceptedAfter width t ts

/-- The spans from `last` on. -/
def spansAfter (last : Nat) : List Nat → List (Nat × Nat)
  | [] => []
  | t :: ts => (last, t) :: spansAfter t ts

/-- From each time to the next. -/
def spans : List Nat → List (Nat × Nat)
  | [] => []
  | t :: ts => spansAfter t ts

def duration (span : Nat × Nat) : Nat := span.2 - span.1

theorem acceptedAfter_append {last latest : Nat} {xs : List Nat}
    (known : (last :: acceptedAfter width last xs).getLast? = some latest) (ys : List Nat) :
    acceptedAfter width last (xs ++ ys) =
      acceptedAfter width last xs ++ acceptedAfter width latest ys := by
  induction xs generalizing last with
  | nil =>
      obtain rfl : last = latest := by simpa [acceptedAfter] using known
      rfl
  | cons t ts ih =>
      simp only [List.cons_append, acceptedAfter] at known ⊢
      by_cases near : t - last < width
      · simp only [if_pos near] at known ⊢
        exact ih known
      · simp only [if_neg near] at known ⊢
        rw [ih (by simpa using known), List.cons_append]

/-- What follows is accepted or not by its distance to the latest one. -/
theorem accepted_append {latest : Nat} {xs : List Nat}
    (known : (accepted width xs).getLast? = some latest) (ys : List Nat) :
    accepted width (xs ++ ys) = accepted width xs ++ acceptedAfter width latest ys := by
  cases xs with
  | nil => cases known
  | cons t ts =>
      rw [List.cons_append, accepted, accepted, acceptedAfter_append width known, List.cons_append]

theorem accepted_snoc {latest : Nat} {xs : List Nat}
    (known : (accepted width xs).getLast? = some latest) (t : Nat) :
    accepted width (xs ++ [t]) =
      if t - latest < width then accepted width xs else accepted width xs ++ [t] := by
  rw [accepted_append width known, acceptedAfter, acceptedAfter, acceptedAfter]
  split
  · exact List.append_nil _
  · rfl

omit width in
theorem spansAfter_append {last latest : Nat} {xs : List Nat}
    (known : (last :: xs).getLast? = some latest) (ys : List Nat) :
    spansAfter last (xs ++ ys) = spansAfter last xs ++ spansAfter latest ys := by
  induction xs generalizing last with
  | nil =>
      obtain rfl : last = latest := by simpa using known
      rfl
  | cons t ts ih => rw [List.cons_append, spansAfter, spansAfter, ih (by simpa using known),
      List.cons_append]

omit width in
theorem spans_append {latest : Nat} {xs : List Nat} (known : xs.getLast? = some latest)
    (ys : List Nat) : spans (xs ++ ys) = spans xs ++ spansAfter latest ys := by
  cases xs with
  | nil => cases known
  | cons t ts => rw [List.cons_append, spans, spans, spansAfter_append known]

omit width in
theorem length_spansAfter (last : Nat) (xs : List Nat) :
    (spansAfter last xs).length = xs.length := by
  induction xs generalizing last with
  | nil => rfl
  | cons t ts ih => rw [spansAfter, List.length_cons, List.length_cons, ih]

theorem mem_of_acceptedAfter {last t : Nat} {xs : List Nat}
    (member : t ∈ acceptedAfter width last xs) : t ∈ xs := by
  induction xs generalizing last with
  | nil => cases member
  | cons u us ih =>
      rw [acceptedAfter] at member
      split at member
      · exact List.mem_cons_of_mem _ (ih member)
      · rcases List.mem_cons.mp member with rfl | later
        · exact List.mem_cons_self
        · exact List.mem_cons_of_mem _ (ih later)

theorem mem_of_accepted {t : Nat} {xs : List Nat} (member : t ∈ accepted width xs) : t ∈ xs := by
  cases xs with
  | nil => cases member
  | cons u us =>
      rcases List.mem_cons.mp member with rfl | later
      · exact List.mem_cons_self
      · exact List.mem_cons_of_mem _ (mem_of_acceptedAfter width later)

/-! ## A spike -/

/-- Two changes less than `width` apart, on a line that is steady for longer than that
before and after them. -/
structure Spike (before : List Nat) (a b : Nat) (after : List Nat) : Prop where
  follows : before ≠ []
  narrow : a < b ∧ b - a < width
  steadyBefore : ∀ t ∈ before, t + width < a
  steadyAfter : ∀ t ∈ after, b + width < t

/-- Such a spike keeps its first change. -/
theorem accepted_spike {before after : List Nat} {a b latest : Nat}
    (spike : Spike width before a b after)
    (known : (accepted width before).getLast? = some latest) :
    accepted width (before ++ a :: b :: after) =
      accepted width before ++ a :: acceptedAfter width a after := by
  have steady := spike.steadyBefore latest
    (mem_of_accepted width (List.mem_of_getLast? known))
  have far : ¬a - latest < width := by omega
  rw [accepted_append width known, acceptedAfter, if_neg far, acceptedAfter,
    if_pos spike.narrow.2]

/-- A change behind the spike is accepted with it and without it. -/
theorem acceptedAfter_spike {before after : List Nat} {a b t latest : Nat}
    (spike : Spike width before a b (t :: after))
    (known : (accepted width before).getLast? = some latest) :
    acceptedAfter width a (t :: after) = t :: acceptedAfter width t after ∧
      acceptedAfter width latest (t :: after) = t :: acceptedAfter width t after := by
  have before_ := spike.steadyBefore latest
    (mem_of_accepted width (List.mem_of_getLast? known))
  have after_ := spike.steadyAfter t List.mem_cons_self
  have narrow := spike.narrow
  rw [acceptedAfter, acceptedAfter, if_neg (by omega), if_neg (by omega)]
  exact ⟨rfl, rfl⟩

/-! ## Levels -/

/-- The line has been high and has changed an odd number of times. -/
def lowAt (edges : List Nat) (x : Nat) : Prop := (edges.countP fun t => t ≤ x) % 2 = 1

/-- From entry `i` on, the line is low throughout an even span and high throughout an
odd one. -/
def Marks (edges : List Nat) : Nat → List (Nat × Nat) → Prop
  | _, [] => True
  | i, (a, b) :: rest =>
      (∀ x, a ≤ x → x < b → (lowAt edges x ↔ i % 2 = 0)) ∧ Marks edges (i + 1) rest

/-- Neighbours are at least `width` apart. -/
def Spaced : List Nat → Prop
  | a :: b :: ts => width ≤ b - a ∧ Spaced (b :: ts)
  | _ => True

omit width in
/-- Between two changes the number of changes so far is known. -/
theorem lowAt_iff {front rest : List Nat} {last x : Nat}
    (sorted : (front ++ rest).Pairwise (· < ·)) (latest : front.getLast? = some last)
    (after : last ≤ x) (before : ∀ t ∈ rest, x < t) :
    lowAt (front ++ rest) x ↔ front.length % 2 = 1 := by
  have passed : ∀ t ∈ front, decide (t ≤ x) = true := by
    intro t member
    obtain ⟨init, rfl⟩ := List.getLast?_eq_some_iff.mp latest
    rw [List.append_assoc, List.pairwise_append] at sorted
    rw [decide_eq_true_iff]
    rcases List.mem_append.mp member with early | now
    · exact Nat.le_trans (Nat.le_of_lt (sorted.2.2 t early last (by simp))) after
    · rw [List.mem_singleton] at now
      omega
  have ahead : ∀ t ∈ rest, ¬decide (t ≤ x) = true := by
    intro t member
    have later := before t member
    simpa using later
  rw [lowAt, List.countP_append, List.countP_eq_length.mpr passed, List.countP_eq_zero.mpr ahead,
    Nat.add_zero]

/-- After a change that is accepted at `last`. -/
theorem marks_after (rest : List Nat) : ∀ (front : List Nat) (last i room : Nat),
    (front ++ rest).Pairwise (· < ·) → front.getLast? = some last → front.length = i + 1 →
    (Marks (front ++ rest) i ((spansAfter last (acceptedAfter width last rest)).take room) ↔
      Spaced width (last ::
        rest.take (min room (acceptedAfter width last rest).length))) := by
  induction rest with
  | nil =>
      intro front last i room sorted latest count
      simp [acceptedAfter, spansAfter, Marks, Spaced]
  | cons t ts ih =>
      intro front last i room sorted latest count
      cases room with
      | zero => simp [Marks, Spaced]
      | succ room =>
          have split_ : front ++ t :: ts = (front ++ [t]) ++ ts := by simp
          have lastMem : last ∈ front := List.mem_of_getLast? latest
          have increasing := List.pairwise_append.mp sorted
          have later : last < t := increasing.2.2 last lastMem t List.mem_cons_self
          have beyond : ∀ u ∈ ts, t < u := (List.pairwise_cons.mp increasing.2.1).1
          by_cases near : t - last < width
          · rw [acceptedAfter, if_pos near]
            cases kept : acceptedAfter width last ts with
            | nil => simp [spansAfter, Marks, Spaced]
            | cons m more =>
                -- the change at `t` lies inside the span from `last` to `m`
                have inside : t < m := beyond m (mem_of_acceptedAfter width (kept ▸ List.mem_cons_self))
                have level : lowAt (front ++ t :: ts) t ↔ (front ++ [t]).length % 2 = 1 := by
                  rw [split_] at sorted ⊢
                  exact lowAt_iff sorted List.getLast?_concat (Nat.le_refl t) beyond
                constructor
                · intro marks
                  have wrong := marks.1 t (Nat.le_of_lt later) inside
                  rw [level, List.length_append, List.length_singleton] at wrong
                  omega
                · intro spaced
                  have wide : width ≤ t - last := by
                    rw [List.length_cons, Nat.succ_min_succ, List.take_succ_cons] at spaced
                    exact spaced.1
                  omega
          · have further := ih (front ++ [t]) t (i + 1) room (split_ ▸ sorted) List.getLast?_concat
              (by rw [List.length_append, List.length_singleton, count])
            rw [← split_] at further
            have low : ∀ x, last ≤ x → x < t → (lowAt (front ++ t :: ts) x ↔ i % 2 = 0) := by
              intro x after before
              have ahead : ∀ u ∈ t :: ts, x < u := by
                intro u member
                rcases List.mem_cons.mp member with rfl | member
                · exact before
                · exact Nat.lt_trans before (beyond u member)
              rw [lowAt_iff sorted latest after ahead]
              omega
            rw [acceptedAfter, if_neg near, spansAfter, List.take_succ_cons, List.length_cons,
              Nat.succ_min_succ, List.take_succ_cons]
            constructor
            · intro marks
              exact ⟨Nat.le_of_not_lt near, further.mp marks.2⟩
            · intro spaced
              exact ⟨low, further.mpr spaced.2⟩

/-- **The first `room` spans are low and high in turn exactly when the changes up to
the end of the last of them are all `width` apart.** -/
theorem marks_iff {edges : List Nat} (sorted : edges.Pairwise (· < ·)) (room : Nat) :
    Marks edges 0 ((spans (accepted width edges)).take room) ↔
      Spaced width (edges.take (min room (spans (accepted width edges)).length + 1)) := by
  cases edges with
  | nil => simp [accepted, spans, Marks, Spaced]
  | cons t ts =>
      have start := marks_after width ts [t] t 0 room sorted rfl rfl
      rw [accepted, spans, length_spansAfter, List.take_succ_cons]
      exact start

end IrHub.Theory.Edges
