/-
# Theory.Pacing -- actions in a row, each awaited until its deadline

After each action but the last there is a duration.  The first deadline is the start, and
each further one is the deadline before it plus its duration, whenever the action before it
was really taken.  An action never comes before its deadline (`NotEarly`), but it may come
late.

What is late is not added up: a duration that is no shorter than the lateness of the action
before it absorbs it, so each action comes within one lateness of its deadline
(`onTime_snoc`) and no duration is off by more than that (`OnTime.duration`).
-/
import Mathlib.Algebra.GroupWithZero.Nat
import Mathlib.Tactic.Common

namespace IrHub.Theory.Pacing

set_option autoImplicit false

/-- The deadline of the `i`-th action. -/
def deadline (start : Nat) (durations : List Nat) (i : Nat) : Nat :=
  start + (durations.take i).sum

variable {start late : Nat} {durations times : List Nat}

@[simp] theorem deadline_zero (start : Nat) (durations : List Nat) :
    deadline start durations 0 = start := by
  rw [deadline, List.take_zero, List.sum_nil, Nat.add_zero]

theorem deadline_succ {i d : Nat} (there : durations[i]? = some d) :
    deadline start durations (i + 1) = deadline start durations i + d := by
  obtain ⟨inside, rfl⟩ := List.getElem?_eq_some_iff.mp there
  rw [deadline, List.take_succ_eq_append_getElem inside, List.sum_append, List.sum_singleton,
    ← Nat.add_assoc, deadline]

/-- No action is before its deadline. -/
def NotEarly (start : Nat) (durations times : List Nat) : Prop :=
  ∀ i t, times[i]? = some t → deadline start durations i ≤ t

/-- Every action is at its deadline or at most `late` after it. -/
def OnTime (late start : Nat) (durations times : List Nat) : Prop :=
  ∀ i t, times[i]? = some t →
    deadline start durations i ≤ t ∧ t ≤ deadline start durations i + late

/-- What holds of some actions and of one more behind them. -/
theorem forall_snoc {P : Nat → Nat → Prop} {now : Nat}
    (before : ∀ i t, times[i]? = some t → P i t) (last : P times.length now) :
    ∀ i t, (times ++ [now])[i]? = some t → P i t := by
  intro i t there
  by_cases old : i < times.length
  · rw [List.getElem?_append_left old] at there
    exact before i t there
  · rw [List.getElem?_append_right (Nat.le_of_not_lt old), List.getElem?_singleton] at there
    split at there
    · rename_i here
      obtain rfl : i = times.length := by omega
      cases there
      exact last
    · cases there

theorem notEarly_snoc {now : Nat} (notEarly : NotEarly start durations times)
    (reached : deadline start durations times.length ≤ now) :
    NotEarly start durations (times ++ [now]) :=
  forall_snoc notEarly reached

/-- The last action was over before the deadline of the next, if it was on time and the
duration between them is no shorter than `late`. -/
theorem latest_le (onTime : OnTime late start durations times)
    (absorbs : ∀ d ∈ durations, late ≤ d) (more : times.length ≤ durations.length) :
    times.getLastD start ≤ deadline start durations times.length := by
  cases last : times.getLast? with
  | none =>
      rw [List.getLast?_eq_none_iff] at last
      subst last
      simp
  | some t =>
      rw [List.getLastD_eq_getLast?, last, Option.getD_some]
      rw [List.getLast?_eq_getElem?] at last
      have long : 0 < times.length := by
        obtain ⟨inside, -⟩ := List.getElem?_eq_some_iff.mp last
        omega
      obtain ⟨k, length⟩ : ∃ k, times.length = k + 1 := ⟨times.length - 1, by omega⟩
      rw [length, Nat.add_sub_cancel] at last
      have inside : k < durations.length := by omega
      have there := List.getElem?_eq_getElem inside
      have bound := (onTime k t last).2
      have absorbed := absorbs _ (List.getElem_mem inside)
      rw [length, deadline_succ there]
      omega

/-- **Lateness is not added up.**  An action awaited until its deadline, and taken at most
`late` after it could be, is on time if those before it were and every duration is at least
`late`. -/
theorem onTime_snoc {now : Nat} (onTime : OnTime late start durations times)
    (absorbs : ∀ d ∈ durations, late ≤ d) (more : times.length ≤ durations.length)
    (reached : deadline start durations times.length ≤ now)
    (prompt : now ≤ max (deadline start durations times.length) (times.getLastD start) + late) :
    OnTime late start durations (times ++ [now]) := by
  have before := latest_le onTime absorbs more
  rw [Nat.max_eq_left before] at prompt
  exact forall_snoc onTime ⟨reached, prompt⟩

/-- The time between two actions in a row is their duration, give or take `late`. -/
theorem OnTime.duration {i d t u : Nat} (onTime : OnTime late start durations times)
    (first : times[i]? = some t) (second : times[i + 1]? = some u)
    (between : durations[i]? = some d) : t + d ≤ u + late ∧ u ≤ t + d + late := by
  obtain ⟨low, high⟩ := onTime i t first
  obtain ⟨low', high'⟩ := onTime (i + 1) u second
  rw [deadline_succ between] at low' high'
  omega

end IrHub.Theory.Pacing
