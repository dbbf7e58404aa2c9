/-
# Theory.Single -- single-precision arithmetic on positive numbers

A `float` is a rational with 24 binary digits.  Each operation is the exact one followed by
`single`, which rounds to the nearest `float`, to the even one of two; there is no overflow
and no underflow here.

An integer of up to 24 binary digits is a `float` (`single_natCast`).  So between two such
integers no result is rounded past either of them (`floor_single`): a quotient that is cast
to an integer is the exact one rounded down or up.
-/
import Mathlib.Data.Int.Log
import Mathlib.Data.Rat.Floor
import Mathlib.Tactic.FieldSimp
import Mathlib.Tactic.Linarith

namespace IrHub.Theory.Single

set_option autoImplicit false

/-! ## The nearest integer -/

/-- The nearest integer, the even one of two. -/
def roundEven (x : Rat) : Int :=
  if 2 * Int.fract x < 1 then ⌊x⌋
  else if 1 < 2 * Int.fract x then ⌊x⌋ + 1
  else if ⌊x⌋ % 2 = 0 then ⌊x⌋ else ⌊x⌋ + 1

/-- No integer below is passed. -/
theorem le_roundEven {x : Rat} {n : Int} (below : (n : Rat) ≤ x) : n ≤ roundEven x := by
  have floor := Int.le_floor.mpr below
  unfold roundEven
  split
  · exact floor
  split
  · omega
  split <;> omega

/-- No integer above is passed. -/
theorem roundEven_le {x : Rat} {n : Int} (above : x ≤ n) : roundEven x ≤ n := by
  by_cases whole : x = n
  · subst whole
    have fract : Int.fract (n : Rat) = 0 := Int.fract_intCast n
    rw [roundEven, if_pos (by rw [fract]; norm_num), Int.floor_intCast]
  · have floor : ⌊x⌋ < n := Int.floor_lt.mpr (lt_of_le_of_ne above whole)
    unfold roundEven
    split
    · omega
    split
    · omega
    split <;> omega

/-! ## The nearest `float` -/

/-- The distance of the `float`s about `q`. -/
def ulp (q : Rat) : Rat := 2 ^ (Int.log 2 q - 23)

/-- The nearest `float`. -/
def single (q : Rat) : Rat := roundEven (q / ulp q) * ulp q

theorem ulp_pos (q : Rat) : 0 < ulp q := zpow_pos (by decide) _

/-- No number of the grid below is passed. -/
theorem le_single {q g : Rat} {k : Int} (grid : g = k * ulp q) (below : g ≤ q) : g ≤ single q := by
  have scaled : (k : Rat) ≤ q / ulp q := (le_div_iff₀ (ulp_pos q)).mpr (grid ▸ below)
  rw [grid, single]
  exact mul_le_mul_of_nonneg_right (Int.cast_le.mpr (le_roundEven scaled)) (ulp_pos q).le

/-- No number of the grid above is passed. -/
theorem single_le {q g : Rat} {k : Int} (grid : g = k * ulp q) (above : q ≤ g) : single q ≤ g := by
  have scaled : q / ulp q ≤ (k : Rat) := (div_le_iff₀ (ulp_pos q)).mpr (grid ▸ above)
  rw [grid, single]
  exact mul_le_mul_of_nonneg_right (Int.cast_le.mpr (roundEven_le scaled)) (ulp_pos q).le

/-- Below 2^24 every integer is on the grid. -/
theorem integer_grid {q : Rat} (positive : 0 < q) (bound : q < 2 ^ 24) (n : Int) :
    ∃ k : Int, (n : Rat) = k * ulp q := by
  have small : Int.log 2 q < 24 := (Int.lt_zpow_iff_log_lt (by decide) positive).mp (by
    simpa using bound)
  obtain ⟨m, exponent⟩ : ∃ m : Nat, Int.log 2 q - 23 = -(m : Int) :=
    ⟨(23 - Int.log 2 q).toNat, by omega⟩
  refine ⟨n * 2 ^ m, ?_⟩
  rw [ulp, exponent, zpow_neg, zpow_natCast, Int.cast_mul, Int.cast_pow, Int.cast_ofNat,
    mul_assoc, mul_inv_cancel₀ (pow_ne_zero m (by decide)), mul_one]

/-- An integer of up to 24 binary digits is a `float`. -/
theorem single_natCast {n : Nat} (positive : 0 < n) (bound : n < 2 ^ 24) :
    single (n : Rat) = n := by
  have inRange : (n : Rat) < 2 ^ 24 := by exact_mod_cast bound
  obtain ⟨k, grid⟩ := integer_grid (Nat.cast_pos.mpr positive) inRange n
  rw [Int.cast_natCast] at grid
  exact le_antisymm (single_le grid le_rfl) (le_single grid le_rfl)

/-- **A rounded number is between the same two integers**, or it is the larger of them. -/
theorem floor_single {q : Rat} (positive : 0 < q) (bound : q < 2 ^ 24) :
    ⌊q⌋ ≤ ⌊single q⌋ ∧ ⌊single q⌋ ≤ ⌊q⌋ + 1 := by
  obtain ⟨k, below⟩ := integer_grid positive bound ⌊q⌋
  obtain ⟨l, above⟩ := integer_grid positive bound (⌊q⌋ + 1)
  have low := le_single below (Int.floor_le q)
  have high := single_le above (by push_cast; exact (Int.lt_floor_add_one q).le)
  exact ⟨Int.le_floor.mpr low, Int.floor_le_iff.mpr (lt_of_le_of_lt high (lt_add_one _))⟩

/-- The quotient of two integers, both `float`s, cast to an integer. -/
theorem floor_single_div {m n : Nat} (positive : 0 < m) (divisor : 0 < n)
    (bound : m < 2 ^ 24 * n) :
    ∃ k, ⌊single ((m : Rat) / n)⌋ = ((k : Nat) : Int) ∧ m / n ≤ k ∧ k ≤ m / n + 1 := by
  have below : (0 : Rat) < n := Nat.cast_pos.mpr divisor
  have inRange : (m : Rat) / n < 2 ^ 24 := by
    rw [div_lt_iff₀ below]
    exact_mod_cast bound
  obtain ⟨low, high⟩ := floor_single (div_pos (Nat.cast_pos.mpr positive) below) inRange
  have whole : ⌊(m : Rat) / n⌋ = ((m / n : Nat) : Int) := by
    rw [Rat.floor_natCast_div_natCast, Int.natCast_ediv]
  rw [whole] at low high
  obtain ⟨k, value⟩ := Int.eq_ofNat_of_zero_le (le_trans (Int.natCast_nonneg (m / n)) low)
  rw [value] at low high
  exact ⟨k, value, Int.ofNat_le.mp low, by exact_mod_cast high⟩

end IrHub.Theory.Single
