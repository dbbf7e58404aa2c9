/-
# Theory.Double -- the doubles among the rationals

A `double` is a rational `k * 2 ^ e` with `|k| < 2 ^ 53` and `-1074 ≤ e`, below `2 ^ 1024`.
`double q` is the nearest one, the even one of two.  What is too large for that becomes an
infinity, which is `±2 ^ 1024` here, and there is one zero.

A number that is a `double` is its own (`magnitude_of_double`), so that rounding twice is
rounding once (`double_double`), and an integer of up to 53 binary digits is a `double`
(`double_natCast`).
-/
import IrHub.Theory.Single

namespace IrHub.Theory.Double

set_option autoImplicit false

open IrHub.Theory.Single (roundEven le_roundEven roundEven_le)

/-! ## The nearest `double` -/

/-- What stands for the infinity. -/
def infinity : Rat := 2 ^ 1024

/-- The exponent of the doubles about a positive number. -/
def exponent (q : Rat) : Int := max (-1074) (Int.log 2 q - 52)

/-- The distance of the doubles about a positive number. -/
def ulp (q : Rat) : Rat := 2 ^ exponent q

/-- The nearest `double` to a number that is not negative. -/
def magnitude (q : Rat) : Rat := min infinity (roundEven (q / ulp q) * ulp q)

/-- The nearest `double`. -/
def double (q : Rat) : Rat := if q < 0 then -magnitude (-q) else magnitude q

def IsDouble (q : Rat) : Prop := double q = q

/-- A `double` that is no infinity. -/
structure IsFinite (q : Rat) : Prop where
  exact : double q = q
  bounded : |q| < infinity

theorem ulp_pos (q : Rat) : 0 < ulp q := zpow_pos (by decide) _

theorem infinity_pos : 0 < infinity := by norm_num [infinity]

theorem roundEven_intCast (n : Int) : roundEven n = n :=
  le_antisymm (roundEven_le le_rfl) (le_roundEven le_rfl)

/-! ## Doubles are their own -/

/-- On the grid about it a number stays. -/
theorem magnitude_of_grid {q : Rat} {k : Int} (grid : q = k * ulp q) (bound : q ≤ infinity) :
    magnitude q = q := by
  have quotient : q / ulp q = k := (div_eq_iff (ulp_pos q).ne').mpr grid
  rw [magnitude, quotient, roundEven_intCast, ← grid, min_eq_right bound]

theorem ulp_mul {e : Int} {q : Rat} (coarse : exponent q ≤ e) (k : Int) :
    ∃ l : Int, (k : Rat) * 2 ^ e = l * ulp q := by
  obtain ⟨m, more⟩ : ∃ m : Nat, e = exponent q + m := ⟨(e - exponent q).toNat, by omega⟩
  refine ⟨k * 2 ^ m, ?_⟩
  rw [more, zpow_add₀ (by decide), zpow_natCast, ulp]
  push_cast
  ring

/-- `k * 2 ^ e` is on the grid about it. -/
theorem exponent_le {q : Rat} {e : Int} (positive : 0 < q) (least : -1074 ≤ e)
    (bound : q < 2 ^ (e + 53)) : exponent q ≤ e := by
  have log : Int.log 2 q < e + 53 := (Int.lt_zpow_iff_log_lt (by decide) positive).mp bound
  exact max_le least (by omega)

theorem magnitude_of_double {q : Rat} {k e : Int} (value : q = k * 2 ^ e) (positive : 0 ≤ q)
    (digits : k ≤ 2 ^ 53) (least : -1074 ≤ e) (bound : q ≤ infinity) : magnitude q = q := by
  rcases positive.eq_or_lt with zero | positive
  · subst zero
    exact magnitude_of_grid (k := 0) (by simp) bound
  · rcases digits.lt_or_eq with digits | most
    · have below : q < 2 ^ (e + 53) := by
        have digits : (k : Rat) < 2 ^ 53 := by exact_mod_cast digits
        rw [value, zpow_add₀ (by decide), mul_comm]
        exact mul_lt_mul_of_pos_left (by exact_mod_cast digits) (zpow_pos (by decide) e)
      obtain ⟨l, grid⟩ := ulp_mul (exponent_le positive least below) k
      exact magnitude_of_grid (value.trans grid) bound
    · -- one binary digit too many, but the last of them is zero
      have value' : q = (2 ^ 52 : Int) * 2 ^ (e + 1) := by
        rw [value, most, zpow_add₀ (by decide)]
        push_cast
        ring
      have below : q < 2 ^ (e + 1 + 53) := by
        rw [value', zpow_add₀ (by decide) (e + 1) 53, mul_comm]
        exact mul_lt_mul_of_pos_left (by norm_num) (zpow_pos (by decide) (e + 1))
      obtain ⟨l, grid⟩ := ulp_mul (exponent_le positive (by omega) below) (2 ^ 52)
      exact magnitude_of_grid (value'.trans grid) bound

/-- A number has fewer than 53 binary digits before its grid. -/
theorem magnitude_double {q : Rat} (positive : 0 ≤ q) :
    ∃ k e : Int, magnitude q = k * 2 ^ e ∧ 0 ≤ k ∧ k ≤ 2 ^ 53 ∧ -1074 ≤ e ∧
      magnitude q ≤ infinity := by
  have bound : magnitude q ≤ infinity := min_le_left _ _
  rcases le_total infinity (roundEven (q / ulp q) * ulp q) with large | within
  · refine ⟨1, 1024, ?_, by decide, by decide, by decide, bound⟩
    rw [magnitude, min_eq_left large, infinity]
    norm_num
  · refine ⟨roundEven (q / ulp q), exponent q, ?_, ?_, ?_, le_max_left _ _, bound⟩
    · rw [magnitude, min_eq_right within, ulp]
    · exact le_roundEven (by simpa using div_nonneg positive (ulp_pos q).le)
    · refine roundEven_le ?_
      rw [div_le_iff₀ (ulp_pos q)]
      rcases positive.eq_or_lt with zero | positive
      · rw [← zero]
        exact mul_nonneg (by norm_num) (ulp_pos 0).le
      · have log : q < 2 ^ (Int.log 2 q + 1) := Int.lt_zpow_succ_log_self (by decide) q
        have more : (2 : Rat) ^ (Int.log 2 q + 1) ≤ 2 ^ (53 + exponent q) := by
          refine zpow_le_zpow_right₀ (by decide) ?_
          have := le_max_right (-1074) (Int.log 2 q - 52)
          rw [exponent]
          omega
        rw [zpow_add₀ (by decide) 53] at more
        exact (log.trans_le (by exact_mod_cast more)).le

theorem magnitude_nonneg {q : Rat} (positive : 0 ≤ q) : 0 ≤ magnitude q := by
  obtain ⟨k, e, value, least, -⟩ := magnitude_double positive
  rw [value]
  exact mul_nonneg (Int.cast_nonneg least) (zpow_pos (by decide) e).le

theorem magnitude_magnitude {q : Rat} (positive : 0 ≤ q) :
    magnitude (magnitude q) = magnitude q := by
  obtain ⟨k, e, value, -, most, least, bound⟩ := magnitude_double positive
  exact magnitude_of_double value (magnitude_nonneg positive) most least bound

/-! ## Signs -/

theorem magnitude_zero : magnitude 0 = 0 := magnitude_of_grid (k := 0) (by simp) infinity_pos.le

theorem double_of_nonneg {q : Rat} (positive : 0 ≤ q) : double q = magnitude q :=
  if_neg (not_lt.mpr positive)

theorem double_neg (q : Rat) : double (-q) = -double q := by
  rcases lt_trichotomy q 0 with negative | rfl | positive
  · rw [double, if_neg (by linarith), double, if_pos negative, neg_neg]
  · rw [neg_zero, double_of_nonneg le_rfl, magnitude_zero, neg_zero]
  · rw [double, if_pos (by linarith), double_of_nonneg positive.le, neg_neg]

/-- **Rounding twice is rounding once.** -/
theorem double_double (q : Rat) : double (double q) = double q := by
  rcases le_or_gt 0 q with positive | negative
  · rw [double_of_nonneg positive, double_of_nonneg (magnitude_nonneg positive),
      magnitude_magnitude positive]
  · have positive : 0 ≤ -q := by linarith
    have inner : double q = -magnitude (-q) := if_pos negative
    rw [inner, double_neg, double_of_nonneg (magnitude_nonneg positive),
      magnitude_magnitude positive]

theorem natCast_lt {n : Nat} (bound : n ≤ 2 ^ 53) : (n : Rat) < infinity := by
  have small : (n : Rat) ≤ 2 ^ 53 := by exact_mod_cast bound
  exact small.trans_lt (pow_lt_pow_right₀ (by norm_num) (by norm_num))

/-- **An integer of up to 53 binary digits is a `double`.** -/
theorem double_natCast {n : Nat} (bound : n ≤ 2 ^ 53) : double n = n := by
  have digits : (n : Int) ≤ 2 ^ 53 := by exact_mod_cast bound
  rw [double_of_nonneg (Nat.cast_nonneg n)]
  exact magnitude_of_double (e := 0) (by simp) (Nat.cast_nonneg n) digits (by decide)
    (natCast_lt bound).le

theorem finite_natCast {n : Nat} (bound : n ≤ 2 ^ 53) : IsFinite n where
  exact := double_natCast bound
  bounded := by
    rw [abs_of_nonneg (Nat.cast_nonneg n)]
    exact natCast_lt bound

theorem IsFinite.neg {q : Rat} (finite : IsFinite q) : IsFinite (-q) :=
  ⟨by rw [double_neg, finite.exact], by rw [abs_neg]; exact finite.bounded⟩

theorem ten_pow (n : Nat) : (10 : Rat) ^ n = 2 ^ n * 5 ^ n := by
  rw [← mul_pow]
  norm_num

/-- Ten to the 1074th times a `double` is an integer. -/
theorem scaled_double {q : Rat} (positive : 0 ≤ q) (exact : double q = q) :
    ∃ n : Nat, q * 10 ^ 1074 = n := by
  rw [double_of_nonneg positive] at exact
  obtain ⟨k, e, value, least, -, low, -⟩ := magnitude_double positive
  rw [exact] at value
  obtain ⟨m, exponent⟩ : ∃ m : Nat, e + 1074 = m := ⟨(e + 1074).toNat, by omega⟩
  obtain ⟨k, rfl⟩ := Int.eq_ofNat_of_zero_le least
  refine ⟨k * 2 ^ m * 5 ^ 1074, ?_⟩
  have twos : (2 : Rat) ^ e * 2 ^ 1074 = 2 ^ m := by
    rw [← zpow_natCast, ← zpow_natCast, ← zpow_add₀ (by decide), ← exponent]
    rfl
  rw [ten_pow, value, mul_assoc, ← mul_assoc (2 ^ e), twos]
  simp only [Int.cast_natCast, Nat.cast_mul, Nat.cast_pow, Nat.cast_ofNat, mul_assoc]

end IrHub.Theory.Double
