/-
# Theory.Numeral -- the shortest numeral of a double

ECMAScript writes a number with the fewest digits that are read as it: `s * 10 ^ p` with the
largest `p` at which some `s` is rounded to the number, and of two such `s` the nearer one, or
as V8 does the even one if they are as near.  `shortest` looks for it from the largest place that
there can be, and ends in the place in which every double is exact.

What it finds is rounded to the number again (`shortest_exact`), and an integer of up to 15
digits has its own numeral (`numeral_natCast`).
-/
import IrHub.Theory.Bytes
import IrHub.Theory.Double
import Mathlib.Algebra.Order.Floor.Semifield

namespace IrHub.Theory.Double

set_option autoImplicit false

/-! ## The digits -/

/-- The multiples of `10 ^ p` about `x`, the nearer one first, or the even one of two as near. -/
def nearby (x : Rat) (p : Int) : List Nat :=
  let s := ⌊x / 10 ^ p⌋₊
  let twice := 2 * Int.fract (x / 10 ^ p)
  if twice < 1 ∨ twice = 1 ∧ s % 2 = 0 then [s, s + 1] else [s + 1, s]

/-- The first of them that is read as `x`. -/
def significand (x : Rat) (p : Int) : Option Nat :=
  (nearby x p).find? fun s => double (s * 10 ^ p) = x

/-- From the place `p` on downwards. -/
def search (x : Rat) : Nat → Int → Nat × Int
  | 0, p => (⌊x / 10 ^ p⌋₊, p)
  | rounds + 1, p =>
      match significand x p with
      | some s => (s, p)
      | none => search x rounds (p - 1)

/-- The `s` and the `p` of a positive number. -/
def shortest (x : Rat) : Nat × Int :=
  let top := (decimal ⌊x⌋₊).length
  search x (top + 1074) top

/-! ## The text -/

/-- The text of `s * 10 ^ p`, with an exponent where it would be long otherwise. -/
def positional (s : Nat) (p : Int) : List UInt8 :=
  let ds := decimal s
  let n : Int := ds.length + p
  if 0 ≤ p ∧ n ≤ 21 then ds ++ List.replicate p.toNat 48
  else if 0 < n ∧ n ≤ 21 then ds.take n.toNat ++ 46 :: ds.drop n.toNat
  else if -6 < n ∧ n ≤ 0 then 48 :: 46 :: (List.replicate (-n).toNat 48 ++ ds)
  else
    ds.take 1 ++ (if ds.length = 1 then [] else 46 :: ds.drop 1) ++
      101 :: (if n - 1 < 0 then 45 else 43) :: decimal (n - 1).natAbs

/-- `Number::toString` of a number that is no infinity. -/
def numeral (q : Rat) : List UInt8 :=
  if q = 0 then [48]
  else
    let (s, p) := shortest |q|
    (if q < 0 then [45] else []) ++ positional s p

/-! ## What the digits are read as -/

theorem search_exact {x : Rat} (positive : 0 ≤ x) (exact : double x = x) (rounds : Nat) :
    ∀ p : Int, p = rounds - 1074 →
      double ((search x rounds p).1 * 10 ^ (search x rounds p).2) = x := by
  induction rounds with
  | zero =>
      rintro p rfl
      obtain ⟨n, whole⟩ := scaled_double positive exact
      have last : x / 10 ^ ((0 : Nat) - 1074 : Int) = n := by
        rw [← whole, Nat.cast_zero, zero_sub, zpow_neg, div_inv_eq_mul]
        norm_cast
      have back : x = n * 10 ^ ((0 : Nat) - 1074 : Int) := by
        rw [← last, div_mul_cancel₀]
        exact zpow_ne_zero _ (by decide)
      rw [search, last, Nat.floor_natCast, ← back]
      exact exact
  | succ rounds ih =>
      rintro p place
      rw [search]
      cases found : significand x p with
      | some s => simpa using List.find?_some found
      | none => exact ih (p - 1) (by rw [place]; push_cast; ring)

/-- **The shortest numeral is read as the number.** -/
theorem shortest_exact {x : Rat} (positive : 0 ≤ x) (exact : double x = x) :
    double ((shortest x).1 * 10 ^ (shortest x).2) = x :=
  search_exact positive exact _ _ (by push_cast; ring)

theorem shortest_pos {x : Rat} (positive : 0 < x) (exact : double x = x) :
    0 < (shortest x).1 := by
  have read := shortest_exact positive.le exact
  by_contra none
  rw [Nat.eq_zero_of_not_pos none, Nat.cast_zero, zero_mul, double_of_nonneg le_rfl,
    magnitude_zero] at read
  exact positive.ne read

/-! ## Integers -/

theorem mem_nearby {x : Rat} {p : Int} {s : Nat} (member : s ∈ nearby x p) :
    s = ⌊x / 10 ^ p⌋₊ ∨ s = ⌊x / 10 ^ p⌋₊ + 1 := by
  unfold nearby at member
  dsimp only at member
  split at member
  · simpa using member
  · simpa [or_comm] using member

/-- A multiple of a power of ten that is read as an integer is the integer. -/
theorem significand_natCast {n p s : Nat} (bound : n < 10 ^ 15) (place : p ≤ 15)
    (found : significand n p = some s) : s * 10 ^ p = n := by
  have read : double (s * 10 ^ (p : Int)) = n := by simpa using List.find?_some found
  have small : s ≤ n / 10 ^ p + 1 := by
    have floor : ⌊(n : Rat) / 10 ^ (p : Int)⌋₊ = n / 10 ^ p := by
      have whole : (n : Rat) / 10 ^ (p : Int) = (n : Rat) / (10 ^ p : Nat) := by
        rw [zpow_natCast, Nat.cast_pow, Nat.cast_ofNat]
      rw [whole, Nat.floor_div_eq_div]
    rcases mem_nearby (List.mem_of_find?_eq_some found) with same | more
    · omega
    · omega
  have most : s * 10 ^ p ≤ 2 ^ 53 := by
    have ten : 10 ^ p ≤ 10 ^ 15 := Nat.pow_le_pow_right (by decide) place
    calc s * 10 ^ p ≤ (n / 10 ^ p + 1) * 10 ^ p := Nat.mul_le_mul_right _ small
      _ = n / 10 ^ p * 10 ^ p + 10 ^ p := by ring
      _ ≤ n + 10 ^ p := Nat.add_le_add_right (Nat.div_mul_le_self n _) _
      _ ≤ 2 ^ 53 := by omega
  have whole : ((s : Rat) * 10 ^ (p : Int)) = ((s * 10 ^ p : Nat) : Rat) := by
    push_cast
    rfl
  rw [whole, double_natCast most] at read
  exact_mod_cast read

theorem significand_unit {n : Nat} (bound : n < 10 ^ 15) : significand n 0 = some n := by
  have whole : double n = n := double_natCast (by omega)
  simp [significand, nearby, whole]

theorem search_natCast {n : Nat} (bound : n < 10 ^ 15) {rounds p : Nat} (place : p ≤ 15)
    (enough : p < rounds) : ∃ s q : Nat, search n rounds p = (s, (q : Int)) ∧ s * 10 ^ q = n := by
  induction rounds generalizing p with
  | zero => omega
  | succ rounds ih =>
      rw [search]
      cases found : significand n p with
      | some s => exact ⟨s, p, rfl, significand_natCast bound place found⟩
      | none =>
          cases p with
          | zero =>
              rw [Nat.cast_zero, significand_unit bound] at found
              cases found
          | succ p =>
              have next : ((p + 1 : Nat) : Int) - 1 = (p : Nat) := by omega
              simp only [next]
              exact ih (by omega) (by omega)

theorem decimal_mul_ten_pow {s : Nat} (positive : 0 < s) (p : Nat) :
    decimal (s * 10 ^ p) = decimal s ++ List.replicate p 48 := by
  induction p with
  | zero => simp
  | succ p ih =>
      have large : 10 ≤ s * 10 ^ (p + 1) := by
        have := Nat.pow_pos (n := p) (show 0 < 10 by decide)
        rw [Nat.pow_succ]
        nlinarith
      have quotient : s * 10 ^ (p + 1) / 10 = s * 10 ^ p := by
        rw [Nat.pow_succ, ← Nat.mul_assoc, Nat.mul_div_cancel _ (by decide)]
      have rest : s * 10 ^ (p + 1) % 10 = 0 := by
        rw [Nat.pow_succ, ← Nat.mul_assoc, Nat.mul_mod_left]
      rw [decimal_of_le large, quotient, rest, ih, List.append_assoc, List.replicate_succ']
      rfl

/-- **An integer of up to 15 digits has its own numeral.** -/
theorem numeral_natCast {n : Nat} (bound : n < 10 ^ 15) : numeral n = decimal n := by
  rcases n.eq_zero_or_pos with rfl | positive
  · decide
  · have length : (decimal n).length ≤ 15 := decimal_length_le (by decide) bound
    obtain ⟨s, p, found, value⟩ : ∃ s q : Nat,
        search n ((decimal n).length + 1074) (decimal n).length = (s, (q : Int)) ∧ s * 10 ^ q = n :=
      search_natCast bound length (by omega)
    have digits : 0 < s := Nat.pos_of_ne_zero (by rintro rfl; omega)
    have text := decimal_mul_ten_pow digits p
    rw [value] at text
    have shape : shortest n = (s, (p : Int)) := by
      rw [shortest, Nat.floor_natCast]
      exact found
    have notZero : (n : Rat) ≠ 0 := by exact_mod_cast positive.ne'
    have notNegative : ¬(n : Rat) < 0 := not_lt.mpr (Nat.cast_nonneg n)
    have short : ((decimal s).length : Int) + p ≤ 21 := by
      rw [text, List.length_append, List.length_replicate] at length
      omega
    rw [numeral, if_neg notZero, Nat.abs_cast, shape]
    dsimp only
    rw [if_neg notNegative, List.nil_append, positional]
    rw [if_pos ⟨Int.natCast_nonneg p, short⟩, Int.toNat_natCast, text]

end IrHub.Theory.Double
