/-
# Theory.Bytes -- text as bytes, and decimal numerals

Text on a wire or in a `char` array is a list of bytes.  `decimal` is the numeral
`printf` writes for an unsigned number and a JSON printer writes for an integer;
`ofDigits` reads a run of digits back.  `ofDigits_decimal` and the two facts about
where a numeral stops (`takeWhile_decimal`, `dropWhile_decimal`) are all a
round-trip proof needs of them; `takeWhile_run` and `dropWhile_run` say it of any run.
-/
import Mathlib.Tactic.Common
import Mathlib.Tactic.IntervalCases

namespace IrHub.Theory

set_option autoImplicit false

/-- The bytes of an ASCII literal. -/
def bytes (s : String) : List UInt8 := s.toList.map Char.toUInt8

/-- `text` up to its first NUL: the C string stored there. -/
def cstr (text : List UInt8) : List UInt8 := text.takeWhile (· != 0)

/-! ## Digits -/

def isDigit (b : UInt8) : Bool := 48 ≤ b && b ≤ 57

/-- The numeral of `n` in base ten, no leading zero. -/
def decimal (n : Nat) : List UInt8 := (Nat.toDigits 10 n).map Char.toUInt8

/-- The value of a run of digits. -/
def ofDigits (ds : List UInt8) : Nat := ds.foldl (fun acc b => 10 * acc + (b.toNat - 48)) 0

theorem digitChar_toUInt8 {d : Nat} (small : d < 10) :
    d.digitChar.toUInt8 = UInt8.ofNat (48 + d) := by
  interval_cases d <;> decide

theorem decimal_of_lt {n : Nat} (small : n < 10) : decimal n = [UInt8.ofNat (48 + n)] := by
  simp [decimal, Nat.toDigits_of_lt_base small, digitChar_toUInt8 small]

theorem decimal_of_le {n : Nat} (large : 10 ≤ n) :
    decimal n = decimal (n / 10) ++ [UInt8.ofNat (48 + n % 10)] := by
  simp [decimal, Nat.toDigits_of_base_le (by decide) large,
    digitChar_toUInt8 (Nat.mod_lt n (by decide : 0 < 10))]

theorem isDigit_ofNat {d : Nat} (small : d < 10) : isDigit (UInt8.ofNat (48 + d)) = true := by
  interval_cases d <;> decide

theorem toNat_digit {d : Nat} (small : d < 10) : (UInt8.ofNat (48 + d)).toNat - 48 = d := by
  interval_cases d <;> decide

theorem isDigit_of_mem_decimal {n : Nat} {b : UInt8} (member : b ∈ decimal n) :
    isDigit b = true := by
  induction n using Nat.strongRecOn with
  | _ n ih =>
    by_cases small : n < 10
    · rw [decimal_of_lt small, List.mem_singleton] at member
      exact member ▸ isDigit_ofNat small
    · rw [decimal_of_le (by omega), List.mem_append, List.mem_singleton] at member
      rcases member with earlier | rfl
      · exact ih (n / 10) (by omega) earlier
      · exact isDigit_ofNat (Nat.mod_lt n (by decide))

theorem decimal_ne_nil (n : Nat) : decimal n ≠ [] := by
  simp [decimal, Nat.toDigits_ne_nil]

theorem decimal_length_le {n k : Nat} (pos : 0 < k) (bound : n < 10 ^ k) :
    (decimal n).length ≤ k := by
  simpa [decimal] using (Nat.length_toDigits_le_iff (by decide) pos).mpr bound

theorem decimal_cons (n : Nat) : ∃ b ds, decimal n = b :: ds ∧ isDigit b = true := by
  cases shape : decimal n with
  | nil => exact absurd shape (decimal_ne_nil n)
  | cons b ds => exact ⟨b, ds, rfl, isDigit_of_mem_decimal (n := n) (by simp [shape])⟩

theorem ofDigits_snoc (ds : List UInt8) (b : UInt8) :
    ofDigits (ds ++ [b]) = 10 * ofDigits ds + (b.toNat - 48) := by
  simp [ofDigits]

theorem ofDigits_decimal (n : Nat) : ofDigits (decimal n) = n := by
  induction n using Nat.strongRecOn with
  | _ n ih =>
    by_cases small : n < 10
    · rw [decimal_of_lt small]
      simpa [ofDigits] using toNat_digit small
    · rw [decimal_of_le (by omega), ofDigits_snoc, ih (n / 10) (by omega),
        toNat_digit (Nat.mod_lt n (by decide))]
      omega

/-- Only the numeral of zero starts with a zero. -/
theorem decimal_head_zero {n : Nat} {ds : List UInt8} (shape : decimal n = 48 :: ds) :
    ds = [] := by
  induction n using Nat.strongRecOn generalizing ds with
  | _ n ih =>
    by_cases small : n < 10
    · rw [decimal_of_lt small] at shape
      exact (List.cons.inj shape).2.symm
    · rw [decimal_of_le (by omega)] at shape
      obtain ⟨b, rest, front, -⟩ := decimal_cons (n / 10)
      rw [front, List.cons_append] at shape
      obtain ⟨rfl, -⟩ := List.cons.inj shape
      -- the leading digits then read back as zero, but `n / 10` is positive
      have alone := ih (n / 10) (by omega) front
      have value := ofDigits_decimal (n / 10)
      rw [front, alone] at value
      simp [ofDigits] at value
      omega

/-- A run ends where the text goes on with something else. -/
theorem takeWhile_run {p : UInt8 → Bool} {run rest : List UInt8} (all : ∀ b ∈ run, p b = true)
    (stops : ∀ b, rest.head? = some b → p b = false) : (run ++ rest).takeWhile p = run := by
  rw [List.takeWhile_append_of_pos all]
  cases rest with
  | nil => simp
  | cons b rest => simp [stops b rfl]

theorem dropWhile_run {p : UInt8 → Bool} {run rest : List UInt8} (all : ∀ b ∈ run, p b = true)
    (stops : ∀ b, rest.head? = some b → p b = false) : (run ++ rest).dropWhile p = rest := by
  rw [List.dropWhile_append_of_pos all]
  cases rest with
  | nil => simp
  | cons b rest => simp [stops b rfl]

/-- A numeral stops where the digits stop. -/
theorem takeWhile_decimal (n : Nat) {rest : List UInt8}
    (stops : ∀ b, rest.head? = some b → isDigit b = false) :
    (decimal n ++ rest).takeWhile isDigit = decimal n :=
  takeWhile_run (fun _ member => isDigit_of_mem_decimal member) stops

theorem dropWhile_decimal (n : Nat) {rest : List UInt8}
    (stops : ∀ b, rest.head? = some b → isDigit b = false) :
    (decimal n ++ rest).dropWhile isDigit = rest :=
  dropWhile_run (fun _ member => isDigit_of_mem_decimal member) stops

/-! ## Comma-separated lists -/

/-- Items with a comma before every one but the first. -/
def commaSep : List (List UInt8) → List UInt8
  | [] => []
  | x :: xs => x ++ xs.flatMap fun y => 44 :: y

theorem commaSep_cons_cons (x y : List UInt8) (ys : List (List UInt8)) :
    commaSep (x :: y :: ys) = x ++ 44 :: commaSep (y :: ys) := by
  simp [commaSep]

theorem commaSep_length (x : List UInt8) (xs : List (List UInt8)) :
    (commaSep (x :: xs)).length = ((x :: xs).map List.length).sum + xs.length := by
  induction xs generalizing x with
  | nil => simp [commaSep]
  | cons y ys ih =>
      have rest := ih y
      simp only [commaSep_cons_cons, List.length_append, List.length_cons, List.map_cons,
        List.sum_cons] at rest ⊢
      omega

end IrHub.Theory
