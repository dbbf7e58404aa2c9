/-
# Theory.Crc -- a reflected cyclic redundancy check, bit by bit

The register is shifted down and the generator `g` is put in where a one falls out.
`run g x bits` takes bits in one after the other.  When the top bit of `g` is set no
step loses anything (`step_injective`), and as many bits as the register is wide can
be put in at once (`run_eq_iterate`).

So two inputs that differ in a window no wider than the register never leave the same
register behind (`run_burst`): a burst is detected wherever it is.
-/
import Mathlib.Tactic.Common
import Mathlib.Data.List.Basic
import Mathlib.Logic.Function.Iterate

namespace IrHub.Theory.Crc

set_option autoImplicit false

variable {w : Nat}

/-- One bit as a register. -/
def bit (b : Bool) : BitVec w := if b then 1#w else 0#w

/-- The register shifted, with the generator where a one fell out. -/
def step (g x : BitVec w) : BitVec w := (x >>> 1) ^^^ (if x.getLsbD 0 then g else 0#w)

/-- One bit taken in. -/
def feed (g x : BitVec w) (b : Bool) : BitVec w := step g (x ^^^ bit b)

def run (g x : BitVec w) (bits : List Bool) : BitVec w := bits.foldl (feed g) x

/-- Bits as a number, the first one lowest. -/
def ofBits : List Bool → BitVec w
  | [] => 0#w
  | b :: bits => (ofBits bits <<< 1) ^^^ bit b

/-! ## One step -/

theorem step_xor (g x y : BitVec w) : step g (x ^^^ y) = step g x ^^^ step g y := by
  have swap : ∀ a b c d : BitVec w, (a ^^^ b) ^^^ (c ^^^ d) = (a ^^^ c) ^^^ (b ^^^ d) := by
    intro a b c d
    ac_rfl
  rw [step, step, step, swap, BitVec.ushiftRight_xor_distrib, BitVec.getLsbD_xor]
  congr 1
  cases x.getLsbD 0 <;> cases y.getLsbD 0 <;> simp

/-- A register that a step clears was clear: the top bit says whether a one fell out. -/
theorem step_eq_zero {g x : BitVec w} (top : g.getLsbD (w - 1) = true)
    (zero : step g x = 0#w) : x = 0#w := by
  have wide : 0 < w := by
    rcases Nat.eq_zero_or_pos w with rfl | wide
    · rw [BitVec.getLsbD_of_ge g _ (Nat.zero_le _)] at top
      cases top
    · exact wide
  have low : x.getLsbD 0 = false := by
    have last := congrArg (fun y => y.getLsbD (w - 1)) zero
    simp only [step, BitVec.getLsbD_xor, BitVec.getLsbD_ushiftRight, BitVec.getLsbD_zero] at last
    rw [BitVec.getLsbD_of_ge x _ (by omega)] at last
    by_contra one
    rw [Bool.not_eq_false] at one
    simp [one, top] at last
  apply BitVec.eq_of_getLsbD_eq
  intro i inside
  cases i with
  | zero => simpa using low
  | succ i =>
      have shifted := congrArg (fun y => y.getLsbD i) zero
      simp only [step, low, Bool.false_eq_true, if_false, BitVec.xor_zero,
        BitVec.getLsbD_ushiftRight, BitVec.getLsbD_zero] at shifted
      rw [Nat.add_comm] at shifted
      simpa using shifted

theorem step_injective {g : BitVec w} (top : g.getLsbD (w - 1) = true) :
    Function.Injective (step g) := by
  intro x y same
  have none : step g (x ^^^ y) = 0#w := by rw [step_xor, same, BitVec.xor_self]
  exact BitVec.xor_eq_zero_iff.mp (step_eq_zero top none)

/-! ## Bits as a number -/

theorem getLsbD_bit (b : Bool) {i : Nat} (inside : i < w) :
    (bit b : BitVec w).getLsbD i = (decide (i = 0) && b) := by
  cases b with
  | false => simp [bit]
  | true =>
      have wide : 0 < w := by omega
      simp [bit, BitVec.getLsbD_one, wide]

/-- Where each bit stands. -/
theorem getLsbD_ofBits (bits : List Bool) {i : Nat} (inside : i < w) :
    (ofBits bits : BitVec w).getLsbD i = bits.getD i false := by
  induction bits generalizing i with
  | nil => simp [ofBits]
  | cons b bits ih =>
      rw [ofBits, BitVec.getLsbD_xor, BitVec.getLsbD_shiftLeft, getLsbD_bit b inside]
      cases i with
      | zero => simp
      | succ i =>
          have rest := ih (i := i) (by omega)
          simp only [Nat.add_sub_cancel, rest]
          simp [inside]

theorem ofBits_inj {xs ys : List Bool} (same : xs.length = ys.length) (short : xs.length ≤ w)
    (equal : (ofBits xs : BitVec w) = ofBits ys) : xs = ys := by
  apply List.ext_getElem same
  intro i left right
  have inside : i < w := by omega
  have entry := congrArg (fun x => x.getLsbD i) equal
  rw [getLsbD_ofBits xs inside, getLsbD_ofBits ys inside] at entry
  simpa [left, right] using entry

/-- Less than a register of bits is moved down whole. -/
theorem step_ofBits (g x : BitVec w) {bits : List Bool} (short : bits.length < w) (b : Bool) :
    step g (x ^^^ ofBits (b :: bits)) = feed g x b ^^^ ofBits bits := by
  have even : (ofBits bits <<< 1 : BitVec w).getLsbD 0 = false := by simp
  have back : (ofBits bits <<< 1 : BitVec w) >>> 1 = ofBits bits := by
    apply BitVec.eq_of_getLsbD_eq
    intro i inside
    rw [BitVec.getLsbD_ushiftRight, BitVec.getLsbD_shiftLeft]
    by_cases last : 1 + i < w
    · simp [last]
    · have beyond : bits.length ≤ i := by omega
      rw [getLsbD_ofBits bits inside]
      simp [last, beyond]
  have moved : step g (ofBits bits <<< 1 : BitVec w) = ofBits bits := by
    rw [step, even, back]
    simp
  rw [ofBits, BitVec.xor_comm (ofBits bits <<< 1), ← BitVec.xor_assoc, step_xor, moved]
  rfl

/-! ## Runs -/

theorem run_append (g x : BitVec w) (front back : List Bool) :
    run g x (front ++ back) = run g (run g x front) back := List.foldl_append

theorem run_injective {g : BitVec w} (top : g.getLsbD (w - 1) = true) (bits : List Bool) :
    Function.Injective fun x => run g x bits := by
  induction bits with
  | nil => exact fun _ _ same => same
  | cons b bits ih =>
      intro x y same
      have fed : feed g x b = feed g y b := ih same
      have put := step_injective top fed
      simpa using put

/-- Bits that fit the register can be put in at once. -/
theorem run_eq_iterate (g x : BitVec w) {bits : List Bool} (short : bits.length ≤ w) :
    run g x bits = (step g)^[bits.length] (x ^^^ ofBits bits) := by
  induction bits generalizing x with
  | nil => simp [run, ofBits]
  | cons b bits ih =>
      rw [List.length_cons] at short
      rw [List.length_cons, Function.iterate_succ_apply, step_ofBits g x (by omega),
        ← ih (feed g x b) (by omega)]
      rfl

/-- **A burst no wider than the register shows.** -/
theorem run_burst {g : BitVec w} (top : g.getLsbD (w - 1) = true) (x : BitVec w)
    {front back xs ys : List Bool} (same : xs.length = ys.length) (short : xs.length ≤ w)
    (equal : run g x (front ++ xs ++ back) = run g x (front ++ ys ++ back)) : xs = ys := by
  simp only [run_append] at equal
  have inner := run_injective top back equal
  rw [run_eq_iterate g (run g x front) short, run_eq_iterate g (run g x front) (same ▸ short),
    ← same] at inner
  have numbers := (step_injective top).iterate _ inner
  exact ofBits_inj same short (by simpa using numbers)

end IrHub.Theory.Crc
