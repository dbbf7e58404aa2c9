/-
# Theory.Utf16 -- strings of UTF-16 code units, and their bytes in UTF-8

A string of a script is a list of code units, whatever they are.  `scalars` reads the
characters: a surrogate without its other half becomes U+FFFD.  `encode` is
`TextEncoder.encode`, with the UTF-8 of Lean.

ASCII is encoded as it is, and nothing else is encoded in ASCII (`encode_ascii`,
`ascii_of_encode`), so what is said of a string of ASCII bytes can be said of its units.
-/
import IrHub.Theory.Bytes
import Mathlib.Data.List.DropRight
import Mathlib.Tactic.Common

namespace IrHub.Theory.Utf16

set_option autoImplicit false

/-! ## Encoding -/

/-- The first half of a pair. -/
def isHigh (u : UInt16) : Bool := 0xD800 ≤ u && u ≤ 0xDBFF

/-- The second half. -/
def isLow (u : UInt16) : Bool := 0xDC00 ≤ u && u ≤ 0xDFFF

/-- A unit by itself. -/
def single (u : UInt16) : Char :=
  if isHigh u || isLow u then Char.ofNat 0xFFFD else Char.ofNat u.toNat

def pair (high low : UInt16) : Char :=
  Char.ofNat (0x10000 + (high.toNat - 0xD800) * 0x400 + (low.toNat - 0xDC00))

def scalars : List UInt16 → List Char
  | [] => []
  | [u] => [single u]
  | u :: v :: s =>
      if isHigh u && isLow v then pair u v :: scalars s else single u :: scalars (v :: s)

/-- `new TextEncoder().encode(s)` -/
def encode (s : List UInt16) : List UInt8 := (scalars s).flatMap String.utf8EncodeChar

/-- White space and line terminators. -/
def isWhite (u : UInt16) : Bool :=
  [0x9, 0xA, 0xB, 0xC, 0xD, 0x20, 0xA0, 0x1680, 0x2028, 0x2029, 0x202F, 0x205F, 0x3000,
    0xFEFF].contains u || (0x2000 ≤ u && u ≤ 0x200A)

/-- `s.trim()` -/
def trim (s : List UInt16) : List UInt16 := (s.dropWhile isWhite).rdropWhile isWhite

theorem mem_of_mem_trim {u : UInt16} {s : List UInt16} (member : u ∈ trim s) : u ∈ s :=
  (List.dropWhile_sublist _).subset ((List.rdropWhile_prefix _ _).subset member)

/-! ## Characters -/

theorem toNat_ofNat {n : Nat} (valid : n.isValidChar) : (Char.ofNat n).toNat = n := by
  rw [Char.ofNat, dif_pos valid]
  rfl

theorem toNat_single (u : UInt16) :
    (single u).toNat = if isHigh u || isLow u then 0xFFFD else u.toNat := by
  unfold single
  split
  · rfl
  · rename_i plain
    refine toNat_ofNat ?_
    have bound := u.toNat_lt
    simp only [isHigh, isLow, Bool.or_eq_true, Bool.and_eq_true, decide_eq_true_eq, not_or,
      not_and, UInt16.le_iff_toNat_le] at plain
    simp only [Nat.isValidChar]
    have low : (0xD800 : UInt16).toNat = 55296 := rfl
    have high : (0xDBFF : UInt16).toNat = 56319 := rfl
    have low' : (0xDC00 : UInt16).toNat = 56320 := rfl
    have high' : (0xDFFF : UInt16).toNat = 57343 := rfl
    omega

theorem toNat_pair {u v : UInt16} (surrogates : (isHigh u && isLow v) = true) :
    0x10000 ≤ (pair u v).toNat := by
  simp only [isHigh, isLow, Bool.and_eq_true, decide_eq_true_eq,
    UInt16.le_iff_toNat_le] at surrogates
  have low : (0xD800 : UInt16).toNat = 55296 := rfl
  have high : (0xDBFF : UInt16).toNat = 56319 := rfl
  have low' : (0xDC00 : UInt16).toNat = 56320 := rfl
  have high' : (0xDFFF : UInt16).toNat = 57343 := rfl
  unfold pair
  rw [toNat_ofNat]
  · omega
  · simp only [Nat.isValidChar]
    omega

/-- The UTF-8 of a character: ASCII as it is, else bytes beyond it. -/
theorem utf8_cases (c : Char) :
    (c.toNat < 128 ∧ String.utf8EncodeChar c = [UInt8.ofNat c.toNat]) ∨
    (128 ≤ c.toNat ∧ String.utf8EncodeChar c ≠ [] ∧
      ∀ b ∈ String.utf8EncodeChar c, 128 ≤ b.toNat) := by
  have value : c.val.toNat = c.toNat := rfl
  unfold String.utf8EncodeChar
  dsimp only
  rw [value]
  by_cases ascii : c.toNat ≤ 0x7f
  · exact .inl ⟨by omega, if_pos ascii⟩
  · refine .inr ⟨by omega, ?_⟩
    rw [if_neg ascii]
    split
    · simp
      omega
    · split
      · simp
        omega
      · simp
        omega

/-- The characters of a string: each unit by itself, or in a pair beyond them all. -/
theorem scalars_units (s : List UInt16) :
    (∀ c ∈ scalars s, (∃ u ∈ s, c = single u) ∨ 0x10000 ≤ c.toNat) ∧
    ∀ u ∈ s, ∃ c ∈ scalars s, c = single u ∨ 0x10000 ≤ c.toNat := by
  fun_induction scalars s with
  | case1 => exact ⟨nofun, nofun⟩
  | case2 u =>
      constructor
      · intro c member
        exact .inl ⟨u, List.mem_singleton_self u, List.mem_singleton.mp member⟩
      · intro v member
        rw [List.mem_singleton] at member
        exact ⟨single u, List.mem_singleton_self _, .inl (member ▸ rfl)⟩
  | case3 u v s surrogates ih =>
      have beyond := toNat_pair surrogates
      constructor
      · intro c member
        rcases List.mem_cons.mp member with same | later
        · exact .inr (same ▸ beyond)
        · rcases ih.1 c later with ⟨x, there, shape⟩ | large
          · exact .inl ⟨x, by simp [there], shape⟩
          · exact .inr large
      · intro x member
        rcases List.mem_cons.mp member with rfl | member
        · exact ⟨pair x v, List.mem_cons_self, .inr beyond⟩
        · rcases List.mem_cons.mp member with rfl | later
          · exact ⟨pair u x, List.mem_cons_self, .inr beyond⟩
          · obtain ⟨c, there, shape⟩ := ih.2 x later
            exact ⟨c, List.mem_cons_of_mem _ there, shape⟩
  | case4 u v s _ ih =>
      constructor
      · intro c member
        rcases List.mem_cons.mp member with rfl | later
        · exact .inl ⟨u, List.mem_cons_self, rfl⟩
        · rcases ih.1 c later with ⟨x, there, shape⟩ | large
          · exact .inl ⟨x, List.mem_cons_of_mem _ there, shape⟩
          · exact .inr large
      · intro x member
        rcases List.mem_cons.mp member with rfl | later
        · exact ⟨single x, List.mem_cons_self, .inl rfl⟩
        · obtain ⟨c, there, shape⟩ := ih.2 x later
          exact ⟨c, List.mem_cons_of_mem _ there, shape⟩

/-! ## Bytes -/

theorem encode_ne_nil {s : List UInt16} (some : s ≠ []) : encode s ≠ [] := by
  obtain ⟨u, rest, rfl⟩ := List.exists_cons_of_ne_nil some
  obtain ⟨c, member, -⟩ := (scalars_units (u :: rest)).2 u List.mem_cons_self
  intro none
  rw [encode, List.flatMap_eq_nil_iff] at none
  exact String.utf8EncodeChar_ne_nil (none c member)

/-- A string without NUL has no zero byte. -/
theorem nul_not_mem_encode {s : List UInt16} (clean : 0 ∉ s) : 0 ∉ encode s := by
  intro member
  obtain ⟨c, there, zero⟩ := List.mem_flatMap.mp member
  rcases utf8_cases c with ⟨ascii, bytes⟩ | ⟨-, -, beyond⟩
  · rw [bytes, List.mem_singleton] at zero
    have null : c.toNat = 0 := by
      have value : c.toNat % 256 = 0 := (congrArg UInt8.toNat zero).symm
      omega
    rcases (scalars_units s).1 c there with ⟨u, unit, rfl⟩ | large
    · rw [toNat_single] at null
      split at null
      · cases null
      · exact clean ((UInt16.toNat_inj.mp null : u = 0) ▸ unit)
    · omega
  · have large := beyond 0 zero
    simp at large

/-- What is encoded in ASCII is ASCII. -/
theorem ascii_of_encode {s : List UInt16} (ascii : ∀ b ∈ encode s, b.toNat < 128) :
    ∀ u ∈ s, u.toNat < 128 := by
  intro u member
  obtain ⟨c, there, shape⟩ := (scalars_units s).2 u member
  have small : c.toNat < 128 := by
    rcases utf8_cases c with ⟨small, -⟩ | ⟨-, some, beyond⟩
    · exact small
    · obtain ⟨b, bs, bytes⟩ := List.exists_cons_of_ne_nil some
      have byte : b ∈ String.utf8EncodeChar c := bytes ▸ List.mem_cons_self
      have less := ascii b (List.mem_flatMap.mpr ⟨c, there, byte⟩)
      have more := beyond b byte
      omega
  rcases shape with rfl | large
  · rw [toNat_single] at small
    split at small
    · omega
    · exact small
  · omega

/-- ASCII is encoded as it is. -/
theorem encode_ascii {s : List UInt16} (ascii : ∀ u ∈ s, u.toNat < 128) :
    encode s = s.map UInt16.toUInt8 := by
  have plain : ∀ u : UInt16, u.toNat < 128 → isHigh u = false ∧
      String.utf8EncodeChar (single u) = [u.toUInt8] := by
    intro u small
    have high : isHigh u = false := by
      simp only [isHigh, Bool.and_eq_false_iff, decide_eq_false_iff_not, UInt16.le_iff_toNat_le]
      have low : (0xD800 : UInt16).toNat = 55296 := rfl
      omega
    have low : isLow u = false := by
      simp only [isLow, Bool.and_eq_false_iff, decide_eq_false_iff_not, UInt16.le_iff_toNat_le]
      have low : (0xDC00 : UInt16).toNat = 56320 := rfl
      omega
    have value : (single u).toNat = u.toNat := by
      rw [toNat_single, high, low]
      rfl
    refine ⟨high, ?_⟩
    rcases utf8_cases (single u) with ⟨-, bytes⟩ | ⟨large, -, -⟩
    · rw [bytes, value]
      rfl
    · omega
  rw [encode]
  fun_induction scalars s with
  | case1 => rfl
  | case2 u =>
      rw [List.flatMap_singleton, (plain u (ascii u (by simp))).2]
      rfl
  | case3 u v s surrogates _ =>
      rw [(plain u (ascii u (by simp))).1] at surrogates
      cases surrogates
  | case4 u v s _ ih =>
      rw [List.flatMap_cons, (plain u (ascii u (by simp))).2,
        ih fun x member => ascii x (List.mem_cons_of_mem _ member)]
      rfl

end IrHub.Theory.Utf16
