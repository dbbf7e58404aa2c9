/-
# Theory.CLibrary -- the C string functions the firmware calls

A pointer into a NUL-terminated buffer is the list of bytes from it to the end of
the buffer; the terminator itself is the end of the list.  A buffer may hold NULs
before its end, and no function here looks past the first one, so none of them
depends on what follows it.

`long` is 32 bits wide on the target, so `strtol` and `strtoul` saturate at the
32-bit limits.  `snprintf` is `Out.write`: text already in the buffer, the text
to add, the size of the buffer.
-/
import IrHub.Theory.Bytes
import Mathlib.Data.List.TakeWhile
import Mathlib.Data.Int.Order.Basic

namespace IrHub.Theory

set_option autoImplicit false

/-! ## Searching -/

/-- The first `c` before the terminator. -/
def strchr : List UInt8 → UInt8 → Option (List UInt8)
  | [], _ => none
  | b :: p, c => if b = c then some (b :: p) else if b = 0 then none else strchr p c

/-- The first occurrence of `pattern` before the terminator. -/
def strstr (pattern : List UInt8) : List UInt8 → Option (List UInt8)
  | [] => if pattern = [] then some [] else none
  | b :: p =>
      if pattern.isPrefixOf (b :: p) then some (b :: p)
      else if b = 0 then none else strstr pattern p

theorem strchr_cons_self (c : UInt8) (p : List UInt8) : strchr (c :: p) c = some (c :: p) := by
  simp [strchr]

/-- Text with no NUL and no `c` is passed over. -/
theorem strchr_append {front : List UInt8} {c : UInt8} (p : List UInt8)
    (clean : ∀ b ∈ front, b ≠ 0 ∧ b ≠ c) : strchr (front ++ p) c = strchr p c := by
  induction front with
  | nil => rfl
  | cons b front ih =>
      obtain ⟨notNul, notHit⟩ := clean b (by simp)
      rw [List.cons_append, strchr, if_neg notHit, if_neg notNul]
      exact ih fun x member => clean x (by simp [member])

theorem strstr_prefix (pattern p : List UInt8) (nonempty : pattern ≠ []) :
    strstr pattern (pattern ++ p) = some (pattern ++ p) := by
  cases pattern with
  | nil => exact absurd rfl nonempty
  | cons c cs =>
      have found : (c :: cs).isPrefixOf (c :: (cs ++ p)) = true := by
        rw [List.isPrefixOf_iff_prefix]
        exact List.prefix_append (c :: cs) p
      rw [List.cons_append, strstr, if_pos found]

/-- A byte that is not the pattern's first one is passed over. -/
theorem strstr_cons_ne {c b : UInt8} {cs : List UInt8} (p : List UInt8) (notNul : b ≠ 0)
    (differs : b ≠ c) : strstr (c :: cs) (b :: p) = strstr (c :: cs) p := by
  have miss : (c :: cs).isPrefixOf (b :: p) = false := by
    simp [List.isPrefixOf, Ne.symm differs]
  simp [strstr, miss, notNul]

/-- The pattern's first byte followed by a wrong second one is passed over. -/
theorem strstr_cons_cons_ne {c d e : UInt8} {ds : List UInt8} (p : List UInt8) (notNul : c ≠ 0)
    (differs : e ≠ d) : strstr (c :: d :: ds) (c :: e :: p) = strstr (c :: d :: ds) (e :: p) := by
  have miss : (c :: d :: ds).isPrefixOf (c :: e :: p) = false := by
    simp [List.isPrefixOf, Ne.symm differs]
  simp [strstr, miss, notNul]

theorem strstr_append {front : List UInt8} {c : UInt8} {cs : List UInt8} (p : List UInt8)
    (clean : ∀ b ∈ front, b ≠ 0 ∧ b ≠ c) :
    strstr (c :: cs) (front ++ p) = strstr (c :: cs) p := by
  induction front with
  | nil => rfl
  | cons b front ih =>
      obtain ⟨notNul, differs⟩ := clean b (by simp)
      rw [List.cons_append, strstr_cons_ne _ notNul differs]
      exact ih fun x member => clean x (by simp [member])

/-- Where an occurrence starts, the text behind it begins with the pattern. -/
theorem prefix_of_strstr {pattern text p : List UInt8} (hit : strstr pattern text = some p) :
    pattern <+: p ∧ p <:+ text := by
  induction text with
  | nil =>
      rw [strstr] at hit
      split at hit
      · rename_i empty
        cases hit
        exact ⟨by simp [empty], List.suffix_refl []⟩
      · cases hit
  | cons b text ih =>
      rw [strstr] at hit
      split at hit
      · rename_i found
        cases hit
        exact ⟨List.isPrefixOf_iff_prefix.mp found, List.suffix_refl _⟩
      · split at hit
        · cases hit
        · obtain ⟨starts, ends⟩ := ih hit
          exact ⟨starts, ends.trans (List.suffix_cons b text)⟩

/-- The first occurrence stays the first one when text is added behind. -/
theorem strstr_append_some {pattern text p : List UInt8} (hit : strstr pattern text = some p)
    (back : List UInt8) : strstr pattern (text ++ back) = some (p ++ back) := by
  induction text with
  | nil =>
      rw [strstr] at hit
      split at hit
      · rename_i empty
        cases hit
        cases back <;> simp [strstr, empty]
      · cases hit
  | cons b text ih =>
      rw [strstr] at hit
      rw [List.cons_append, strstr]
      split at hit
      · rename_i found
        cases hit
        have longer : pattern <+: b :: (text ++ back) :=
          (List.isPrefixOf_iff_prefix.mp found).trans (List.prefix_append (b :: text) back)
        rw [if_pos (List.isPrefixOf_iff_prefix.mpr longer), List.cons_append]
      · rename_i missed
        split at hit
        · cases hit
        · rename_i notNul
          -- the occurrence found later is as long as the pattern, so one here would end before it
          obtain ⟨starts, ends⟩ := prefix_of_strstr hit
          have inside : ¬pattern.isPrefixOf (b :: (text ++ back)) = true := fun early => by
            have length := starts.length_le.trans ends.length_le
            have short : pattern <+: b :: text := List.prefix_of_prefix_length_le
              (List.isPrefixOf_iff_prefix.mp early) (List.prefix_append (b :: text) back)
              (by rw [List.length_cons]; omega)
            exact missed (List.isPrefixOf_iff_prefix.mpr short)
          rw [if_neg inside, if_neg notNul]
          exact ih hit

/-- A pattern that occurs behind text without NUL is found, there or earlier. -/
theorem strstr_exists {pattern : List UInt8} (nonempty : pattern ≠ []) {front : List UInt8}
    (noNul : 0 ∉ front) (back : List UInt8) :
    ∃ p, strstr pattern (front ++ (pattern ++ back)) = some p := by
  induction front with
  | nil => exact ⟨_, strstr_prefix pattern back nonempty⟩
  | cons b front ih =>
      simp only [List.mem_cons, not_or] at noNul
      rw [List.cons_append, strstr]
      split
      · exact ⟨_, rfl⟩
      · rw [if_neg (Ne.symm noNul.1)]
        exact ih noNul.2

/-- A byte found stands behind text with no NUL and without that byte. -/
theorem split_of_strchr {p q : List UInt8} {c : UInt8} (hit : strchr p c = some q) :
    ∃ front rest, p = front ++ c :: rest ∧ q = c :: rest ∧ ∀ b ∈ front, b ≠ 0 ∧ b ≠ c := by
  induction p with
  | nil => cases hit
  | cons b p ih =>
      rw [strchr] at hit
      by_cases same : b = c
      · rw [if_pos same] at hit
        cases hit
        exact ⟨[], p, by rw [same]; rfl, by rw [same], by simp⟩
      · rw [if_neg same] at hit
        by_cases nul : b = 0
        · rw [if_pos nul] at hit
          cases hit
        · rw [if_neg nul] at hit
          obtain ⟨front, rest, rfl, shape, clean⟩ := ih hit
          exact ⟨b :: front, rest, rfl, shape, by simpa [nul, same] using clean⟩

theorem strchr_append_some {p q : List UInt8} {c : UInt8} (hit : strchr p c = some q)
    (back : List UInt8) : strchr (p ++ back) c = some (q ++ back) := by
  obtain ⟨front, rest, rfl, rfl, clean⟩ := split_of_strchr hit
  rw [List.append_assoc, strchr_append _ clean, List.cons_append, strchr_cons_self]

theorem not_mem_of_strchr {p : List UInt8} {c : UInt8} (miss : strchr p c = none)
    (noNul : 0 ∉ p) : c ∉ p := by
  intro member
  obtain ⟨front, back, rfl, before⟩ := List.eq_append_cons_of_mem member
  have clean : ∀ b ∈ front, b ≠ 0 ∧ b ≠ c := fun b inside =>
    ⟨fun nul => noNul (by simp [← nul, inside]), fun same => before (same ▸ inside)⟩
  rw [strchr_append _ clean, strchr_cons_self] at miss
  cases miss

/-! ## Numbers -/

/-- `isspace` in the C locale. -/
def isSpace (b : UInt8) : Bool := b == 32 || (9 ≤ b && b ≤ 13)

/-- What `strtol` and `strtoul` read: blanks, a sign, digits. -/
structure Scanned where
  negative : Bool
  magnitude : Nat
  rest : List UInt8
  deriving DecidableEq

/-- The sign, if there is one, and what follows it. -/
def scanSign : List UInt8 → Bool × List UInt8
  | 45 :: p => (true, p)
  | 43 :: p => (false, p)
  | p => (false, p)

/-- `none` when there is no digit: the end pointer is then left at the start. -/
def scanInt (p : List UInt8) : Option Scanned :=
  let signed := scanSign (p.dropWhile isSpace)
  let digits := signed.2.takeWhile isDigit
  if digits = [] then none
  else some ⟨signed.1, ofDigits digits, signed.2.dropWhile isDigit⟩

/-- `strtol(p, &next, 10)`: the value and `next`; `none` when `next == p`. -/
def strtol (p : List UInt8) : Option (Int × List UInt8) :=
  (scanInt p).map fun s =>
    (if s.negative then max (-2147483648) (-(s.magnitude : Int)) else min 2147483647 s.magnitude,
      s.rest)

/-- `strtoul(p, nullptr, 10)`: zero without digits, `ULONG_MAX` past the range,
and a minus sign negates in the unsigned type. -/
def strtoul (p : List UInt8) : UInt32 :=
  match scanInt p with
  | none => 0
  | some s =>
      if 4294967295 < s.magnitude then 4294967295
      else if s.negative then -UInt32.ofNat s.magnitude else UInt32.ofNat s.magnitude

theorem digit_not_space {b : UInt8} (digit : isDigit b = true) : isSpace b = false := by
  simp only [isDigit, Bool.and_eq_true, decide_eq_true_eq] at digit
  simp only [isSpace, Bool.or_eq_false_iff, beq_eq_false_iff_ne, Bool.and_eq_false_iff,
    decide_eq_false_iff_not]
  grind

theorem scanSign_digit {b : UInt8} (p : List UInt8) (digit : isDigit b = true) :
    scanSign (b :: p) = (false, b :: p) := by
  unfold scanSign
  split
  · simp_all [isDigit]
  · simp_all [isDigit]
  · rfl

theorem scanInt_blanks {blanks : List UInt8} (p : List UInt8)
    (spaces : ∀ b ∈ blanks, isSpace b = true) : scanInt (blanks ++ p) = scanInt p := by
  rw [scanInt, scanInt, List.dropWhile_append_of_pos spaces]

theorem scanInt_decimal (n : Nat) {rest : List UInt8}
    (stops : ∀ b, rest.head? = some b → isDigit b = false) :
    scanInt (decimal n ++ rest) = some ⟨false, n, rest⟩ := by
  obtain ⟨b, ds, shape, digit⟩ := decimal_cons n
  have noBlank : (decimal n ++ rest).dropWhile isSpace = decimal n ++ rest := by
    simp [shape, digit_not_space digit]
  have noSign : scanSign (decimal n ++ rest) = (false, decimal n ++ rest) := by
    rw [shape, List.cons_append, scanSign_digit _ digit]
  simp only [scanInt, noBlank, noSign, takeWhile_decimal n stops, dropWhile_decimal n stops,
    decimal_ne_nil, if_false, ofDigits_decimal]

theorem strtol_decimal {n : Nat} (small : n ≤ 2147483647) {rest : List UInt8}
    (stops : ∀ b, rest.head? = some b → isDigit b = false) :
    strtol (decimal n ++ rest) = some ((n : Int), rest) := by
  simp [strtol, scanInt_decimal n stops]
  omega

theorem strtoul_decimal (n : UInt32) {rest : List UInt8}
    (stops : ∀ b, rest.head? = some b → isDigit b = false) :
    strtoul (decimal n.toNat ++ rest) = n := by
  have bound := n.toNat_lt
  simp only [strtoul, scanInt_decimal _ stops]
  rw [if_neg (by omega)]
  simp

theorem strtoul_blanks {blanks : List UInt8} (p : List UInt8)
    (spaces : ∀ b ∈ blanks, isSpace b = true) : strtoul (blanks ++ p) = strtoul p := by
  rw [strtoul, strtoul, scanInt_blanks p spaces]

/-! ## C strings -/

/-- A text with a NUL is its C string, the NUL and the rest. -/
theorem cstr_append_of_mem {s : List UInt8} (terminated : 0 ∈ s) :
    ∃ rest, s = cstr s ++ 0 :: rest := by
  induction s with
  | nil => cases terminated
  | cons b s ih =>
      by_cases nul : b = 0
      · exact ⟨s, by simp [cstr, nul]⟩
      · have later : 0 ∈ s := by simpa [Ne.symm nul] using terminated
        obtain ⟨rest, shape⟩ := ih later
        have head : cstr (b :: s) = b :: cstr s := by simp [cstr, nul]
        exact ⟨rest, by rw [head, List.cons_append, ← shape]⟩

theorem nul_not_mem_cstr (s : List UInt8) : 0 ∉ cstr s := by
  intro member
  simpa using List.mem_takeWhile_imp member

theorem cstr_append_nul {t : List UInt8} (rest : List UInt8) (clean : 0 ∉ t) :
    cstr (t ++ 0 :: rest) = t := by
  induction t with
  | nil => simp [cstr]
  | cons b t ih =>
      obtain ⟨head, tail⟩ := not_or.mp (mt List.mem_cons.mpr clean)
      have more := ih tail
      simpa [cstr, Ne.symm head] using more

theorem cstr_length_lt {s : List UInt8} (terminated : 0 ∈ s) : (cstr s).length < s.length := by
  obtain ⟨rest, shape⟩ := cstr_append_of_mem terminated
  have length := congrArg List.length shape
  rw [List.length_append, List.length_cons] at length
  omega

/-! ## Writing -/

/-- One `snprintf` at the end of the text already in a buffer of `size` bytes:
`none` when the added text and its NUL do not fit, which is when the value
returned is not below the room left. -/
def snprintf (size : Nat) (out piece : List UInt8) : Option (List UInt8) :=
  if size - out.length ≤ piece.length then none else some (out ++ piece)

theorem snprintf_fits {size : Nat} {out piece : List UInt8}
    (fits : out.length + piece.length < size) : snprintf size out piece = some (out ++ piece) := by
  rw [snprintf, if_neg (by omega)]

theorem snprintf_eq_some {size : Nat} {out piece text : List UInt8}
    (written : snprintf size out piece = some text) :
    text = out ++ piece ∧ text.length < size := by
  rw [snprintf] at written
  split at written
  · cases written
  · cases written
    rw [List.length_append]
    exact ⟨rfl, by omega⟩

/-- `strncpy` into a zeroed field of `n + 1` bytes, `n` of them copied at most:
the C string, cut to `n` bytes. -/
def strncpy (n : Nat) (src : List UInt8) : List UInt8 := (cstr src).take n

end IrHub.Theory
