/-
# Theory.Buffer -- writing into and reading from fixed places of a buffer

`writeAt` is `memcpy` to an offset and `slice` is what a reader finds there.  A
buffer is described by its segments, `xs ++ (ys ++ ..)`: a write replaces the
segment that starts at its offset (`writeAt_next`, `writeAt_over`), and a read goes
past the segments that end before its offset (`drop_skip`, `slice_skip`) and
returns the one that starts there (`slice_here`).

A buffer that is written in pieces of one list agrees with it wherever a piece was
written (`IsPiece.getElem?_writeAt`).

`put16`, `put32` and their readers are little endian.
-/
import Mathlib.Tactic.Common
import Mathlib.Tactic.IntervalCases

namespace IrHub.Theory

set_option autoImplicit false

universe u

variable {α : Type u}

/-- `data` in place of what was at `off`. -/
def writeAt (buffer : List α) (off : Nat) (data : List α) : List α :=
  buffer.take off ++ data ++ buffer.drop (off + data.length)

/-- The `n` entries at `off`. -/
def slice (buffer : List α) (off n : Nat) : List α := (buffer.drop off).take n

/-- A write that starts where the segments in front of it end. -/
theorem writeAt_next {front old : List α} (rest : List α) {off : Nat} {data : List α}
    (starts : front.length = off) (fits : old.length = data.length) :
    writeAt (front ++ (old ++ rest)) off data = front ++ data ++ rest := by
  have ends : off + data.length = (front ++ old).length := by
    rw [List.length_append, starts, fits]
  rw [writeAt, ends, ← List.append_assoc front old rest, List.drop_left, List.append_assoc front old,
    ← starts, List.take_left]

/-- The same with a segment in between that stays. -/
theorem writeAt_over {front kept old : List α} (rest : List α) {off : Nat} {data : List α}
    (starts : (front ++ kept).length = off) (fits : old.length = data.length) :
    writeAt (front ++ (kept ++ (old ++ rest))) off data = front ++ kept ++ data ++ rest := by
  rw [← List.append_assoc front, writeAt_next rest starts fits]

theorem writeAt_length {buffer : List α} {off : Nat} {data : List α}
    (fits : off + data.length ≤ buffer.length) : (writeAt buffer off data).length = buffer.length := by
  simp only [writeAt, List.length_append, List.length_take, List.length_drop]
  omega

theorem drop_skip {xs : List α} (ys : List α) {off : Nat} (before : xs.length ≤ off) :
    (xs ++ ys).drop off = ys.drop (off - xs.length) := by
  rw [List.drop_append, List.drop_of_length_le before, List.nil_append]

theorem slice_skip {xs : List α} (ys : List α) {off : Nat} (n : Nat) (before : xs.length ≤ off) :
    slice (xs ++ ys) off n = slice ys (off - xs.length) n := by
  rw [slice, drop_skip ys before, slice]

theorem slice_here {xs : List α} (ys : List α) {n : Nat} (exact : xs.length = n) :
    slice (xs ++ ys) 0 n = xs := by
  simp [slice, ← exact]

theorem slice_length {buffer : List α} {off n : Nat} (fits : off + n ≤ buffer.length) :
    (slice buffer off n).length = n := by
  simp only [slice, List.length_take, List.length_drop]
  omega

/-! ## Writing in pieces -/

theorem getElem?_writeAt {buffer : List α} {off : Nat} {data : List α}
    (fits : off + data.length ≤ buffer.length) (i : Nat) :
    (writeAt buffer off data)[i]? =
      if off ≤ i ∧ i < off + data.length then data[i - off]? else buffer[i]? := by
  have front : (buffer.take off).length = off := by
    rw [List.length_take]
    omega
  rw [writeAt, List.append_assoc]
  by_cases before : i < off
  · rw [List.getElem?_append_left (by omega), List.getElem?_take_of_lt before, if_neg (by omega)]
  · rw [List.getElem?_append_right (by omega), front]
    by_cases inside : i < off + data.length
    · rw [List.getElem?_append_left (by omega), if_pos ⟨by omega, inside⟩]
    · rw [List.getElem?_append_right (by omega), if_neg (by omega), List.getElem?_drop]
      congr 1
      omega

/-- `data` is what `whole` has at `off`. -/
def IsPiece (whole : List α) (off : Nat) (data : List α) : Prop :=
  ∃ front back, whole = front ++ data ++ back ∧ front.length = off

theorem IsPiece.ends {whole data : List α} {off : Nat} (piece : IsPiece whole off data) :
    off + data.length ≤ whole.length := by
  obtain ⟨front, back, rfl, rfl⟩ := piece
  simp only [List.length_append]
  omega

theorem IsPiece.getElem? {whole data : List α} {off i : Nat} (piece : IsPiece whole off data)
    (after : off ≤ i) (before : i < off + data.length) : data[i - off]? = whole[i]? := by
  obtain ⟨front, back, rfl, rfl⟩ := piece
  rw [List.append_assoc, List.getElem?_append_right after, List.getElem?_append_left (by omega)]

/-- What was right stays right, and what is written is right. -/
theorem IsPiece.getElem?_writeAt {whole buffer data : List α} {off i : Nat}
    (piece : IsPiece whole off data) (fits : off + data.length ≤ buffer.length)
    (right : buffer[i]? = whole[i]? ∨ (off ≤ i ∧ i < off + data.length)) :
    (writeAt buffer off data)[i]? = whole[i]? := by
  rw [Theory.getElem?_writeAt fits]
  split
  · rename_i inside
    exact piece.getElem? inside.1 inside.2
  · rename_i outside
    exact right.resolve_right outside

/-! ## Little-endian integers -/

def put16 (v : UInt16) : List UInt8 := [v.toUInt8, (v >>> 8).toUInt8]

def put32 (v : UInt32) : List UInt8 :=
  [v.toUInt8, (v >>> 8).toUInt8, (v >>> 16).toUInt8, (v >>> 24).toUInt8]

/-- The first two bytes. -/
def get16 (p : List UInt8) : UInt16 :=
  (p.getD 0 0).toUInt16 ||| ((p.getD 1 0).toUInt16 <<< 8)

/-- The first four bytes. -/
def get32 (p : List UInt8) : UInt32 :=
  (p.getD 0 0).toUInt32 ||| ((p.getD 1 0).toUInt32 <<< 8) |||
    ((p.getD 2 0).toUInt32 <<< 16) ||| ((p.getD 3 0).toUInt32 <<< 24)

theorem put16_length (v : UInt16) : (put16 v).length = 2 := rfl

theorem put32_length (v : UInt32) : (put32 v).length = 4 := rfl

theorem get16_put16 (v : UInt16) (rest : List UInt8) : get16 (put16 v ++ rest) = v := by
  rw [← UInt16.toBitVec_inj]
  refine BitVec.eq_of_getLsbD_eq fun i inRange => ?_
  simp only [get16, put16, List.cons_append, List.nil_append]
  interval_cases i <;> simp [-UInt16.toUInt16_toUInt8, -UInt32.toUInt32_toUInt8]

theorem get32_put32 (v : UInt32) (rest : List UInt8) : get32 (put32 v ++ rest) = v := by
  rw [← UInt32.toBitVec_inj]
  refine BitVec.eq_of_getLsbD_eq fun i inRange => ?_
  simp only [get32, put32, List.cons_append, List.nil_append]
  interval_cases i <;> simp [-UInt16.toUInt16_toUInt8, -UInt32.toUInt32_toUInt8]

end IrHub.Theory
