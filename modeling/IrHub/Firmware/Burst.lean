/-
# Firmware.Burst -- damage to the stored record that `parse` always notices

`crc32` takes the bytes of the record in bit by bit, lowest bit first, and the stored
value comes in the same order behind them.  So a record checks out exactly when the
register, run over all of its bytes with the checksum, ends at one fixed value
(`run_record`).  Damage within 32 bits ends elsewhere, also where it straddles the
payload and the checksum (`burst_detected`).
-/
import IrHub.Firmware.NetConfigFlash
import IrHub.Theory.Crc

namespace IrHub.Firmware.Burst

set_option autoImplicit false

open IrHub.Theory IrHub.Theory.Crc IrHub.Firmware.NetConfig
open IrHub.Firmware.NetConfigFlash (Page serializePage parse_serializePage erased homeNet)

/-- Bit `i` of a page: bytes in address order, the lowest bit of each first. -/
def pageBit (page : List UInt8) (i : Nat) : Bool :=
  (page.getD (i / 8) 0).toBitVec.getLsbD (i % 8)

/-- The bits of a byte. -/
def byteBits (b : UInt8) : List Bool := (List.range 8).map b.toBitVec.getLsbD

/-- The bits of bytes. -/
def bits (data : List UInt8) : List Bool := data.flatMap byteBits

theorem bits_cons (b : UInt8) (data : List UInt8) : bits (b :: data) = byteBits b ++ bits data :=
  List.flatMap_cons

theorem bits_append (front back : List UInt8) : bits (front ++ back) = bits front ++ bits back :=
  List.flatMap_append

/-- The generator polynomial. -/
def generator : BitVec 32 := 0xEDB88320

/-! ## The register -/

/-- The mask of a shift: all ones where a one falls out. -/
theorem mask_eq (x : BitVec 32) :
    0#32 - (x &&& 1#32) = if x.getLsbD 0 then BitVec.allOnes 32 else 0#32 := by
  rw [BitVec.and_one_eq_setWidth_ofBool_getLsbD]
  cases x.getLsbD 0 <;> decide

theorem crcBit_toBitVec (crc : UInt32) : (crcBit crc).toBitVec = step generator crc.toBitVec := by
  have shift : (crc >>> 1).toBitVec = crc.toBitVec >>> 1 := by
    simp [UInt32.toBitVec_shiftRight]
  have mask : (0 - (crc &&& 1)).toBitVec = 0#32 - (crc.toBitVec &&& 1#32) := rfl
  rw [crcBit, UInt32.toBitVec_xor, UInt32.toBitVec_and, shift, mask, mask_eq, step]
  congr 1
  cases crc.toBitVec.getLsbD 0
  · simp
  · simp [generator]

theorem iterate_crcBit (n : Nat) (crc : UInt32) :
    (crcBit^[n] crc).toBitVec = (step generator)^[n] crc.toBitVec := by
  induction n generalizing crc with
  | zero => rfl
  | succ n ih =>
      rw [Function.iterate_succ_apply, Function.iterate_succ_apply, ih, crcBit_toBitVec]

@[simp] theorem byteBits_length (b : UInt8) : (byteBits b).length = 8 := by simp [byteBits]

theorem ofBits_byteBits (b : UInt8) : (ofBits (byteBits b) : BitVec 32) = b.toUInt32.toBitVec := by
  apply BitVec.eq_of_getLsbD_eq
  intro i inside
  rw [getLsbD_ofBits _ inside, byteBits]
  by_cases low : i < 8
  · simp [low, inside]
  · have above : b.toBitVec.getLsbD i = false := BitVec.getLsbD_of_ge _ _ (by omega)
    simp [low, inside, above]

/-- A byte is taken in bit by bit, the lowest first. -/
theorem crcByte_toBitVec (crc : UInt32) (b : UInt8) :
    (crcByte crc b).toBitVec = run generator crc.toBitVec (byteBits b) := by
  rw [crcByte, iterate_crcBit, run_eq_iterate generator _ (by simp), byteBits_length,
    UInt32.toBitVec_xor, ofBits_byteBits]

theorem crcBytes_toBitVec (crc : UInt32) (data : List UInt8) :
    (data.foldl crcByte crc).toBitVec = run generator crc.toBitVec (bits data) := by
  induction data generalizing crc with
  | nil => rfl
  | cons b data ih =>
      rw [List.foldl_cons, ih, crcByte_toBitVec, bits_cons, run_append]

theorem crc32_toBitVec (data : List UInt8) :
    (crc32 data).toBitVec = ~~~run generator (BitVec.allOnes 32) (bits data) := by
  rw [crc32, UInt32.toBitVec_not, crcBytes_toBitVec]
  rfl

/-! ## The bits of a page -/

@[simp] theorem bits_length (data : List UInt8) : (bits data).length = 8 * data.length := by
  induction data with
  | nil => rfl
  | cons b data ih =>
      rw [bits_cons, List.length_append, byteBits_length, ih, List.length_cons]
      omega

theorem getD_bits (data : List UInt8) (i : Nat) : (bits data).getD i false = pageBit data i := by
  induction data generalizing i with
  | nil => simp [bits, pageBit]
  | cons b data ih =>
      rw [bits_cons, List.getD_eq_getElem?_getD]
      by_cases first : i < 8
      · have place : i / 8 = 0 ∧ i % 8 = i := by omega
        rw [List.getElem?_append_left (by simpa using first), pageBit, place.1, place.2]
        simp [byteBits, first]
      · have place : i / 8 = (i - 8) / 8 + 1 ∧ i % 8 = (i - 8) % 8 := by omega
        rw [List.getElem?_append_right (by simp; omega), byteBits_length,
          ← List.getD_eq_getElem?_getD, ih, pageBit, pageBit, place.1, place.2, List.getD_cons_succ]

theorem ofBits_get32 {stored : List UInt8} (four : stored.length = 4) (rest : List UInt8) :
    (ofBits (bits stored) : BitVec 32) = (get32 (stored ++ rest)).toBitVec := by
  match stored, four with
  | [a, b, c, d], _ =>
      apply BitVec.eq_of_getLsbD_eq
      intro i inside
      rw [getLsbD_ofBits _ inside]
      simp only [get32, bits, byteBits, List.flatMap_cons, List.flatMap_nil]
      interval_cases i <;> simp

/-! ## A record that checks out -/

/-- What the register ends at over a record with its checksum. -/
def residue : BitVec 32 := (step generator)^[32] (BitVec.allOnes 32)

/-- **A record that `parse` accepts ends at the residue.** -/
theorem run_record {page : List UInt8} (accepted : parse page ≠ none) :
    run generator (BitVec.allOnes 32) (bits (page.take recordUsed)) = residue := by
  obtain ⟨c, found⟩ := Option.ne_none_iff_exists'.mp accepted
  unfold parse at found
  split at found
  · rename_i long
    split at found
    · cases found
    split at found
    · cases found
    split at found
    · cases found
    split at found
    · cases found
    · rename_i checks
      rw [not_not] at checks
      let stored := slice page offCrc 4
      have four : stored.length = 4 := slice_length long
      have record : page.take recordUsed = slice page 0 offCrc ++ stored := by
        have sum : recordUsed = offCrc + 4 := rfl
        rw [sum, List.take_add]
        rfl
      have number : (ofBits (bits stored) : BitVec 32) = (get32 (page.drop offCrc)).toBitVec := by
        have whole : page.drop offCrc = stored ++ (page.drop offCrc).drop 4 :=
          (List.take_append_drop 4 (page.drop offCrc)).symm
        rw [whole]
        exact ofBits_get32 four _
      have width : (bits stored).length = 32 := by rw [bits_length, four]
      have all : ∀ x : BitVec 32, x ^^^ ~~~x = BitVec.allOnes 32 := by
        intro x
        rw [← BitVec.xor_allOnes, ← BitVec.xor_assoc, BitVec.xor_self, BitVec.zero_xor]
      rw [record, bits_append, run_append, run_eq_iterate generator _ (by omega), width, number,
        checks, crc32_toBitVec, all]
      rfl
  · cases found

/-! ## A burst -/

/-- Two lists that agree outside a window are two middles between the same ends. -/
theorem split_window {xs ys : List Bool} {start n : Nat} (same : xs.length = ys.length)
    (outside : ∀ i, i < start ∨ start + n ≤ i → xs.getD i false = ys.getD i false) :
    ∃ front back middle middle', xs = front ++ middle ++ back ∧ ys = front ++ middle' ++ back ∧
      middle.length = middle'.length ∧ middle.length ≤ n := by
  have parts : ∀ zs : List Bool,
      zs = zs.take start ++ (zs.drop start).take n ++ zs.drop (start + n) := by
    intro zs
    rw [← List.drop_drop, List.append_assoc, List.take_append_drop, List.take_append_drop]
  have entry : ∀ i, i < start ∨ start + n ≤ i → ∀ (left : i < xs.length) (right : i < ys.length),
      xs.get ⟨i, left⟩ = ys.get ⟨i, right⟩ := by
    intro i place left right
    simpa [List.getD_eq_getElem?_getD, left, right] using outside i place
  have front : xs.take start = ys.take start := by
    apply List.ext_getElem (by simp [same])
    intro i left right
    rw [List.length_take] at left right
    simpa using entry i (by omega) (by omega) (by omega)
  have back : xs.drop (start + n) = ys.drop (start + n) := by
    apply List.ext_getElem (by simp [same])
    intro i left right
    rw [List.length_drop] at left right
    simpa using entry (start + n + i) (by omega) (by omega) (by omega)
  refine ⟨xs.take start, xs.drop (start + n), (xs.drop start).take n, (ys.drop start).take n,
    parts xs, ?_, by simp [same], by simp⟩
  rw [front, back]
  exact parts ys

/-- The generator keeps the top bit. -/
theorem generator_top : generator.getLsbD (32 - 1) = true := by decide

theorem pageBit_take (page : List UInt8) {i : Nat} (low : i < 8 * recordUsed) :
    pageBit (page.take recordUsed) i = pageBit page i := by
  have place : i / 8 < recordUsed := by omega
  simp only [pageBit, List.getD_eq_getElem?_getD, List.getElem?_take_of_lt place]

/-- **Damage within 32 bits is noticed**, wherever in the record it is. -/
theorem burst_detected {p q : Page} (accepted : parse p.toList ≠ none) {start n : Nat}
    (short : n ≤ 32) (inside : start + n ≤ 8 * recordUsed)
    (outside : ∀ i, i < start ∨ start + n ≤ i → pageBit p.toList i = pageBit q.toList i)
    (differ : ∃ i, pageBit p.toList i ≠ pageBit q.toList i) : parse q.toList = none := by
  by_contra parsed
  have length : ∀ page : Page, (bits (page.toList.take recordUsed)).length = 8 * recordUsed := by
    intro page
    have long : recordUsed ≤ recordBytes := by decide
    rw [bits_length, List.length_take, page.toList_length, Nat.min_eq_left long]
  let xs := bits (p.toList.take recordUsed)
  let ys := bits (q.toList.take recordUsed)
  have lengthX : xs.length = 8 * recordUsed := length p
  have lengthY : ys.length = 8 * recordUsed := length q
  have window : ∀ i, i < start ∨ start + n ≤ i → xs.getD i false = ys.getD i false := by
    intro i place
    by_cases low : i < 8 * recordUsed
    · simp only [xs, ys, getD_bits, pageBit_take _ low]
      exact outside i place
    · rw [List.getD_eq_getElem?_getD, List.getD_eq_getElem?_getD,
        List.getElem?_eq_none (by omega), List.getElem?_eq_none (by omega)]
  obtain ⟨front, back, middle, middle', shapeX, shapeY, same, fits⟩ :=
    split_window (lengthX.trans lengthY.symm) window
  -- both records end at the residue, so the windows are equal too
  have ends : run generator (BitVec.allOnes 32) xs = run generator (BitVec.allOnes 32) ys :=
    (run_record accepted).trans (run_record parsed).symm
  rw [shapeX, shapeY] at ends
  have equal := run_burst generator_top (BitVec.allOnes 32) same (by omega) ends
  obtain ⟨i, different⟩ := differ
  by_cases low : i < 8 * recordUsed
  · have entry : xs.getD i false = ys.getD i false := by rw [shapeX, shapeY, equal]
    simp only [xs, ys, getD_bits, pageBit_take _ low] at entry
    exact different entry
  · exact different (outside i (by omega))

/-- One byte of a page inverted. -/
def invert (page : Page) (i : Nat) : Page :=
  ⟨page.toList.set i (~~~page.toList.getD i 0), by rw [List.length_set, page.toList_length]⟩

theorem getD_invert (page : Page) {i j : Nat} (other : j ≠ i) :
    (invert page i).toList.getD j 0 = page.toList.getD j 0 := by
  have shape : (invert page i).toList = page.toList.set i (~~~page.toList.getD i 0) := rfl
  rw [shape, List.getD_eq_getElem?_getD, List.getElem?_set_ne (Ne.symm other),
    List.getD_eq_getElem?_getD]

/-- The last byte of the port and the first of the checksum are inverted. -/
theorem burst_detected_straddling :
    parse (invert (invert (serializePage homeNet erased) 170) 171).toList = none := by
  have valid : validate homeNet = .ok := by decide
  have accepted : parse (serializePage homeNet erased).toList ≠ none := by
    rw [parse_serializePage valid erased]
    exact Option.some_ne_none _
  refine @burst_detected _ _ accepted 1360 16 (by decide) ?_ ?_ ?_
  · have bits : 8 * recordUsed = 1400 := rfl
    omega
  · intro i place
    rw [pageBit, pageBit, getD_invert _ (by omega), getD_invert _ (by omega)]
  · exact ⟨1360, by decide +kernel⟩

end IrHub.Firmware.Burst
