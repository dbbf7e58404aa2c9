/-
# Firmware.Decoder -- `decode_ir_message` with its pointers and its array

`JsonHelper.decodeIrMessage` is the decoder on text.  Here it runs in memory that holds
the text and then a NUL.  The library scanners stop at a NUL, and one may stand anywhere in
the text; the loops written by hand stop at `json_len`.  Every entry goes through a checked
store into the array of the struct.

`decodeIrMessageAt_ends` shows that the two limits agree: the decoder ends, without having
touched anything behind the NUL or the array, and the struct holds what the decoder on text
finds.  It comes from the pulse loop (`pulses_end`) and the scan behind a full array
(`moreDigits_end`).
-/
import IrHub.Firmware.Encoder

namespace IrHub.Firmware.Decoder

set_option autoImplicit false

open IrHub.Theory IrHub.Theory.Access IrHub.Theory.CMemory IrHub.Firmware.JsonHelper
open IrHub.Firmware.Encoder (MessageStruct)

/-! ## The decoder -/

/-- `p`, `count` and `msg.pulses` in the pulse loop. -/
structure Decoding where
  p : Nat
  count : Nat
  pulses : List.Vector UInt16 irMaxPulses

/-- One turn of the pulse loop; `limit` is `json_len`. -/
def pulseTurn (mem : List UInt8) (limit fuel : Nat) (d : Decoding) :
    Checked (Decoding ⊕ Decoding) :=
  if d.p < limit then do
    let b ← load mem d.p
    if b ≠ 93 ∧ d.count < irMaxPulses then do
      let p ← scanTo isSeparator mem limit fuel d.p
      if p < limit then do
        let b ← load mem p
        if b = 93 then .ok (.inr { d with p })
        else
          match ← strtolAt mem fuel p with
          | none => .ok (.inr { d with p })
          | some (val, next) => do
              let pulses ← put d.pulses d.count (UInt16.ofInt val)
              .ok (.inl ⟨next, d.count + 1, pulses⟩)
      else .ok (.inr { d with p })
    else .ok (.inr d)
  else .ok (.inr d)

/-- One turn of the scan behind a full array. -/
def moreTurn (mem : List UInt8) (limit p : Nat) : Checked (Nat ⊕ Bool) :=
  if p < limit then do
    let b ← load mem p
    if b ≠ 93 then if isDigit b then .ok (.inr true) else .ok (.inl (p + 1))
    else .ok (.inr false)
  else .ok (.inr false)

/-- The default `IR_CARRIER_HZ`, or the number after the first `carrier_freq` key. -/
def carrierFreqAt (fuel : Nat) (mem : List UInt8) : Checked UInt32 := do
  match ← strstrAt mem carrierFreqKey fuel 0 with
  | none => .ok irCarrierHz
  | some cf =>
      match ← strchrAt mem fuel cf 58 with
      | none => .ok irCarrierHz
      | some colon => strtoulAt mem fuel (colon + 1)

/-- `decode_ir_message`: the value returned and the struct. -/
def decodeIrMessageAt (fuel : Nat) (mem : List UInt8) (jsonLen : Nat) (msg : MessageStruct) :
    Checked (Bool × MessageStruct) := do
  let carrierFreq ← carrierFreqAt fuel mem
  let msg := { msg with carrierFreq, pulseCount := 0, frameCount := 1, truncated := false }
  match ← strstrAt mem pulsesKey fuel 0 with
  | none => .ok (false, msg)
  | some arr =>
      match ← strchrAt mem fuel arr 91 with
      | none => .ok (false, msg)
      | some bracket => do
          let d ← loop (pulseTurn mem jsonLen fuel) fuel ⟨bracket + 1, 0, msg.pulses⟩
          let truncated ←
            if d.count ≥ irMaxPulses then loop (moreTurn mem jsonLen) fuel d.p else .ok false
          .ok (decide (0 < d.count),
            { msg with pulseCount := UInt16.ofNat d.count, truncated, pulses := d.pulses })

/-! ## It stays in the text -/

theorem decodePulses_nil (room : Nat) : decodePulses room [] = ([], []) := by
  cases room <;> simp [decodePulses]

theorem decodePulses_bracket (room : Nat) (p : List UInt8) :
    decodePulses room (93 :: p) = ([], 93 :: p) := by
  cases room <;> simp [decodePulses]

/-- The end of a turn on text, at an entry or at what is none. -/
def decodeEntry (room : Nat) (q : List UInt8) : List UInt16 × List UInt8 :=
  (strtol q).elim ([], q) fun read =>
    (UInt16.ofInt read.1 :: (decodePulses room read.2).1, (decodePulses room read.2).2)

/-- Neither the end of the text nor the closing bracket. -/
theorem not_closed {b : UInt8} (p : List UInt8) (open_ : b ≠ 93) :
    ¬(b :: p = [] ∨ (b :: p).head? = some 93) := by
  simpa using open_

theorem decodePulses_goes_on {room : Nat} {p : List UInt8}
    (open_ : ¬(p = [] ∨ p.head? = some 93)) :
    decodePulses (room + 1) p =
      if p.dropWhile isSeparator = [] ∨ (p.dropWhile isSeparator).head? = some 93 then
        ([], p.dropWhile isSeparator)
      else decodeEntry room (p.dropWhile isSeparator) := by
  simp only [decodePulses, if_neg open_, decodeEntry]
  cases strtol (p.dropWhile isSeparator) with
  | none => rfl
  | some read => rfl

section Text

variable {text rest : List UInt8} {fuel : Nat}

theorem load_inside {p : Nat} (inside : p < text.length) :
    load (text ++ 0 :: rest) p = .ok text[p] := load_front (List.prefix_append _ _) inside

/-- The entries up to `count` are those read so far, and the decoder on text has the
others still to read. -/
structure Reading (text : List UInt8) (start : Nat) (d : Decoding) : Prop where
  inside : d.p ≤ text.length
  room : d.count ≤ irMaxPulses
  same : ((d.pulses.toList.take d.count ++
        (decodePulses (irMaxPulses - d.count) (text.drop d.p)).1),
      (decodePulses (irMaxPulses - d.count) (text.drop d.p)).2) =
    decodePulses irMaxPulses (text.drop start)

/-- It has none left. -/
structure Read (text : List UInt8) (start : Nat) (d : Decoding) : Prop where
  inside : d.p ≤ text.length
  room : d.count ≤ irMaxPulses
  same : (d.pulses.toList.take d.count, text.drop d.p) = decodePulses irMaxPulses (text.drop start)

/-- The loop leaves where the decoder on text stops. -/
theorem Reading.stop {start p : Nat} {d : Decoding} (reading : Reading text start d)
    (inside : p ≤ text.length)
    (done : decodePulses (irMaxPulses - d.count) (text.drop d.p) = ([], text.drop p)) :
    Read text start { d with p } := by
  refine ⟨inside, reading.room, ?_⟩
  rw [← reading.same, done, List.append_nil]

theorem pulseTurn_ends {start : Nat} {d : Decoding} (reading : Reading text start d)
    (enough : text.length < fuel) :
    Ends (pulseTurn (text ++ 0 :: rest) text.length fuel d) fun next =>
      (∃ t, next = .inl t ∧ Reading text start t ∧ text.length - t.p < text.length - d.p) ∨
        ∃ a, next = .inr a ∧ Read text start a := by
  have inside := reading.inside
  rw [pulseTurn]
  by_cases inText : d.p < text.length
  · rw [if_pos inText]
    refine Ends.bind ⟨_, load_inside inText, rfl⟩ ?_
    rintro _ rfl
    have shape := List.drop_eq_getElem_cons inText
    by_cases goesOn : text[d.p] ≠ 93 ∧ d.count < irMaxPulses
    · rw [if_pos goesOn]
      obtain ⟨open_, free⟩ := goesOn
      obtain ⟨room, more⟩ : ∃ room, irMaxPulses - d.count = room + 1 :=
        ⟨irMaxPulses - d.count - 1, by omega⟩
      have notClosed := not_closed (text.drop (d.p + 1)) open_
      rw [← shape] at notClosed
      have turn : decodePulses (room + 1) (text.drop d.p) = _ := decodePulses_goes_on notClosed
      rw [← more] at turn
      refine (scanTo_ends (List.prefix_append _ _) inside enough).bind ?_
      rintro q separators
      rw [← separators.rest] at turn
      by_cases more : q < text.length
      · rw [if_pos more]
        refine Ends.bind ⟨_, load_inside more, rfl⟩ ?_
        rintro _ rfl
        have shape := List.drop_eq_getElem_cons more
        by_cases bracket : text[q] = 93
        · rw [if_pos bracket]
          rw [if_pos (Or.inr (by rw [shape, List.head?_cons, bracket]))] at turn
          exact Ends.ok (Or.inr ⟨_, rfl, reading.stop more.le turn⟩)
        · rw [if_neg bracket]
          have notClosed := not_closed (text.drop (q + 1)) bracket
          rw [← shape] at notClosed
          rw [if_neg notClosed] at turn
          refine (strtolAt_ends more.le enough).bind ?_
          rintro (_ | ⟨val, next⟩) ⟨value, progress⟩
          · rw [decodeEntry, value] at turn
            exact Ends.ok (Or.inr ⟨_, rfl, reading.stop more.le turn⟩)
          · obtain ⟨later, before⟩ := progress val next rfl
            have after := separators.after
            simp only [decodeEntry, value, Option.map_some, Option.elim_some] at turn
            refine (put_next free (UInt16.ofInt val)).bind ?_
            rintro pulses entries
            refine Ends.ok (Or.inl ⟨_, rfl, ⟨before, free, ?_⟩, by simp only; omega⟩)
            have left : irMaxPulses - (d.count + 1) = room := by omega
            simp only [entries, left, List.append_assoc, List.singleton_append]
            rw [← reading.same, turn]
      · rw [if_neg more]
        have end_ : text.drop q = [] := List.drop_of_length_le (by omega)
        rw [if_pos (Or.inl end_)] at turn
        exact Ends.ok (Or.inr ⟨_, rfl, reading.stop separators.inside turn⟩)
    · rw [if_neg goesOn]
      refine Ends.ok (Or.inr ⟨d, rfl, reading.stop inside ?_⟩)
      rcases Decidable.not_and_iff_or_not.mp goesOn with bracket | full
      · rw [shape, not_not.mp bracket, decodePulses_bracket]
      · rw [show irMaxPulses - d.count = 0 by omega, decodePulses]
  · rw [if_neg inText]
    refine Ends.ok (Or.inr ⟨d, rfl, reading.stop inside ?_⟩)
    rw [List.drop_of_length_le (by omega), decodePulses_nil]

theorem pulses_end {start : Nat} (pulses : List.Vector UInt16 irMaxPulses)
    (inside : start ≤ text.length) (enough : text.length < fuel) :
    Ends (loop (pulseTurn (text ++ 0 :: rest) text.length fuel) fuel ⟨start, 0, pulses⟩)
      (Read text start) :=
  loop_ends (Reading text start) (fun d => text.length - d.p)
    (fun _ reading => pulseTurn_ends reading enough) fuel ⟨start, 0, pulses⟩
    ⟨inside, Nat.zero_le _, by simp⟩ (by simp only; omega)

theorem moreDigits_end {start : Nat} (inside : start ≤ text.length) (enough : text.length < fuel) :
    Ends (loop (moreTurn (text ++ 0 :: rest) text.length) fuel start)
      (· = moreDigits (text.drop start)) := by
  refine loop_ends
    (fun p => p ≤ text.length ∧ moreDigits (text.drop p) = moreDigits (text.drop start))
    (fun p => text.length - p) ?_ fuel start ⟨inside, rfl⟩ (by omega)
  rintro p ⟨before, same⟩
  rw [moreTurn]
  by_cases inText : p < text.length
  · rw [if_pos inText]
    refine Ends.bind ⟨_, load_inside inText, rfl⟩ ?_
    rintro _ rfl
    rw [List.drop_eq_getElem_cons inText, moreDigits] at same
    by_cases goesOn : text[p] ≠ 93
    · rw [if_pos goesOn]
      rw [List.takeWhile_cons_of_pos (by simpa using goesOn), List.any_cons] at same
      by_cases digit : isDigit text[p] = true
      · rw [if_pos digit]
        exact Ends.ok (Or.inr ⟨true, rfl, by rw [← same, digit, Bool.true_or]⟩)
      · rw [if_neg digit]
        rw [Bool.not_eq_true] at digit
        rw [digit, Bool.false_or] at same
        exact Ends.ok (Or.inl ⟨p + 1, rfl, ⟨inText, same⟩, by omega⟩)
    · rw [if_neg goesOn]
      rw [List.takeWhile_cons_of_neg (by simpa using goesOn)] at same
      exact Ends.ok (Or.inr ⟨false, rfl, same⟩)
  · rw [if_neg inText]
    rw [List.drop_of_length_le (by omega)] at same
    exact Ends.ok (Or.inr ⟨false, rfl, same⟩)

theorem carrierFreqAt_ends (enough : text.length < fuel) :
    Ends (carrierFreqAt fuel (text ++ 0 :: rest)) (· = decodeCarrierFreq text) := by
  have clean : 0 ∉ carrierFreqKey := by decide
  rw [decodeCarrierFreq]
  refine (strstrAt_ends clean (Nat.zero_le _) enough).bind ?_
  rintro (_ | cf) ⟨key, within⟩
  · rw [List.drop_zero] at key
    rw [← key]
    exact Ends.ok rfl
  · rw [List.drop_zero] at key
    rw [← key]
    simp only [Option.map_some]
    refine (strchrAt_ends (by decide) (within cf rfl).2 enough).bind ?_
    rintro (_ | colon) ⟨found, within⟩
    · rw [← found]
      exact Ends.ok rfl
    · rw [← found]
      simp only [Option.map_some, List.tail_drop]
      exact ⟨_, strtoulAt_eq (within colon rfl).2 enough, rfl⟩

/-- **The decoder in memory is the decoder on text.** -/
theorem decodeIrMessageAt_ends (msg : MessageStruct) (enough : text.length < fuel) :
    Ends (decodeIrMessageAt fuel (text ++ 0 :: rest) text.length msg) fun (decoded, after) =>
      (decoded, after.message) = decodeIrMessage text ∧
        after.pulseCount.toNat ≤ irMaxPulses := by
  have clean : 0 ∉ pulsesKey := by decide
  rw [decodeIrMessage]
  refine (carrierFreqAt_ends enough).bind ?_
  rintro _ rfl
  refine (strstrAt_ends clean (Nat.zero_le _) enough).bind ?_
  rintro (_ | arr) ⟨key, within⟩
  · rw [List.drop_zero] at key
    rw [← key]
    exact Ends.ok ⟨rfl, Nat.zero_le _⟩
  · rw [List.drop_zero] at key
    rw [← key]
    simp only [Option.map_some]
    refine (strchrAt_ends (by decide) (within arr rfl).2 enough).bind ?_
    rintro (_ | bracket) ⟨found, within⟩
    · rw [← found]
      exact Ends.ok ⟨rfl, Nat.zero_le _⟩
    · rw [← found]
      simp only [Option.map_some, List.tail_drop]
      refine (pulses_end msg.pulses (within bracket rfl).2 enough).bind ?_
      rintro ⟨p, count, pulses⟩ ⟨inside, room, same⟩
      simp only at inside room same
      have small : (UInt16.ofNat count).toNat = count :=
        UInt16.toNat_ofNat_of_lt' (Nat.lt_of_le_of_lt room (by decide))
      have length : (pulses.toList.take count).length = count := by
        rw [List.length_take, List.Vector.toList_length]
        omega
      rw [← same]
      simp only [length]
      by_cases full : count ≥ irMaxPulses
      · simp only [if_pos full]
        refine (moreDigits_end inside enough).bind ?_
        rintro _ rfl
        refine Ends.ok ⟨?_, small.trans_le room⟩
        simp [MessageStruct.message, small, full]
      · simp only [if_neg full]
        refine Ends.ok ⟨?_, small.trans_le room⟩
        simp [MessageStruct.message, small, full]

end Text

end IrHub.Firmware.Decoder
