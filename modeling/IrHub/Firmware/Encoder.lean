/-
# Firmware.Encoder -- `encode_ir_message` with its buffer

`JsonHelper.encodeIrMessage` is a chain of `snprintf` calls on text.  Here the calls write
into memory, of which `out_len` bytes from the start are the caller's buffer: each takes the
room that is left, `out_len - pos`, by a subtraction that must not go below zero, and may
write into the buffer even when it then turns out to be too small.

`Shows` relates a result in memory to the one on text.  `printAt_ends` is one call and the
check after it, `pulses_end` the loop, `encodeIrMessageAt_ends` the function: wherever
the cut-off falls, the two agree and nothing behind the buffer changes.
-/
import IrHub.Firmware.JsonHelper
import IrHub.Theory.CMemory

namespace IrHub.Firmware.Encoder

set_option autoImplicit false

open IrHub.Theory IrHub.Theory.Access IrHub.Theory.CMemory IrHub.Firmware.JsonHelper

/-- `IrMessage` as `config.h` declares it: an array, and how many of its entries count. -/
structure MessageStruct where
  carrierFreq : UInt32
  pulseCount : UInt16
  frameCount : UInt16
  truncated : Bool
  pulses : List.Vector UInt16 irMaxPulses
  deriving DecidableEq

/-- The message in the struct. -/
def MessageStruct.message (msg : MessageStruct) : IrMessage where
  carrierFreq := msg.carrierFreq
  frameCount := msg.frameCount
  truncated := msg.truncated
  pulses := msg.pulses.toList.take msg.pulseCount.toNat

/-! ## The encoder -/

/-- `snprintf(out + pos, out_len - pos, ..)` and the check after it: the new `pos`, `none`
for `return 0`.  `n < 0` does not occur, no conversion here can fail. -/
def printAt (outLen : Nat) (piece : List UInt8) (pos : Nat) (mem : List UInt8) :
    Checked (Option Nat × List UInt8) := do
  let room ← sub outLen pos
  let (n, mem) ← snprintfAt mem pos room piece
  let room ← sub outLen pos
  if n ≥ room then .ok (none, mem) else .ok (some (pos + n), mem)

/-- `i`, `pos` and the memory in the loop over the pulses. -/
structure Encoding where
  i : Nat
  pos : Nat
  mem : List UInt8

def pulseTurn (msg : MessageStruct) (outLen : Nat) (e : Encoding) :
    Checked (Encoding ⊕ (Option Nat × List UInt8)) :=
  if e.i < msg.pulseCount.toNat then do
    let pulse ← fetch msg.pulses e.i
    let comma := if e.i = 0 then [] else bytes ","
    match ← printAt outLen (comma ++ decimal pulse.toNat) e.pos e.mem with
    | (none, mem) => .ok (.inr (none, mem))
    | (some pos, mem) => .ok (.inl ⟨e.i + 1, pos, mem⟩)
  else .ok (.inr (some e.pos, e.mem))

/-- `encode_ir_message`: the value returned and the memory from `out` on. -/
def encodeIrMessageAt (fuel : Nat) (msg : MessageStruct) (outLen : Nat) (mem : List UInt8) :
    Checked (Nat × List UInt8) := do
  match ← printAt outLen (header msg.message) 0 mem with
  | (none, mem) => .ok (0, mem)
  | (some pos, mem) =>
      match ← loop (pulseTurn msg outLen) fuel ⟨0, pos, mem⟩ with
      | (none, mem) => .ok (0, mem)
      | (some pos, mem) =>
          match ← printAt outLen (bytes "]\x7d") pos mem with
          | (none, mem) => .ok (0, mem)
          | (some pos, mem) => .ok (pos, mem)

/-! ## The buffer holds the text -/

/-- Memory shows what the encoder has on text: that text and a NUL, if it goes on at all. -/
structure Shows (outLen : Nat) (mem : List UInt8) (text : Option (List UInt8))
    (result : Option Nat × List UInt8) : Prop where
  pos : result.1 = text.map List.length
  text : ∀ t, text = some t → t.length < outLen ∧ t ++ [0] <+: result.2
  within : Within outLen mem result.2

section Calls

variable {outLen fuel : Nat} {mem start : List UInt8}

theorem printAt_ends {front : List UInt8} (piece : List UInt8) (inside : front.length ≤ outLen)
    (holds : front <+: mem) (within : Within outLen start mem) (fits : outLen ≤ start.length) :
    Ends (printAt outLen piece front.length mem)
      (Shows outLen start (snprintf outLen front piece)) := by
  have room : sub outLen front.length = .ok (outLen - front.length) := sub_le inside
  have buffer : front.length + (outLen - front.length) = outLen := by omega
  refine Ends.bind ⟨_, room, rfl⟩ ?_
  rintro _ rfl
  have whole : front.length + (outLen - front.length) ≤ mem.length := by
    rw [within.length]
    omega
  refine (snprintfAt_ends piece holds whole).bind ?_
  rintro ⟨n, after⟩ ⟨rfl, writes, text⟩
  rw [buffer] at writes
  refine Ends.bind ⟨_, room, rfl⟩ ?_
  rintro _ rfl
  rw [snprintf]
  by_cases cut : outLen - front.length ≤ piece.length
  · rw [if_pos cut, if_pos cut]
    exact Ends.ok ⟨rfl, by simp, within.trans writes⟩
  · rw [if_neg cut, if_neg cut]
    refine Ends.ok ⟨by simp, ?_, within.trans writes⟩
    rintro _ ⟨⟩
    rw [List.length_append]
    exact ⟨by omega, text (by omega)⟩

theorem pulses_end {msg : MessageStruct} {front : List UInt8}
    (count : msg.pulseCount.toNat ≤ irMaxPulses) (short : front.length < outLen)
    (holds : front ++ [0] <+: mem) (within : Within outLen start mem)
    (fits : outLen ≤ start.length) (enough : msg.pulseCount.toNat < fuel) :
    Ends (loop (pulseTurn msg outLen) fuel ⟨0, front.length, mem⟩)
      (Shows outLen start (encodePulses outLen true msg.message.pulses front)) := by
  refine loop_ends
    (fun e : Encoding => ∃ t, e.pos = t.length ∧ t.length < outLen ∧ t ++ [0] <+: e.mem ∧
      Within outLen start e.mem ∧
      encodePulses outLen (decide (e.i = 0)) (msg.message.pulses.drop e.i) t =
        encodePulses outLen true msg.message.pulses front)
    (fun e => msg.pulseCount.toNat - e.i) ?_ fuel ⟨0, front.length, mem⟩
    ⟨front, rfl, short, holds, within, rfl⟩ (by simp only; omega)
  rintro ⟨i, pos, mem⟩ ⟨t, rfl, short, holds, within, same⟩
  simp only at holds within same
  rw [pulseTurn]
  by_cases more : i < msg.pulseCount.toNat
  · rw [if_pos more]
    refine (fetch_next more count).bind ?_
    rintro pulse next
    rw [show msg.message.pulses.drop i = pulse :: msg.message.pulses.drop (i + 1) from next,
      encodePulses, Option.bind_eq_bind] at same
    have comma : (if decide (i = 0) = true then ([] : List UInt8) else bytes ",") =
        if i = 0 then [] else bytes "," := by simp
    rw [comma] at same
    have text := (List.prefix_append t [0]).trans holds
    refine (printAt_ends _ short.le text within fits).bind ?_
    rintro ⟨pos, after⟩ shows
    cases written : snprintf outLen t
      ((if i = 0 then [] else bytes ",") ++ decimal pulse.toNat) with
    | none =>
        rw [written] at same shows
        obtain rfl : pos = none := shows.pos
        exact Ends.ok (Or.inr ⟨_, rfl, same ▸ shows⟩)
    | some longer =>
        rw [written] at same shows
        obtain rfl : pos = some longer.length := shows.pos
        obtain ⟨room, text⟩ := shows.text longer rfl
        refine Ends.ok (Or.inl ⟨_, rfl, ⟨longer, rfl, room, text, shows.within, ?_⟩, ?_⟩)
        · simpa using same
        · simp only
          omega
  · have done : msg.message.pulses.drop i = [] := by
      refine List.drop_of_length_le ?_
      have length : msg.message.pulses.length ≤ msg.pulseCount.toNat := List.length_take_le _ _
      omega
    rw [if_neg more]
    rw [done, encodePulses] at same
    refine Ends.ok (Or.inr ⟨_, rfl, ?_⟩)
    rw [← same]
    exact ⟨rfl, by rintro _ ⟨⟩; exact ⟨short, holds⟩, within⟩

/-- **The encoder in memory is the encoder on text**: it never takes a negative room, writes
only into its buffer, and there leaves the text and a NUL whenever it returns a length. -/
theorem encodeIrMessageAt_ends {msg : MessageStruct} (count : msg.pulseCount.toNat ≤ irMaxPulses)
    (fits : outLen ≤ mem.length) (enough : msg.pulseCount.toNat < fuel) :
    Ends (encodeIrMessageAt fuel msg outLen mem) fun (n, after) =>
      n = ((encodeIrMessage msg.message outLen).map List.length).getD 0 ∧
        (∀ text, encodeIrMessage msg.message outLen = some text → text ++ [0] <+: after) ∧
        Within outLen mem after := by
  rw [encodeIrMessage]
  simp only [Option.bind_eq_bind]
  have empty : ([] : List UInt8).length ≤ outLen := Nat.zero_le outLen
  refine (printAt_ends (header msg.message) empty List.nil_prefix (Within.refl outLen mem)
    fits).bind ?_
  rintro ⟨pos, after⟩ shows
  cases opening : snprintf outLen [] (header msg.message) with
  | none =>
      rw [opening] at shows
      obtain rfl : pos = none := shows.pos
      exact Ends.ok ⟨rfl, by simp, shows.within⟩
  | some front =>
      rw [opening] at shows
      obtain rfl : pos = some front.length := shows.pos
      obtain ⟨short, text⟩ := shows.text front rfl
      refine (pulses_end count short text shows.within fits enough).bind ?_
      rintro ⟨pos, after⟩ shows
      rw [Option.bind_some]
      cases list : encodePulses outLen true msg.message.pulses front with
      | none =>
          rw [list] at shows
          obtain rfl : pos = none := shows.pos
          exact Ends.ok ⟨rfl, by simp, shows.within⟩
      | some front =>
          rw [list] at shows
          obtain rfl : pos = some front.length := shows.pos
          obtain ⟨short, text⟩ := shows.text front rfl
          refine (printAt_ends (bytes "]\x7d") short.le
            ((List.prefix_append front [0]).trans text) shows.within fits).bind ?_
          rintro ⟨pos, after⟩ shows
          rw [Option.bind_some]
          cases closing : snprintf outLen front (bytes "]\x7d") with
          | none =>
              rw [closing] at shows
              obtain rfl : pos = none := shows.pos
              exact Ends.ok ⟨rfl, by simp, shows.within⟩
          | some whole =>
              rw [closing] at shows
              obtain rfl : pos = some whole.length := shows.pos
              exact Ends.ok ⟨rfl, fun t same => (shows.text t same).2, shows.within⟩

end Calls

end IrHub.Firmware.Encoder
