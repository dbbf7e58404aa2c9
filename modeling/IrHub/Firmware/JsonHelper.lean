/-
# Firmware.JsonHelper -- `json_helper.cpp`: the encoder and the decoder of a pulse train

`encodeIrMessage` is the chain of `snprintf` calls into a buffer of `outLen`
bytes; `messageText` is the text it writes when the buffer is large enough
(`encodeIrMessage_eq`).  `decodeIrMessage` is the hand-rolled parser of the
inbound direction: two `strstr` key searches and the pulse loop.

The bridge between them is `decode_commandText`: the object the backend sends
back, `{"carrier_freq":f,"pulses":[..]}`, decodes to `f` and the same pulses.
-/
import IrHub.Theory.CLibrary
import IrHub.Firmware.Config

namespace IrHub.Firmware.JsonHelper

set_option autoImplicit false

open IrHub.Theory

/-! ## Encoding -/

/-- The object up to the opening bracket of the pulses. -/
def header (msg : IrMessage) : List UInt8 :=
  bytes "\x7b\"carrier_freq\":" ++ decimal msg.carrierFreq.toNat ++
    bytes ",\"frame_count\":" ++ decimal msg.frameCount.toNat ++
    bytes ",\"truncated\":" ++ bytes (if msg.truncated then "true" else "false") ++
    bytes ",\"pulses\":["

/-- The loop over the pulses; `first` is `i == 0`. -/
def encodePulses (outLen : Nat) : Bool → List UInt16 → List UInt8 → Option (List UInt8)
  | _, [], out => some out
  | first, pulse :: pulses, out => do
      let comma := if first then [] else bytes ","
      let out ← snprintf outLen out (comma ++ decimal pulse.toNat)
      encodePulses outLen false pulses out

/-- `encode_ir_message`: the text in `out`, `none` where the function returns 0. -/
def encodeIrMessage (msg : IrMessage) (outLen : Nat) : Option (List UInt8) := do
  let out ← snprintf outLen [] (header msg)
  let out ← encodePulses outLen true msg.pulses out
  snprintf outLen out (bytes "]\x7d")

/-- The whole text of a message. -/
def messageText (msg : IrMessage) : List UInt8 :=
  header msg ++ commaSep (msg.pulses.map fun pulse => decimal pulse.toNat) ++ bytes "]\x7d"

/-! ## Decoding -/

def carrierFreqKey : List UInt8 := bytes "\"carrier_freq\""

def pulsesKey : List UInt8 := bytes "\"pulses\""

/-- What the loop skips before a number. -/
def isSeparator (b : UInt8) : Bool := b == 32 || b == 44 || b == 10 || b == 9

/-- The pulse loop, from `p` with room for `room` more entries: the entries read
and where it stopped. -/
def decodePulses : Nat → List UInt8 → List UInt16 × List UInt8
  | 0, p => ([], p)
  | room + 1, p =>
      if p = [] ∨ p.head? = some 93 then ([], p)
      else
        let q := p.dropWhile isSeparator
        if q = [] ∨ q.head? = some 93 then ([], q)
        else
          match strtol q with
          | none => ([], q)
          | some (val, next) =>
              let more := decodePulses room next
              (UInt16.ofInt val :: more.1, more.2)

/-- The scan past a full array: a digit before the closing bracket. -/
def moreDigits (p : List UInt8) : Bool := (p.takeWhile (· != 93)).any isDigit

/-- The default `IR_CARRIER_HZ`, or the number after the first `carrier_freq` key. -/
def decodeCarrierFreq (json : List UInt8) : UInt32 :=
  match strstr carrierFreqKey json with
  | none => irCarrierHz
  | some cf =>
      match strchr cf 58 with
      | none => irCarrierHz
      | some colon => strtoul colon.tail

/-- `decode_ir_message`: the value returned and the message written. -/
def decodeIrMessage (json : List UInt8) : Bool × IrMessage :=
  let msg : IrMessage := ⟨decodeCarrierFreq json, 1, false, []⟩
  match strstr pulsesKey json with
  | none => (false, msg)
  | some arr =>
      match strchr arr 91 with
      | none => (false, msg)
      | some bracket =>
          let read := decodePulses irMaxPulses bracket.tail
          let truncated := decide (irMaxPulses ≤ read.1.length) && moreDigits read.2
          (decide (0 < read.1.length), { msg with truncated, pulses := read.1 })

/-! ## The encoder writes the text, when it fits -/

theorem encodePulses_eq (outLen : Nat) (first : Bool) (pulses : List UInt16) (out : List UInt8) :
    let text := pulses.map fun pulse => decimal pulse.toNat
    let added := if first then commaSep text else text.flatMap fun y => 44 :: y
    out.length + added.length < outLen →
      encodePulses outLen first pulses out = some (out ++ added) := by
  induction pulses generalizing first out with
  | nil => cases first <;> simp [encodePulses, commaSep]
  | cons pulse pulses ih =>
      intro text added fits
      have comma : bytes "," = [44] := by decide
      cases first with
      | true =>
          simp only [text, added, commaSep, List.map_cons, if_true, List.length_append] at fits ⊢
          rw [encodePulses, if_pos rfl, List.nil_append, snprintf_fits (by omega)]
          have rest := ih false (out ++ decimal pulse.toNat)
          simp only [Bool.false_eq_true, if_false, List.length_append] at rest
          simpa using rest (by omega)
      | false =>
          simp only [text, added, List.map_cons, Bool.false_eq_true, if_false, List.flatMap_cons,
            List.length_append, List.length_cons] at fits ⊢
          rw [encodePulses, if_neg (by decide), comma, List.singleton_append,
            snprintf_fits (by simp only [List.length_cons]; omega)]
          have rest := ih false (out ++ 44 :: decimal pulse.toNat)
          simp only [Bool.false_eq_true, if_false, List.length_append, List.length_cons] at rest
          simpa using rest (by omega)

/-- The encoder succeeds whenever the text and its NUL fit. -/
theorem encodeIrMessage_eq {msg : IrMessage} {outLen : Nat}
    (fits : (messageText msg).length < outLen) :
    encodeIrMessage msg outLen = some (messageText msg) := by
  simp only [messageText, List.length_append] at fits
  have pulses := encodePulses_eq outLen true msg.pulses (header msg)
  simp only [if_true] at pulses
  rw [encodeIrMessage, snprintf_fits (by simp only [List.length_nil]; omega)]
  simp only [List.nil_append, Option.bind_eq_bind, Option.bind_some]
  rw [pulses (by omega)]
  exact snprintf_fits (by simp only [List.length_append]; omega)

/-- The loop over the pulses only ever writes the numerals and their commas. -/
theorem encodePulses_text {outLen : Nat} {first : Bool} {pulses : List UInt16}
    {out text : List UInt8} (written : encodePulses outLen first pulses out = some text) :
    text = out ++ if first then commaSep (pulses.map fun pulse => decimal pulse.toNat)
      else (pulses.map fun pulse => decimal pulse.toNat).flatMap fun y => 44 :: y := by
  induction pulses generalizing first out with
  | nil =>
      obtain rfl := by simpa [encodePulses] using written
      cases first <;> simp [commaSep]
  | cons pulse pulses ih =>
      have comma : bytes "," = [44] := by decide
      rw [encodePulses, Option.bind_eq_bind, Option.bind_eq_some_iff] at written
      obtain ⟨out', piece, more⟩ := written
      rw [ih more, (snprintf_eq_some piece).1]
      cases first with
      | true => simp [commaSep]
      | false => simp [comma]

/-- What the encoder writes is the whole text, and it leaves room for its NUL. -/
theorem encodeIrMessage_eq_some {msg : IrMessage} {outLen : Nat} {text : List UInt8} :
    encodeIrMessage msg outLen = some text ↔
      text = messageText msg ∧ (messageText msg).length < outLen := by
  constructor
  · intro written
    rw [encodeIrMessage, Option.bind_eq_bind, Option.bind_eq_some_iff] at written
    obtain ⟨out, opening, written⟩ := written
    rw [Option.bind_eq_some_iff] at written
    obtain ⟨out', pulses, closing⟩ := written
    obtain ⟨whole, fits⟩ := snprintf_eq_some closing
    have shape : text = messageText msg := by
      rw [whole, encodePulses_text pulses, (snprintf_eq_some opening).1, messageText]
      simp
    exact ⟨shape, shape ▸ fits⟩
  · rintro ⟨rfl, fits⟩
    exact encodeIrMessage_eq fits

theorem encodeIrMessage_eq_none {msg : IrMessage} {outLen : Nat}
    (tooLong : outLen ≤ (messageText msg).length) : encodeIrMessage msg outLen = none := by
  by_contra written
  obtain ⟨text, written⟩ := Option.ne_none_iff_exists'.mp written
  have fits := (encodeIrMessage_eq_some.mp written).2
  omega

theorem header_length (msg : IrMessage) :
    (header msg).length = 55 + (decimal msg.carrierFreq.toNat).length +
      (decimal msg.frameCount.toNat).length + (if msg.truncated then 4 else 5) := by
  have lengths : (bytes "\x7b\"carrier_freq\":").length = 16 ∧ (bytes ",\"frame_count\":").length = 15 ∧
      (bytes ",\"truncated\":").length = 13 ∧ (bytes ",\"pulses\":[").length = 11 ∧
      (bytes "true").length = 4 ∧ (bytes "false").length = 5 := by decide
  obtain ⟨carrier, frames, flag, pulses, yes, no⟩ := lengths
  cases truncated : msg.truncated <;>
    simp only [header, truncated, if_true, if_false, List.length_append, carrier, frames, flag,
      pulses, yes, no, Bool.false_eq_true] <;>
    omega

/-! ## The decoder on an array of numerals -/

theorem dropWhile_separator_digit {b : UInt8} (p : List UInt8) (digit : isDigit b = true) :
    (b :: p).dropWhile isSeparator = b :: p := by
  have keep : isSeparator b = false := by
    simp only [isDigit, Bool.and_eq_true, decide_eq_true_eq] at digit
    simp only [isSeparator, Bool.or_eq_false_iff, beq_eq_false_iff_ne]
    grind
  simp [keep]

/-- One turn of the loop: separators, a numeral, and the rest from where it stops. -/
theorem decodePulses_turn {room : Nat} {p : List UInt8} (pulse : UInt16) (rest : List UInt8)
    (started : p ≠ []) (opened : p.head? ≠ some 93)
    (numeral : p.dropWhile isSeparator = decimal pulse.toNat ++ rest)
    (stops : ∀ b, rest.head? = some b → isDigit b = false) :
    decodePulses (room + 1) p =
      (pulse :: (decodePulses room rest).1, (decodePulses room rest).2) := by
  have bound := pulse.toNat_lt
  obtain ⟨b, ds, shape, digit⟩ := decimal_cons pulse.toNat
  have headDigit : ¬(decimal pulse.toNat ++ rest = [] ∨
      (decimal pulse.toNat ++ rest).head? = some 93) := by
    rw [shape]
    rintro (empty | bracket)
    · simp at empty
    · simp only [List.cons_append, List.head?_cons, Option.some.injEq] at bracket
      exact absurd digit (by rw [bracket]; decide)
  rw [decodePulses, if_neg (by simp [started, opened])]
  simp only [numeral, if_neg headDigit]
  rw [strtol_decimal (by omega) stops]
  have value : UInt16.ofInt (pulse.toNat : Int) = pulse := by
    have small : ((pulse.toNat : Int) % 2 ^ 16).toNat = pulse.toNat := by omega
    rw [UInt16.ofInt, small, UInt16.ofNat_toNat]
  simp [value]

theorem head_flatMap_comma {xs : List (List UInt8)} {rest : List UInt8} {b : UInt8}
    (head : (xs.flatMap (fun y => 44 :: y) ++ 93 :: rest).head? = some b) :
    isDigit b = false := by
  cases xs with
  | nil => simp only [List.flatMap_nil, List.nil_append, List.head?_cons, Option.some.injEq] at head
           subst head; decide
  | cons x xs =>
      simp only [List.flatMap_cons, List.cons_append, List.head?_cons, Option.some.injEq] at head
      subst head; decide

/-- The entries after the first: each a comma and a numeral, up to the bracket. -/
theorem decodePulses_tail (pulses : List UInt16) (room : Nat) (rest : List UInt8)
    (fits : pulses.length ≤ room) :
    decodePulses room
        ((pulses.map fun pulse => decimal pulse.toNat).flatMap (fun y => 44 :: y) ++ 93 :: rest) =
      (pulses, 93 :: rest) := by
  induction pulses generalizing room with
  | nil => cases room <;> simp [decodePulses]
  | cons pulse pulses ih =>
      cases room with
      | zero => simp at fits
      | succ room =>
          have more := ih room (by simpa using fits)
          obtain ⟨b, ds, shape, digit⟩ := decimal_cons pulse.toNat
          simp only [List.map_cons, List.flatMap_cons, List.append_assoc, List.cons_append]
          rw [decodePulses_turn pulse
            ((pulses.map fun pulse => decimal pulse.toNat).flatMap (fun y => 44 :: y) ++ 93 :: rest)
            (by simp) (by simp) ?_ fun b head => head_flatMap_comma head, more]
          have comma : isSeparator 44 = true := by decide
          rw [List.dropWhile_cons_of_pos comma, shape, List.cons_append]
          exact dropWhile_separator_digit _ digit

theorem decodePulses_commaSep (pulses : List UInt16) (room : Nat) (rest : List UInt8)
    (fits : pulses.length ≤ room) :
    decodePulses room (commaSep (pulses.map fun pulse => decimal pulse.toNat) ++ 93 :: rest) =
      (pulses, 93 :: rest) := by
  cases pulses with
  | nil => cases room <;> simp [decodePulses, commaSep]
  | cons pulse pulses =>
      cases room with
      | zero => simp at fits
      | succ room =>
          have more := decodePulses_tail pulses room rest (by simpa using fits)
          obtain ⟨b, ds, shape, digit⟩ := decimal_cons pulse.toNat
          simp only [List.map_cons, commaSep, List.append_assoc]
          let tail := (pulses.map fun pulse => decimal pulse.toNat).flatMap (fun y => 44 :: y)
          rw [decodePulses_turn pulse (tail ++ 93 :: rest) ?_ ?_ ?_
            fun b head => head_flatMap_comma head, more]
          · simp [shape]
          · rw [shape, List.cons_append, List.head?_cons]
            intro bracket
            rw [Option.some.inj bracket] at digit
            exact absurd digit (by decide)
          · rw [shape, List.cons_append]
            exact dropWhile_separator_digit _ digit

/-! ## The payload of `irhub/send` -/

/-- The object of the two members the inbound direction needs. -/
def commandText (carrierFreq : UInt32) (pulses : List UInt16) : List UInt8 :=
  bytes "\x7b\"carrier_freq\":" ++ decimal carrierFreq.toNat ++ bytes ",\"pulses\":[" ++
    commaSep (pulses.map fun pulse => decimal pulse.toNat) ++ bytes "]\x7d"

theorem carrierFreqKey_eq : bytes "\x7b\"carrier_freq\":" = 123 :: carrierFreqKey ++ [58] := by decide

theorem pulsesKey_eq : bytes ",\"pulses\":[" = 44 :: pulsesKey ++ [58, 91] := by decide

theorem digit_ne_zero_quote {b : UInt8} (digit : isDigit b = true) : b ≠ 0 ∧ b ≠ 34 := by
  constructor <;> (rintro rfl; exact absurd digit (by decide))

theorem decodeCarrierFreq_command (carrierFreq : UInt32) (rest : List UInt8)
    (stops : ∀ b, rest.head? = some b → isDigit b = false) :
    decodeCarrierFreq (bytes "\x7b\"carrier_freq\":" ++ decimal carrierFreq.toNat ++ rest) =
      carrierFreq := by
  have found : strstr carrierFreqKey (bytes "\x7b\"carrier_freq\":" ++
      decimal carrierFreq.toNat ++ rest) =
        some (carrierFreqKey ++ 58 :: (decimal carrierFreq.toNat ++ rest)) := by
    have shape : carrierFreqKey = 34 :: bytes "carrier_freq\"" := by decide
    calc strstr carrierFreqKey (bytes "\x7b\"carrier_freq\":" ++ decimal carrierFreq.toNat ++ rest)
        = strstr carrierFreqKey (carrierFreqKey ++ 58 :: (decimal carrierFreq.toNat ++ rest)) := by
          rw [carrierFreqKey_eq, shape]
          simp only [List.cons_append, List.append_assoc, List.nil_append]
          exact strstr_cons_ne _ (by decide) (by decide)
      _ = _ := strstr_prefix _ _ (by decide)
  have clean : ∀ b ∈ carrierFreqKey, b ≠ 0 ∧ b ≠ 58 := by decide +kernel
  simp only [decodeCarrierFreq, found, strchr_append _ clean, strchr_cons_self, List.tail_cons]
  exact strtoul_decimal carrierFreq stops

theorem strstr_pulses_command (carrierFreq : UInt32) (rest : List UInt8) :
    strstr pulsesKey (bytes "\x7b\"carrier_freq\":" ++ (decimal carrierFreq.toNat ++
      (bytes ",\"pulses\":[" ++ rest))) = some (pulsesKey ++ 58 :: 91 :: rest) := by
  have shape : pulsesKey = 34 :: 112 :: bytes "ulses\"" := by decide
  have opening : bytes "\x7b\"carrier_freq\":" =
      123 :: 34 :: bytes "carrier_freq" ++ 34 :: [58] := by decide
  have word : ∀ b ∈ bytes "carrier_freq", b ≠ 0 ∧ b ≠ 34 := by decide +kernel
  have digits : ∀ b ∈ decimal carrierFreq.toNat, b ≠ 0 ∧ b ≠ 34 := fun b member =>
    digit_ne_zero_quote (isDigit_of_mem_decimal member)
  -- the quotes before the key are those of `carrier_freq`, followed by `c` and `:`
  calc strstr pulsesKey (bytes "\x7b\"carrier_freq\":" ++ (decimal carrierFreq.toNat ++
          (bytes ",\"pulses\":[" ++ rest)))
      = strstr pulsesKey (34 :: (bytes "carrier_freq" ++ 34 :: 58 ::
          (decimal carrierFreq.toNat ++ (bytes ",\"pulses\":[" ++ rest)))) := by
        rw [opening, shape]
        simp only [List.cons_append, List.append_assoc]
        exact strstr_cons_ne _ (by decide) (by decide)
    _ = strstr pulsesKey (bytes "carrier_freq" ++ 34 :: 58 ::
          (decimal carrierFreq.toNat ++ (bytes ",\"pulses\":[" ++ rest))) := by
        rw [shape, show bytes "carrier_freq" = 99 :: bytes "arrier_freq" by decide]
        exact strstr_cons_cons_ne _ (by decide) (by decide)
    _ = strstr pulsesKey (34 :: 58 ::
          (decimal carrierFreq.toNat ++ (bytes ",\"pulses\":[" ++ rest))) := by
        rw [shape]; exact strstr_append _ word
    _ = strstr pulsesKey (58 :: (decimal carrierFreq.toNat ++ (bytes ",\"pulses\":[" ++ rest))) := by
        rw [shape]; exact strstr_cons_cons_ne _ (by decide) (by decide)
    _ = strstr pulsesKey (decimal carrierFreq.toNat ++ (bytes ",\"pulses\":[" ++ rest)) := by
        rw [shape]; exact strstr_cons_ne _ (by decide) (by decide)
    _ = strstr pulsesKey (bytes ",\"pulses\":[" ++ rest) := by
        rw [shape]; exact strstr_append _ digits
    _ = strstr pulsesKey (pulsesKey ++ 58 :: 91 :: rest) := by
        rw [pulsesKey_eq, shape]
        simp only [List.cons_append, List.append_assoc, List.nil_append]
        exact strstr_cons_ne _ (by decide) (by decide)
    _ = some (pulsesKey ++ 58 :: 91 :: rest) := strstr_prefix _ _ (by decide)

/-- **The decoder reads back what the backend sends**: the frequency and every
pulse, nothing truncated. -/
theorem decode_commandText (carrierFreq : UInt32) (pulses : List UInt16)
    (nonempty : 0 < pulses.length) (fits : pulses.length ≤ irMaxPulses) :
    decodeIrMessage (commandText carrierFreq pulses) =
      (true, ⟨carrierFreq, 1, false, pulses⟩) := by
  have closing : bytes "]\x7d" = [93, 125] := by decide
  have text : commandText carrierFreq pulses =
      bytes "\x7b\"carrier_freq\":" ++ (decimal carrierFreq.toNat ++ (bytes ",\"pulses\":[" ++
        (commaSep (pulses.map fun pulse => decimal pulse.toNat) ++ 93 :: [125]))) := by
    simp [commandText, closing]
  have carrier : decodeCarrierFreq (commandText carrierFreq pulses) = carrierFreq := by
    rw [text, ← List.append_assoc]
    refine decodeCarrierFreq_command carrierFreq _ fun b head => ?_
    rw [pulsesKey_eq, List.cons_append, List.cons_append, List.head?_cons] at head
    rw [← Option.some.inj head]; decide
  have key := strstr_pulses_command carrierFreq
    (commaSep (pulses.map fun pulse => decimal pulse.toNat) ++ 93 :: [125])
  rw [← text] at key
  have clean : ∀ b ∈ pulsesKey ++ [58], b ≠ 0 ∧ b ≠ 91 := by decide +kernel
  have bracket : ∀ rest, strchr (pulsesKey ++ 58 :: 91 :: rest) 91 = some (91 :: rest) := by
    intro rest
    rw [show pulsesKey ++ 58 :: 91 :: rest = (pulsesKey ++ [58]) ++ 91 :: rest by simp,
      strchr_append _ clean, strchr_cons_self]
  simp only [decodeIrMessage, key, bracket, List.tail_cons, carrier,
    decodePulses_commaSep pulses irMaxPulses [125] fits]
  simp [moreDigits, nonempty]

end IrHub.Firmware.JsonHelper
