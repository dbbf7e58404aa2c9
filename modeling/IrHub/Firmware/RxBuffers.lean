/-
# Firmware.RxBuffers -- the receive callbacks and their buffers

`Inbound` has the two callbacks on lists.  Here they write into the arrays that the code
declares, `s_rx_topic`, `s_rx_payload` and the one in `s_rx_msg`, and every store and
every load is checked.

`Inv` is what keeps the accesses in bounds: the payload is shorter than its buffer, so its
NUL has a place, and the last byte of the topic is one.  `handle_ends` is one callback:
it faults nowhere, keeps `Inv`, and does to `view`, the C strings in the buffers, what
`Inbound` does.  `run_ends` is any sequence of them.
-/
import IrHub.Firmware.Decoder
import IrHub.Firmware.Inbound

namespace IrHub.Firmware.RxBuffers

set_option autoImplicit false

open IrHub.Theory IrHub.Theory.Access IrHub.Theory.CMemory IrHub.Firmware.Inbound
open IrHub.Firmware.Encoder (MessageStruct)
open IrHub.Firmware.Decoder (decodeIrMessageAt decodeIrMessageAt_ends)
open IrHub.Firmware.JsonHelper (decodeIrMessage)

/-! ## The callbacks -/

/-- `s_rx_topic`, `s_rx_payload`, `s_rx_payload_len`, `s_rx_msg`, and the messages handed to
`xQueueSend`, oldest first. -/
structure Buffers where
  topic : List.Vector UInt8 rxTopicSize
  payload : List.Vector UInt8 mqttMaxPayloadLen
  payloadLen : Nat
  msg : MessageStruct
  pushed : List IrMessage

/-- Static storage at boot. -/
def boot : Buffers where
  topic := List.Vector.replicate rxTopicSize 0
  payload := List.Vector.replicate mqttMaxPayloadLen 0
  payloadLen := 0
  msg := ⟨0, 0, 0, false, List.Vector.replicate irMaxPulses 0⟩
  pushed := []

/-- `mqtt_incoming_publish_cb`; `strncpy` fills the bytes behind a short topic. -/
def publishCb (b : Buffers) (topic : List UInt8) : Checked Buffers := do
  let copied := strncpy (rxTopicSize - 1) topic
  let padding := List.replicate (rxTopicSize - 1 - copied.length) 0
  let buffer ← copyIn b.topic 0 (copied ++ padding)
  let buffer ← put buffer (rxTopicSize - 1) 0
  .ok { b with topic := buffer, payloadLen := 0 }

/-- The bounds check and the `memcpy`. -/
def appendTo (b : Buffers) (data : List UInt8) : Checked Buffers :=
  if b.payloadLen + data.length < mqttMaxPayloadLen then do
    let payload ← copyIn b.payload b.payloadLen data
    .ok { b with payload, payloadLen := b.payloadLen + data.length }
  else .ok b

/-- `s_rx_payload[s_rx_payload_len] = '\0'` -/
def terminate (b : Buffers) : Checked Buffers := do
  let payload ← put b.payload b.payloadLen 0
  .ok { b with payload }

/-- What is done with a complete payload. -/
def complete (fuel : Nat) (b : Buffers) : Checked Buffers := do
  if ← equalsAt b.topic.toList mqttTopicSend 0 then do
    let (decoded, msg) ← decodeIrMessageAt fuel b.payload.toList b.payloadLen b.msg
    let b := { b with msg }
    if !decoded then .ok b
    else if msg.truncated then .ok b
    else .ok { b with pushed := b.pushed ++ [msg.message] }
  else .ok b

/-- `mqtt_incoming_data_cb`; `last` is `flags & MQTT_DATA_FLAG_LAST`. -/
def dataCb (fuel : Nat) (b : Buffers) (data : List UInt8) (last : Bool) : Checked Buffers := do
  let b ← appendTo b data
  if last then do
    let b ← terminate b
    complete fuel b
  else .ok b

inductive Event where
  | publish (topic : List UInt8)
  | data (bytes : List UInt8) (last : Bool)
  deriving DecidableEq, Repr

def handle (fuel : Nat) (b : Buffers) : Event → Checked Buffers
  | .publish topic => publishCb b topic
  | .data bytes last => dataCb fuel b bytes last

/-- Callbacks one after another. -/
def run (fuel : Nat) : Buffers → List Event → Checked Buffers
  | b, [] => .ok b
  | b, e :: es => do
      let b ← handle fuel b e
      run fuel b es

/-! ## In bounds -/

structure Inv (b : Buffers) : Prop where
  room : b.payloadLen < mqttMaxPayloadLen
  topic : b.topic.toList = b.topic.toList.take (rxTopicSize - 1) ++ [0]
  count : b.msg.pulseCount.toNat ≤ irMaxPulses

/-- The payload received so far. -/
def Buffers.text (b : Buffers) : List UInt8 := b.payload.toList.take b.payloadLen

/-- The buffers as strings. -/
def view (b : Buffers) : Rx where
  topic := cstr (b.topic.toList.take (rxTopicSize - 1))
  payload := b.text
  pushed := b.pushed

/-- One callback of `Inbound`. -/
def received (rx : Rx) : Event → Rx
  | .publish topic => mqttIncomingPublishCb rx topic
  | .data bytes last => mqttIncomingDataCb rx bytes last

theorem Inv.text_length {b : Buffers} (inv : Inv b) : b.text.length = b.payloadLen := by
  rw [Buffers.text, List.length_take, List.Vector.toList_length]
  exact Nat.min_eq_left inv.room.le

theorem inv_boot : Inv boot := by
  refine ⟨by decide, ?_, by decide⟩
  show (List.replicate rxTopicSize (0 : UInt8)) = _
  decide

/-- A C string filled up with NULs is still that string. -/
theorem cstr_padded {t : List UInt8} (clean : 0 ∉ t) (n : Nat) :
    cstr (t ++ List.replicate n 0) = t := by
  refine takeWhile_run (fun b member => ?_) fun b head => ?_
  · have text : b ≠ 0 := fun nul => clean (nul ▸ member)
    simpa using text
  · have nul := List.eq_of_mem_replicate (List.mem_of_head? head)
    simp [nul]

theorem publishCb_ends {b : Buffers} (inv : Inv b) (topic : List UInt8) :
    Ends (publishCb b topic) fun after =>
      Inv after ∧ view after = mqttIncomingPublishCb (view b) topic := by
  let copied := strncpy (rxTopicSize - 1) topic
  let padding := List.replicate (rxTopicSize - 1 - copied.length) (0 : UInt8)
  have short : copied.length ≤ rxTopicSize - 1 := List.length_take_le _ _
  have length : (copied ++ padding).length = rxTopicSize - 1 := by
    rw [List.length_append, List.length_replicate]
    omega
  have clean : 0 ∉ copied := fun member =>
    nul_not_mem_cstr topic (List.mem_of_mem_take member)
  have fits : 0 + (copied ++ padding).length ≤ rxTopicSize := by
    rw [length]
    decide
  refine (copyIn_next fits).bind ?_
  rintro buffer front
  rw [length, Nat.zero_add, List.take_zero, List.nil_append] at front
  refine (put_next (a := buffer) (i := rxTopicSize - 1) (by decide) 0).bind ?_
  rintro after whole
  have filled : after.toList = copied ++ padding ++ [0] := by
    rw [front] at whole
    rwa [List.take_of_length_le (by rw [List.Vector.toList_length]; decide)] at whole
  have front : after.toList.take (rxTopicSize - 1) = copied ++ padding := by
    rw [filled, List.take_left' length]
  have empty : 0 < mqttMaxPayloadLen := by decide
  refine Ends.ok ⟨⟨empty, by rw [front, filled], inv.count⟩, ?_⟩
  rw [view, front, cstr_padded clean]
  rfl

theorem appendTo_ends {b : Buffers} (inv : Inv b) (data : List UInt8) :
    Ends (appendTo b data) fun after =>
      Inv after ∧ view after = { view b with payload := append b.text data } := by
  rw [appendTo, append, inv.text_length]
  by_cases fits : b.payloadLen + data.length < mqttMaxPayloadLen
  · rw [if_pos fits, if_pos fits]
    refine (copyIn_next fits.le).bind ?_
    rintro payload text
    refine Ends.ok ⟨⟨fits, inv.topic, inv.count⟩, ?_⟩
    rw [view, Buffers.text, text]
    rfl
  · rw [if_neg fits, if_neg fits]
    exact Ends.ok ⟨inv, rfl⟩

/-- The text and its NUL. -/
def Terminated (b : Buffers) : Prop := b.payload.toList.take (b.payloadLen + 1) = b.text ++ [0]

theorem terminate_ends {b : Buffers} (inv : Inv b) :
    Ends (terminate b) fun after => Inv after ∧ view after = view b ∧ Terminated after := by
  refine (put_next inv.room 0).bind ?_
  rintro payload text
  rw [← Buffers.text] at text
  have same : payload.toList.take b.payloadLen = b.text := by
    have front := congrArg (List.take b.payloadLen) text
    rwa [List.take_take, Nat.min_eq_left (Nat.le_succ _), List.take_left' inv.text_length] at front
  refine Ends.ok ⟨⟨inv.room, inv.topic, inv.count⟩, ?_, ?_⟩
  · rw [view, Buffers.text, same]
    rfl
  · rw [Terminated, Buffers.text, same]
    exact text

theorem Terminated.memory {b : Buffers} (terminated : Terminated b) :
    b.payload.toList = b.text ++ 0 :: b.payload.toList.drop (b.payloadLen + 1) := by
  have whole := List.take_append_drop (b.payloadLen + 1) b.payload.toList
  rw [terminated, List.append_assoc] at whole
  exact whole.symm

/-- The decoder looks at the text and its NUL, and at nothing that is left behind it. -/
theorem decode_ends {fuel : Nat} {b : Buffers} (inv : Inv b) (rest : List UInt8)
    (enough : mqttMaxPayloadLen ≤ fuel) :
    Ends (decodeIrMessageAt fuel (b.text ++ 0 :: rest) b.payloadLen b.msg) fun (decoded, msg) =>
      (decoded, msg.message) = decodeIrMessage b.text ∧ msg.pulseCount.toNat ≤ irMaxPulses := by
  have length := inv.text_length
  have short : b.text.length < fuel := by
    have room := inv.room
    omega
  rw [← length]
  exact decodeIrMessageAt_ends b.msg short

theorem complete_ends {fuel : Nat} {b : Buffers} (inv : Inv b) (terminated : Terminated b)
    (enough : mqttMaxPayloadLen ≤ fuel) :
    Ends (complete fuel b) fun after =>
      Inv after ∧ view after =
        if (view b).topic = mqttTopicSend then
          { view b with pushed := b.pushed ++ transmitted b.text }
        else view b := by
  have topic : equalsAt b.topic.toList mqttTopicSend 0 =
      .ok (decide ((view b).topic = mqttTopicSend)) := by
    have compared : equalsAt (b.topic.toList.take (rxTopicSize - 1) ++ [0]) mqttTopicSend 0 =
        .ok (decide ((view b).topic = mqttTopicSend)) := equalsAt_eq (by decide) (Nat.zero_le _)
    rwa [← inv.topic] at compared
  refine Ends.bind ⟨_, topic, rfl⟩ ?_
  rintro _ rfl
  by_cases send : (view b).topic = mqttTopicSend
  · rw [if_pos (by simpa using send), if_pos send]
    have decode := decode_ends inv (b.payload.toList.drop (b.payloadLen + 1)) enough
    rw [← terminated.memory] at decode
    refine decode.bind ?_
    rintro ⟨decoded, msg⟩ ⟨same, count⟩
    have kept : ∀ pushed, Inv { b with msg, pushed } := fun _ => ⟨inv.room, inv.topic, count⟩
    rw [transmitted, ← same]
    cases decoded with
    | false => exact Ends.ok ⟨kept b.pushed, by simp [view, Buffers.text]⟩
    | true =>
        have flag : msg.message.truncated = msg.truncated := rfl
        show Ends (if msg.truncated then .ok { b with msg }
          else .ok { b with msg, pushed := b.pushed ++ [msg.message] }) _
        by_cases clipped : msg.truncated = true
        · rw [if_pos clipped]
          exact Ends.ok ⟨kept b.pushed, by simp [view, Buffers.text, flag, clipped]⟩
        · rw [if_neg clipped]
          exact Ends.ok ⟨kept _, by simp [view, Buffers.text, flag, clipped]⟩
  · rw [if_neg (by simpa using send), if_neg send]
    exact Ends.ok ⟨inv, rfl⟩

theorem dataCb_ends {fuel : Nat} {b : Buffers} (inv : Inv b) (data : List UInt8) (last : Bool)
    (enough : mqttMaxPayloadLen ≤ fuel) :
    Ends (dataCb fuel b data last) fun after =>
      Inv after ∧ view after = mqttIncomingDataCb (view b) data last := by
  refine (appendTo_ends inv data).bind ?_
  rintro c ⟨inv, appended⟩
  cases last with
  | false =>
      refine Ends.ok ⟨inv, ?_⟩
      rw [appended]
      simp [mqttIncomingDataCb, view]
  | true =>
      refine (terminate_ends inv).bind ?_
      rintro d ⟨inv, same, terminated⟩
      refine (complete_ends inv terminated enough).mono ?_
      rintro after ⟨inv, shown⟩
      have pushed : view after = if (view d).topic = mqttTopicSend then
          { view d with pushed := (view d).pushed ++ transmitted (view d).payload }
        else view d := shown
      rw [same, appended] at pushed
      refine ⟨inv, ?_⟩
      by_cases send : (view b).topic = mqttTopicSend
      · rw [pushed, if_pos send]
        exact (if_pos ⟨rfl, send⟩).symm
      · rw [pushed, if_neg send]
        exact (if_neg fun both => send both.2).symm

theorem handle_ends {fuel : Nat} {b : Buffers} (inv : Inv b) (e : Event)
    (enough : mqttMaxPayloadLen ≤ fuel) :
    Ends (handle fuel b e) fun after => Inv after ∧ view after = received (view b) e := by
  cases e with
  | publish topic => exact publishCb_ends inv topic
  | data bytes last => exact dataCb_ends inv bytes last enough

theorem run_ends {fuel : Nat} {b : Buffers} (inv : Inv b) (es : List Event)
    (enough : mqttMaxPayloadLen ≤ fuel) :
    Ends (run fuel b es) fun after => Inv after ∧ view after = es.foldl received (view b) := by
  induction es generalizing b with
  | nil => exact Ends.ok ⟨inv, rfl⟩
  | cons e es ih =>
      refine (handle_ends inv e enough).bind ?_
      rintro c ⟨inv, same⟩
      rw [List.foldl_cons, ← same]
      exact ih inv

/-- **Remote input never leaves the buffers.**  Any sequence of callbacks ends without a
fault, and leaves the buffers as `Inbound` says.  Whatever data comes then, it and its NUL
have their place, and the decoder ends on memory that stops at that NUL, with a count within
the array. -/
theorem remote_input_in_bounds {fuel : Nat} (enough : mqttMaxPayloadLen ≤ fuel)
    (events : List Event) :
    Ends (run fuel boot events) fun b =>
      b.payloadLen < mqttMaxPayloadLen ∧ view b = events.foldl received ⟨[], [], []⟩ ∧
      ∀ data, Ends (appendTo b data >>= terminate) fun c =>
        c.payloadLen < mqttMaxPayloadLen ∧
        Ends (decodeIrMessageAt fuel (c.payload.toList.take (c.payloadLen + 1)) c.payloadLen c.msg)
          fun (decoded, msg) =>
            (decoded, msg.message) = decodeIrMessage c.text ∧
              msg.pulseCount.toNat ≤ irMaxPulses := by
  refine (run_ends inv_boot events enough).mono ?_
  rintro b ⟨inv, same⟩
  refine ⟨inv.room, same, fun data => ?_⟩
  refine (appendTo_ends inv data).bind ?_
  rintro c ⟨inv, -⟩
  refine (terminate_ends inv).mono ?_
  rintro d ⟨inv, -, terminated⟩
  refine ⟨inv.room, ?_⟩
  rw [terminated]
  exact decode_ends inv [] enough

/-- A command in two fragments, with a NUL inside, and an announcement that interrupts
the next one. -/
theorem remote_input_in_bounds_split :
    Ends (run 8192 boot [.publish mqttTopicSend, .data (bytes "\x7b\"pulses\":[90" ++ [0]) false,
      .data (bytes "00]\x7d") true, .data (bytes "[") false, .publish [0]]) fun b =>
        b.payloadLen < mqttMaxPayloadLen ∧
        view b = [Event.publish mqttTopicSend, .data (bytes "\x7b\"pulses\":[90" ++ [0]) false,
          .data (bytes "00]\x7d") true, .data (bytes "[") false, .publish [0]].foldl received
            ⟨[], [], []⟩ ∧
        ∀ data, Ends (appendTo b data >>= terminate) fun c =>
          c.payloadLen < mqttMaxPayloadLen ∧
          Ends (decodeIrMessageAt 8192 (c.payload.toList.take (c.payloadLen + 1)) c.payloadLen
            c.msg) fun (decoded, msg) =>
              (decoded, msg.message) = decodeIrMessage c.text ∧
                msg.pulseCount.toNat ≤ irMaxPulses :=
  remote_input_in_bounds (by decide) _

end IrHub.Firmware.RxBuffers
