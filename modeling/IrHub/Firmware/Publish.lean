/-
# Firmware.Publish -- `publish_learned_signal` and the size of its MQTT packet

`publishLearnedSignal` encodes a capture and hands the text to lwIP's
`mqtt_publish`.  lwIP is a parameter: `MqttClient` is its publish function
together with the one documented fact the code depends on, that it answers
`ERR_MEM` exactly when no request slot is free or the whole packet does not fit
the free space of the output ring.

Every capture can be encoded (`encodeIrMessage_capture`): 800 five-digit pulses
need less than 5000 of the 8192 bytes.  The output ring is a tighter limit, and
`fits_iff` is the exact bound it puts on the digits of a capture.
-/
import IrHub.Firmware.JsonHelper

namespace IrHub.Firmware.Publish

set_option autoImplicit false

open IrHub.Theory IrHub.Firmware.JsonHelper

/-! ## The length of a message's text -/

/-- The characters of a message's numbers, its flag and its commas. -/
def textDigits (msg : IrMessage) : Nat :=
  (decimal msg.carrierFreq.toNat).length + (decimal msg.frameCount.toNat).length +
    (if msg.truncated then 4 else 5) +
    (msg.pulses.map fun pulse => (decimal pulse.toNat).length).sum + (msg.pulseCount - 1)

theorem messageText_length (msg : IrMessage) : (messageText msg).length = 57 + textDigits msg := by
  have closing : (bytes "]\x7d").length = 2 := by decide
  have list : (commaSep (msg.pulses.map fun pulse => decimal pulse.toNat)).length =
      (msg.pulses.map fun pulse => (decimal pulse.toNat).length).sum + (msg.pulses.length - 1) := by
    cases msg.pulses with
    | nil => rfl
    | cons pulse pulses => simp [commaSep_length, Function.comp_def]
  simp only [messageText, List.length_append, header_length, closing, list, textDigits,
    IrMessage.pulseCount]
  omega

theorem sum_digits_le (pulses : List UInt16) :
    (pulses.map fun pulse => (decimal pulse.toNat).length).sum ≤ 5 * pulses.length := by
  induction pulses with
  | nil => simp
  | cons pulse pulses ih =>
      have bound := pulse.toNat_lt
      have digits := decimal_length_le (n := pulse.toNat) (k := 5) (by decide) (by omega)
      simp only [List.map_cons, List.sum_cons, List.length_cons]
      omega

/-- The widest capture has 4877 characters. -/
theorem messageText_bound {msg : IrMessage} (fits : msg.pulseCount ≤ irMaxPulses) :
    (messageText msg).length ≤ 4877 := by
  have carrier := decimal_length_le (n := msg.carrierFreq.toNat) (k := 10) (by decide)
    (by have := msg.carrierFreq.toNat_lt; omega)
  have frames := decimal_length_le (n := msg.frameCount.toNat) (k := 5) (by decide)
    (by have := msg.frameCount.toNat_lt; omega)
  have pulses := sum_digits_le msg.pulses
  have flag : (if msg.truncated then 4 else 5) ≤ 5 := by split <;> omega
  rw [messageText_length, textDigits]
  simp only [IrMessage.pulseCount, irMaxPulses] at fits ⊢
  omega

/-- Every capture the hub can hold fits the payload buffer. -/
theorem encodeIrMessage_capture {msg : IrMessage} (fits : msg.pulseCount ≤ irMaxPulses) :
    encodeIrMessage msg mqttMaxPayloadLen = some (messageText msg) :=
  encodeIrMessage_eq (by have := messageText_bound fits; simp only [mqttMaxPayloadLen]; omega)

/-! ## The PUBLISH packet -/

/-- How many bytes encode a remaining length, seven bits to a byte. -/
def remainingLengthBytes (remaining : Nat) : Nat :=
  if remaining < 128 then 1
  else if remaining < 16384 then 2
  else if remaining < 2097152 then 3 else 4

/-- A PUBLISH packet of quality of service 1: the type byte, the remaining
length, the topic with its length, a packet id, the payload. -/
def packetLength (topic payload : List UInt8) : Nat :=
  let remaining := 2 + topic.length + 2 + payload.length
  1 + remainingLengthBytes remaining + remaining

/-- `err_t` as far as `mqtt_publish` returns it. -/
inductive Err where
  | ok
  | mem
  | conn
  deriving DecidableEq, Repr

/-- The client's output: free request slots and bytes queued in the ring. -/
structure Output where
  freeRequests : Nat
  queued : Nat
  deriving DecidableEq, Repr

/-- lwIP's `mqtt_publish`, at quality of service 1. -/
structure MqttClient where
  publish : Output → List UInt8 → List UInt8 → Err
  publish_mem_iff : ∀ output topic payload, publish output topic payload = .mem ↔
    output.freeRequests = 0 ∨ mqttOutputRingbufSize - output.queued < packetLength topic payload

/-- `publish_learned_signal` once the mutex is taken: `none` when the encoder
returned 0, otherwise the status of `mqtt_publish`. -/
def publishLearnedSignal (client : MqttClient) (output : Output) (msg : IrMessage) : Option Err :=
  (encodeIrMessage msg mqttMaxPayloadLen).map (client.publish output mqttTopicLearned)

/-- The packet of a capture fits an empty ring exactly when its digits number at
most 947. -/
theorem fits_iff (msg : IrMessage) :
    packetLength mqttTopicLearned (messageText msg) ≤ mqttOutputRingbufSize ↔
      textDigits msg ≤ 947 := by
  have topic : mqttTopicLearned.length = 13 := by decide
  simp only [packetLength, messageText_length, topic, remainingLengthBytes, mqttOutputRingbufSize]
  split
  · omega
  · split
    · omega
    · split <;> omega

/-- Taken from the queue with a free request slot and an empty ring, a capture is
published unless its digits number more than 947: then it is lost to `ERR_MEM`. -/
theorem publishLearnedSignal_iff (client : MqttClient) (slots : Nat) (msg : IrMessage)
    (free : 0 < slots) (fits : msg.pulseCount ≤ irMaxPulses) :
    (packetLength mqttTopicLearned (messageText msg) ≤ mqttOutputRingbufSize ∧
        ∃ err, publishLearnedSignal client ⟨slots, 0⟩ msg = some err ∧ err ≠ .mem) ↔
      textDigits msg ≤ 947 := by
  have status : publishLearnedSignal client ⟨slots, 0⟩ msg =
      some (client.publish ⟨slots, 0⟩ mqttTopicLearned (messageText msg)) := by
    rw [publishLearnedSignal, encodeIrMessage_capture fits, Option.map_some]
  have lost := client.publish_mem_iff ⟨slots, 0⟩ mqttTopicLearned (messageText msg)
  rw [← fits_iff]
  constructor
  · exact fun both => both.1
  · intro small
    refine ⟨small, _, status, fun mem => ?_⟩
    rcases lost.mp mem with none | excess
    · simp only at none; omega
    · simp only at excess; omega

/-- A client that publishes whenever it has the room. -/
def roomyClient : MqttClient where
  publish output topic payload :=
    if output.freeRequests = 0 ∨ mqttOutputRingbufSize - output.queued < packetLength topic payload
    then .mem else .ok
  publish_mem_iff output topic payload := by
    split <;> simp_all

/-- An ordinary frame: nine digits of pulses, well under the limit. -/
theorem publishLearnedSignal_short :
    packetLength mqttTopicLearned (messageText ⟨38000, 1, false, [9000, 4500]⟩) ≤
        mqttOutputRingbufSize ∧
      ∃ err, publishLearnedSignal roomyClient ⟨8, 0⟩ ⟨38000, 1, false, [9000, 4500]⟩ = some err ∧
        err ≠ .mem :=
  (publishLearnedSignal_iff roomyClient 8 ⟨38000, 1, false, [9000, 4500]⟩ (by decide)
    (by decide)).mpr (by decide)

/-- A long air-conditioner command: 240 entries of three digits. -/
def longCapture : IrMessage := ⟨38000, 1, false, List.replicate 240 450⟩

theorem textDigits_longCapture : textDigits longCapture = 970 := by
  have carrier : (decimal (38000 : UInt32).toNat).length = 5 := by decide
  have frames : (decimal (1 : UInt16).toNat).length = 1 := by decide
  have entry : (decimal (450 : UInt16).toNat).length = 3 := by decide
  simp only [textDigits, carrier, frames, longCapture, IrMessage.pulseCount, List.map_replicate,
    List.sum_replicate_nat, List.length_replicate, entry, Bool.false_eq_true, if_false]

/-- Its packet of 1047 bytes cannot enter the ring even when nothing else is in it. -/
theorem publishLearnedSignal_long :
    longCapture.pulseCount ≤ irMaxPulses ∧
      mqttOutputRingbufSize < packetLength mqttTopicLearned (messageText longCapture) ∧
      publishLearnedSignal roomyClient ⟨8, 0⟩ longCapture = some .mem := by
  have capture : longCapture.pulseCount ≤ irMaxPulses := by
    rw [IrMessage.pulseCount, longCapture, List.length_replicate]
    decide
  have tooLong : mqttOutputRingbufSize < packetLength mqttTopicLearned (messageText longCapture) := by
    have limit := (fits_iff longCapture).mp.mt (by rw [textDigits_longCapture]; decide)
    omega
  refine ⟨capture, tooLong, ?_⟩
  rw [publishLearnedSignal, encodeIrMessage_capture capture, Option.map_some]
  exact congrArg some ((roomyClient.publish_mem_iff _ _ _).mpr (Or.inr tooLong))

end IrHub.Firmware.Publish
