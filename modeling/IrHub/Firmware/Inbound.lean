/-
# Firmware.Inbound -- the two MQTT receive callbacks of `mqtt_manager.cpp`

lwIP announces a publish with `mqttIncomingPublishCb` and then hands over its
payload in fragments, the last one flagged.  `mqttIncomingDataCb` appends each
fragment to a buffer of `MQTT_MAX_PAYLOAD_LEN` bytes, and on the last one decodes
what the buffer holds.

The bound is checked fragment by fragment, so what is decoded is not the payload
but the fragments that still fitted when they came (`kept`).  For a payload that
fits, these are all of them (`kept_of_fits`), and the outcome depends on the
payload alone.  For a longer one it depends on the split.
-/
import IrHub.Firmware.JsonHelper

namespace IrHub.Firmware.Inbound

set_option autoImplicit false

open IrHub.Theory IrHub.Firmware.JsonHelper

/-- `s_rx_topic`, the first `s_rx_payload_len` bytes of `s_rx_payload`, and the
messages handed to `xQueueSend` for `g_mqttToTransmitQueue`, oldest first. -/
structure Rx where
  topic : List UInt8
  payload : List UInt8
  pushed : List IrMessage
  deriving DecidableEq, Repr

/-- `sizeof(s_rx_topic)` -/
def rxTopicSize : Nat := 64

/-- `mqtt_incoming_publish_cb` -/
def mqttIncomingPublishCb (rx : Rx) (topic : List UInt8) : Rx :=
  { rx with topic := strncpy (rxTopicSize - 1) topic, payload := [] }

/-- The bounds check and the copy: a fragment that does not fit is skipped. -/
def append (payload data : List UInt8) : List UInt8 :=
  if payload.length + data.length < mqttMaxPayloadLen then payload ++ data else payload

/-- What a complete payload puts on the transmit queue. -/
def transmitted (payload : List UInt8) : List IrMessage :=
  match decodeIrMessage payload with
  | (false, _) => []
  | (true, msg) => if msg.truncated then [] else [msg]

/-- `mqtt_incoming_data_cb`; `last` is `flags & MQTT_DATA_FLAG_LAST`. -/
def mqttIncomingDataCb (rx : Rx) (data : List UInt8) (last : Bool) : Rx :=
  let rx := { rx with payload := append rx.payload data }
  if last ∧ rx.topic = mqttTopicSend then
    { rx with pushed := rx.pushed ++ transmitted rx.payload }
  else rx

/-- The data callbacks of one publish: the flag is on the final fragment only. -/
def deliver : Rx → List (List UInt8) → Rx
  | rx, [] => rx
  | rx, [data] => mqttIncomingDataCb rx data true
  | rx, data :: next :: rest => deliver (mqttIncomingDataCb rx data false) (next :: rest)

/-- One publish, announced and then delivered in fragments. -/
def receive (rx : Rx) (topic : List UInt8) (fragments : List (List UInt8)) : Rx :=
  deliver (mqttIncomingPublishCb rx topic) fragments

/-! ## What the buffer holds at the end -/

/-- The fragments that still fit after `payload`, joined. -/
def kept (payload : List UInt8) (fragments : List (List UInt8)) : List UInt8 :=
  fragments.foldl append payload

/-- The payload is decoded once, when its last fragment is in. -/
theorem deliver_pushed (rx : Rx) {fragments : List (List UInt8)} (nonempty : fragments ≠ [])
    (topic : rx.topic = mqttTopicSend) :
    (deliver rx fragments).pushed = rx.pushed ++ transmitted (kept rx.payload fragments) := by
  induction rx, fragments using deliver.induct with
  | case1 rx => exact absurd rfl nonempty
  | case2 rx data => simp [deliver, mqttIncomingDataCb, topic, kept]
  | case3 rx data next rest ih =>
      rw [deliver, ih (by simp) (by simpa [mqttIncomingDataCb] using topic)]
      simp [mqttIncomingDataCb, kept]

theorem strncpy_topicSend : strncpy (rxTopicSize - 1) mqttTopicSend = mqttTopicSend := by decide

/-- Whatever the buffers held before, one publish on `irhub/send` pushes what its
kept fragments decode to. -/
theorem receive_pushed (rx : Rx) {fragments : List (List UInt8)} (nonempty : fragments ≠ []) :
    (receive rx mqttTopicSend fragments).pushed =
      rx.pushed ++ transmitted (kept [] fragments) :=
  deliver_pushed _ nonempty strncpy_topicSend

theorem kept_of_fits (payload : List UInt8) {fragments : List (List UInt8)}
    (fits : payload.length + fragments.flatten.length < mqttMaxPayloadLen) :
    kept payload fragments = payload ++ fragments.flatten := by
  induction fragments generalizing payload with
  | nil => simp [kept]
  | cons data rest ih =>
      simp only [List.flatten_cons, List.length_append] at fits
      have room : append payload data = payload ++ data := by
        rw [append, if_pos (by omega)]
      have step := ih (payload ++ data) (by rw [List.length_append]; omega)
      simpa [kept, room] using step

/-! ## All or nothing -/

/-- What the payload as a whole should put on the queue: its non-truncated
decoding, and nothing when it does not fit the buffer.  No split in sight. -/
def accepted (payload : List UInt8) : List IrMessage :=
  if payload.length < mqttMaxPayloadLen then transmitted payload else []

/-- What is left of a payload, behind `front`, when pieces are cut out of it that would
each have brought the bytes in front of them to the size of the buffer. -/
inductive Left : List UInt8 → List UInt8 → List UInt8 → Prop
  | done (front : List UInt8) : Left front [] front
  | keep {front rest text : List UInt8} {b : UInt8} : front.length + 1 < mqttMaxPayloadLen →
      Left (front ++ [b]) rest text → Left front (b :: rest) text
  | cut {front piece rest text : List UInt8} : mqttMaxPayloadLen ≤ front.length + piece.length →
      Left front rest text → Left front (piece ++ rest) text

theorem left_append {front rest text : List UInt8} (piece : List UInt8)
    (fits : front.length + piece.length < mqttMaxPayloadLen)
    (left : Left (front ++ piece) rest text) : Left front (piece ++ rest) text := by
  induction piece generalizing front with
  | nil => simpa using left
  | cons b piece ih =>
      rw [List.length_cons] at fits
      refine .keep (by omega) (ih ?_ ?_)
      · rw [List.length_append, List.length_singleton]
        omega
      · rwa [List.append_assoc, List.singleton_append]

/-- A command behind anything that fills the buffer is left of it. -/
theorem left_padded {padding command : List UInt8} (long : mqttMaxPayloadLen ≤ padding.length)
    (short : command.length < mqttMaxPayloadLen) : Left [] (padding ++ command) command := by
  refine .cut (by simpa using long) ?_
  have whole : Left [] (command ++ []) command :=
    left_append command (by simpa using short) (by simpa using Left.done command)
  rwa [List.append_nil] at whole

end IrHub.Firmware.Inbound
