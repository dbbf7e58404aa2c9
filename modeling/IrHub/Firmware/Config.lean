/-
# Firmware.Config -- the limits and the message of `config.h`

`IrMessage` is the decoded pulse train that the queues carry.  The C struct has
room for `IR_MAX_PULSES` entries and a `pulse_count`; no function reads an entry
at or past `pulse_count`, so the model keeps the entries below it and
`pulseCount` is their number.
-/
import IrHub.Theory.Bytes

namespace IrHub.Firmware

set_option autoImplicit false

open IrHub.Theory

/-! ## Infrared timing -/

/-- `IR_CARRIER_HZ` -/
def irCarrierHz : UInt32 := 38000

/-- `IR_MAX_PULSES` -/
def irMaxPulses : Nat := 800

/-- `IR_MIN_PULSE_US` -/
def irMinPulseUs : Nat := 60

/-- `IR_FRAME_GAP_US` -/
def irFrameGapUs : Nat := 12000

/-- `IR_MESSAGE_GAP_US` -/
def irMessageGapUs : Nat := 55000

/-- `IR_CAPTURE_BUFFERS` -/
def irCaptureBuffers : Nat := 2

/-! ## MQTT -/

/-- `MQTT_TOPIC_SEND` -/
def mqttTopicSend : List UInt8 := bytes "irhub/send"

/-- `MQTT_TOPIC_LEARNED` -/
def mqttTopicLearned : List UInt8 := bytes "irhub/learned"

/-- `MQTT_MAX_PAYLOAD_LEN` -/
def mqttMaxPayloadLen : Nat := 8192

/-- `MQTT_OUTPUT_RINGBUF_SIZE` of `lwipopts.h` -/
def mqttOutputRingbufSize : Nat := 1024

/-! ## Network bring-up and provisioning -/

/-- `WIFI_JOIN_TIMEOUT_MS` -/
def wifiJoinTimeoutMs : Nat := 15000

/-- `MQTT_CONNECT_TIMEOUT_MS` -/
def mqttConnectTimeoutMs : Nat := 10000

/-- `NET_WIFI_FAILS_BEFORE_BLE` -/
def netWifiFailsBeforeBle : Nat := 3

/-- `NET_MQTT_FAILS_BEFORE_BLE` -/
def netMqttFailsBeforeBle : Nat := 5

/-- `NET_CANDIDATE_WIFI_TRIES` -/
def netCandidateWifiTries : Nat := 2

/-- `NET_CANDIDATE_MQTT_TRIES` -/
def netCandidateMqttTries : Nat := 3

/-- `BLE_OFF_GRACE_MS` -/
def bleOffGraceMs : Nat := 20000

/-- `BLE_ONLINE_MAX_MS` -/
def bleOnlineMaxMs : Nat := 300000

/-- The bits `NET_EVT_COMMIT`, `NET_EVT_FORGET` and `NET_EVT_BLE_DISCONNECTED`. -/
structure Events where
  commit : Bool
  forget : Bool
  bleDisconnected : Bool
  deriving DecidableEq, Repr

namespace Events

def none : Events := ⟨false, false, false⟩

/-- `a | b` -/
def union (a b : Events) : Events :=
  ⟨a.commit || b.commit, a.forget || b.forget, a.bleDisconnected || b.bleDisconnected⟩

/-- A bit of `NET_EVT_INTERRUPT` is set. -/
def interrupt (a : Events) : Bool := a.commit || a.forget

end Events

/-! ## The pulse train -/

structure IrMessage where
  carrierFreq : UInt32
  frameCount : UInt16
  truncated : Bool
  pulses : List UInt16
  deriving DecidableEq, Repr

namespace IrMessage

def pulseCount (msg : IrMessage) : Nat := msg.pulses.length

end IrMessage

end IrHub.Firmware
