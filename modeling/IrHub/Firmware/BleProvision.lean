/-
# Firmware.BleProvision -- `ble_provision.cpp`: the GATT server for the settings

BTstack's callbacks and NetworkTask's functions work on one set of static
variables, here the fields of `Ble`.  Callbacks run on the cyw43 task and the
functions hold its lock, so each of them is one step.  `notification` is the
notification value of NetworkTask, which `signal` sets bits of.

The attribute server is there from `init` on; a callback can happen when `callback`
is defined.  `accepted` says which of them are accepted commands, and
`effect_callback` what they leave for NetworkTask.
-/
import IrHub.Firmware.Config
import IrHub.Firmware.NetConfigFlash
import IrHub.Theory.Mailbox

namespace IrHub.Firmware.BleProvision

set_option autoImplicit false

open IrHub.Theory IrHub.Firmware.NetConfig IrHub.Firmware.NetConfigFlash

/-! ## Status -/

/-- `State`, in the order of its values. -/
inductive State where
  | unprovisioned
  | idle
  | wifiConnecting
  | wifiFailed
  | mqttConnecting
  | mqttFailed
  | online
  | reverted
  | invalid
  | saveFailed
  deriving DecidableEq, Repr

/-- `Source`: which settings a status is about. -/
inductive Source where
  | stored
  | candidate
  | buildDefaults
  deriving DecidableEq, Repr

/-- `reason` is the byte of an `int8_t`. -/
structure Status where
  state : State
  reason : UInt8
  ip : List.Vector UInt8 4
  attempt : UInt8
  source : Source
  deriving DecidableEq

/-- `{0, 0, 0, 0}` -/
def noIp : List.Vector UInt8 4 := List.Vector.replicate 4 0

/-- `(int8_t)why` -/
def invalidReason : Invalid → UInt8
  | .ok => 0
  | .ssid => 1
  | .password => 2
  | .host => 3
  | .port => 4

/-- `NOTIFY_QUEUE` -/
def notifyQueue : Nat := 4

/-! ## The module's variables -/

/-- The attributes, `other` for those the callbacks do not know. -/
inductive Attribute where
  | name
  | ssid
  | pass
  | host
  | port
  | cmd
  | status
  | statusCcc
  | other
  deriving DecidableEq, Repr

/-- `con` is `none` for `HCI_CON_HANDLE_INVALID`, `prepHandle` is `none` for 0. -/
structure Ble where
  active : Bool
  con : Option UInt16
  subscribed : Bool
  current : NetConfig
  staged : NetConfig
  handoff : NetConfig
  handoffValid : Bool
  status : Status
  notifyQ : List.Vector Status notifyQueue
  notifyHead : Nat
  notifyCount : Nat
  prep : List.Vector UInt8 (hostMax + 1)
  prepHandle : Option Attribute
  prepLen : Nat
  prepBad : Bool
  notification : Events

/-- `signal` -/
def signal (b : Ble) (bits : Events) : Ble :=
  { b with notification := b.notification.union bits }

/-- `reset_prepared` -/
def resetPrepared (b : Ble) : Ble :=
  { b with
    prepHandle := none
    prepLen := 0
    prepBad := false
    prep := List.Vector.replicate _ 0 }

/-- `push_status`, less the request for an event to send it in. -/
def pushStatus (b : Ble) (s : Status) : Ble :=
  let b := { b with status := s }
  if !b.subscribed then b
  else
    let b :=
      if b.notifyCount = notifyQueue then
        { b with
          notifyHead := (b.notifyHead + 1) % notifyQueue
          notifyCount := b.notifyCount - 1 }
      else b
    let slot : Fin notifyQueue :=
      ⟨(b.notifyHead + b.notifyCount) % notifyQueue, Nat.mod_lt _ (by decide)⟩
    { b with notifyQ := b.notifyQ.set slot s, notifyCount := b.notifyCount + 1 }

/-! ## Writes -/

/-- `ATT_ERROR_REQUEST_NOT_SUPPORTED` -/
def requestNotSupported : UInt8 := 0x06

/-- `ATT_ERROR_INVALID_ATTRIBUTE_VALUE_LENGTH` -/
def invalidAttributeValueLength : UInt8 := 0x0D

/-- `ATT_ERROR_VALUE_NOT_ALLOWED` -/
def valueNotAllowed : UInt8 := 0x13

/-- `CMD_APPLY` -/
def cmdApply : UInt8 := 0x01

/-- `CMD_FORGET` -/
def cmdForget : UInt8 := 0x02

/-- `field_cap` -/
def fieldCap : Attribute → Nat
  | .ssid => ssidMax
  | .pass => passMax
  | .host => hostMax
  | .port => 2
  | .cmd => 1
  | _ => 0

theorem fieldCap_le (handle : Attribute) : fieldCap handle ≤ hostMax := by
  cases handle <;> decide

/-- `set_text` -/
def setText {n : Nat} (data : List UInt8) (fits : data.length ≤ n) : Chars (n + 1) :=
  strcpyZeroed data fits

/-- A complete value for `H_CMD`. -/
def applyCommand (b : Ble) (data : List UInt8) : Ble × UInt8 :=
  if data.length ≠ 1 then (b, invalidAttributeValueLength)
  else if data = [cmdApply] then
    let why := validate b.staged
    if why ≠ .ok then
      (pushStatus b ⟨.invalid, invalidReason why, noIp, 0, .candidate⟩, valueNotAllowed)
    else
      (signal { b with handoff := b.staged, handoffValid := true } ⟨true, false, false⟩, 0)
  else if data = [cmdForget] then (signal b ⟨false, true, false⟩, 0)
  else (b, valueNotAllowed)

/-- `apply_value` -/
def applyValue (b : Ble) (handle : Attribute) (data : List UInt8) : Ble × UInt8 :=
  if fits : data.length ≤ fieldCap handle then
    match handle, fits with
    | .ssid, fits => ({ b with staged := { b.staged with ssid := setText data fits } }, 0)
    | .pass, fits => ({ b with staged := { b.staged with password := setText data fits } }, 0)
    | .host, fits => ({ b with staged := { b.staged with brokerHost := setText data fits } }, 0)
    | .port, _ =>
        if data.length ≠ 2 then (b, invalidAttributeValueLength)
        else ({ b with staged := { b.staged with brokerPort := get16 data } }, 0)
    | .cmd, _ => applyCommand b data
    | _, _ => (b, 0)
  else (b, invalidAttributeValueLength)

/-- `ATT_TRANSACTION_MODE_*` -/
inductive Transaction where
  | none
  | active
  | validate
  | execute
  | cancel
  deriving DecidableEq, Repr

/-- `att_write_cb` -/
def attWriteCb (b : Ble) (handle : Attribute) (mode : Transaction) (offset : Nat)
    (data : List UInt8) : Ble × UInt8 :=
  match mode with
  | .none =>
      if handle = .statusCcc then
        let b := { b with subscribed := get16 data = 1 }
        -- a fresh subscriber is told where things stand
        (if b.subscribed then pushStatus b b.status else b, 0)
      else applyValue b handle data
  | .active =>
      if fieldCap handle = 0 ∨ handle = .cmd then (b, requestNotSupported)
      else
        let b := { b with
          prepBad := b.prepBad || decide (b.prepHandle ≠ .none ∧ b.prepHandle ≠ some handle)
          prepHandle := some handle }
        if fits : offset + data.length ≤ fieldCap handle then
          let prep := ⟨writeAt b.prep.toList offset data, by
            have small := fieldCap_le handle
            rw [writeAt_length] <;> simp
            omega⟩
          ({ b with prep, prepLen := max b.prepLen (offset + data.length) }, 0)
        else (b, invalidAttributeValueLength)
  | .validate => (b, if b.prepBad then requestNotSupported else 0)
  | .execute =>
      let (b, rc) := match b.prepHandle with
        | some handle => applyValue b handle (b.prep.toList.take b.prepLen)
        | .none => (b, 0)
      (resetPrepared b, rc)
  | .cancel => (resetPrepared b, 0)

/-! ## Reads -/

/-- The value of a `State`. -/
def stateByte : State → UInt8
  | .unprovisioned => 0
  | .idle => 1
  | .wifiConnecting => 2
  | .wifiFailed => 3
  | .mqttConnecting => 4
  | .mqttFailed => 5
  | .online => 6
  | .reverted => 7
  | .invalid => 8
  | .saveFailed => 9

/-- The value of a `Source`. -/
def sourceByte : Source → UInt8
  | .stored => 0
  | .candidate => 1
  | .buildDefaults => 2

/-- `s_status`, and the payload of a notification. -/
def statusBytes (s : Status) : List UInt8 :=
  [stateByte s.state, s.reason] ++ s.ip.toList ++ [s.attempt, sourceByte s.source]

/-- What a read returns, and the buffer after it. -/
abbrev ReadResult := Nat × Option (List UInt8)

/-- `att_read_callback_handle_blob` of BTstack, for a blob, an offset, a buffer and its
size. -/
abbrev HandleBlob := List UInt8 → Nat → Option (List UInt8) → Nat → ReadResult

/-- The text at `ssid`.  `strlen` does not stop at the end of the array: behind it lie
the password and the host. -/
def ssidText (c : NetConfig) : List UInt8 :=
  cstr (c.ssid.toList ++ c.password.toList ++ c.brokerHost.toList)

/-- `att_read_cb`, where `name` is what `s_name` says. -/
def attReadCb (handleBlob : HandleBlob) (name : List UInt8) (b : Ble) (handle : Attribute)
    (offset : Nat) (buffer : Option (List UInt8)) (size : Nat) : ReadResult :=
  match handle with
  | .name => handleBlob name offset buffer size
  | .ssid => handleBlob (ssidText b.staged) offset buffer size
  | .host => handleBlob (cstr b.staged.brokerHost.toList) offset buffer size
  | .port => handleBlob (put16 b.staged.brokerPort) offset buffer size
  | .status => handleBlob (statusBytes b.status) offset buffer size
  -- the password is write-only
  | _ => (0, buffer)

/-! ## Connection events -/

/-- `att_packet_handler` for `ATT_EVENT_CAN_SEND_NOW`, with what it notifies. -/
def canSendNow (b : Ble) : Ble × Option Status :=
  if b.notifyCount = 0 ∨ b.con = none then (b, none)
  else
    let slot : Fin notifyQueue := ⟨b.notifyHead % notifyQueue, Nat.mod_lt _ (by decide)⟩
    ({ b with
      notifyHead := (b.notifyHead + 1) % notifyQueue
      notifyCount := b.notifyCount - 1 }, some (b.notifyQ.get slot))

/-- `hci_packet_handler` when a client has connected. -/
def connected (b : Ble) (con : UInt16) : Ble :=
  resetPrepared { b with
    con := some con
    staged := b.current
    subscribed := false
    notifyCount := 0 }

/-- `hci_packet_handler` when the client has left. -/
def disconnected (b : Ble) : Ble :=
  if b.con = none then b
  else
    signal (resetPrepared { b with
      con := none
      subscribed := false
      notifyCount := 0
      staged := zeroed }) ⟨false, false, true⟩

/-! ## What NetworkTask calls -/

/-- The variables after `init`. -/
def init : Ble where
  active := false
  con := none
  subscribed := false
  current := zeroed
  staged := zeroed
  handoff := zeroed
  handoffValid := false
  status := ⟨.idle, 0, noIp, 0, .stored⟩
  notifyQ := List.Vector.replicate _ ⟨.unprovisioned, 0, noIp, 0, .stored⟩
  notifyHead := 0
  notifyCount := 0
  prep := List.Vector.replicate _ 0
  prepHandle := none
  prepLen := 0
  prepBad := false
  notification := .none

/-- `start` -/
def start (b : Ble) (current : NetConfig) : Ble := { b with current, active := true }

/-- `stop` -/
def stop (b : Ble) : Ble :=
  if !b.active then b
  else
    resetPrepared { b with
      active := false
      con := none
      subscribed := false
      notifyCount := 0
      staged := zeroed
      current := zeroed }

/-- `has_central` -/
def hasCentral (b : Ble) : Bool := b.con.isSome

/-- `set_status` -/
def setStatus (b : Ble) (s : Status) : Ble := pushStatus b s

/-- `take_candidate` -/
def takeCandidate (b : Ble) : Option (NetConfig × Ble) :=
  if !b.handoffValid then none
  else some (b.handoff, { b with handoff := zeroed, handoffValid := false })

/-! ## Callbacks -/

/-- What BTstack calls back with. -/
inductive Callback where
  | connected (con : UInt16)
  | disconnected
  | write (handle : Attribute) (mode : Transaction) (offset : Nat) (data : List UInt8)
  | canSendNow

/-- A client connects only to a server that is powered on, and writes only while
it is connected. -/
def callback (b : Ble) : Callback → Option Ble
  | .connected con => if b.active then some (connected b con) else none
  | .disconnected => some (disconnected b)
  | .write handle mode offset data =>
      if b.con.isSome then some (attWriteCb b handle mode offset data).1 else none
  | .canSendNow => some (canSendNow b).1

/-- A command of the client. -/
abbrev Command := Mailbox.Command NetConfig

/-- The command in a complete value, if it is one and is accepted. -/
def acceptedValue (b : Ble) (handle : Attribute) (data : List UInt8) : Option Command :=
  if handle ≠ .cmd then none
  else if data = [cmdApply] then
    if validate b.staged = .ok then some (.apply b.staged) else none
  else if data = [cmdForget] then some .forget
  else none

/-- The command a callback accepts. -/
def accepted (b : Ble) : Callback → Option Command
  | .write handle .none _ data => acceptedValue b handle data
  | .write _ .execute _ _ =>
      b.prepHandle.bind fun handle => acceptedValue b handle (b.prep.toList.take b.prepLen)
  | _ => none

/-- An apply is accepted for what is staged, when that passes `validate`. -/
theorem accepted_apply {b : Ble} {e : Callback} {c : NetConfig}
    (command : accepted b e = some (.apply c)) : c = b.staged ∧ validate c = .ok := by
  have value : ∀ {handle : Attribute} {data : List UInt8},
      acceptedValue b handle data = some (.apply c) → c = b.staged ∧ validate c = .ok := by
    intro handle data applied
    unfold acceptedValue at applied
    split at applied
    · cases applied
    · split at applied
      · split at applied
        · rename_i valid
          cases applied
          exact ⟨rfl, valid⟩
        · cases applied
      · split at applied <;> cases applied
  cases e with
  | connected con => cases command
  | disconnected => cases command
  | canSendNow => cases command
  | write handle mode offset data =>
      cases mode with
      | none => exact value command
      | execute =>
          obtain ⟨prepared, -, applied⟩ := Option.bind_eq_some_iff.mp command
          exact value applied
      | _ => cases command

/-! ## What a callback leaves for NetworkTask -/

theorem pushStatus_eq (b : Ble) (s : Status) : ∃ notifyQ notifyHead notifyCount,
    pushStatus b s = { b with status := s, notifyQ, notifyHead, notifyCount } := by
  unfold pushStatus
  dsimp only
  split
  · exact ⟨_, _, _, rfl⟩
  · split <;> exact ⟨_, _, _, rfl⟩

@[simp] theorem pushStatus_handoff (b : Ble) (s : Status) : (pushStatus b s).handoff = b.handoff := by
  obtain ⟨_, _, _, same⟩ := pushStatus_eq b s
  rw [same]

@[simp] theorem pushStatus_handoffValid (b : Ble) (s : Status) :
    (pushStatus b s).handoffValid = b.handoffValid := by
  obtain ⟨_, _, _, same⟩ := pushStatus_eq b s
  rw [same]

@[simp] theorem pushStatus_notification (b : Ble) (s : Status) :
    (pushStatus b s).notification = b.notification := by
  obtain ⟨_, _, _, same⟩ := pushStatus_eq b s
  rw [same]

/-- The client has left. -/
def leaves (b : Ble) : Callback → Bool
  | .disconnected => b.con.isSome
  | _ => false

/-- What a callback means for NetworkTask: the settings handed over and the bits of
its notification value. -/
structure Effect (b after : Ble) (command : Option Command) (left : Bool) : Prop where
  handoff : after.handoff = (command.bind Mailbox.Command.value).getD b.handoff
  handoffValid : after.handoffValid = (b.handoffValid || (command.bind Mailbox.Command.value).isSome)
  commit : after.notification.commit =
    (b.notification.commit || (command.bind Mailbox.Command.value).isSome)
  forget : after.notification.forget = (b.notification.forget || decide (command = some .forget))
  bleDisconnected : after.notification.bleDisconnected = (b.notification.bleDisconnected || left)

theorem Effect.refl (b : Ble) : Effect b b none false := by constructor <;> simp

theorem unchanged {b after : Ble} (handoff : after.handoff = b.handoff)
    (handoffValid : after.handoffValid = b.handoffValid)
    (notification : after.notification = b.notification) : Effect b after none false := by
  constructor <;> simp [handoff, handoffValid, notification]

theorem effect_pushStatus (b : Ble) (s : Status) : Effect b (pushStatus b s) none false :=
  unchanged (by simp) (by simp) (by simp)

theorem effect_resetPrepared {b after : Ble} {command : Option Command} {left : Bool}
    (effect : Effect b after command left) : Effect b (resetPrepared after) command left :=
  ⟨effect.1, effect.2, effect.3, effect.4, effect.5⟩

theorem effect_applyCommand (b : Ble) (data : List UInt8) :
    Effect b (applyCommand b data).1 (acceptedValue b .cmd data) false := by
  unfold applyCommand acceptedValue
  by_cases short : data.length ≠ 1
  · have other : data ≠ [cmdApply] ∧ data ≠ [cmdForget] := by
      constructor <;> rintro rfl <;> exact short rfl
    simpa [short, other] using Effect.refl b
  · simp only [short, if_false]
    by_cases apply : data = [cmdApply]
    · simp only [apply, if_true]
      by_cases ok : validate b.staged = .ok
      · simp only [ok]
        constructor <;> simp [signal, Events.union, Mailbox.Command.value]
      · simpa [ok] using effect_pushStatus b _
    · simp only [apply, if_false]
      by_cases forget : data = [cmdForget]
      · simp only [forget, if_true]
        constructor <;> simp [signal, Events.union, Mailbox.Command.value]
      · simpa [forget] using Effect.refl b

theorem effect_applyValue (b : Ble) (handle : Attribute) (data : List UInt8) :
    Effect b (applyValue b handle data).1 (acceptedValue b handle data) false := by
  by_cases command : handle = .cmd
  · subst command
    by_cases fits : data.length ≤ fieldCap .cmd
    · simpa [applyValue, fits] using effect_applyCommand b data
    · have other : data ≠ [cmdApply] ∧ data ≠ [cmdForget] := by
        constructor <;> rintro rfl <;> exact fits (Nat.le_refl 1)
      simpa [applyValue, fits, acceptedValue, other] using Effect.refl b
  · have field : acceptedValue b handle data = none := by simp [acceptedValue, command]
    rw [field]
    unfold applyValue
    split
    · cases handle with
      | cmd => exact absurd rfl command
      | port =>
          dsimp only
          split
          · exact .refl b
          · exact unchanged rfl rfl rfl
      | _ => exact unchanged rfl rfl rfl
    · exact .refl b

/-- **A callback hands over settings when it accepts an apply, sets the bit of the
command that it accepts or of the client that has left, and leaves all else alone.** -/
theorem effect_callback {b after : Ble} {e : Callback} (happens : callback b e = some after) :
    Effect b after (accepted b e) (leaves b e) := by
  cases e with
  | connected con =>
      simp only [callback] at happens
      split at happens
      · cases happens
        exact effect_resetPrepared (unchanged rfl rfl rfl)
      · cases happens
  | disconnected =>
      cases happens
      unfold disconnected
      split
      · rename_i none
        simpa [accepted, leaves, none] using Effect.refl b
      · rename_i some
        have left : b.con.isSome = true := Option.isSome_iff_ne_none.mpr some
        constructor <;> simp [signal, Events.union, resetPrepared, accepted, leaves, left]
  | write handle mode offset data =>
      simp only [callback] at happens
      split at happens
      · cases happens
        cases mode with
        | none =>
            simp only [attWriteCb, accepted]
            split
            · rename_i subscription
              subst subscription
              dsimp only
              split
              · obtain ⟨one, two, three, four, five⟩ :=
                  effect_pushStatus { b with subscribed := get16 data = 1 } b.status
                exact ⟨one, two, three, four, five⟩
              · exact unchanged rfl rfl rfl
            · exact effect_applyValue b handle data
        | active =>
            simp only [attWriteCb]
            split
            · exact .refl b
            · split <;> exact unchanged rfl rfl rfl
        | validate => exact .refl b
        | execute =>
            simp only [attWriteCb, accepted]
            cases b.prepHandle with
            | none => exact effect_resetPrepared (.refl b)
            | some handle => exact effect_resetPrepared (effect_applyValue b handle _)
        | cancel => exact effect_resetPrepared (.refl b)
      · cases happens
  | canSendNow =>
      cases happens
      unfold canSendNow
      split
      · exact .refl b
      · exact unchanged rfl rfl rfl

end IrHub.Firmware.BleProvision
