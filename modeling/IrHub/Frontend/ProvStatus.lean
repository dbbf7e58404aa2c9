/-
# Frontend.ProvStatus -- the hub's status on the setup page

`describeProvStatus`, `onProvStatus` and `onSetupDisconnected` of `app.js`.  A status value is
the bytes of its `DataView`.  The page has a text of its own for a number that it does not know
(`Fallbacks`); a value is `Named` when none of these is used.
-/
import IrHub.Frontend.Setup

namespace IrHub.Frontend.ProvStatus

set_option autoImplicit false

/-- The kind of a text of `setSetupStatus`. -/
inductive Kind where
  | info
  | ok
  | error
  deriving DecidableEq, Repr

/-! ## `PROV_STATE` -/

namespace ProvState

@[match_pattern] abbrev unprovisioned : Nat := 0
@[match_pattern] abbrev idle : Nat := 1
@[match_pattern] abbrev wifiConnecting : Nat := 2
@[match_pattern] abbrev wifiFailed : Nat := 3
@[match_pattern] abbrev mqttConnecting : Nat := 4
@[match_pattern] abbrev mqttFailed : Nat := 5
@[match_pattern] abbrev online : Nat := 6
@[match_pattern] abbrev reverted : Nat := 7
@[match_pattern] abbrev invalid : Nat := 8
@[match_pattern] abbrev saveFailed : Nat := 9

end ProvState

/-! ## `describeProvStatus` -/

/-- `getUint8` of a view that is long enough. -/
def getUint8 (view : List UInt8) (i : Nat) : Nat := (view.getD i 0).toNat

/-- `getInt8` of a view that is long enough. -/
def getInt8 (view : List UInt8) (i : Nat) : Int := (view.getD i 0).toInt8.toInt

/-- The text at `i`, if there is one and it is not empty. -/
def entry (texts : List String) (i : Int) : Option String :=
  (if i < 0 then none else texts[i.toNat]?).filter fun text => text ≠ ""

def sources : List String := ["stored settings", "new settings", "build defaults"]

def wifiReasons : List String :=
  ["Wi-Fi failed", "Wi-Fi network not found or not answering", "Wrong Wi-Fi password",
    "Wi-Fi connection failed"]

def mqttReasons : List String :=
  ["MQTT failed", "MQTT broker did not answer", "MQTT broker refused the connection",
    "Could not reach the MQTT broker"]

def invalidFields : List String := ["", "SSID", "password", "broker IP", "port"]

/-- The texts for what the page does not know. -/
structure Fallbacks where
  source : String
  wifi : String
  mqtt : String
  field : String
  state : Nat → String

def fallbacks : Fallbacks where
  source := "settings"
  wifi := "Wi-Fi failed"
  mqtt := "MQTT failed"
  field := "settings"
  state n := "Unknown status " ++ toString n ++ "."

/-- `describeProvStatus`, with such texts. -/
def describe (other : Fallbacks) (view : List UInt8) : String × Kind :=
  let state := getUint8 view 0
  let reason := getInt8 view 1
  let ip := String.intercalate "." ([2, 3, 4, 5].map fun i => toString (getUint8 view i))
  let attempt := getUint8 view 6
  let source := (entry sources (getUint8 view 7)).getD other.source
  let nth := if 1 < attempt then " (attempt " ++ toString attempt ++ ")" else ""
  match state with
  | ProvState.unprovisioned => ("The hub has no settings yet — enter them below.", .info)
  | ProvState.idle => ("Connected to the hub.", .info)
  | ProvState.wifiConnecting => ("Joining Wi-Fi with " ++ source ++ nth ++ "…", .info)
  | ProvState.wifiFailed =>
      ((entry wifiReasons reason).getD other.wifi ++ " (" ++ source ++ ")" ++ nth ++ ".", .error)
  | ProvState.mqttConnecting =>
      ("Wi-Fi OK, connecting to the MQTT broker with " ++ source ++ nth ++ "…", .info)
  | ProvState.mqttFailed =>
      ((entry mqttReasons reason).getD other.mqtt ++ " (" ++ source ++ ")" ++ nth ++ ".", .error)
  | ProvState.online => ("Online at " ++ ip ++ " ✓", .ok)
  | ProvState.reverted =>
      ("The new settings did not work — the hub kept its previous settings.", .error)
  | ProvState.invalid =>
      ("The hub rejected the " ++ (entry invalidFields reason).getD other.field ++ ".", .error)
  | ProvState.saveFailed =>
      ("Online, but the settings could not be saved to flash — they will be lost on reboot.",
        .error)
  | state => (other.state state, .info)

def describeProvStatus (view : List UInt8) : String × Kind := describe fallbacks view

/-- No text stands in for a number that the page does not know: any others would do. -/
def Named (view : List UInt8) : Prop := ∀ other, describe other view = describeProvStatus view

example : describeProvStatus [3, 2, 0, 0, 0, 0, 2, 1] =
    ("Wrong Wi-Fi password (new settings) (attempt 2).", .error) := by decide +kernel

/-! ## The page -/

/-- `setup.lastState`, and the text of `setSetupStatus`. -/
structure Page where
  lastState : Option UInt8
  text : String × Kind
  deriving DecidableEq

/-- What `setupFind` leaves before it connects. -/
def setupFind : Page := ⟨none, ("Connecting… your system may ask to pair with the hub.", .info)⟩

def onProvStatus (page : Page) (view : List UInt8) : Page :=
  if view.length < 8 then page else ⟨some (view.getD 0 0), describeProvStatus view⟩

/-- What `setupApply` shows after its last write. -/
def settingsSent : String × Kind := ("Settings sent — the hub is trying them…", .info)

def setupApplied (page : Page) : Page := { page with text := settingsSent }

def hubOnline : String × Kind := ("Hub is online — it has turned Bluetooth off.", .ok)

def hubDisconnected : String × Kind := ("Disconnected from the hub.", .info)

def onSetupDisconnected (page : Page) : Page :=
  let wasOnline := page.lastState = some (UInt8.ofNat ProvState.online)
  { page with text := if wasOnline then hubOnline else hubDisconnected }

theorem onProvStatus_long (page : Page) {view : List UInt8} (long : 8 ≤ view.length) :
    onProvStatus page view = ⟨some (view.getD 0 0), describeProvStatus view⟩ := by
  rw [onProvStatus, if_neg (Nat.not_lt.mpr long)]

end IrHub.Frontend.ProvStatus
