/-
# Firmware.NetworkTask -- `mqtt_manager.cpp`: Wi-Fi, the broker and the settings on trial

NetworkTask is a program counter over the task's variables.  A step ends where
something from outside can matter next: before a wait, a reading of the link, a
call into lwIP or into the BLE server, or a look at a flag of the MQTT callback.
Callbacks happen between any two steps.  `Obs` is what a step gets from outside:
link readings, results of calls, the clock.

`bring_up` and `run_online` are called from two places, so the program counter
holds the call.  Only `wait_events` takes the notification value, and it may return
early, so the clock of a loop is what it waited (`elapsed`) plus what `Obs` adds.

The last fields of `World` are history: the network of the last join, the broker
that last accepted, and the commands from acceptance to outcome.

Capture messages pass through `run_online` without touching any of this.
-/
import IrHub.Firmware.BleProvision

namespace IrHub.Firmware.NetworkTask

set_option autoImplicit false
set_option linter.dupNamespace false

open IrHub.Theory IrHub.Firmware.NetConfig IrHub.Firmware.NetConfigFlash
open IrHub.Firmware.BleProvision (Ble Callback Command State Status noIp)

/-- What the build and lwIP decide. -/
structure Platform where
  defs : BuildDefinitions
  binaryClear : Bool
  /-- `ip4addr_aton` -/
  aton : List UInt8 → Option (List UInt8)

/-! ## Outside -/

/-- `CYW43_LINK_*`, in the order of the values. -/
inductive Link where
  | badAuth
  | noNet
  | fail
  | down
  | join
  | noIp
  | up
  deriving DecidableEq, Repr

/-- `<= CYW43_LINK_DOWN` -/
def Link.isDown : Link → Bool
  | .badAuth | .noNet | .fail | .down => true
  | _ => false

/-- `s_mqtt_status`: `-1`, 0, or one of the positive values. -/
inductive MqttStatus where
  | pending
  | accepted
  | refused
  | disconnected
  | timeout
  deriving DecidableEq, Repr

/-- What one step gets from outside. -/
structure Obs where
  link : Link
  wifiConnectOk : Bool
  mqttConnectOk : Bool
  linkJoin : Bool
  late : Nat
  waited : Nat
  onlineMs : Nat
  ip : List.Vector UInt8 4
  fault : Fault
  eraseFails : Bool

/-- The connection of `s_client`. -/
structure Connection where
  addr : List UInt8
  port : UInt16
  accepted : Bool
  deriving DecidableEq

/-! ## The settings in use -/

/-- `s_active`, `s_have_active`, `s_active_source` and the flash. -/
structure Held where
  active : NetConfig
  haveActive : Bool
  activeSource : BleProvision.Source
  flash : Flash

/-- The assignments of `load_active`. -/
def Held.load (p : Platform) (h : Held) : Held :=
  match NetConfigFlash.load p.defs h.flash with
  | ((.flash, c), flash) => ⟨c, true, .stored, flash⟩
  | ((.buildDefaults, c), flash) => ⟨c, true, .buildDefaults, flash⟩
  | ((.none, _), flash) => { h with active := zeroed, haveActive := false, flash }

/-- `net_config::save` and the assignments after it; the flag says if it was saved. -/
def Held.adopt (p : Platform) (fault : Fault) (c : NetConfig) (h : Held) : Bool × Held :=
  let (saved, flash) := NetConfigFlash.save p.binaryClear fault h.flash c
  (saved = some true, ⟨c, true, .stored, flash⟩)

/-- `net_config::erase` -/
def Held.erase (p : Platform) (eraseFails : Bool) (h : Held) : Held :=
  { h with flash := (NetConfigFlash.erase p.binaryClear eraseFails h.flash).2 }

/-- How a trial ended. -/
inductive Result where
  | online (fault : Fault)
  | reverted
  deriving DecidableEq, Repr

abbrev History := Mailbox.History NetConfig Result Bool

/-! ## The program counter -/

/-- Who called `bring_up`, with the counters of its loop. -/
inductive Call where
  | main (wifiFails mqttFails : Nat)
  | commit (attempt wifiTries mqttTries : Nat)
  deriving DecidableEq, Repr

/-- Who called `wifi_leave`. -/
inductive Leave where
  | join (call : Call)
  | joinAborted (call : Call)
  | joinFailed (call : Call) (reason : UInt8)
  | forget
  deriving DecidableEq, Repr

/-- Who called `mqtt_abort`. -/
inductive Abort where
  | start (call : Call)
  | waitFailed (call : Call) (reason : UInt8)
  | waitAborted (call : Call)
  | reverted
  | forget
  deriving DecidableEq, Repr

/-- Who called `run_online`. -/
inductive Caller where
  | main
  | commit
  deriving DecidableEq, Repr

inductive Pc where
  /-- `load_active` at the start of the task. -/
  | boot
  | dispatch (wifiFails mqttFails : Nat)
  | idle (wifiFails mqttFails : Nat)
  | bringUp (call : Call)
  | leave (cause : Leave)
  | leavePoll (cause : Leave) (polls : Nat)
  | wifiConnect (call : Call)
  | wifiPoll (call : Call) (elapsed : Nat)
  | wifiWait (call : Call) (elapsed : Nat)
  | wifiCheck (call : Call) (reason : UInt8)
  | mqttStart (call : Call)
  | abort (cause : Abort)
  | mqttDisconnect (cause : Abort)
  | mqttConnect (call : Call)
  | mqttPoll (call : Call) (elapsed : Nat)
  | mqttWait (call : Call) (elapsed : Nat)
  | mainWait (wifiFails mqttFails : Nat)
  | commitWait (attempt wifiTries mqttTries : Nat)
  | save
  | runOnline (caller : Caller)
  | online (caller : Caller) (badLinks : Nat)
  | onlineEvents (caller : Caller) (badLinks : Nat)
  | onlineBle (caller : Caller) (badLinks : Nat)
  | onlineStop (caller : Caller) (badLinks : Nat)
  | onlineLink (caller : Caller) (badLinks : Nat)
  | lostWait
  | forgetErase
  | forgetLoad
  | forgetRefresh
  deriving DecidableEq, Repr

structure World where
  pc : Pc
  /-- `s_events` -/
  events : Events
  ble : Ble
  held : Held
  candidate : NetConfig
  joined : NetConfig
  wifiUp : Bool
  mqttUp : Bool
  mqttStatus : MqttStatus
  /-- `s_client != nullptr` -/
  client : Bool
  brokerAddr : List UInt8
  connection : Option Connection
  /-- The texts of the last successful `wifi_join` since the last `wifi_leave`. -/
  lastJoin : Option (List UInt8 × List UInt8)
  /-- Where the last connection that was accepted had been opened to. -/
  lastAccepted : Option (List UInt8 × UInt16)
  history : History

/-! ## Events and reports -/

/-- `wait_events`, at the moment it returns. -/
def waitEvents (w : World) : World :=
  { w with
    events := w.events.union w.ble.notification
    ble := { w.ble with notification := .none }
    history := w.history.wake }

/-- How much longer a loop has waited when `wait_events(ms)` returns: a bit ends
the wait early. -/
def waitedMs (w : World) (o : Obs) (ms : Nat) : Nat :=
  if w.ble.notification = .none then ms else min o.waited ms

/-- `set_status`, if the server is on. -/
def reportBle (b : Ble) (status : Status) : Ble :=
  if !b.active then b else BleProvision.setStatus b status

/-- `report` -/
def report (w : World) (state : State) (reason : UInt8) (source : BleProvision.Source)
    (attempt : UInt8) (ip : List.Vector UInt8 4) : World :=
  { w with ble := reportBle w.ble ⟨state, reason, ip, attempt, source⟩ }

/-- `start_ble` -/
def startBle (w : World) : World :=
  { w with ble := BleProvision.start w.ble (if w.held.haveActive then w.held.active else zeroed) }

/-- `load_active` -/
def loadActive (p : Platform) (w : World) : World :=
  let w := { w with held := w.held.load p }
  { w with
    ble :=
      if w.held.haveActive then w.ble
      else (report (startBle w) .unprovisioned 0 .stored 0 noIp).ble }

/-! ## `bring_up` -/

/-- The settings of a call. -/
def settings (w : World) : Call → NetConfig
  | .main _ _ => w.held.active
  | .commit _ _ _ => w.candidate

def source (w : World) : Call → BleProvision.Source
  | .main _ _ => w.held.activeSource
  | .commit _ _ _ => .candidate

def attempt : Call → UInt8
  | .main wifiFails mqttFails => UInt8.ofNat (wifiFails + mqttFails + 1)
  | .commit attempt _ _ => UInt8.ofNat attempt

/-- A C string. -/
def text {n : Nat} (s : Chars n) : List UInt8 := cstr s.toList

/-- `joined_to` -/
def joinedTo (w : World) (o : Obs) (c : NetConfig) : Bool :=
  w.wifiUp && decide (o.link = .up) && decide (text w.joined.ssid = text c.ssid) &&
    decide (text w.joined.password = text c.password)

/-- `bring_up` returns `WifiFailed` or `MqttFailed`. -/
def bringUpFailed (w : World) (call : Call) (wifi : Bool) (reason : UInt8) : World :=
  let w := report w (if wifi then .wifiFailed else .mqttFailed) reason (source w call)
    (attempt call) noIp
  match call with
  | .main wifiFails mqttFails =>
      let wifiFails := if wifi then wifiFails + 1 else wifiFails
      let mqttFails := if wifi then mqttFails else mqttFails + 1
      let stuck := !w.ble.active && decide (netWifiFailsBeforeBle ≤ wifiFails ∨
        netMqttFailsBeforeBle ≤ mqttFails)
      { w with
        ble := if stuck then (startBle w).ble else w.ble
        pc := .mainWait wifiFails mqttFails }
  | .commit attempt wifiTries mqttTries =>
      let wifiTries := if wifi then wifiTries + 1 else wifiTries
      let mqttTries := if wifi then mqttTries else mqttTries + 1
      if netCandidateWifiTries ≤ wifiTries ∨ netCandidateMqttTries ≤ mqttTries then
        { w with
          candidate := zeroed
          pc := .abort .reverted
          history := w.history.settle (.done .reverted) }
      else { w with pc := .commitWait attempt wifiTries mqttTries }

/-- The trial ends without a result. -/
def abandon (w : World) : World :=
  { w with
    candidate := zeroed
    pc := .dispatch 0 0
    history := w.history.settle .overtaken }

/-- `bring_up` returns `Aborted`. -/
def bringUpAborted (w : World) : Call → World
  | .main wifiFails mqttFails => { w with pc := .dispatch wifiFails mqttFails }
  | .commit _ _ _ => abandon w

/-- `bring_up` returns `Online`. -/
def bringUpOnline (w : World) : Call → World
  | .main _ _ => { w with pc := .runOnline .main }
  | .commit _ _ _ => { w with pc := .save }

/-- The end of `wifi_leave`. -/
def left (w : World) (cause : Leave) : World :=
  let w := { w with wifiUp := false, joined := zeroed, lastJoin := none }
  match cause with
  | .join call => { w with pc := .wifiConnect call }
  | .joinAborted call => bringUpAborted w call
  | .joinFailed call reason => bringUpFailed w call true reason
  | .forget => { w with pc := .forgetLoad }

/-- The head of the loop in `wifi_join`. -/
def wifiPoll (w : World) (o : Obs) (call : Call) (elapsed : Nat) : World :=
  if o.link = .up then { w with pc := .wifiCheck call 0 }
  else if o.link = .badAuth then { w with pc := .wifiCheck call 2 }
  else if o.link = .fail then { w with pc := .wifiCheck call 3 }
  else if o.link = .noNet ∧ !o.wifiConnectOk then { w with pc := .wifiCheck call 3 }
  else if wifiJoinTimeoutMs ≤ elapsed + o.late then { w with pc := .wifiCheck call 1 }
  else { w with pc := .wifiWait call (elapsed + o.late) }

/-- The end of `wifi_join`. -/
def wifiCheck (w : World) (o : Obs) (call : Call) (reason : UInt8) : World :=
  let c := settings w call
  if o.link ≠ .up then { w with pc := .leave (.joinFailed call reason) }
  else
    { w with
      joined := c
      wifiUp := true
      lastJoin := some (text c.ssid, text c.password)
      pc := .mqttStart call }

/-- `mqtt_start` up to the use of an old client. -/
def mqttStart (p : Platform) (w : World) (call : Call) : World :=
  let w := report w .mqttConnecting 0 (source w call) (attempt call) noIp
  match p.aton (text (settings w call).brokerHost) with
  | none => bringUpFailed w call false 3
  | some brokerAddr =>
      let w := { w with brokerAddr }
      if w.client then { w with pc := .abort (.start call) }
      else { w with client := true, pc := .mqttConnect call }

/-- The end of `mqtt_abort`. -/
def aborted (w : World) : Abort → World
  | .start call => { w with pc := .mqttConnect call }
  | .waitFailed call reason => bringUpFailed w call false reason
  | .waitAborted call => bringUpAborted w call
  | .reverted =>
      let w := report w .reverted 0 w.held.activeSource 0 noIp
      { w with
        ble := if w.held.haveActive then w.ble else (report w .unprovisioned 0 .stored 0 noIp).ble
        pc := .dispatch 0 0 }
  | .forget => { w with pc := .leave .forget }

/-- The rest of `mqtt_start`: no callback can come before the new connection. -/
def mqttConnect (w : World) (o : Obs) (call : Call) : World :=
  let w := { w with mqttUp := false, mqttStatus := .pending }
  if o.mqttConnectOk then
    { w with
      connection := some ⟨w.brokerAddr, (settings w call).brokerPort, false⟩
      pc := .mqttPoll call 0 }
  else bringUpFailed w call false 3

/-- The head of the loop in `mqtt_wait`. -/
def mqttPoll (w : World) (o : Obs) (call : Call) (elapsed : Nat) : World :=
  if w.mqttUp then bringUpOnline w call
  else
    match w.mqttStatus with
    | .timeout => { w with pc := .abort (.waitFailed call 1) }
    | .disconnected => { w with pc := .abort (.waitFailed call 3) }
    | .refused => { w with pc := .abort (.waitFailed call 2) }
    | _ =>
        if mqttConnectTimeoutMs ≤ elapsed + o.late then { w with pc := .abort (.waitFailed call 1) }
        else { w with pc := .mqttWait call (elapsed + o.late) }

/-! ## `run_online` -/

/-- `run_online` returns. -/
def onlineReturn (w : World) : Caller → World
  | .main => { w with pc := if w.events.interrupt then .dispatch 0 0 else .lostWait }
  | .commit => { w with pc := .dispatch 0 0 }

def clearDisconnected (w : World) : World :=
  { w with events := { w.events with bleDisconnected := false } }

/-- What `run_online` does before its loop. -/
def runOnline (w : World) (o : Obs) (caller : Caller) : World :=
  { clearDisconnected w with
    ble := match caller with
      | .main => (report w .online 0 w.held.activeSource 0 o.ip).ble
      | .commit => w.ble
    pc := .online caller 0 }

/-- After the capture queue: `wait_events(0)`. -/
def onlineEvents (w : World) (caller : Caller) (badLinks : Nat) : World :=
  let w := waitEvents w
  if w.events.interrupt then onlineReturn w caller
  else if w.ble.active then { w with pc := .onlineBle caller badLinks }
  else { clearDisconnected w with pc := .onlineLink caller badLinks }

/-- Whether BLE is still wanted. -/
def onlineBle (w : World) (o : Obs) (caller : Caller) (badLinks : Nat) : World :=
  let clientLeft := w.events.bleDisconnected
  let graceOver := decide (bleOffGraceMs ≤ o.onlineMs) && !BleProvision.hasCentral w.ble
  if clientLeft || graceOver || decide (bleOnlineMaxMs ≤ o.onlineMs) then
    { w with pc := .onlineStop caller badLinks }
  else { clearDisconnected w with pc := .onlineLink caller badLinks }

/-- The two checks of the link at the end of a turn. -/
def onlineLink (w : World) (o : Obs) (caller : Caller) (badLinks : Nat) : World :=
  let badLinks := if o.linkJoin then 0 else badLinks + 1
  if 5 ≤ badLinks then onlineReturn { w with wifiUp := false, mqttUp := false } caller
  else if !(w.connection.any Connection.accepted) then onlineReturn { w with mqttUp := false } caller
  else { w with pc := .online caller badLinks }

/-! ## Commands -/

/-- The head of the loop in `task`. -/
def dispatch (w : World) (wifiFails mqttFails : Nat) : World :=
  if w.events.forget then
    { w with
      events := { w.events with forget := false }
      pc := .forgetErase
      history := w.history.takeForgets }
  else if w.events.commit then
    let w := { w with events := { w.events with commit := false } }
    match BleProvision.takeCandidate w.ble with
    | none => { w with pc := .dispatch 0 0 }
    | some (candidate, ble) =>
        { w with ble, candidate, pc := .bringUp (.commit 1 0 0), history := w.history.takeApply candidate }
  else
    let w := clearDisconnected w
    if w.held.haveActive then { w with pc := .bringUp (.main wifiFails mqttFails) }
    else { w with pc := .idle wifiFails mqttFails }

/-- What `handle_commit` does once its settings are online. -/
def saveCandidate (p : Platform) (w : World) (o : Obs) : World :=
  let (saved, held) := w.held.adopt p o.fault w.candidate
  let w := { w with held, candidate := zeroed }
  { w with
    ble :=
      if saved then (report w .online 0 .stored 0 o.ip).ble
      else (report w .saveFailed 0 .candidate 0 noIp).ble
    pc := .runOnline .commit
    history := w.history.settle (.done (.online o.fault)) }

/-! ## One step -/

/-- One step of the task. -/
def taskStep (p : Platform) (w : World) (o : Obs) : World :=
  match w.pc with
  | .boot => { loadActive p w with pc := .dispatch 0 0 }
  | .dispatch wifiFails mqttFails => dispatch w wifiFails mqttFails
  | .idle wifiFails mqttFails => { waitEvents w with pc := .dispatch wifiFails mqttFails }
  | .bringUp call =>
      if joinedTo w o (settings w call) then { w with pc := .mqttStart call }
      else
        { report w .wifiConnecting 0 (source w call) (attempt call) noIp with
          pc := .leave (.join call) }
  | .leave cause =>
      if o.link = .down then left w cause else { w with pc := .leavePoll cause 0 }
  | .leavePoll cause polls =>
      if polls < 20 ∧ !o.link.isDown then { w with pc := .leavePoll cause (polls + 1) }
      else left w cause
  | .wifiConnect call =>
      if o.wifiConnectOk then { w with pc := .wifiPoll call 0 } else bringUpFailed w call true 3
  | .wifiPoll call elapsed => wifiPoll w o call elapsed
  | .wifiWait call elapsed =>
      let waited := waitedMs w o 100
      let w := waitEvents w
      if w.events.interrupt then { w with pc := .leave (.joinAborted call) }
      else { w with pc := .wifiPoll call (elapsed + waited) }
  | .wifiCheck call reason => wifiCheck w o call reason
  | .mqttStart call => mqttStart p w call
  | .abort cause =>
      let w := { w with mqttUp := false }
      if w.client then { w with pc := .mqttDisconnect cause } else aborted w cause
  | .mqttDisconnect cause => aborted { w with connection := none } cause
  | .mqttConnect call => mqttConnect w o call
  | .mqttPoll call elapsed => mqttPoll w o call elapsed
  | .mqttWait call elapsed =>
      let waited := waitedMs w o 100
      let w := waitEvents w
      if w.events.interrupt then { w with pc := .abort (.waitAborted call) }
      else { w with pc := .mqttPoll call (elapsed + waited) }
  | .mainWait wifiFails mqttFails => { waitEvents w with pc := .dispatch wifiFails mqttFails }
  | .commitWait attempt wifiTries mqttTries =>
      let w := waitEvents w
      if w.events.interrupt then abandon w
      else { w with pc := .bringUp (.commit (attempt + 1) wifiTries mqttTries) }
  | .save => saveCandidate p w o
  | .runOnline caller => runOnline w o caller
  | .online caller badLinks =>
      if w.mqttUp then { w with pc := .onlineEvents caller badLinks } else onlineReturn w caller
  | .onlineEvents caller badLinks => onlineEvents w caller badLinks
  | .onlineBle caller badLinks => onlineBle w o caller badLinks
  | .onlineStop caller badLinks =>
      { clearDisconnected { w with ble := BleProvision.stop w.ble } with
        pc := .onlineLink caller badLinks }
  | .onlineLink caller badLinks => onlineLink w o caller badLinks
  | .lostWait => { waitEvents w with pc := .dispatch 0 0 }
  | .forgetErase =>
      { w with
        held := w.held.erase p o.eraseFails
        pc := .abort .forget
        history := w.history.settle (.forgotten o.eraseFails) }
  | .forgetLoad => { loadActive p w with pc := .forgetRefresh }
  | .forgetRefresh =>
      { w with ble := if w.ble.active then (startBle w).ble else w.ble, pc := .dispatch 0 0 }

/-- `mqtt_connection_cb`: only a connection that is open calls back, and it is
accepted at most once. -/
def mqttCallback (w : World) (status : MqttStatus) : Option World :=
  match w.connection, status with
  | none, _ => none
  | _, .pending => none
  | some connection, .accepted =>
      if connection.accepted then none
      else some { w with
        mqttUp := true
        mqttStatus := .accepted
        connection := some { connection with accepted := true }
        lastAccepted := some (connection.addr, connection.port) }
  | some _, status => some { w with mqttUp := false, mqttStatus := status, connection := none }

/-- A callback of BTstack, with the command it accepts. -/
def bleCallback (w : World) (e : Callback) : Option World :=
  (BleProvision.callback w.ble e).map fun ble =>
    { w with
      ble
      history := match BleProvision.accepted w.ble e with
        | some command => w.history.accept command
        | none => w.history }

inductive Event where
  | task (o : Obs)
  | mqtt (status : MqttStatus)
  | ble (e : Callback)

/-- A loss of power ends the run. -/
def next (p : Platform) (w : World) : Event → Option World
  | .task o => if o.fault = .powerLost then none else some (taskStep p w o)
  | .mqtt status => mqttCallback w status
  | .ble e => bleCallback w e

/-- Powered on over some flash. -/
def initial (flash : Flash) : World where
  pc := .boot
  events := .none
  ble := BleProvision.init
  held := ⟨zeroed, false, .stored, flash⟩
  candidate := zeroed
  joined := zeroed
  wifiUp := false
  mqttUp := false
  mqttStatus := .pending
  client := false
  brokerAddr := []
  connection := none
  lastJoin := none
  lastAccepted := none
  history := .empty

def machine (p : Platform) : Machine World Event :=
  Machine.ofStep (fun w => ∃ flash, w = initial flash) (next p)

/-! ## What an event is -/

theorem task_next {p : Platform} {w t : World} {o : Obs} (step : next p w (.task o) = some t) :
    t = taskStep p w o := by
  simp only [next] at step
  split at step
  · cases step
  · exact (Option.some.inj step).symm

/-- lwIP calls back about its connection, and touches nothing else. -/
theorem mqttCallback_eq {w t : World} {status : MqttStatus}
    (happens : mqttCallback w status = some t) :
    ∃ mqttUp mqttStatus connection lastAccepted,
      t = { w with mqttUp, mqttStatus, connection, lastAccepted } := by
  unfold mqttCallback at happens
  split at happens
  · cases happens
  · cases happens
  · split at happens
    · cases happens
    · cases happens
      exact ⟨_, _, _, _, rfl⟩
  · cases happens
    exact ⟨_, _, _, _, rfl⟩

/-- BTstack's variables change as the callback has it, and an accepted command is recorded. -/
theorem bleCallback_eq {w t : World} {e : Callback} (happens : bleCallback w e = some t) :
    ∃ ble history, BleProvision.callback w.ble e = some ble ∧ t = { w with ble, history } ∧
      history = match BleProvision.accepted w.ble e with
        | some command => w.history.accept command
        | none => w.history := by
  rw [bleCallback, Option.map_eq_some_iff] at happens
  obtain ⟨ble, callback, rfl⟩ := happens
  exact ⟨ble, _, callback, rfl, rfl⟩

/-! ## What the BLE server's functions leave alone -/

/-- Nothing that a command is has changed. -/
structure Keeps (b after : Ble) : Prop where
  notification : after.notification = b.notification
  handoff : after.handoff = b.handoff
  handoffValid : after.handoffValid = b.handoffValid

theorem Keeps.refl (b : Ble) : Keeps b b := ⟨rfl, rfl, rfl⟩

theorem Keeps.trans {a b c : Ble} (first : Keeps a b) (second : Keeps b c) : Keeps a c where
  notification := second.notification.trans first.notification
  handoff := second.handoff.trans first.handoff
  handoffValid := second.handoffValid.trans first.handoffValid

theorem keeps_ite {a b c : Ble} {P : Prop} [Decidable P] (yes : Keeps a b) (no : Keeps a c) :
    Keeps a (if P then b else c) := by
  split
  · exact yes
  · exact no

theorem keeps_reportBle (b : Ble) (status : Status) : Keeps b (reportBle b status) := by
  refine keeps_ite (.refl b) ?_
  constructor <;> simp [BleProvision.setStatus]

theorem keeps_report (w : World) (state : State) (reason : UInt8) (source : BleProvision.Source)
    (attempt : UInt8) (ip : List.Vector UInt8 4) :
    Keeps w.ble (report w state reason source attempt ip).ble :=
  keeps_reportBle w.ble _

theorem keeps_startBle (w : World) : Keeps w.ble (startBle w).ble := ⟨rfl, rfl, rfl⟩

theorem keeps_stop (b : Ble) : Keeps b (BleProvision.stop b) := by
  unfold BleProvision.stop
  exact keeps_ite (.refl b) ⟨rfl, rfl, rfl⟩

/-! ## What the longer steps do -/

theorem loadActive_eq (p : Platform) (w : World) :
    ∃ ble, Keeps w.ble ble ∧ loadActive p w = { w with held := w.held.load p, ble } := by
  refine ⟨_, ?_, rfl⟩
  refine keeps_ite (.refl w.ble) ?_
  exact (keeps_startBle { w with held := w.held.load p }).trans (keeps_report ..)

/-- The main loop counts the failure and waits. -/
theorem bringUpFailed_main (w : World) (wifiFails mqttFails : Nat) (wifi : Bool) (reason : UInt8) :
    ∃ ble wifiFails' mqttFails', Keeps w.ble ble ∧
      bringUpFailed w (.main wifiFails mqttFails) wifi reason =
        { w with ble, pc := .mainWait wifiFails' mqttFails' } := by
  refine ⟨_, _, _, ?_, rfl⟩
  exact keeps_ite ((keeps_report ..).trans (keeps_startBle _)) (keeps_report ..)

/-- `handle_commit` counts the failure: its tries are used up, or it waits. -/
theorem bringUpFailed_commit (w : World) (attempt wifiTries mqttTries : Nat) (wifi : Bool)
    (reason : UInt8) : ∃ ble wifiTries' mqttTries', Keeps w.ble ble ∧
      wifiTries' + mqttTries' = wifiTries + mqttTries + 1 ∧
      bringUpFailed w (.commit attempt wifiTries mqttTries) wifi reason =
        if netCandidateWifiTries ≤ wifiTries' ∨ netCandidateMqttTries ≤ mqttTries' then
          { w with
            ble
            candidate := zeroed
            pc := .abort .reverted
            history := w.history.settle (.done .reverted) }
        else { w with ble, pc := .commitWait attempt wifiTries' mqttTries' } := by
  refine ⟨_, _, _, keeps_report .., ?_, rfl⟩
  cases wifi <;> simp <;> omega

/-- The loop of `wifi_join` ends, or waits. -/
theorem wifiPoll_cases (w : World) (o : Obs) (call : Call) (elapsed : Nat) :
    (∃ reason, wifiPoll w o call elapsed = { w with pc := .wifiCheck call reason }) ∨
    (elapsed + o.late < wifiJoinTimeoutMs ∧
      wifiPoll w o call elapsed = { w with pc := .wifiWait call (elapsed + o.late) }) := by
  unfold wifiPoll
  split
  · exact .inl ⟨_, rfl⟩
  split
  · exact .inl ⟨_, rfl⟩
  split
  · exact .inl ⟨_, rfl⟩
  split
  · exact .inl ⟨_, rfl⟩
  split
  · exact .inl ⟨_, rfl⟩
  · exact .inr ⟨by omega, rfl⟩

/-- The loop of `mqtt_wait` ends well, fails, or waits. -/
theorem mqttPoll_cases (w : World) (o : Obs) (call : Call) (elapsed : Nat) :
    (w.mqttUp = true ∧ mqttPoll w o call elapsed = bringUpOnline w call) ∨
    (∃ reason, mqttPoll w o call elapsed = { w with pc := .abort (.waitFailed call reason) }) ∨
    (elapsed + o.late < mqttConnectTimeoutMs ∧
      mqttPoll w o call elapsed = { w with pc := .mqttWait call (elapsed + o.late) }) := by
  unfold mqttPoll
  split
  · rename_i up
    exact .inl ⟨up, rfl⟩
  · refine .inr ?_
    split
    · exact .inl ⟨_, rfl⟩
    · exact .inl ⟨_, rfl⟩
    · exact .inl ⟨_, rfl⟩
    · split
      · exact .inl ⟨_, rfl⟩
      · exact .inr ⟨by omega, rfl⟩

/-- A turn of `run_online` ends with its return, or the next turn begins. -/
theorem onlineLink_cases (w : World) (o : Obs) (caller : Caller) (badLinks : Nat) :
    (∃ wifiUp, (wifiUp = true → w.wifiUp = true) ∧
      onlineLink w o caller badLinks = onlineReturn { w with wifiUp, mqttUp := false } caller) ∨
    ∃ badLinks', onlineLink w o caller badLinks = { w with pc := .online caller badLinks' } := by
  unfold onlineLink
  generalize (if o.linkJoin then 0 else badLinks + 1) = badLinks'
  dsimp only
  split
  · exact .inl ⟨false, nofun, rfl⟩
  split
  · exact .inl ⟨w.wifiUp, id, rfl⟩
  · exact .inr ⟨badLinks', rfl⟩

/-- The task reports that it reverts, and what it is left with. -/
theorem aborted_reverted (w : World) : ∃ ble, Keeps w.ble ble ∧
    aborted w .reverted = { w with ble, pc := .dispatch 0 0 } := by
  refine ⟨_, ?_, rfl⟩
  exact keeps_ite (keeps_report ..) ((keeps_report ..).trans (keeps_report ..))

theorem saveCandidate_eq (p : Platform) (w : World) (o : Obs) : ∃ ble, Keeps w.ble ble ∧
    saveCandidate p w o =
      { w with
        held := (w.held.adopt p o.fault w.candidate).2
        candidate := zeroed
        ble
        pc := .runOnline .commit
        history := w.history.settle (.done (.online o.fault)) } := by
  refine ⟨_, ?_, rfl⟩
  exact keeps_ite (keeps_report ..) (keeps_report ..)

/-! ## A hub on the bench -/

/-- A build without settings; the address is that of `homeNet`'s broker. -/
def bench : Platform where
  defs := noDefinitions
  binaryClear := true
  aton _ := some [192, 168, 1, 100]

def blank : Flash := ⟨erased, erased⟩

/-- Every call succeeds and nothing takes time. -/
def fair (link : Link) : Obs :=
  ⟨link, true, true, true, 0, 0, 0, noIp, .none, false⟩

def write (handle : BleProvision.Attribute) (data : List UInt8) : Event :=
  .ble (.write handle .none 0 data)

/-- The task waits for settings and a client has written `homeNet`. -/
def provision : List Event :=
  [.task (fair .down), .task (fair .down), .ble (.connected 1), write .ssid (bytes "HomeNet"),
    write .pass (bytes "hunter2hunter2"), write .host (bytes "192.168.1.100"),
    write .port [0x5B, 0x07]]

def apply : Event := write .cmd [BleProvision.cmdApply]

def forget : Event := write .cmd [BleProvision.cmdForget]

/-- Steps of the task, the link being as it is. -/
def steps (n : Nat) (link : Link) : List Event := List.replicate n (.task (fair link))

end IrHub.Firmware.NetworkTask
