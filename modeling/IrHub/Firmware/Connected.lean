/-
# Firmware.Connected -- what `s_wifi_up` and `s_mqtt_up` stand for

`run_online` goes by two flags.  The one for Wi-Fi is set where a join is over, the one for
the broker by a callback; `mqtt_abort` clears it before it ends the connection, whose callback
may set it again.  So `s_mqtt_up` may outlive its connection, but no longer than until the
next `mqtt_connect`.

From there on it stands for a connection that was accepted, and in `run_online` that
connection was opened to the broker of `s_active`, over the network of `s_active` (`Wired`).
-/
import IrHub.Firmware.Trial

namespace IrHub.Firmware.Connected

set_option autoImplicit false

open IrHub.Theory IrHub.Firmware.NetConfig IrHub.Firmware.NetworkTask
open IrHub.Firmware.Progress IrHub.Firmware.Trial
open IrHub.Firmware.NetConfigFlash (Flash homeNet)

/-! ## Joined, and connected -/

/-- In `run_online`. -/
def inRunOnline : Pc → Bool
  | .runOnline _ => true
  | .online _ _ => true
  | .onlineEvents _ _ => true
  | .onlineBle _ _ => true
  | .onlineStop _ _ => true
  | .onlineLink _ _ => true
  | _ => false

/-- `mqtt_connect` is over, and its connection is still the one in use. -/
def afterConnect : Pc → Bool
  | .mqttPoll _ _ => true
  | .mqttWait _ _ => true
  | .save => true
  | pc => inRunOnline pc

/-- `wifi_join` is over, and its network is still the one in use. -/
def afterJoin : Pc → Bool
  | .mqttStart _ => true
  | .abort (.start _) => true
  | .mqttDisconnect (.start _) => true
  | .mqttConnect _ => true
  | pc => afterConnect pc

/-- What the two flags of `is_connected` stand for.  `mqtt_abort` may be overtaken by the
callback of the connection that it ends, so `s_mqtt_up` means nothing before the next one. -/
structure Wired (p : Platform) (w : World) : Prop where
  wifi : afterJoin w.pc = true → w.wifiUp = true
  broker : afterConnect w.pc = true → w.mqttUp = true →
    w.connection.any Connection.accepted = true
  serves : inRunOnline w.pc = true → Joined w w.held.active ∧ Addressed p w w.held.active ∧
    Opened w w.held.active

theorem wired_initial (p : Platform) (flash : Flash) : Wired p (initial flash) :=
  ⟨nofun, nofun, nofun⟩

theorem connected_of_online {pc : Pc} (online : inRunOnline pc = true) :
    afterConnect pc = true := by
  cases pc with
  | mqttPoll _ _ => rfl
  | mqttWait _ _ => rfl
  | save => rfl
  | _ => exact online

theorem joined_of_connected {pc : Pc} (connected : afterConnect pc = true) :
    afterJoin pc = true := by
  cases pc with
  | mqttStart _ => rfl
  | mqttConnect _ => rfl
  | abort _ => cases connected
  | mqttDisconnect _ => cases connected
  | _ => exact connected

/-- Joined, and not yet connected. -/
theorem wired_joined {p : Platform} {w : World} (up : w.wifiUp = true)
    (unconnected : afterConnect w.pc = false) : Wired p w where
  wifi _ := up
  broker here := by
    rw [unconnected] at here
    cases here
  serves here := by
    rw [connected_of_online here] at unconnected
    cases unconnected

/-- Nothing is asked of the place. -/
theorem wired_away {p : Platform} {w : World} (away : afterJoin w.pc = false) : Wired p w where
  wifi here := by
    rw [away] at here
    cases here
  broker here := by
    rw [joined_of_connected here] at away
    cases away
  serves here := by
    rw [joined_of_connected (connected_of_online here)] at away
    cases away

/-- The variables that it speaks of are as they were. -/
theorem wired_same {p : Platform} {w t : World} (wired : Wired p w)
    (wifiUp : t.wifiUp = w.wifiUp) (mqttUp : t.mqttUp = w.mqttUp)
    (connection : t.connection = w.connection) (held : t.held = w.held)
    (lastJoin : t.lastJoin = w.lastJoin) (brokerAddr : t.brokerAddr = w.brokerAddr)
    (lastAccepted : t.lastAccepted = w.lastAccepted)
    (joined : afterJoin t.pc = true → afterJoin w.pc = true)
    (connected : afterConnect t.pc = true → afterConnect w.pc = true)
    (online : inRunOnline t.pc = true → inRunOnline w.pc = true) : Wired p t where
  wifi here := wifiUp.trans (wired.wifi (joined here))
  broker here up := by
    rw [connection]
    exact wired.broker (connected here) (mqttUp ▸ up)
  serves here := by
    have before := wired.serves (online here)
    rw [Trial.Joined, Addressed, Opened] at before ⊢
    rw [lastJoin, held, brokerAddr, connection, mqttUp, lastAccepted]
    exact before

theorem away_failed {call : Call} {pc : Pc} (failed : Failed call pc) : afterJoin pc = false := by
  cases failed <;> rfl

theorem away_left {cause : Leave} {pc : Pc} (left : Left cause pc) : afterJoin pc = false := by
  cases left with
  | failed failed => exact away_failed failed
  | _ => rfl

/-- Whatever bits there are, `run_online` returns to the head of the loop or waits. -/
theorem away_return (w : World) (caller : Caller) :
    afterJoin (onlineReturn w caller).pc = false := by
  cases caller with
  | main =>
      unfold onlineReturn
      dsimp only
      split <;> rfl
  | commit => rfl

theorem wired_aborted {p : Platform} {w : World} {cause : Abort}
    (up : ∀ call, cause = .start call → w.wifiUp = true) : Wired p (aborted w cause) := by
  have goes := (aborted_abort w cause).1
  cases cause with
  | start call => exact wired_joined (up call rfl) rfl
  | waitFailed call reason => exact wired_away (away_failed (failed w call false reason).1)
  | waitAborted call => cases call <;> exact wired_away rfl
  | reverted =>
      obtain ⟨ble, -, after⟩ := aborted_reverted w
      rw [after]
      exact wired_away rfl
  | forget => exact wired_away rfl

theorem wired_task {p : Platform} {w : World} (sound : Sound p w) (wired : Wired p w) (o : Obs) :
    Wired p (taskStep p w o) := by
  have joined := wired.wifi
  have reached := sound.reached
  unfold taskStep
  cases pc : w.pc with
  | boot => exact wired_away rfl
  | dispatch wifiFails mqttFails =>
      dsimp only
      unfold dispatch
      split
      · exact wired_away rfl
      split
      · dsimp only
        split <;> exact wired_away rfl
      · dsimp only
        split <;> exact wired_away rfl
  | idle wifiFails mqttFails => exact wired_away rfl
  | bringUp call =>
      dsimp only
      split
      · rename_i same
        unfold joinedTo at same
        simp only [Bool.and_eq_true] at same
        exact wired_joined same.1.1.1 rfl
      · exact wired_away rfl
  | leave cause =>
      dsimp only
      split
      · exact wired_away (away_left (left_leave w cause).1)
      · exact wired_away rfl
  | leavePoll cause polls =>
      dsimp only
      split
      · exact wired_away rfl
      · exact wired_away (away_left (left_leave w cause).1)
  | wifiConnect call =>
      dsimp only
      split
      · exact wired_away rfl
      · exact wired_away (away_failed (failed w call true 3).1)
  | wifiPoll call elapsed =>
      dsimp only
      rcases wifiPoll_cases w o call elapsed with ⟨reason, after⟩ | ⟨-, after⟩
      · rw [after]
        exact wired_away rfl
      · rw [after]
        exact wired_away rfl
  | wifiWait call elapsed =>
      dsimp only
      split <;> exact wired_away rfl
  | wifiCheck call reason =>
      dsimp only
      unfold wifiCheck
      split
      · exact wired_away rfl
      · exact wired_joined rfl rfl
  | mqttStart call =>
      have up := joined (by rw [pc]; rfl)
      dsimp only
      unfold mqttStart
      dsimp only
      split
      · exact wired_away (away_failed (failed _ call false 3).1)
      · split <;> exact wired_joined up rfl
  | abort cause =>
      dsimp only
      have up : ∀ call, cause = .start call → w.wifiUp = true := by
        rintro call rfl
        exact joined (by rw [pc]; rfl)
      split
      · cases cause with
        | start call => exact wired_joined (up call rfl) rfl
        | _ => exact wired_away rfl
      · exact wired_aborted up
  | mqttDisconnect cause =>
      refine wired_aborted (w := { w with connection := none }) ?_
      rintro call rfl
      exact joined (by rw [pc]; rfl)
  | mqttConnect call =>
      have up := joined (by rw [pc]; rfl)
      dsimp only
      unfold mqttConnect
      dsimp only
      split
      · exact ⟨fun _ => up, (by rintro - ⟨⟩), nofun⟩
      · exact wired_away (away_failed (failed _ call false 3).1)
  | mqttPoll call elapsed =>
      rw [pc] at reached
      have up := joined (by rw [pc]; rfl)
      have broker := wired.broker (by rw [pc]; rfl)
      dsimp only
      rcases mqttPoll_cases w o call elapsed with ⟨-, after⟩ | ⟨reason, after⟩ | ⟨-, after⟩
      · rw [after]
        cases call with
        | main wifiFails mqttFails => exact ⟨fun _ => up, fun _ => broker, fun _ => reached⟩
        | commit attempt wifiTries mqttTries => exact ⟨fun _ => up, fun _ => broker, nofun⟩
      · rw [after]
        exact wired_away rfl
      · rw [after]
        exact ⟨fun _ => up, fun _ => broker, nofun⟩
  | mqttWait call elapsed =>
      have up := joined (by rw [pc]; rfl)
      have broker := wired.broker (by rw [pc]; rfl)
      dsimp only
      split
      · exact wired_away rfl
      · exact ⟨fun _ => up, fun _ => broker, nofun⟩
  | mainWait wifiFails mqttFails => exact wired_away rfl
  | commitWait attempt wifiTries mqttTries =>
      dsimp only
      split <;> exact wired_away rfl
  | save =>
      rw [pc] at reached
      obtain ⟨network, addressed, opened, -⟩ := reached
      have up := joined (by rw [pc]; rfl)
      have broker := wired.broker (by rw [pc]; rfl)
      obtain ⟨ble, -, after⟩ := saveCandidate_eq p w o
      dsimp only
      rw [after]
      exact ⟨fun _ => up, fun _ => broker, fun _ => ⟨network, addressed, opened⟩⟩
  | runOnline caller =>
      exact wired_same wired rfl rfl rfl rfl rfl rfl rfl (fun _ => by rw [pc]; rfl)
        (fun _ => by rw [pc]; rfl) (fun _ => by rw [pc]; rfl)
  | online caller badLinks =>
      dsimp only
      split
      · exact wired_same wired rfl rfl rfl rfl rfl rfl rfl (fun _ => by rw [pc]; rfl)
          (fun _ => by rw [pc]; rfl) (fun _ => by rw [pc]; rfl)
      · exact wired_away (away_return w caller)
  | onlineEvents caller badLinks =>
      dsimp only
      unfold onlineEvents
      dsimp only
      split
      · exact wired_away (away_return _ caller)
      · split
        · exact wired_same wired rfl rfl rfl rfl rfl rfl rfl (fun _ => by rw [pc]; rfl)
            (fun _ => by rw [pc]; rfl) (fun _ => by rw [pc]; rfl)
        · exact wired_same wired rfl rfl rfl rfl rfl rfl rfl (fun _ => by rw [pc]; rfl)
            (fun _ => by rw [pc]; rfl) (fun _ => by rw [pc]; rfl)
  | onlineBle caller badLinks =>
      dsimp only
      unfold onlineBle
      dsimp only
      split
      · exact wired_same wired rfl rfl rfl rfl rfl rfl rfl (fun _ => by rw [pc]; rfl)
          (fun _ => by rw [pc]; rfl) (fun _ => by rw [pc]; rfl)
      · exact wired_same wired rfl rfl rfl rfl rfl rfl rfl (fun _ => by rw [pc]; rfl)
          (fun _ => by rw [pc]; rfl) (fun _ => by rw [pc]; rfl)
  | onlineStop caller badLinks =>
      exact wired_same wired rfl rfl rfl rfl rfl rfl rfl (fun _ => by rw [pc]; rfl)
        (fun _ => by rw [pc]; rfl) (fun _ => by rw [pc]; rfl)
  | onlineLink caller badLinks =>
      dsimp only
      rcases onlineLink_cases w o caller badLinks with ⟨wifiUp, -, after⟩ | ⟨badLinks', after⟩
      · rw [after]
        exact wired_away (away_return _ caller)
      · rw [after]
        exact wired_same wired rfl rfl rfl rfl rfl rfl rfl (fun _ => by rw [pc]; rfl)
          (fun _ => by rw [pc]; rfl) (fun _ => by rw [pc]; rfl)
  | lostWait => exact wired_away rfl
  | forgetErase => exact wired_away rfl
  | forgetLoad => exact wired_away rfl
  | forgetRefresh => exact wired_away rfl

theorem wired_mqtt {p : Platform} {w t : World} (wired : Wired p w) {status : MqttStatus}
    (happens : mqttCallback w status = some t) : Wired p t := by
  unfold mqttCallback at happens
  split at happens
  · cases happens
  · cases happens
  · rename_i connection opened
    split at happens
    · cases happens
    · cases happens
      refine ⟨wired.wifi, fun _ _ => rfl, fun here => ?_⟩
      obtain ⟨joined, addressed, before, -⟩ := wired.serves here
      obtain ⟨addr, port⟩ := before connection opened
      refine ⟨joined, addressed, ?_, fun _ => by rw [addr, port]⟩
      rintro _ ⟨⟩
      exact ⟨addr, port⟩
  · cases happens
    refine ⟨wired.wifi, (by rintro - ⟨⟩), fun here => ?_⟩
    obtain ⟨joined, addressed, -⟩ := wired.serves here
    exact ⟨joined, addressed, nofun, nofun⟩

theorem wired_next {p : Platform} {w t : World} {event : Event} (sound : Sound p w)
    (wired : Wired p w) (step : next p w event = some t) : Wired p t := by
  cases event with
  | task o =>
      obtain rfl := task_next step
      exact wired_task sound wired o
  | mqtt status => exact wired_mqtt wired step
  | ble e =>
      obtain ⟨_, _, -, rfl, -⟩ := bleCallback_eq step
      exact ⟨wired.wifi, wired.broker, wired.serves⟩

theorem wired_reached {p : Platform} {flash : Flash} {w : World} {es : List Event}
    (run : (machine p).Run (initial flash) es w) : Wired p w := by
  suffices both : Sound p w ∧ Wired p w from both.2
  refine Machine.run_preserves (P := fun w => Sound p w ∧ Wired p w) ?_
    ⟨sound_initial p flash, wired_initial p flash⟩ run
  rintro w event t ⟨sound, wired⟩ step
  exact ⟨sound_next sound step, wired_next sound wired step⟩

/-! ## What `run_online` runs on -/

/-- In `run_online`: joined to the network of the settings in use, and connected to their
broker. -/
structure Online (p : Platform) (w : World) : Prop where
  running : inRunOnline w.pc = true
  wifiUp : w.wifiUp = true
  mqttUp : w.mqttUp = true
  joined : Joined w w.held.active
  connected : ∃ connection, w.connection = some connection ∧ connection.accepted = true ∧
    p.aton (text w.held.active.brokerHost) = some connection.addr ∧
    connection.port = w.held.active.brokerPort

theorem online_iff {p : Platform} {w : World} (wired : Wired p w) :
    Online p w ↔ inRunOnline w.pc = true ∧ w.mqttUp = true := by
  refine ⟨fun online => ⟨online.running, online.mqttUp⟩, ?_⟩
  rintro ⟨running, up⟩
  have connected := connected_of_online running
  have accepted := wired.broker connected up
  obtain ⟨joined, addressed, opened, -⟩ := wired.serves running
  obtain ⟨connection, there, accepted⟩ := (Option.any_eq_true ..).mp accepted
  obtain ⟨addr, port⟩ := opened connection there
  rw [Addressed, ← addr] at addressed
  exact ⟨running, wired.wifi (joined_of_connected connected), up, joined, connection, there,
    accepted, addressed, port⟩

/-- **`run_online` works on a connection of the settings in use**: in every run, while it goes by
`s_mqtt_up` the hub is joined to the network of `s_active`, and `s_client` has a connection that
was opened to the broker of `s_active` and accepted.  A callback that `mqtt_abort` did not wait
for cannot make another one pass for it. -/
theorem online_in_use {p : Platform} {flash : Flash} {w : World} {es : List Event}
    (run : (machine p).Run (initial flash) es w) (running : inRunOnline w.pc = true)
    (up : w.mqttUp = true) : Online p w :=
  (online_iff (wired_reached run)).mpr ⟨running, up⟩

/-- The first settings of a hub have been saved. -/
theorem online_in_use_homeNet : ∃ w es, (machine bench).Run (initial blank) es w ∧
    w.held.active = homeNet ∧ Online bench w := by
  have computed : (Machine.exec (next bench) (initial blank)
      (provision ++ [apply] ++ steps 5 .down ++ steps 4 .up ++ [.mqtt .accepted] ++
        steps 3 .up)).any (fun w => decide (inRunOnline w.pc = true ∧ w.mqttUp = true ∧
          w.held.active = homeNet)) = true := by
    decide +kernel
  obtain ⟨w, run, running, up, active⟩ := Machine.exists_run_of_exec computed
  exact ⟨w, _, run, active, online_in_use run running up⟩

end IrHub.Firmware.Connected
