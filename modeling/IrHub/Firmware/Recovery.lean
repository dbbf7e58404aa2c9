/-
# Firmware.Recovery -- once the network works, the hub gets online and stays online

The hub has settings and nobody sends it a command.  Then NetworkTask can be anywhere: in a
trial of other settings, in an attempt that is bound to fail, waiting after one, or online with
a connection that is gone.  `Up` says that from now on the network and the broker of the
settings in use work: calls succeed, and answers come before they are given up.

A trial ends, whatever its network does.  Away from it every step brings the task closer to
the broker, or first to the head of its loop (`distance_next`).  So the hub is online within a
bounded number of steps, and it stays online (`recovers`).
-/
import IrHub.Firmware.Connected

namespace IrHub.Firmware.Recovery

set_option autoImplicit false

open IrHub.Theory IrHub.Firmware.NetConfig IrHub.Firmware.NetworkTask IrHub.Firmware.Commands
open IrHub.Firmware.Progress IrHub.Firmware.Trial IrHub.Firmware.Connected
open IrHub.Firmware.NetConfigFlash (Flash homeNet zeroed)
open IrHub.Firmware.BleProvision (Ble noIp)

/-! ## A network that works -/

/-- The broker has ended the attempt or the connection. -/
def MqttStatus.failed : MqttStatus → Bool
  | .refused => true
  | .disconnected => true
  | .timeout => true
  | _ => false

/-- The network and the broker of the settings in use do their part in this step of the task:
calls succeed, and answers come before the task stops waiting. -/
def Works (w : World) (o : Obs) : Prop :=
  match w.pc with
  | .wifiConnect (.main _ _) => o.wifiConnectOk = true
  | .wifiPoll (.main _ _) elapsed =>
      o.link = .up ∨ o.link ≠ .badAuth ∧ o.link ≠ .fail ∧
        (o.link = .noNet → o.wifiConnectOk = true) ∧ elapsed + o.late < wifiJoinTimeoutMs
  | .wifiCheck (.main _ _) _ => o.link = .up
  | .mqttConnect (.main _ _) => o.mqttConnectOk = true
  | .mqttPoll (.main _ _) elapsed =>
      w.mqttUp = true ∨ MqttStatus.failed w.mqttStatus = true ∨
        elapsed + o.late < mqttConnectTimeoutMs
  | .onlineLink _ _ => o.linkJoin = true
  | _ => True

/-- A connection that is open is to the broker of the settings in use. -/
def inUse : Pc → Bool
  | .mqttPoll (.main _ _) _ => true
  | .mqttWait (.main _ _) _ => true
  | pc => inRunOnline pc

/-- The network works, its broker ends no connection, and no client sends a command. -/
def Up (w : World) : Event → Prop
  | .task o => Works w o
  | .mqtt status => inUse w.pc = true → status = .accepted
  | .ble e => BleProvision.accepted w.ble e = none

instance (w : World) (o : Obs) : Decidable (Works w o) := by
  unfold Works
  split <;> infer_instance

instance (w : World) : (event : Event) → Decidable (Up w event)
  | .task o => inferInstanceAs (Decidable (Works w o))
  | .mqtt status => inferInstanceAs (Decidable (inUse w.pc = true → status = .accepted))
  | .ble e => inferInstanceAs (Decidable (BleProvision.accepted w.ble e = none))

/-! ## Where the hub starts from, and where it gets -/

/-- No command is on its way. -/
structure Calm (w : World) : Prop where
  noticed : w.events.interrupt = false
  commit : w.ble.notification.commit = false
  forget : w.ble.notification.forget = false

/-- There are settings in use, and their broker has an address. -/
structure Ready (p : Platform) (w : World) : Prop where
  loaded : loading w.pc = false
  kept : w.pc ≠ .forgetErase
  haveActive : w.held.haveActive = true
  address : (p.aton (text w.held.active.brokerHost)).isSome = true

/-! ## The way home -/

/-- The loop of `mqtt_wait` is about to give up. -/
def gaveUp (w : World) : Bool := !w.mqttUp && MqttStatus.failed w.mqttStatus

/-- Steps to `run_online` from a place outside a trial, a loop with a wait counted whole. -/
def home (w : World) : Nat :=
  match w.pc with
  | .idle _ _ => 541
  | .mainWait _ _ => 541
  | .lostWait => 541
  | .leave (.join _) => 533
  | .leave _ => 564
  | .leavePoll (.join _) polls => 512 + (20 - polls)
  | .leavePoll _ polls => 542 + (20 - polls)
  | .abort (.start _) => 207
  | .abort _ => 543
  | .mqttDisconnect (.start _) => 206
  | .mqttDisconnect _ => 542
  | .mqttWait _ elapsed =>
      if gaveUp w then 545 else 5 + 2 * turnsLeft mqttConnectTimeoutMs (elapsed + 100)
  | .mqttPoll _ elapsed =>
      if gaveUp w then 544 else 4 + 2 * turnsLeft mqttConnectTimeoutMs elapsed
  | .runOnline _ => if w.mqttUp then 0 else 548
  | .onlineEvents _ _ => if w.mqttUp then 0 else 546
  | .onlineBle _ _ => if w.mqttUp then 0 else 545
  | .onlineStop _ _ => if w.mqttUp then 0 else 544
  | .onlineLink _ _ => if w.mqttUp then 0 else 543
  | .online _ _ => if w.mqttUp then 0 else 542
  | pc => place pc

theorem home_le (w : World) : home w ≤ 573 := by
  have place := place_le w.pc
  unfold home turnsLeft mqttConnectTimeoutMs
  split
  all_goals first | omega | (split <;> omega)

/-- What a step of the task is on the way home: a wait that ends early may cost a turn. -/
structure Homeward (w t : World) : Prop where
  free : inTrial t.pc = false
  kept : t.pc ≠ .forgetErase
  nearer : home t < home w +
    if waits w.pc = true ∧ w.ble.notification.bleDisconnected = true then 2 else 0

theorem homeward_of {w t : World} (free : inTrial t.pc = false) (kept : t.pc ≠ .forgetErase)
    (nearer : home t < home w) : Homeward w t :=
  ⟨free, kept, by omega⟩

theorem homeward_failed {w u : World} {wifiFails mqttFails : Nat} (wifi : Bool) (reason : UInt8)
    (far : 541 < home w) : Homeward w (bringUpFailed u (.main wifiFails mqttFails) wifi reason) := by
  obtain ⟨ble, _, _, -, after⟩ := bringUpFailed_main u wifiFails mqttFails wifi reason
  rw [after]
  exact homeward_of rfl (by rintro ⟨⟩) far

/-- How far it is at most from where `wifi_leave` returns to. -/
def afterLeave : Leave → Nat
  | .join _ => 511
  | _ => 541

/-- How far it is at most from where `mqtt_abort` returns to. -/
def afterAbort : Abort → Nat
  | .start _ => 205
  | _ => 541

theorem homeward_dispatch {w t : World} {wifiFails mqttFails : Nat}
    (there : t.pc = .dispatch wifiFails mqttFails) (far : 541 < home w) : Homeward w t := by
  refine homeward_of (by rw [there]; rfl) (by rw [there]; rintro ⟨⟩) ?_
  have near : home t = 540 := by simp only [home, place, there]
  omega

theorem homeward_left {w u : World} {cause : Leave} (loaded : loading (.leave cause) = false)
    (free : inTrial (.leave cause) = false) (far : afterLeave cause < home w) :
    Homeward w (left u cause) := by
  cases cause with
  | join call => exact homeward_of free (by rintro ⟨⟩) far
  | joinAborted call =>
      cases call with
      | main _ _ => exact homeward_dispatch rfl far
      | commit _ _ _ => cases free
  | joinFailed call reason =>
      cases call with
      | main _ _ => exact homeward_failed true reason far
      | commit _ _ _ => cases free
  | forget => cases loaded

theorem homeward_aborted {w u : World} {cause : Abort} (loaded : loading (.abort cause) = false)
    (free : inTrial (.abort cause) = false) (far : afterAbort cause < home w) :
    Homeward w (aborted u cause) := by
  cases cause with
  | start call => exact homeward_of free (by rintro ⟨⟩) far
  | waitFailed call reason =>
      cases call with
      | main _ _ => exact homeward_failed false reason far
      | commit _ _ _ => cases free
  | waitAborted call =>
      cases call with
      | main _ _ => exact homeward_dispatch rfl far
      | commit _ _ _ => cases free
  | reverted =>
      obtain ⟨ble, -, after⟩ := aborted_reverted u
      rw [after]
      exact homeward_dispatch rfl far
  | forget => cases loaded

theorem homeward_return {w u : World} (caller : Caller) (far : 541 < home w) :
    Homeward w (onlineReturn u caller) := by
  cases caller with
  | main =>
      unfold onlineReturn
      dsimp only
      split
      · exact homeward_dispatch rfl far
      · exact homeward_of rfl (by rintro ⟨⟩) far
  | commit => exact homeward_dispatch rfl far

theorem calm_events {w : World} (calm : Calm w) :
    w.events.commit = false ∧ w.events.forget = false := by
  have noticed := calm.noticed
  simpa [Events.interrupt] using noticed

theorem calm_wait {w : World} (calm : Calm w) : (waitEvents w).events.interrupt = false := by
  obtain ⟨commit, forget⟩ := calm_events calm
  simp [waitEvents, Events.union, Events.interrupt, commit, forget, calm.commit, calm.forget]

theorem dispatch_calm {w : World} (calm : Calm w) (haveActive : w.held.haveActive = true)
    (wifiFails mqttFails : Nat) : dispatch w wifiFails mqttFails =
      { clearDisconnected w with pc := .bringUp (.main wifiFails mqttFails) } := by
  obtain ⟨commit, forget⟩ := calm_events calm
  simp [dispatch, commit, forget, clearDisconnected, haveActive]

theorem mqttStart_addressed {p : Platform} {w : World} {call : Call}
    (address : (p.aton (text (settings w call).brokerHost)).isSome = true) :
    (mqttStart p w call).pc = .abort (.start call) ∨ (mqttStart p w call).pc = .mqttConnect call := by
  unfold mqttStart
  dsimp only
  split
  · rename_i none
    have known : p.aton (text (settings w call).brokerHost) = .none := none
    rw [known] at address
    cases address
  · split
    · exact .inl rfl
    · exact .inr rfl

theorem mqttPoll_failed {w : World} (call : Call) (elapsed : Nat) (o : Obs)
    (down : w.mqttUp = false) (failed : MqttStatus.failed w.mqttStatus = true) :
    ∃ reason, mqttPoll w o call elapsed = { w with pc := .abort (.waitFailed call reason) } := by
  rw [mqttPoll, down, if_neg Bool.false_ne_true]
  cases status : w.mqttStatus with
  | refused => exact ⟨2, rfl⟩
  | disconnected => exact ⟨3, rfl⟩
  | timeout => exact ⟨1, rfl⟩
  | pending => rw [status] at failed; cases failed
  | accepted => rw [status] at failed; cases failed

theorem mqttPoll_pending {w : World} (call : Call) {elapsed : Nat} {o : Obs}
    (down : w.mqttUp = false) (open_ : MqttStatus.failed w.mqttStatus = false)
    (inside : elapsed + o.late < mqttConnectTimeoutMs) :
    mqttPoll w o call elapsed = { w with pc := .mqttWait call (elapsed + o.late) } := by
  rw [mqttPoll, down, if_neg Bool.false_ne_true]
  cases status : w.mqttStatus with
  | refused => rw [status] at open_; cases open_
  | disconnected => rw [status] at open_; cases open_
  | timeout => rw [status] at open_; cases open_
  | pending => exact if_neg (Nat.not_le.mpr inside)
  | accepted => exact if_neg (Nat.not_le.mpr inside)

theorem homeward_task {p : Platform} {w : World} {o : Obs} (calm : Calm w) (ready : Ready p w)
    (free : inTrial w.pc = false) (lost : inRunOnline w.pc = true → w.mqttUp = false)
    (works : Works w o) : Homeward w (taskStep p w o) := by
  obtain ⟨loaded, kept, haveActive, address⟩ := ready
  have short := waitedMs_le w o 100
  have full := fun left => waitedMs_eq calm.commit calm.forget left o 100
  have stays : ¬(waitEvents w).events.interrupt = true := by
    rw [calm_wait calm]
    exact Bool.false_ne_true
  unfold taskStep
  cases pc : w.pc with
  | boot => rw [pc] at loaded; cases loaded
  | forgetErase => exact absurd pc kept
  | forgetLoad => rw [pc] at loaded; cases loaded
  | dispatch wifiFails mqttFails =>
      dsimp only
      rw [dispatch_calm calm haveActive]
      exact homeward_of rfl (by rintro ⟨⟩) (by simp only [home, place, pc]; omega)
  | idle _ _ => exact homeward_of rfl (by rintro ⟨⟩) (by simp only [home, place, pc]; omega)
  | mainWait _ _ => exact homeward_of rfl (by rintro ⟨⟩) (by simp only [home, place, pc]; omega)
  | lostWait => exact homeward_of rfl (by rintro ⟨⟩) (by simp only [home, place, pc]; omega)
  | forgetRefresh => exact homeward_of rfl (by rintro ⟨⟩) (by simp only [home, place, pc]; omega)
  | commitWait _ _ _ => rw [pc] at free; cases free
  | save => rw [pc] at free; cases free
  | bringUp call =>
      rw [pc] at free
      dsimp only
      split
      · exact homeward_of free (by rintro ⟨⟩) (by simp only [home, place, pc]; omega)
      · exact homeward_of free (by rintro ⟨⟩) (by simp only [home, place, pc]; omega)
  | leave cause =>
      rw [pc] at free loaded
      dsimp only
      split
      · refine homeward_left loaded free ?_
        cases cause <;> simp [home, afterLeave, pc]
      · exact homeward_of free (by rintro ⟨⟩) (by cases cause <;> simp only [home, pc] <;> omega)
  | leavePoll cause polls =>
      rw [pc] at free loaded
      dsimp only
      split
      · rename_i again
        exact homeward_of free (by rintro ⟨⟩) (by cases cause <;> simp only [home, pc] <;> omega)
      · refine homeward_left (by cases cause <;> exact loaded) free ?_
        cases cause <;> simp only [home, afterLeave, pc] <;> omega
  | wifiConnect call =>
      rw [pc] at free
      cases call with
      | commit _ _ _ => cases free
      | main wifiFails mqttFails =>
          rw [Works, pc] at works
          dsimp only at works ⊢
          rw [if_pos works]
          refine homeward_of rfl (by rintro ⟨⟩) ?_
          simp only [home, place, pc, turnsLeft, wifiJoinTimeoutMs]
          omega
  | wifiPoll call elapsed =>
      rw [pc] at free
      cases call with
      | commit _ _ _ => cases free
      | main wifiFails mqttFails =>
          dsimp only
          rcases wifiPoll_cases w o (.main wifiFails mqttFails) elapsed with
            ⟨reason, after⟩ | ⟨inside, after⟩
          · rw [after]
            exact homeward_of rfl (by rintro ⟨⟩) (by simp only [home, place, pc]; omega)
          · rw [after]
            refine homeward_of rfl (by rintro ⟨⟩) ?_
            simp only [home, place, pc, turnsLeft, wifiJoinTimeoutMs] at inside ⊢
            omega
  | wifiWait call elapsed =>
      rw [pc] at free
      dsimp only
      rw [if_neg stays]
      refine ⟨free, by rintro ⟨⟩, ?_⟩
      simp only [home, place, pc, waits, true_and, turnsLeft, wifiJoinTimeoutMs]
      split
      · omega
      · rename_i none
        rw [full (Bool.eq_false_of_not_eq_true none)]
        omega
  | wifiCheck call reason =>
      rw [pc] at free
      cases call with
      | commit _ _ _ => cases free
      | main wifiFails mqttFails =>
          rw [Works, pc] at works
          dsimp only at works ⊢
          unfold wifiCheck
          dsimp only
          rw [if_neg (not_not_intro works)]
          exact homeward_of rfl (by rintro ⟨⟩) (by simp only [home, place, pc]; omega)
  | mqttStart call =>
      rw [pc] at free
      cases call with
      | commit _ _ _ => cases free
      | main wifiFails mqttFails =>
          have starts : (p.aton (text (settings w (.main wifiFails mqttFails)).brokerHost)).isSome =
              true := address
          rcases mqttStart_addressed starts with there | there
          · exact homeward_of (by rw [there]; rfl) (by rw [there]; rintro ⟨⟩)
              (by simp only [home, pc, place, there]; omega)
          · exact homeward_of (by rw [there]; rfl) (by rw [there]; rintro ⟨⟩)
              (by simp only [home, pc, place, there]; omega)
  | abort cause =>
      rw [pc] at free loaded
      dsimp only
      split
      · exact homeward_of free (by rintro ⟨⟩) (by cases cause <;> simp only [home, pc] <;> omega)
      · refine homeward_aborted loaded free ?_
        cases cause <;> simp [home, afterAbort, pc]
  | mqttDisconnect cause =>
      rw [pc] at free loaded
      refine homeward_aborted (by cases cause <;> exact loaded) free ?_
      cases cause <;> simp [home, afterAbort, pc]
  | mqttConnect call =>
      rw [pc] at free
      cases call with
      | commit _ _ _ => cases free
      | main wifiFails mqttFails =>
          rw [Works, pc] at works
          dsimp only at works ⊢
          unfold mqttConnect
          dsimp only
          rw [if_pos works]
          refine homeward_of rfl (by rintro ⟨⟩) ?_
          simp [home, place, pc, gaveUp, MqttStatus.failed, turnsLeft, mqttConnectTimeoutMs]
  | mqttPoll call elapsed =>
      rw [pc] at free
      cases call with
      | commit _ _ _ => cases free
      | main wifiFails mqttFails =>
          rw [Works, pc] at works
          dsimp only at works ⊢
          cases up : w.mqttUp with
          | true =>
              rw [mqttPoll, if_pos up]
              exact homeward_of rfl (by rintro ⟨⟩) (by simp [bringUpOnline, home, pc, gaveUp, up])
          | false =>
              cases bad : MqttStatus.failed w.mqttStatus with
              | true =>
                  obtain ⟨reason, after⟩ := mqttPoll_failed (.main wifiFails mqttFails) elapsed o up bad
                  rw [after]
                  exact homeward_of rfl (by rintro ⟨⟩) (by simp [home, pc, gaveUp, up, bad])
              | false =>
                  have inside : elapsed + o.late < mqttConnectTimeoutMs := by
                    simpa [up, bad] using works
                  rw [mqttPoll_pending (.main wifiFails mqttFails) up bad inside]
                  refine homeward_of rfl (by rintro ⟨⟩) ?_
                  simp [home, pc, gaveUp, bad, turnsLeft, mqttConnectTimeoutMs] at inside ⊢
                  omega
  | mqttWait call elapsed =>
      rw [pc] at free
      dsimp only
      rw [if_neg stays]
      refine ⟨free, by rintro ⟨⟩, ?_⟩
      have same : gaveUp { waitEvents w with pc := .mqttPoll call (elapsed + waitedMs w o 100) } =
          gaveUp w := rfl
      simp only [home, pc, waits, true_and, turnsLeft, mqttConnectTimeoutMs, same]
      split
      · omega
      · split
        · omega
        · rename_i none
          rw [full (Bool.eq_false_of_not_eq_true none)]
          omega
  | runOnline caller =>
      have down := lost (by rw [pc]; rfl)
      refine homeward_of rfl (by rintro ⟨⟩) ?_
      simp [home, pc, runOnline, clearDisconnected, down]
  | online caller badLinks =>
      have down := lost (by rw [pc]; rfl)
      dsimp only
      rw [down, if_neg Bool.false_ne_true]
      exact homeward_return caller (by simp [home, pc, down])
  | onlineEvents caller badLinks =>
      have down := lost (by rw [pc]; rfl)
      dsimp only
      unfold onlineEvents
      dsimp only
      rw [if_neg stays]
      split
      · exact homeward_of rfl (by rintro ⟨⟩) (by simp [home, pc, waitEvents, down])
      · exact homeward_of rfl (by rintro ⟨⟩) (by simp [home, pc, waitEvents, clearDisconnected, down])
  | onlineBle caller badLinks =>
      have down := lost (by rw [pc]; rfl)
      dsimp only
      unfold onlineBle
      dsimp only
      split
      · exact homeward_of rfl (by rintro ⟨⟩) (by simp [home, pc, down])
      · exact homeward_of rfl (by rintro ⟨⟩) (by simp [home, pc, clearDisconnected, down])
  | onlineStop caller badLinks =>
      have down := lost (by rw [pc]; rfl)
      exact homeward_of rfl (by rintro ⟨⟩) (by simp [home, pc, clearDisconnected, down])
  | onlineLink caller badLinks =>
      have down := lost (by rw [pc]; rfl)
      dsimp only
      rcases onlineLink_cases w o caller badLinks with ⟨wifiUp, -, after⟩ | ⟨badLinks', after⟩
      · rw [after]
        exact homeward_return caller (by simp [home, pc, down])
      · rw [after]
        exact homeward_of rfl (by rintro ⟨⟩) (by simp [home, pc, down])

/-! ## Every step counts -/

/-- Steps to `run_online`: a trial ends first. -/
def distance (w : World) : Nat :=
  (if inTrial w.pc then 700 + cost w.pc else home w) +
    if w.ble.notification.bleDisconnected then 2 else 0

/-- Steps of the task to `run_online`, wherever it is. -/
def recoverySteps : Nat := 5275

theorem distance_le (w : World) : distance w ≤ recoverySteps := by
  have tries := tries_le w.pc
  have place := place_le w.pc
  have home := home_le w
  unfold distance cost recoverySteps
  split <;> split <;> omega

theorem distance_of_cheaper {w t : World} (trial : inTrial w.pc = true)
    (cheaper : cost t.pc + (if t.ble.notification.bleDisconnected then 2 else 0) <
      cost w.pc + if w.ble.notification.bleDisconnected then 2 else 0) : distance t < distance w := by
  have home := home_le t
  simp only [distance, if_pos trial]
  generalize (if w.ble.notification.bleDisconnected = true then 2 else 0) = before at cheaper ⊢
  split at cheaper <;> split <;> omega

/-- **A step of a trial.** -/
theorem distance_trial {p : Platform} {w : World} (alert : Alert w) (calm : Calm w)
    (trial : inTrial w.pc = true) (o : Obs) : distance (taskStep p w o) < distance w := by
  refine distance_of_cheaper trial ?_
  cases wait : waits w.pc with
  | true =>
      have cheaper := cost_trying (p := p) o wait trial (calm_wait calm) calm.commit calm.forget
      have taken : (taskStep p w o).ble.notification.bleDisconnected = false := by
        rw [(wakes_task o wait).ble]
        rfl
      rw [taken]
      simpa using cheaper
  | false =>
      cases head : atHead w.pc with
      | true =>
          cases pc : w.pc with
          | dispatch _ _ => rw [pc] at trial; cases trial
          | _ => rw [pc] at head; cases head
      | false =>
          have walks := walks_task p alert o wait head
          have cheaper := cost_goes walks.goes
          rw [walks.ble.notification]
          omega

/-- **A step away from a trial.** -/
theorem distance_homeward {p : Platform} {w : World} {o : Obs} (alert : Alert w)
    (free : inTrial w.pc = false) (head : atHead w.pc = true →
      (taskStep p w o).ble.notification = w.ble.notification)
    (homeward : Homeward w (taskStep p w o)) : distance (taskStep p w o) < distance w := by
  have nearer := homeward.nearer
  simp only [distance, homeward.free, free, if_false, Bool.false_eq_true]
  cases wait : waits w.pc with
  | true =>
      have taken : (taskStep p w o).ble.notification.bleDisconnected = false := by
        rw [(wakes_task o wait).ble]
        rfl
      simpa [wait, taken] using nearer
  | false =>
      have same : (taskStep p w o).ble.notification = w.ble.notification := by
        cases there : atHead w.pc with
        | true => exact head there
        | false => exact (walks_task p alert o wait there).ble.notification
      rw [same]
      simpa [wait] using nearer

/-! ## What a step keeps -/

theorem calm_of {w t : World} (calm : Calm w) (commit : t.events.commit = w.events.commit)
    (forget : t.events.forget = w.events.forget)
    (notification : t.ble.notification = w.ble.notification) : Calm t where
  noticed := by
    rw [Events.interrupt, commit, forget]
    exact calm.noticed
  commit := by
    rw [notification]
    exact calm.commit
  forget := by
    rw [notification]
    exact calm.forget

theorem calm_task {p : Platform} {w : World} (alert : Alert w) (calm : Calm w)
    (haveActive : w.held.haveActive = true) (o : Obs) : Calm (taskStep p w o) := by
  cases wait : waits w.pc with
  | true =>
      have wakes := wakes_task (p := p) o wait
      have quiet := calm_wait calm
      refine ⟨?_, by rw [wakes.ble]; rfl, by rw [wakes.ble]; rfl⟩
      rw [Events.interrupt, wakes.commit, wakes.forget]
      exact quiet
  | false =>
      cases head : atHead w.pc with
      | false =>
          have walks := walks_task p alert o wait head
          exact calm_of calm walks.commit walks.forget walks.ble.notification
      | true =>
          cases pc : w.pc with
          | dispatch wifiFails mqttFails =>
              simp only [taskStep, pc]
              rw [dispatch_calm calm haveActive]
              exact calm_of calm rfl rfl rfl
          | _ => rw [pc] at head; cases head

theorem calm_next {p : Platform} {w t : World} {event : Event} (alert : Alert w) (calm : Calm w)
    (haveActive : w.held.haveActive = true) (up : Up w event) (step : next p w event = some t) :
    Calm t := by
  cases event with
  | task o =>
      obtain rfl := task_next step
      exact calm_task alert calm haveActive o
  | mqtt status =>
      obtain ⟨_, _, _, _, rfl⟩ := mqttCallback_eq step
      exact calm_of calm rfl rfl rfl
  | ble e =>
      obtain ⟨ble, _, callback, rfl, -⟩ := bleCallback_eq step
      have effect := BleProvision.effect_callback callback
      rw [show BleProvision.accepted w.ble e = none from up] at effect
      refine ⟨calm.noticed, ?_, ?_⟩
      · simpa [calm.commit] using effect.commit
      · simpa [calm.forget] using effect.forget

/-- Settings that are saved have an address for their broker. -/
theorem ready_held {p : Platform} {w t : World} {event : Event} (alert : Alert w)
    (sound : Sound p w) (ready : Ready p w) (step : next p w event = some t) :
    t.held.haveActive = true ∧ (p.aton (text t.held.active.brokerHost)).isSome = true := by
  rcases held_cases (p := p) alert step with same | ⟨pc, fault, adopted⟩ | boot | erase | load
  · rw [same]
    exact ⟨ready.haveActive, ready.address⟩
  · have reached := sound.reached
    rw [pc] at reached
    obtain ⟨-, addressed, -⟩ := reached
    rw [adopted]
    refine ⟨rfl, ?_⟩
    show (p.aton (text w.candidate.brokerHost)).isSome = true
    rw [addressed]
    rfl
  · have loaded := ready.loaded
    rw [boot] at loaded
    cases loaded
  · exact absurd erase ready.kept
  · have loaded := ready.loaded
    rw [load] at loaded
    cases loaded

/-! ## It stays online -/

/-- In `run_online`, and the broker has not been lost. -/
def isOnline (w : World) : Prop := inRunOnline w.pc = true ∧ w.mqttUp = true

theorem isOnline_task {p : Platform} {w : World} {o : Obs} (wired : Wired p w) (calm : Calm w)
    (online : isOnline w) (works : Works w o) : isOnline (taskStep p w o) := by
  obtain ⟨running, up⟩ := online
  have accepted := wired.broker (connected_of_online running) up
  have stays : ¬(waitEvents w).events.interrupt = true := by
    rw [calm_wait calm]
    exact Bool.false_ne_true
  unfold taskStep
  cases pc : w.pc with
  | runOnline caller => exact ⟨rfl, up⟩
  | online caller badLinks =>
      dsimp only
      rw [if_pos up]
      exact ⟨rfl, up⟩
  | onlineEvents caller badLinks =>
      dsimp only
      unfold onlineEvents
      dsimp only
      rw [if_neg stays]
      split <;> exact ⟨rfl, up⟩
  | onlineBle caller badLinks =>
      dsimp only
      unfold onlineBle
      dsimp only
      split <;> exact ⟨rfl, up⟩
  | onlineStop caller badLinks => exact ⟨rfl, up⟩
  | onlineLink caller badLinks =>
      rw [Works, pc] at works
      dsimp only at works ⊢
      simp only [onlineLink, works, accepted, if_true, Bool.not_true, Bool.false_eq_true, if_false]
      exact ⟨rfl, up⟩
  | _ => rw [pc] at running; cases running

theorem inUse_of_running {pc : Pc} (running : inRunOnline pc = true) : inUse pc = true := by
  cases pc with
  | mqttPoll _ _ => cases running
  | mqttWait _ _ => cases running
  | _ => exact running

/-- A callback of a connection in use reports that it is accepted. -/
theorem mqttUp_accepted {w t : World} (happens : mqttCallback w .accepted = some t) :
    t.mqttUp = true := by
  unfold mqttCallback at happens
  cases opened : w.connection with
  | none =>
      rw [opened] at happens
      cases happens
  | some connection =>
      rw [opened] at happens
      dsimp only at happens
      split at happens
      · cases happens
      · cases happens
        rfl

theorem isOnline_next {p : Platform} {w t : World} {event : Event} (wired : Wired p w)
    (calm : Calm w) (online : isOnline w) (up : Up w event) (step : next p w event = some t) :
    isOnline t := by
  cases event with
  | task o =>
      obtain rfl := task_next step
      exact isOnline_task wired calm online up
  | mqtt status =>
      obtain rfl : status = .accepted := up (inUse_of_running online.1)
      refine ⟨?_, mqttUp_accepted step⟩
      rw [(held_mqtt step).2.1]
      exact online.1
  | ble e =>
      obtain ⟨_, _, -, rfl, -⟩ := bleCallback_eq step
      exact online

/-! ## It gets online -/

theorem kept_failed {call : Call} {pc : Pc} (failed : Failed call pc) : pc ≠ .forgetErase := by
  cases failed <;> rintro ⟨⟩

theorem kept_left {cause : Leave} {pc : Pc} (left : Left cause pc) : pc ≠ .forgetErase := by
  cases left with
  | failed failed => exact kept_failed failed
  | _ => rintro ⟨⟩

theorem kept_aborted {cause : Abort} {pc : Pc} (aborted : Aborted cause pc) :
    pc ≠ .forgetErase := by
  cases aborted with
  | failed failed => exact kept_failed failed
  | _ => rintro ⟨⟩

/-- Only the head of the loop begins a forget. -/
theorem kept_goes {pc pc' : Pc} (goes : Goes pc pc') : pc' ≠ .forgetErase := by
  cases goes with
  | leaveAtOnce left => exact kept_left left
  | left left => exact kept_left left
  | abortAtOnce aborted => exact kept_aborted aborted
  | disconnected aborted => exact kept_aborted aborted
  | wifiRefused failed => exact kept_failed failed
  | noAddress failed => exact kept_failed failed
  | mqttRefused failed => exact kept_failed failed
  | brokerLost caller badLinks => cases caller <;> rintro ⟨⟩
  | linkLost caller badLinks => cases caller <;> rintro ⟨⟩
  | _ => rintro ⟨⟩

theorem kept_trial {p : Platform} {w : World} (alert : Alert w) (trial : inTrial w.pc = true)
    (o : Obs) : (taskStep p w o).pc ≠ .forgetErase := by
  cases wait : waits w.pc with
  | true =>
      rcases waits_trial wait trial with ⟨call, elapsed, pc⟩ | ⟨call, elapsed, pc⟩ |
        ⟨attempt, wifiTries, mqttTries, pc⟩
      · simp only [taskStep, pc]
        split <;> rintro ⟨⟩
      · simp only [taskStep, pc]
        split <;> rintro ⟨⟩
      · simp only [taskStep, pc]
        split <;> rintro ⟨⟩
  | false =>
      cases head : atHead w.pc with
      | false => exact kept_goes (walks_task p alert o wait head).goes
      | true =>
          cases pc : w.pc with
          | dispatch _ _ => rw [pc] at trial; cases trial
          | _ => rw [pc] at head; cases head

/-- What holds of a hub with settings that nobody sends a command to. -/
structure Steady (p : Platform) (w : World) : Prop where
  alert : Alert w
  sound : Sound p w
  wired : Wired p w
  calm : Calm w
  ready : Ready p w

theorem homeward_next {p : Platform} {w : World} {o : Obs} (steady : Steady p w)
    (free : inTrial w.pc = false) (lost : ¬isOnline w) (works : Works w o) :
    Homeward w (taskStep p w o) := by
  refine homeward_task steady.calm steady.ready free ?_ works
  intro running
  cases up : w.mqttUp with
  | false => rfl
  | true => exact absurd ⟨running, up⟩ lost

theorem kept_next {p : Platform} {w t : World} {event : Event} (steady : Steady p w)
    (up : Up w event) (step : next p w event = some t) : t.pc ≠ .forgetErase := by
  cases event with
  | mqtt status =>
      rw [(held_mqtt step).2.1]
      exact steady.ready.kept
  | ble e =>
      rw [(held_ble step).2.1]
      exact steady.ready.kept
  | task o =>
      obtain rfl := task_next step
      cases trial : inTrial w.pc with
      | true => exact kept_trial steady.alert trial o
      | false =>
          by_cases online : isOnline w
          · intro there
            have running := (isOnline_task (p := p) steady.wired steady.calm online up).1
            rw [there] at running
            cases running
          · exact (homeward_next steady trial online up).kept

theorem steady_next {p : Platform} {w t : World} {event : Event} (steady : Steady p w)
    (up : Up w event) (step : next p w event = some t) : Steady p t := by
  have quiet : Quiet w event := by
    cases event with
    | ble e => exact up
    | task o => trivial
    | mqtt status => trivial
  have loads := (simulated_quiet (p := p) steady.alert quiet step).loads
  obtain ⟨haveActive, address⟩ := ready_held steady.alert steady.sound steady.ready step
  refine ⟨alert_next steady.alert step, sound_next steady.sound step,
    wired_next steady.sound steady.wired step,
    calm_next steady.alert steady.calm steady.ready.haveActive up step, ?_,
    kept_next steady up step, haveActive, address⟩
  cases loading : loading t.pc with
  | false => rfl
  | true =>
      rcases loads loading with before | erase
      · rw [steady.ready.loaded] at before
        cases before
      · exact absurd erase steady.ready.kept

/-- A callback of the broker brings nothing further away. -/
theorem home_mqtt {w t : World} {status : MqttStatus} (free : inTrial w.pc = false)
    (up : inUse w.pc = true → status = .accepted) (happens : mqttCallback w status = some t) :
    home t ≤ home w := by
  have samePc := (held_mqtt happens).2.1
  cases use : inUse w.pc with
  | false =>
      refine Nat.le_of_eq ?_
      unfold home
      rw [samePc]
      cases pc : w.pc with
      | mqttPoll call elapsed =>
          cases call with
          | main _ _ => rw [pc] at use; cases use
          | commit _ _ _ => rw [pc] at free; cases free
      | mqttWait call elapsed =>
          cases call with
          | main _ _ => rw [pc] at use; cases use
          | commit _ _ _ => rw [pc] at free; cases free
      | runOnline _ => rw [pc] at use; cases use
      | online _ _ => rw [pc] at use; cases use
      | onlineEvents _ _ => rw [pc] at use; cases use
      | onlineBle _ _ => rw [pc] at use; cases use
      | onlineStop _ _ => rw [pc] at use; cases use
      | onlineLink _ _ => rw [pc] at use; cases use
      | leave cause => cases cause <;> rfl
      | leavePoll cause _ => cases cause <;> rfl
      | abort cause => cases cause <;> rfl
      | mqttDisconnect cause => cases cause <;> rfl
      | _ => rfl
  | true =>
      obtain rfl := up use
      have now := mqttUp_accepted happens
      have going : gaveUp t = false := by rw [gaveUp, now, Bool.not_true, Bool.false_and]
      cases pc : w.pc with
      | mqttPoll call elapsed =>
          simp only [home, samePc, pc, going, Bool.false_eq_true, if_false, turnsLeft,
            mqttConnectTimeoutMs]
          split <;> omega
      | mqttWait call elapsed =>
          simp only [home, samePc, pc, going, Bool.false_eq_true, if_false, turnsLeft,
            mqttConnectTimeoutMs]
          split <;> omega
      | runOnline _ => simp [home, samePc, pc, now]
      | online _ _ => simp [home, samePc, pc, now]
      | onlineEvents _ _ => simp [home, samePc, pc, now]
      | onlineBle _ _ => simp [home, samePc, pc, now]
      | onlineStop _ _ => simp [home, samePc, pc, now]
      | onlineLink _ _ => simp [home, samePc, pc, now]
      | _ => rw [pc] at use; cases use

theorem distance_next {p : Platform} {w t : World} {event : Event} (steady : Steady p w)
    (lost : ¬isOnline w) (up : Up w event) (step : next p w event = some t) :
    distance t + taskSteps event ≤ distance w + turnLost event := by
  cases event with
  | task o =>
      obtain rfl := task_next step
      cases trial : inTrial w.pc with
      | true => exact distance_trial steady.alert steady.calm trial o
      | false =>
          refine distance_homeward steady.alert trial ?_ (homeward_next steady trial lost up)
          intro head
          cases pc : w.pc with
          | dispatch wifiFails mqttFails =>
              simp only [taskStep, pc]
              rw [dispatch_calm steady.calm steady.ready.haveActive]
              rfl
          | _ => rw [pc] at head; cases head
  | mqtt status =>
      have samePc := (held_mqtt step).2.1
      have sameBle : t.ble = w.ble := by
        obtain ⟨_, _, _, _, rfl⟩ := mqttCallback_eq step
        rfl
      simp only [distance, samePc, sameBle, taskSteps, turnLost, Nat.add_zero]
      cases trial : inTrial w.pc with
      | true => exact Nat.le_refl _
      | false => exact Nat.add_le_add_right (home_mqtt trial up step) _
  | ble e =>
      obtain ⟨ble, _, callback, rfl, -⟩ := bleCallback_eq step
      have left := (BleProvision.effect_callback callback).bleDisconnected
      have same : ∀ history, home { w with ble, history } = home w := fun _ => rfl
      cases e with
      | disconnected =>
          simp only [distance, same, taskSteps, turnLost]
          generalize (if inTrial w.pc = true then 700 + cost w.pc else home w) = level
          split <;> omega
      | _ =>
          have same' := left.trans (Bool.or_false _)
          simp only [distance, same, same', taskSteps, turnLost]
          omega

/-- **A hub with settings recovers**: once the network and the broker of the settings in use
work, and no client sends a command, it is online after a bounded number of steps, wherever the
task was; a client that leaves may cost a turn.  And there it stays.  `run_online` runs on a
connection to the broker of `s_active`, over the network of `s_active`. -/
theorem recovers {p : Platform} {flash : Flash} {w t : World} {es fs : List Event}
    (run : (machine p).Run (initial flash) es w) (calm : Calm w) (ready : Ready p w)
    (run' : ((machine p).restrict Up).Run w fs t) :
    distance w ≤ recoverySteps ∧ (Online p w → Online p t) ∧
    (distance w + (fs.map turnLost).sum < (fs.map taskSteps).sum → Online p t) := by
  have steady : Steady p w := ⟨alert_reached run, sound_reached run, wired_reached run, calm, ready⟩
  have keeps : ∀ w event t, Steady p w → ((machine p).restrict Up).step w event t → Steady p t :=
    fun _ _ _ steady step => steady_next steady step.1 step.2
  have steady' := Machine.run_preserves keeps steady run'
  rw [online_iff steady.wired, online_iff steady'.wired]
  refine ⟨distance_le w, ?_, ?_⟩
  · intro online
    suffices both : Steady p t ∧ isOnline t from both.2
    refine Machine.run_preserves (P := fun t => Steady p t ∧ isOnline t) ?_ ⟨steady, online⟩ run'
    rintro w event t ⟨steady, online⟩ ⟨up, step⟩
    exact ⟨steady_next steady up step, isOnline_next steady.wired steady.calm online up step⟩
  · intro enough
    by_contra lost
    have bound := Machine.run_rank (Steady p) (fun w => ¬isOnline w) distance taskSteps turnLost keeps
      ?_ ?_ run' steady lost
    · omega
    · rintro w event t steady ⟨up, step⟩ lost online
      exact lost (isOnline_next steady.wired steady.calm online up step)
    · rintro w event t steady lost ⟨up, step⟩
      exact distance_next steady lost up step

/-- Online with `homeNet`, and then its broker goes. -/
def brokerLost : List Event :=
  provision ++ [apply] ++ steps 5 .down ++ steps 4 .up ++ [.mqtt .accepted] ++ steps 3 .up ++
    [.mqtt .disconnected] ++ steps 2 .up

/-- It is back. -/
def brokerBack : List Event := steps 5 .up ++ [.mqtt .accepted] ++ steps 530 .up

/-- The broker of `homeNet` goes, and comes back. -/
theorem recovers_homeNet : ∃ w t, (machine bench).Run (initial blank) brokerLost w ∧
    w.mqttUp = false ∧ w.held.active = homeNet ∧
    ((machine bench).restrict Up).Run w brokerBack t ∧ Online bench t := by
  have computed : (Machine.exec (next bench) (initial blank) brokerLost).any (fun w =>
      decide (w.mqttUp = false ∧ w.held.active = homeNet ∧ w.events = .none ∧
        w.ble.notification = .none ∧ w.pc = .bringUp (.main 0 0) ∧ w.held.haveActive = true ∧
        distance w = 534 ∧
        (Machine.exec (Machine.guarded Up (next bench)) w brokerBack).isSome = true)) = true := by
    decide +kernel
  obtain ⟨w, run, down, active, events, posted, pc, haveActive, far, done⟩ :=
    Machine.exists_run_of_exec computed
  obtain ⟨t, done⟩ := Option.isSome_iff_exists.mp done
  have run' : ((machine bench).restrict Up).Run w brokerBack t :=
    Machine.run_of_exec_restrict done
  have calm : Calm w := ⟨by rw [events]; rfl, by rw [posted]; rfl, by rw [posted]; rfl⟩
  have ready : Ready bench w := ⟨by rw [pc]; rfl, by rw [pc]; rintro ⟨⟩, haveActive, rfl⟩
  have enough : distance w + (brokerBack.map turnLost).sum < (brokerBack.map taskSteps).sum := by
    rw [far]
    decide +kernel
  exact ⟨w, t, run, down, active, run', (recovers run calm ready run').2.2 enough⟩

end IrHub.Firmware.Recovery
