/-
# Firmware.Trial -- a bad provision never replaces working settings

`joined_to` skips a join, `s_mqtt_up` outlives a connection and the tries of a trial
are interleaved with commands, so what `bring_up` knows when it returns Online is an
invariant of the task (`Sound`): the last join was to the network of the settings in
use, the address is that of their broker, and the connection was opened there.

So `save` is reached only with a candidate that was joined and accepted, and the
settings in use and in flash change only there, at boot and in a forget
(`save_only_proven`).
-/
import IrHub.Firmware.Progress

namespace IrHub.Firmware.Trial

set_option autoImplicit false

open IrHub.Theory IrHub.Firmware.NetConfig IrHub.Firmware.NetworkTask IrHub.Firmware.Commands
open IrHub.Firmware.Progress
open IrHub.Firmware.NetConfigFlash (Flash homeNet zeroed)

/-! ## What `bring_up` has done for its settings -/

/-- The last join was to their network. -/
def Joined (w : World) (c : NetConfig) : Prop :=
  w.lastJoin = some (text c.ssid, text c.password)

/-- `s_broker_addr` is their broker's. -/
def Addressed (p : Platform) (w : World) (c : NetConfig) : Prop :=
  p.aton (text c.brokerHost) = some w.brokerAddr

/-- The connection is to their broker, and so is the last one accepted if one is up. -/
def Opened (w : World) (c : NetConfig) : Prop :=
  (∀ connection, w.connection = some connection →
    connection.addr = w.brokerAddr ∧ connection.port = c.brokerPort) ∧
  (w.mqttUp = true → w.lastAccepted = some (w.brokerAddr, c.brokerPort))

/-- Joined, and accepted by their broker. -/
def Proven (p : Platform) (w : World) (c : NetConfig) : Prop :=
  Joined w c ∧ ∃ addr, p.aton (text c.brokerHost) = some addr ∧
    w.lastAccepted = some (addr, c.brokerPort)

/-- `s_joined` is the network of the last join. -/
def Linked (w : World) : Prop := w.wifiUp = true → Joined w w.joined

/-- How far `bring_up` has got. -/
def Reached (p : Platform) (w : World) : Pc → Prop
  | .mqttStart call => Joined w (settings w call)
  | .abort (.start call) => Joined w (settings w call) ∧ Addressed p w (settings w call)
  | .mqttDisconnect (.start call) => Joined w (settings w call) ∧ Addressed p w (settings w call)
  | .mqttConnect call => Joined w (settings w call) ∧ Addressed p w (settings w call)
  | .mqttPoll call _ =>
      Joined w (settings w call) ∧ Addressed p w (settings w call) ∧ Opened w (settings w call)
  | .mqttWait call _ =>
      Joined w (settings w call) ∧ Addressed p w (settings w call) ∧ Opened w (settings w call)
  | .save => Joined w w.candidate ∧ Addressed p w w.candidate ∧ Opened w w.candidate ∧
      w.lastAccepted = some (w.brokerAddr, w.candidate.brokerPort)
  | _ => True

structure Sound (p : Platform) (w : World) : Prop where
  link : Linked w
  reached : Reached p w w.pc

theorem sound_initial (p : Platform) (flash : Flash) : Sound p (initial flash) :=
  ⟨nofun, trivial⟩

/-- The variables of the link are as they were, and nothing is asked of the place. -/
theorem sound_away {p : Platform} {w t : World} (link : Linked w) (up : t.wifiUp = w.wifiUp)
    (joined : t.joined = w.joined) (last : t.lastJoin = w.lastJoin) (away : Reached p t t.pc) :
    Sound p t where
  link := by
    rw [Linked, up, Joined, joined, last]
    exact link
  reached := away

theorem sound_failed {p : Platform} {w : World} (link : Linked w) (call : Call) (wifi : Bool)
    (reason : UInt8) : Sound p (bringUpFailed w call wifi reason) := by
  cases call with
  | main wifiFails mqttFails =>
      obtain ⟨ble, _, _, -, after⟩ := bringUpFailed_main w wifiFails mqttFails wifi reason
      rw [after]
      exact sound_away link rfl rfl rfl trivial
  | commit attempt wifiTries mqttTries =>
      obtain ⟨ble, _, _, -, -, after⟩ :=
        bringUpFailed_commit w attempt wifiTries mqttTries wifi reason
      rw [after]
      split
      · exact sound_away link rfl rfl rfl trivial
      · exact sound_away link rfl rfl rfl trivial

theorem sound_aborted {p : Platform} {w : World} (link : Linked w) (call : Call) :
    Sound p (bringUpAborted w call) := by
  cases call with
  | main wifiFails mqttFails => exact sound_away link rfl rfl rfl trivial
  | commit attempt wifiTries mqttTries => exact sound_away link rfl rfl rfl trivial

theorem sound_left {p : Platform} (w : World) (cause : Leave) : Sound p (left w cause) := by
  let u := { w with wifiUp := false, joined := zeroed, lastJoin := none }
  have link : Linked u := nofun
  cases cause with
  | join call => exact ⟨nofun, trivial⟩
  | joinAborted call => exact sound_aborted link call
  | joinFailed call reason => exact sound_failed link call true reason
  | forget => exact ⟨nofun, trivial⟩

theorem sound_mqttAborted {p : Platform} {w : World} {cause : Abort} (link : Linked w)
    (reached : Reached p w (.abort cause)) : Sound p (aborted w cause) := by
  cases cause with
  | start call => exact sound_away link rfl rfl rfl reached
  | waitFailed call reason => exact sound_failed link call false reason
  | waitAborted call => exact sound_aborted link call
  | reverted =>
      obtain ⟨ble, -, after⟩ := aborted_reverted w
      rw [after]
      exact sound_away link rfl rfl rfl trivial
  | forget => exact sound_away link rfl rfl rfl trivial

theorem sound_return {p : Platform} {w : World} (link : Linked w) (caller : Caller) :
    Sound p (onlineReturn w caller) := by
  cases caller with
  | commit => exact sound_away link rfl rfl rfl trivial
  | main =>
      refine sound_away link rfl rfl rfl ?_
      unfold onlineReturn
      dsimp only
      split <;> trivial

theorem sound_dispatch {p : Platform} {w : World} (link : Linked w) (wifiFails mqttFails : Nat) :
    Sound p (dispatch w wifiFails mqttFails) := by
  unfold dispatch
  split
  · exact sound_away link rfl rfl rfl trivial
  · split
    · dsimp only
      split
      · exact sound_away link rfl rfl rfl trivial
      · exact sound_away link rfl rfl rfl trivial
    · dsimp only
      split
      · exact sound_away link rfl rfl rfl trivial
      · exact sound_away link rfl rfl rfl trivial

/-- A network that `joined_to` finds is the one of the settings. -/
theorem joined_of_joinedTo {w : World} (link : Linked w) {o : Obs}
    {c : NetConfig} (same : joinedTo w o c = true) : Joined w c := by
  simp only [joinedTo, Bool.and_eq_true, decide_eq_true_eq] at same
  obtain ⟨⟨⟨up, -⟩, ssid⟩, password⟩ := same
  have last := link up
  rw [Joined] at last ⊢
  rw [last, ssid, password]

theorem sound_task {p : Platform} {w : World} (sound : Sound p w) (o : Obs) :
    Sound p (taskStep p w o) := by
  obtain ⟨link, reached⟩ := sound
  unfold taskStep
  cases pc : w.pc with
  | boot =>
      obtain ⟨ble, -, after⟩ := loadActive_eq p w
      dsimp only
      rw [after]
      exact sound_away link rfl rfl rfl trivial
  | dispatch wifiFails mqttFails => exact sound_dispatch link wifiFails mqttFails
  | idle _ _ => exact sound_away link rfl rfl rfl trivial
  | mainWait _ _ => exact sound_away link rfl rfl rfl trivial
  | lostWait => exact sound_away link rfl rfl rfl trivial
  | bringUp call =>
      dsimp only
      split
      · rename_i same
        exact sound_away link rfl rfl rfl (joined_of_joinedTo link same)
      · exact sound_away link rfl rfl rfl trivial
  | leave cause =>
      dsimp only
      split
      · exact sound_left w cause
      · exact sound_away link rfl rfl rfl trivial
  | leavePoll cause polls =>
      dsimp only
      split
      · exact sound_away link rfl rfl rfl trivial
      · exact sound_left w cause
  | wifiConnect call =>
      dsimp only
      split
      · exact sound_away link rfl rfl rfl trivial
      · exact sound_failed link call true 3
  | wifiPoll call elapsed =>
      dsimp only
      rcases wifiPoll_cases w o call elapsed with ⟨reason, after⟩ | ⟨-, after⟩
      · rw [after]
        exact sound_away link rfl rfl rfl trivial
      · rw [after]
        exact sound_away link rfl rfl rfl trivial
  | wifiWait call elapsed =>
      dsimp only
      split
      · exact sound_away link rfl rfl rfl trivial
      · exact sound_away link rfl rfl rfl trivial
  | wifiCheck call reason =>
      dsimp only
      unfold wifiCheck
      split
      · exact sound_away link rfl rfl rfl trivial
      · exact ⟨fun _ => rfl, rfl⟩
  | mqttStart call =>
      rw [pc] at reached
      dsimp only
      unfold mqttStart
      dsimp only
      split
      · exact sound_failed (w := report w _ _ _ _ _) link call false 3
      · rename_i addr found
        split
        · exact sound_away link rfl rfl rfl ⟨reached, found⟩
        · exact sound_away link rfl rfl rfl ⟨reached, found⟩
  | abort cause =>
      rw [pc] at reached
      dsimp only
      split
      · refine sound_away link rfl rfl rfl ?_
        cases cause with
        | start call => exact reached
        | _ => trivial
      · refine sound_mqttAborted link ?_
        cases cause with
        | start call => exact reached
        | _ => trivial
  | mqttDisconnect cause =>
      rw [pc] at reached
      refine sound_mqttAborted link ?_
      cases cause with
      | start call => exact reached
      | _ => trivial
  | mqttConnect call =>
      rw [pc] at reached
      dsimp only
      unfold mqttConnect
      dsimp only
      split
      · refine sound_away link rfl rfl rfl ⟨reached.1, reached.2, ?_, nofun⟩
        rintro _ ⟨⟩
        exact ⟨rfl, rfl⟩
      · exact sound_failed (w := { w with mqttUp := false, mqttStatus := .pending }) link call
          false 3
  | mqttPoll call elapsed =>
      rw [pc] at reached
      obtain ⟨joined, addressed, opened⟩ := reached
      dsimp only
      rcases mqttPoll_cases w o call elapsed with ⟨up, after⟩ | ⟨reason, after⟩ | ⟨-, after⟩
      · rw [after]
        cases call with
        | main _ _ => exact sound_away link rfl rfl rfl trivial
        | commit _ _ _ =>
            exact sound_away link rfl rfl rfl ⟨joined, addressed, opened, opened.2 up⟩
      · rw [after]
        exact sound_away link rfl rfl rfl trivial
      · rw [after]
        exact sound_away link rfl rfl rfl ⟨joined, addressed, opened⟩
  | mqttWait call elapsed =>
      rw [pc] at reached
      dsimp only
      split
      · exact sound_away link rfl rfl rfl trivial
      · exact sound_away link rfl rfl rfl reached
  | commitWait attempt wifiTries mqttTries =>
      dsimp only
      split
      · exact sound_away link rfl rfl rfl trivial
      · exact sound_away link rfl rfl rfl trivial
  | save =>
      obtain ⟨ble, -, after⟩ := saveCandidate_eq p w o
      dsimp only
      rw [after]
      exact sound_away link rfl rfl rfl trivial
  | runOnline caller => exact sound_away link rfl rfl rfl trivial
  | online caller badLinks =>
      dsimp only
      split
      · exact sound_away link rfl rfl rfl trivial
      · exact sound_return link caller
  | onlineEvents caller badLinks =>
      dsimp only
      unfold onlineEvents
      dsimp only
      split
      · exact sound_return (w := waitEvents w) link caller
      · split
        · exact sound_away link rfl rfl rfl trivial
        · exact sound_away link rfl rfl rfl trivial
  | onlineBle caller badLinks =>
      dsimp only
      unfold onlineBle
      dsimp only
      split
      · exact sound_away link rfl rfl rfl trivial
      · exact sound_away link rfl rfl rfl trivial
  | onlineStop caller badLinks => exact sound_away link rfl rfl rfl trivial
  | onlineLink caller badLinks =>
      dsimp only
      rcases onlineLink_cases w o caller badLinks with ⟨wifiUp, still, after⟩ | ⟨badLinks', after⟩
      · rw [after]
        have link' : Linked { w with wifiUp, mqttUp := false } := fun up => link (still up)
        exact sound_return link' caller
      · rw [after]
        exact sound_away link rfl rfl rfl trivial
  | forgetErase => exact sound_away link rfl rfl rfl trivial
  | forgetLoad =>
      obtain ⟨ble, -, after⟩ := loadActive_eq p w
      dsimp only
      rw [after]
      exact sound_away link rfl rfl rfl trivial
  | forgetRefresh => exact sound_away link rfl rfl rfl trivial

/-- A callback changes the connection and what is known of it. -/
theorem sound_callback {p : Platform} {w : World} (sound : Sound p w) {mqttUp : Bool}
    {mqttStatus : MqttStatus} {connection : Option Connection}
    {lastAccepted : Option (List UInt8 × UInt16)}
    (opened : ∀ c, Opened w c →
      Opened { w with mqttUp, mqttStatus, connection, lastAccepted } c ∧
        (w.lastAccepted = some (w.brokerAddr, c.brokerPort) →
          lastAccepted = some (w.brokerAddr, c.brokerPort))) :
    Sound p { w with mqttUp, mqttStatus, connection, lastAccepted } := by
  obtain ⟨link, reached⟩ := sound
  refine sound_away link rfl rfl rfl ?_
  cases pc : w.pc with
  | mqttPoll call elapsed =>
      rw [pc] at reached
      exact ⟨reached.1, reached.2.1, (opened _ reached.2.2).1⟩
  | mqttWait call elapsed =>
      rw [pc] at reached
      exact ⟨reached.1, reached.2.1, (opened _ reached.2.2).1⟩
  | save =>
      rw [pc] at reached
      obtain ⟨joined, addressed, before, last⟩ := reached
      exact ⟨joined, addressed, (opened _ before).1, (opened _ before).2 last⟩
  | mqttStart call =>
      rw [pc] at reached
      exact reached
  | mqttConnect call =>
      rw [pc] at reached
      exact reached
  | abort cause =>
      rw [pc] at reached
      cases cause with
      | start call => exact reached
      | _ => trivial
  | mqttDisconnect cause =>
      rw [pc] at reached
      cases cause with
      | start call => exact reached
      | _ => trivial
  | _ => trivial

/-- The connection that is open has been accepted. -/
theorem sound_accepted {p : Platform} {w : World} (sound : Sound p w) {connection : Connection}
    (opened : w.connection = some connection) :
    Sound p { w with
      mqttUp := true
      mqttStatus := .accepted
      connection := some { connection with accepted := true }
      lastAccepted := some (connection.addr, connection.port) } := by
  refine sound_callback sound ?_
  intro c before
  obtain ⟨addr, port⟩ := before.1 connection opened
  have last : some (connection.addr, connection.port) = some (w.brokerAddr, c.brokerPort) := by
    rw [addr, port]
  refine ⟨⟨?_, fun _ => last⟩, fun _ => last⟩
  rintro _ ⟨⟩
  exact ⟨addr, port⟩

theorem sound_next {p : Platform} {w t : World} {event : Event} (sound : Sound p w)
    (step : next p w event = some t) : Sound p t := by
  cases event with
  | task o =>
      obtain rfl := task_next step
      exact sound_task sound o
  | mqtt status =>
      simp only [next, mqttCallback] at step
      split at step
      · cases step
      · cases step
      · rename_i connection opened
        split at step
        · cases step
        · cases step
          exact sound_accepted sound opened
      · cases step
        refine sound_callback sound fun c before => ⟨⟨?_, ?_⟩, id⟩
        · rintro connection ⟨⟩
        · rintro ⟨⟩
  | ble e =>
      obtain ⟨_, _, -, rfl, -⟩ := bleCallback_eq step
      exact ⟨sound.link, sound.reached⟩

/-! ## What changes the settings -/

theorem held_dispatch (w : World) (wifiFails mqttFails : Nat) :
    (dispatch w wifiFails mqttFails).held = w.held := by
  unfold dispatch
  split
  · rfl
  · split
    · dsimp only
      split <;> rfl
    · dsimp only
      split <;> rfl

theorem held_task {p : Platform} {w : World} (alert : Alert w) (o : Obs)
    (idle : touches w.pc = false) : (taskStep p w o).held = w.held := by
  cases wait : waits w.pc with
  | true => exact (wakes_task o wait).held
  | false =>
      cases head : atHead w.pc with
      | false => exact (walks_task p alert o wait head).held idle
      | true =>
          cases pc : w.pc with
          | dispatch wifiFails mqttFails =>
              have after : taskStep p w o = dispatch w wifiFails mqttFails := by
                simp only [taskStep, pc]
              rw [after]
              exact held_dispatch w wifiFails mqttFails
          | _ => rw [pc] at head; cases head

theorem held_mqtt {w t : World} {status : MqttStatus} (happens : mqttCallback w status = some t) :
    t.held = w.held ∧ t.pc = w.pc ∧ t.candidate = w.candidate := by
  obtain ⟨_, _, _, _, rfl⟩ := mqttCallback_eq happens
  exact ⟨rfl, rfl, rfl⟩

theorem held_ble {w t : World} {e : BleProvision.Callback} (happens : bleCallback w e = some t) :
    t.held = w.held ∧ t.pc = w.pc ∧ t.candidate = w.candidate := by
  obtain ⟨_, _, -, rfl, -⟩ := bleCallback_eq happens
  exact ⟨rfl, rfl, rfl⟩

/-- Only four places of the task change them. -/
theorem held_next {p : Platform} {w t : World} {event : Event} (alert : Alert w)
    (step : next p w event = some t) (idle : touches w.pc = false) : t.held = w.held := by
  cases event with
  | task o =>
      obtain rfl := task_next step
      exact held_task alert o idle
  | mqtt status => exact (held_mqtt step).1
  | ble e => exact (held_ble step).1

theorem save_of_goes {pc pc' : Pc} (goes : Goes pc pc') (save : pc' = .save) :
    ∃ attempt wifiTries mqttTries elapsed,
      pc = .mqttPoll (.commit attempt wifiTries mqttTries) elapsed := by
  have failed_ : ∀ {call : Call}, ¬Failed call pc' := by
    intro call failed
    subst save
    cases failed
  have left_ : ∀ {cause : Leave}, ¬Left cause pc' := by
    intro cause left
    cases left with
    | failed failed => exact failed_ failed
    | _ => cases save
  have aborted_ : ∀ {cause : Abort}, ¬Aborted cause pc' := by
    intro cause aborted
    cases aborted with
    | failed failed => exact failed_ failed
    | _ => cases save
  cases goes with
  | commitOnline attempt wifiTries mqttTries elapsed => exact ⟨_, _, _, _, rfl⟩
  | leaveAtOnce left => exact absurd left left_
  | left left => exact absurd left left_
  | abortAtOnce aborted => exact absurd aborted aborted_
  | disconnected aborted => exact absurd aborted aborted_
  | wifiRefused failed => exact absurd failed failed_
  | noAddress failed => exact absurd failed failed_
  | mqttRefused failed => exact absurd failed failed_
  | brokerLost caller badLinks => cases caller <;> cases save
  | linkLost caller badLinks => cases caller <;> cases save
  | _ => cases save

/-- Neither a wait nor the head of the loop leads to `save`. -/
theorem goes_of_save {p : Platform} {w : World} (alert : Alert w) (o : Obs)
    (save : (taskStep p w o).pc = .save) : Goes w.pc (taskStep p w o).pc := by
  cases wait : waits w.pc with
  | false =>
      cases head : atHead w.pc with
      | false => exact (walks_task p alert o wait head).goes
      | true =>
          cases pc : w.pc with
          | dispatch wifiFails mqttFails =>
              simp only [taskStep, pc, dispatch] at save
              split at save
              · cases save
              · split at save
                · split at save <;> cases save
                · split at save <;> cases save
          | _ => rw [pc] at head; cases head
  | true =>
      cases pc : w.pc with
      | idle _ _ => simp only [taskStep, pc] at save; cases save
      | mainWait _ _ => simp only [taskStep, pc] at save; cases save
      | lostWait => simp only [taskStep, pc] at save; cases save
      | wifiWait _ _ => simp only [taskStep, pc] at save; split at save <;> cases save
      | mqttWait _ _ => simp only [taskStep, pc] at save; split at save <;> cases save
      | commitWait _ _ _ => simp only [taskStep, pc] at save; split at save <;> cases save
      | onlineEvents caller badLinks =>
          simp only [taskStep, pc, onlineEvents] at save
          split at save
          · cases caller with
            | main => simp only [onlineReturn] at save; split at save <;> cases save
            | commit => cases save
          · split at save <;> cases save
      | _ => rw [pc] at wait; cases wait

/-- `save` is called where `bring_up` has returned Online for the candidate. -/
theorem online_of_save {p : Platform} {w t : World} {event : Event} (alert : Alert w)
    (step : next p w event = some t) (save : t.pc = .save) :
    t.candidate = w.candidate ∧ (w.pc = .save ∨ w.mqttUp = true ∧
      ∃ attempt wifiTries mqttTries elapsed,
        w.pc = .mqttPoll (.commit attempt wifiTries mqttTries) elapsed) := by
  cases event with
  | mqtt status =>
      obtain ⟨-, same, candidate⟩ := held_mqtt step
      exact ⟨candidate, .inl (same.symm.trans save)⟩
  | ble e =>
      obtain ⟨-, same, candidate⟩ := held_ble step
      exact ⟨candidate, .inl (same.symm.trans save)⟩
  | task o =>
      obtain rfl := task_next step
      obtain ⟨attempt, wifiTries, mqttTries, elapsed, pc⟩ :=
        save_of_goes (goes_of_save alert o save) save
      have after : taskStep p w o =
          mqttPoll w o (.commit attempt wifiTries mqttTries) elapsed := by
        simp only [taskStep, pc]
      rw [after] at save ⊢
      rcases mqttPoll_cases w o (.commit attempt wifiTries mqttTries) elapsed with
        ⟨up, online⟩ | ⟨reason, other⟩ | ⟨-, other⟩
      · rw [online]
        exact ⟨rfl, .inr ⟨up, _, _, _, _, pc⟩⟩
      · rw [other] at save
        cases save
      · rw [other] at save
        cases save

/-! ## A bad provision never replaces working settings -/

theorem alert_reached {p : Platform} {flash : Flash} {w : World} {es : List Event}
    (run : (machine p).Run (initial flash) es w) : Alert w :=
  Machine.run_preserves (P := Alert) (fun _ _ _ alert step => alert_next (p := p) alert step)
    (alert_initial flash) run

theorem sound_reached {p : Platform} {flash : Flash} {w : World} {es : List Event}
    (run : (machine p).Run (initial flash) es w) : Sound p w :=
  Machine.run_preserves (P := Sound p) (fun _ _ _ sound step => sound_next sound step)
    (sound_initial p flash) run

/-- The task is not where the settings change. -/
def StandsBy (w : World) (_ : Event) : Prop := touches w.pc = false

/-- A trial changes them nowhere but at its save. -/
theorem touches_trial {pc : Pc} (trial : inTrial pc = true) (here : touches pc = true) :
    pc = .save := by
  cases pc with
  | save => rfl
  | boot => cases trial
  | forgetErase => cases trial
  | forgetLoad => cases trial
  | _ => cases here

/-- A run that passes none of these places. -/
theorem held_standsBy {p : Platform} {w t : World} {es : List Event} (alert : Alert w)
    (run : ((machine p).restrict StandsBy).Run w es t) : t.held = w.held := by
  suffices both : Alert t ∧ t.held = w.held from both.2
  refine Machine.run_preserves (P := fun t => Alert t ∧ t.held = w.held) ?_ ⟨alert, rfl⟩ run
  rintro s event t ⟨alert, same⟩ ⟨idle, step⟩
  exact ⟨alert_next (p := p) alert step, (held_next alert step idle).trans same⟩

/-- What a step does to the settings. -/
theorem held_cases {p : Platform} {w t : World} {event : Event} (alert : Alert w)
    (step : next p w event = some t) : t.held = w.held ∨
      w.pc = .save ∧ (∃ fault, t.held = (w.held.adopt p fault w.candidate).2) ∨
      w.pc = .boot ∨ w.pc = .forgetErase ∨ w.pc = .forgetLoad := by
  cases here : touches w.pc with
  | false => exact .inl (held_next alert step here)
  | true =>
      cases pc : w.pc with
      | boot => exact .inr (.inr (.inl rfl))
      | forgetErase => exact .inr (.inr (.inr (.inl rfl)))
      | forgetLoad => exact .inr (.inr (.inr (.inr rfl)))
      | save =>
          cases event with
          | mqtt status => exact .inl (held_mqtt step).1
          | ble e => exact .inl (held_ble step).1
          | task o =>
              refine .inr (.inl ⟨rfl, o.fault, ?_⟩)
              obtain ⟨ble, -, after⟩ := saveCandidate_eq p w o
              obtain rfl := task_next step
              simp only [taskStep, pc, after]
      | _ => rw [pc] at here; cases here

/-- **Settings are saved only where they have proven to work**: `save` is called for
the candidate for which `bring_up` has just returned Online, whose network the last
join was to and whose broker accepted the last connection.  The settings in use and
in flash change only there, at boot and in a forget.  So a trial that does not get
there leaves them as they were, and the next attempt of the main loop is with
`s_active`. -/
theorem save_only_proven {p : Platform} {flash : Flash} {w : World} {es : List Event}
    (run : (machine p).Run (initial flash) es w) :
    (w.pc = .save → Proven p w w.candidate) ∧
    (∀ event t, next p w event = some t → t.pc = .save →
      t.candidate = w.candidate ∧ (w.pc = .save ∨ w.mqttUp = true ∧
        ∃ attempt wifiTries mqttTries elapsed,
          w.pc = .mqttPoll (.commit attempt wifiTries mqttTries) elapsed)) ∧
    (∀ event t, next p w event = some t → t.held = w.held ∨
      w.pc = .save ∧ (∃ fault, t.held = (w.held.adopt p fault w.candidate).2) ∨
      w.pc = .boot ∨ w.pc = .forgetErase ∨ w.pc = .forgetLoad) ∧
    (inTrial w.pc = true → touches w.pc = true → w.pc = .save) ∧
    (∀ fs t, ((machine p).restrict StandsBy).Run w fs t → t.held = w.held ∧
      ∀ wifiFails mqttFails, settings t (.main wifiFails mqttFails) = w.held.active) := by
  have alert := alert_reached run
  obtain ⟨-, reached⟩ := sound_reached run
  refine ⟨?_, fun event t step save => online_of_save alert step save,
    fun event t step => held_cases alert step, touches_trial, ?_⟩
  · intro save
    rw [save] at reached
    obtain ⟨joined, addressed, -, accepted⟩ := reached
    exact ⟨joined, w.brokerAddr, addressed, accepted⟩
  · intro fs t standsBy
    have same := held_standsBy alert standsBy
    refine ⟨same, fun wifiFails mqttFails => ?_⟩
    rw [settings, same]

/-- The first settings of a hub are about to be saved. -/
theorem save_only_proven_homeNet : ∃ w es, (machine bench).Run (initial blank) es w ∧
    w.pc = .save ∧ w.candidate = homeNet ∧ Proven bench w homeNet := by
  have computed : (Machine.exec (next bench) (initial blank)
      (provision ++ [apply] ++ steps 5 .down ++ steps 4 .up ++ [.mqtt .accepted] ++
        steps 1 .up)).any (fun w => decide (w.pc = .save ∧ w.candidate = homeNet)) = true := by
    decide +kernel
  obtain ⟨w, run, save, candidate⟩ := Machine.exists_run_of_exec computed
  have proven := (save_only_proven run).1 save
  rw [candidate] at proven
  exact ⟨w, _, run, save, candidate, proven⟩

end IrHub.Firmware.Trial
