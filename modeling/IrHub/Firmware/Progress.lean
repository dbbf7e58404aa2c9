/-
# Firmware.Progress -- an apply that was accepted gets its trial

`Goes` is the control flow of the task away from its waits and from the head of its
loop: between the two it only walks, and what it has been told stays as it is.
`cost` counts how far it can still walk and how many tries a trial still has, so
`rank` falls with every step of the task while an apply is unanswered
(`rank_task`).  Only a client that leaves cuts a wait short without a command, and
that costs at most one more turn.

If settings are handed over in time (`InTime`), the last apply is therefore answered
after a bounded number of steps, and a trial is given up only for a newer command
(`apply_not_lost`).  Settings handed over between the moment the bit of their
predecessor is noticed and the moment it is taken are lost: their own bit interrupts
their trial (`apply_lost`).
-/
import IrHub.Firmware.Commands

namespace IrHub.Firmware.Progress

set_option autoImplicit false

open IrHub.Theory IrHub.Firmware.NetConfig IrHub.Firmware.NetworkTask IrHub.Firmware.Commands
open IrHub.Theory.Mailbox (Command Outcome)
open IrHub.Firmware.NetConfigFlash (Flash homeNet movedBroker)
open IrHub.Firmware.BleProvision (Ble noIp)

/-! ## Control flow -/

/-- The task is at a wait, about to return. -/
def waits : Pc → Bool
  | .idle _ _ => true
  | .wifiWait _ _ => true
  | .mqttWait _ _ => true
  | .mainWait _ _ => true
  | .commitWait _ _ _ => true
  | .onlineEvents _ _ => true
  | .lostWait => true
  | _ => false

/-- The task is at the head of its loop. -/
def atHead : Pc → Bool
  | .dispatch _ _ => true
  | _ => false

/-- Where `bring_up` goes when it has failed. -/
inductive Failed : Call → Pc → Prop
  | main (wifiFails mqttFails wifiFails' mqttFails' : Nat) :
      Failed (.main wifiFails mqttFails) (.mainWait wifiFails' mqttFails')
  | again {attempt wifiTries mqttTries wifiTries' mqttTries' : Nat} :
      wifiTries' + mqttTries' = wifiTries + mqttTries + 1 →
      wifiTries' < netCandidateWifiTries → mqttTries' < netCandidateMqttTries →
      Failed (.commit attempt wifiTries mqttTries) (.commitWait attempt wifiTries' mqttTries')
  | exhausted (attempt wifiTries mqttTries : Nat) :
      Failed (.commit attempt wifiTries mqttTries) (.abort .reverted)

/-- Where `wifi_leave` returns to. -/
inductive Left : Leave → Pc → Prop
  | join (call : Call) : Left (.join call) (.wifiConnect call)
  | aborted (call : Call) (wifiFails mqttFails : Nat) :
      Left (.joinAborted call) (.dispatch wifiFails mqttFails)
  | failed {call : Call} {reason : UInt8} {pc : Pc} : Failed call pc →
      Left (.joinFailed call reason) pc
  | forget : Left .forget .forgetLoad

/-- Where `mqtt_abort` returns to. -/
inductive Aborted : Abort → Pc → Prop
  | start (call : Call) : Aborted (.start call) (.mqttConnect call)
  | aborted (call : Call) (wifiFails mqttFails : Nat) :
      Aborted (.waitAborted call) (.dispatch wifiFails mqttFails)
  | failed {call : Call} {reason : UInt8} {pc : Pc} : Failed call pc →
      Aborted (.waitFailed call reason) pc
  | reverted : Aborted .reverted (.dispatch 0 0)
  | forget : Aborted .forget (.leave .forget)

/-- Where `run_online` returns to without a command. -/
def offline : Caller → Pc
  | .main => .lostWait
  | .commit => .dispatch 0 0

inductive Goes : Pc → Pc → Prop
  | boot : Goes .boot (.dispatch 0 0)
  | joined (call : Call) : Goes (.bringUp call) (.mqttStart call)
  | join (call : Call) : Goes (.bringUp call) (.leave (.join call))
  | leave (cause : Leave) : Goes (.leave cause) (.leavePoll cause 0)
  | leaveAtOnce {cause : Leave} {pc : Pc} : Left cause pc → Goes (.leave cause) pc
  | leavePoll {cause : Leave} {polls : Nat} : polls < 20 →
      Goes (.leavePoll cause polls) (.leavePoll cause (polls + 1))
  | left {cause : Leave} {polls : Nat} {pc : Pc} : Left cause pc → Goes (.leavePoll cause polls) pc
  | connecting (call : Call) : Goes (.wifiConnect call) (.wifiPoll call 0)
  | wifiRefused {call : Call} {pc : Pc} : Failed call pc → Goes (.wifiConnect call) pc
  | wifiAnswer (call : Call) (elapsed : Nat) (reason : UInt8) :
      Goes (.wifiPoll call elapsed) (.wifiCheck call reason)
  | wifiWait (call : Call) {elapsed late : Nat} : elapsed + late < wifiJoinTimeoutMs →
      Goes (.wifiPoll call elapsed) (.wifiWait call (elapsed + late))
  | notJoined (call : Call) (reason : UInt8) :
      Goes (.wifiCheck call reason) (.leave (.joinFailed call reason))
  | wifiJoined (call : Call) (reason : UInt8) : Goes (.wifiCheck call reason) (.mqttStart call)
  | noAddress {call : Call} {pc : Pc} : Failed call pc → Goes (.mqttStart call) pc
  | oldClient (call : Call) : Goes (.mqttStart call) (.abort (.start call))
  | newClient (call : Call) : Goes (.mqttStart call) (.mqttConnect call)
  | abort (cause : Abort) : Goes (.abort cause) (.mqttDisconnect cause)
  | abortAtOnce {cause : Abort} {pc : Pc} : Aborted cause pc → Goes (.abort cause) pc
  | disconnected {cause : Abort} {pc : Pc} : Aborted cause pc → Goes (.mqttDisconnect cause) pc
  | mqttConnecting (call : Call) : Goes (.mqttConnect call) (.mqttPoll call 0)
  | mqttRefused {call : Call} {pc : Pc} : Failed call pc → Goes (.mqttConnect call) pc
  | mainOnline (wifiFails mqttFails elapsed : Nat) :
      Goes (.mqttPoll (.main wifiFails mqttFails) elapsed) (.runOnline .main)
  | commitOnline (attempt wifiTries mqttTries elapsed : Nat) :
      Goes (.mqttPoll (.commit attempt wifiTries mqttTries) elapsed) .save
  | mqttFailed (call : Call) (elapsed : Nat) (reason : UInt8) :
      Goes (.mqttPoll call elapsed) (.abort (.waitFailed call reason))
  | mqttWait (call : Call) {elapsed late : Nat} : elapsed + late < mqttConnectTimeoutMs →
      Goes (.mqttPoll call elapsed) (.mqttWait call (elapsed + late))
  | save : Goes .save (.runOnline .commit)
  | online (caller : Caller) : Goes (.runOnline caller) (.online caller 0)
  | turn (caller : Caller) (badLinks : Nat) :
      Goes (.online caller badLinks) (.onlineEvents caller badLinks)
  | brokerLost (caller : Caller) (badLinks : Nat) :
      Goes (.online caller badLinks) (offline caller)
  | stop (caller : Caller) (badLinks : Nat) :
      Goes (.onlineBle caller badLinks) (.onlineStop caller badLinks)
  | keep (caller : Caller) (badLinks : Nat) :
      Goes (.onlineBle caller badLinks) (.onlineLink caller badLinks)
  | stopped (caller : Caller) (badLinks : Nat) :
      Goes (.onlineStop caller badLinks) (.onlineLink caller badLinks)
  | nextTurn (caller : Caller) (badLinks badLinks' : Nat) :
      Goes (.onlineLink caller badLinks) (.online caller badLinks')
  | linkLost (caller : Caller) (badLinks : Nat) :
      Goes (.onlineLink caller badLinks) (offline caller)
  | erase : Goes .forgetErase (.abort .forget)
  | load : Goes .forgetLoad .forgetRefresh
  | refresh : Goes .forgetRefresh (.dispatch 0 0)

/-- Here the settings in use or in flash change. -/
def touches : Pc → Bool
  | .boot => true
  | .save => true
  | .forgetErase => true
  | .forgetLoad => true
  | _ => false

/-- The task walks, and what it has been told and what it holds stay as they are. -/
structure Walks (w t : World) : Prop where
  goes : Goes w.pc t.pc
  ble : Keeps w.ble t.ble
  commit : t.events.commit = w.events.commit
  forget : t.events.forget = w.events.forget
  held : touches w.pc = false → t.held = w.held

/-- The same wherever the task is. -/
structure Stays (w t : World) : Prop where
  ble : Keeps w.ble t.ble
  events : t.events = w.events
  held : t.held = w.held

/-- Other variables changed before. -/
theorem Stays.after {w u t : World} (stays : Stays u t) (ble : Keeps w.ble u.ble)
    (events : u.events = w.events) (held : u.held = w.held) : Stays w t :=
  ⟨ble.trans stays.ble, stays.events.trans events, stays.held.trans held⟩

theorem failed (w : World) (call : Call) (wifi : Bool) (reason : UInt8) :
    Failed call (bringUpFailed w call wifi reason).pc ∧
      Stays w (bringUpFailed w call wifi reason) := by
  cases call with
  | main wifiFails mqttFails =>
      obtain ⟨ble, _, _, keeps, after⟩ := bringUpFailed_main w wifiFails mqttFails wifi reason
      rw [after]
      exact ⟨.main .., ⟨keeps, rfl, rfl⟩⟩
  | commit attempt wifiTries mqttTries =>
      obtain ⟨ble, _, _, keeps, count, after⟩ :=
        bringUpFailed_commit w attempt wifiTries mqttTries wifi reason
      rw [after]
      split
      · exact ⟨.exhausted .., ⟨keeps, rfl, rfl⟩⟩
      · rename_i left
        rw [not_or, Nat.not_le, Nat.not_le] at left
        exact ⟨.again count left.1 left.2, ⟨keeps, rfl, rfl⟩⟩

theorem left_leave (w : World) (cause : Leave) :
    Left cause (left w cause).pc ∧ Stays w (left w cause) := by
  cases cause with
  | join call => exact ⟨.join call, ⟨.refl _, rfl, rfl⟩⟩
  | joinAborted call => cases call <;> exact ⟨.aborted .., ⟨.refl _, rfl, rfl⟩⟩
  | joinFailed call reason =>
      obtain ⟨goes, stays⟩ :=
        failed { w with wifiUp := false, joined := NetConfigFlash.zeroed, lastJoin := none } call
          true reason
      exact ⟨.failed goes, stays.after (.refl _) rfl rfl⟩
  | forget => exact ⟨.forget, ⟨.refl _, rfl, rfl⟩⟩

theorem aborted_abort (w : World) (cause : Abort) :
    Aborted cause (aborted w cause).pc ∧ Stays w (aborted w cause) := by
  cases cause with
  | start call => exact ⟨.start call, ⟨.refl _, rfl, rfl⟩⟩
  | waitFailed call reason =>
      obtain ⟨goes, stays⟩ := failed w call false reason
      exact ⟨.failed goes, stays⟩
  | waitAborted call => cases call <;> exact ⟨.aborted .., ⟨.refl _, rfl, rfl⟩⟩
  | reverted =>
      obtain ⟨ble, keeps, after⟩ := aborted_reverted w
      rw [after]
      exact ⟨.reverted, ⟨keeps, rfl, rfl⟩⟩
  | forget => exact ⟨.forget, ⟨.refl _, rfl, rfl⟩⟩

/-- `run_online` returns while there is no command. -/
theorem offline_return (w : World) (caller : Caller) (calm : w.events.interrupt = false) :
    (onlineReturn w caller).pc = offline caller ∧ Stays w (onlineReturn w caller) := by
  cases caller with
  | main => exact ⟨by simp [onlineReturn, calm, offline], ⟨.refl _, rfl, rfl⟩⟩
  | commit => exact ⟨rfl, ⟨.refl _, rfl, rfl⟩⟩

theorem walks_at {w t : World} {pc : Pc} (here : w.pc = pc) (goes : Goes pc t.pc)
    (ble : Keeps w.ble t.ble) (commit : t.events.commit = w.events.commit)
    (forget : t.events.forget = w.events.forget) (held : touches pc = false → t.held = w.held) :
    Walks w t :=
  ⟨here ▸ goes, ble, commit, forget, here ▸ held⟩

theorem walks_stays {w t : World} {pc : Pc} (here : w.pc = pc) (goes : Goes pc t.pc)
    (stays : Stays w t) : Walks w t :=
  walks_at here goes stays.ble (by rw [stays.events]) (by rw [stays.events]) fun _ => stays.held

/-- **Between its waits and the head of its loop the task walks.** -/
theorem walks_task {w : World} (p : Platform) (alert : Alert w) (o : Obs)
    (moves : waits w.pc = false) (off : atHead w.pc = false) : Walks w (taskStep p w o) := by
  have keep : Keeps w.ble w.ble := .refl _
  have calm := alert.quiet
  unfold taskStep
  cases pc : w.pc with
  | idle _ _ => rw [pc] at moves; cases moves
  | wifiWait _ _ => rw [pc] at moves; cases moves
  | mqttWait _ _ => rw [pc] at moves; cases moves
  | mainWait _ _ => rw [pc] at moves; cases moves
  | commitWait _ _ _ => rw [pc] at moves; cases moves
  | onlineEvents _ _ => rw [pc] at moves; cases moves
  | lostWait => rw [pc] at moves; cases moves
  | dispatch _ _ => rw [pc] at off; cases off
  | boot =>
      obtain ⟨ble, keeps, after⟩ := loadActive_eq p w
      dsimp only
      rw [after]
      exact walks_at pc .boot keeps rfl rfl nofun
  | bringUp call =>
      dsimp only
      split
      · exact walks_stays pc (.joined call) ⟨keep, rfl, rfl⟩
      · exact walks_stays pc (.join call) ⟨keeps_report .., rfl, rfl⟩
  | leave cause =>
      obtain ⟨goes, stays⟩ := left_leave w cause
      dsimp only
      split
      · exact walks_stays pc (.leaveAtOnce goes) stays
      · exact walks_stays pc (.leave cause) ⟨keep, rfl, rfl⟩
  | leavePoll cause polls =>
      obtain ⟨goes, stays⟩ := left_leave w cause
      dsimp only
      split
      · rename_i again
        exact walks_stays pc (.leavePoll again.1) ⟨keep, rfl, rfl⟩
      · exact walks_stays pc (.left goes) stays
  | wifiConnect call =>
      obtain ⟨goes, stays⟩ := failed w call true 3
      dsimp only
      split
      · exact walks_stays pc (.connecting call) ⟨keep, rfl, rfl⟩
      · exact walks_stays pc (.wifiRefused goes) stays
  | wifiPoll call elapsed =>
      dsimp only
      rcases wifiPoll_cases w o call elapsed with ⟨reason, after⟩ | ⟨early, after⟩
      · rw [after]
        exact walks_stays pc (.wifiAnswer call elapsed reason) ⟨keep, rfl, rfl⟩
      · rw [after]
        exact walks_stays pc (.wifiWait call early) ⟨keep, rfl, rfl⟩
  | wifiCheck call reason =>
      dsimp only
      unfold wifiCheck
      split
      · exact walks_stays pc (.notJoined call reason) ⟨keep, rfl, rfl⟩
      · exact walks_stays pc (.wifiJoined call reason) ⟨keep, rfl, rfl⟩
  | mqttStart call =>
      have keeps := keeps_report w .mqttConnecting 0 (source w call) (attempt call) noIp
      obtain ⟨goes, stays⟩ :=
        failed (report w .mqttConnecting 0 (source w call) (attempt call) noIp) call false 3
      dsimp only
      unfold mqttStart
      dsimp only
      split
      · exact walks_stays pc (.noAddress goes) (stays.after keeps rfl rfl)
      · split
        · exact walks_stays pc (.oldClient call) ⟨keeps, rfl, rfl⟩
        · exact walks_stays pc (.newClient call) ⟨keeps, rfl, rfl⟩
  | abort cause =>
      obtain ⟨goes, stays⟩ := aborted_abort { w with pc := .abort cause, mqttUp := false } cause
      dsimp only
      split
      · exact walks_stays pc (.abort cause) ⟨keep, rfl, rfl⟩
      · exact walks_stays pc (.abortAtOnce goes) (stays.after keep rfl rfl)
  | mqttDisconnect cause =>
      obtain ⟨goes, stays⟩ :=
        aborted_abort { w with pc := .mqttDisconnect cause, connection := none } cause
      exact walks_stays pc (.disconnected goes) (stays.after keep rfl rfl)
  | mqttConnect call =>
      obtain ⟨goes, stays⟩ :=
        failed { w with mqttUp := false, mqttStatus := .pending } call false 3
      dsimp only
      unfold mqttConnect
      dsimp only
      split
      · exact walks_stays pc (.mqttConnecting call) ⟨keep, rfl, rfl⟩
      · exact walks_stays pc (.mqttRefused goes) (stays.after keep rfl rfl)
  | mqttPoll call elapsed =>
      dsimp only
      rcases mqttPoll_cases w o call elapsed with ⟨-, after⟩ | ⟨reason, after⟩ | ⟨early, after⟩
      · rw [after]
        cases call with
        | main _ _ => exact walks_stays pc (.mainOnline ..) ⟨keep, rfl, rfl⟩
        | commit _ _ _ => exact walks_stays pc (.commitOnline ..) ⟨keep, rfl, rfl⟩
      · rw [after]
        exact walks_stays pc (.mqttFailed call elapsed reason) ⟨keep, rfl, rfl⟩
      · rw [after]
        exact walks_stays pc (.mqttWait call early) ⟨keep, rfl, rfl⟩
  | save =>
      obtain ⟨ble, keeps, after⟩ := saveCandidate_eq p w o
      dsimp only
      rw [after]
      exact walks_at pc .save keeps rfl rfl nofun
  | runOnline caller =>
      refine walks_at pc (.online caller) ?_ rfl rfl fun _ => rfl
      cases caller with
      | main => exact keeps_report ..
      | commit => exact keep
  | online caller badLinks =>
      obtain ⟨goes, stays⟩ := offline_return w caller (calm (pc ▸ rfl))
      dsimp only
      split
      · exact walks_stays pc (.turn caller badLinks) ⟨keep, rfl, rfl⟩
      · exact walks_stays pc (goes ▸ .brokerLost caller badLinks) stays
  | onlineBle caller badLinks =>
      dsimp only
      unfold onlineBle
      dsimp only
      split
      · exact walks_stays pc (.stop caller badLinks) ⟨keep, rfl, rfl⟩
      · exact walks_at pc (.keep caller badLinks) keep rfl rfl fun _ => rfl
  | onlineStop caller badLinks =>
      exact walks_at pc (.stopped caller badLinks) (keeps_stop w.ble) rfl rfl fun _ => rfl
  | onlineLink caller badLinks =>
      dsimp only
      rcases onlineLink_cases w o caller badLinks with ⟨wifiUp, -, after⟩ | ⟨badLinks', after⟩
      · obtain ⟨goes, stays⟩ :=
          offline_return { w with wifiUp, mqttUp := false } caller (calm (pc ▸ rfl))
        rw [after]
        exact walks_stays pc (goes ▸ .linkLost caller badLinks) (stays.after keep rfl rfl)
      · rw [after]
        exact walks_stays pc (.nextTurn caller badLinks badLinks') ⟨keep, rfl, rfl⟩
  | forgetErase => exact walks_at pc .erase keep rfl rfl nofun
  | forgetLoad =>
      obtain ⟨ble, keeps, after⟩ := loadActive_eq p w
      dsimp only
      rw [after]
      exact walks_at pc .load keeps rfl rfl nofun
  | forgetRefresh =>
      exact walks_stays pc .refresh ⟨keeps_ite (keeps_startBle w) keep, rfl, rfl⟩

/-! ## How far the task can walk -/

/-- Turns that a loop with a wait of 100 ms still has. -/
def turnsLeft (limit elapsed : Nat) : Nat := (limit - elapsed + 99) / 100

/-- Steps to the next wait or the head of the loop, a loop with a wait counted whole. -/
def place : Pc → Nat
  | .commitWait _ _ _ => 535
  | .bringUp _ => 534
  | .leave (.join _) => 533
  | .leavePoll (.join _) polls => 512 + (20 - polls)
  | .wifiConnect _ => 511
  | .wifiWait _ elapsed => 211 + 2 * turnsLeft wifiJoinTimeoutMs (elapsed + 100)
  | .wifiPoll _ elapsed => 210 + 2 * turnsLeft wifiJoinTimeoutMs elapsed
  | .wifiCheck _ _ => 209
  | .mqttStart _ => 208
  | .abort (.start _) => 207
  | .mqttDisconnect (.start _) => 206
  | .mqttConnect _ => 205
  | .mqttWait _ elapsed => 5 + 2 * turnsLeft mqttConnectTimeoutMs (elapsed + 100)
  | .mqttPoll _ elapsed => 4 + 2 * turnsLeft mqttConnectTimeoutMs elapsed
  | .leave (.joinFailed _ _) => 22
  | .leavePoll (.joinFailed _ _) polls => 1 + (20 - polls)
  | .abort (.waitFailed _ _) => 2
  | .mqttDisconnect (.waitFailed _ _) => 1
  | .onlineBle .main _ => 4
  | .onlineStop .main _ => 3
  | .onlineLink .main _ => 2
  | .runOnline .main => 2
  | .online .main _ => 1
  | .forgetErase => 573
  | .abort _ => 572
  | .mqttDisconnect _ => 571
  | .leave _ => 570
  | .leavePoll _ polls => 545 + (20 - polls)
  | .onlineBle .commit _ => 544
  | .onlineStop .commit _ => 543
  | .save => 543
  | .onlineLink .commit _ => 542
  | .runOnline .commit => 542
  | .forgetLoad => 542
  | .online .commit _ => 541
  | .forgetRefresh => 541
  | .boot => 541
  | .dispatch _ _ => 540
  | .idle _ _ => 0
  | .mainWait _ _ => 0
  | .onlineEvents _ _ => 0
  | .lostWait => 0

/-- The tries a trial still has. -/
def triesLeft : Call → Nat
  | .main _ _ => 0
  | .commit _ wifiTries mqttTries =>
      1000 + 600 * (netCandidateWifiTries + netCandidateMqttTries - (wifiTries + mqttTries))

def tries : Pc → Nat
  | .save => 0
  | pc => (callOf pc).elim 0 triesLeft

def cost (pc : Pc) : Nat := tries pc + place pc

theorem cost_failed {call : Call} {pc : Pc} (failed : Failed call pc) :
    cost pc ≤ triesLeft call := by
  cases failed with
  | main => exact Nat.le_refl 0
  | again count wifi mqtt =>
      simp only [cost, tries, callOf, Option.elim, triesLeft, place, netCandidateWifiTries,
        netCandidateMqttTries] at *
      omega
  | exhausted attempt wifiTries mqttTries =>
      simp only [cost, tries, callOf, abortCall, Option.elim, triesLeft, place]
      omega

theorem cost_left {cause : Leave} {pc : Pc} (left : Left cause pc) (polls : Nat) :
    cost pc < cost (.leavePoll cause polls) := by
  cases left with
  | failed failed =>
      have rest := cost_failed failed
      simp only [cost, tries, callOf, leaveCall, Option.elim, place] at *
      omega
  | join call =>
      simp only [cost, tries, callOf, leaveCall, Option.elim, place]
      omega
  | aborted call =>
      simp only [cost, tries, callOf, leaveCall, Option.elim, place]
      omega
  | forget =>
      simp only [cost, tries, callOf, leaveCall, Option.elim, place]
      omega

theorem cost_aborted {cause : Abort} {pc : Pc} (aborted : Aborted cause pc) :
    cost pc < cost (.mqttDisconnect cause) := by
  cases aborted with
  | failed failed =>
      have rest := cost_failed failed
      simp only [cost, tries, callOf, abortCall, Option.elim, place] at *
      omega
  | start call =>
      simp only [cost, tries, callOf, abortCall, Option.elim, place]
      omega
  | aborted call =>
      simp only [cost, tries, callOf, abortCall, Option.elim, place]
      omega
  | reverted => decide
  | forget => decide

/-- **Walking costs.** -/
theorem cost_goes {pc pc' : Pc} (goes : Goes pc pc') : cost pc' < cost pc := by
  cases goes with
  | leave cause => cases cause <;> simp [cost, tries, callOf, leaveCall, place]
  | leaveAtOnce left =>
      refine (cost_left left 0).trans ?_
      rename_i cause
      cases cause <;> simp [cost, tries, callOf, leaveCall, place]
  | leavePoll again =>
      rename_i cause polls
      cases cause <;> simp only [cost, tries, callOf, leaveCall, Option.elim, place] <;> omega
  | left left => exact cost_left left _
  | abort cause => cases cause <;> simp [cost, tries, callOf, abortCall, place]
  | abortAtOnce aborted =>
      refine (cost_aborted aborted).trans ?_
      rename_i cause
      cases cause <;> simp [cost, tries, callOf, abortCall, place]
  | disconnected aborted => exact cost_aborted aborted
  | wifiRefused failed =>
      have rest := cost_failed failed
      simp only [cost, tries, callOf, Option.elim, place] at *
      omega
  | noAddress failed =>
      have rest := cost_failed failed
      simp only [cost, tries, callOf, Option.elim, place] at *
      omega
  | mqttRefused failed =>
      have rest := cost_failed failed
      simp only [cost, tries, callOf, Option.elim, place] at *
      omega
  | online caller => cases caller <;> decide
  | turn caller badLinks => cases caller <;> simp [cost, tries, callOf, place]
  | brokerLost caller badLinks => cases caller <;> simp [cost, tries, callOf, place, offline]
  | stop caller badLinks => cases caller <;> simp [cost, tries, callOf, place]
  | keep caller badLinks => cases caller <;> simp [cost, tries, callOf, place]
  | stopped caller badLinks => cases caller <;> simp [cost, tries, callOf, place]
  | nextTurn caller badLinks => cases caller <;> simp [cost, tries, callOf, place]
  | linkLost caller badLinks => cases caller <;> simp [cost, tries, callOf, place, offline]
  | commitOnline attempt wifiTries mqttTries =>
      simp only [cost, tries, callOf, Option.elim, triesLeft, place]
      omega
  | _ =>
      simp only [cost, tries, callOf, leaveCall, abortCall, Option.elim, triesLeft, place,
        turnsLeft, wifiJoinTimeoutMs, mqttConnectTimeoutMs] at *
      omega

theorem tries_le (pc : Pc) : tries pc ≤ 4000 := by
  have bounded : (callOf pc).elim 0 triesLeft ≤ 4000 := by
    cases callOf pc with
    | none => exact Nat.zero_le _
    | some call =>
        cases call <;> simp [triesLeft, netCandidateWifiTries, netCandidateMqttTries]
        omega
  unfold tries
  split
  · exact Nat.zero_le _
  · exact bounded

theorem place_le (pc : Pc) : place pc ≤ 573 := by
  unfold place turnsLeft wifiJoinTimeoutMs mqttConnectTimeoutMs
  split <;> omega

/-! ## The rank of a world in which an apply is unanswered -/

/-- Bits that are noticed bring the task to the head of its loop, bits that are
posted to a wait first. -/
def rank (w : World) : Nat :=
  cost w.pc +
    if w.ble.handoffValid then
      (if w.events.commit then 5000 else 10000) + (if w.events.forget then 60 else 0)
    else if w.ble.notification.bleDisconnected then 2 else 0

theorem rank_walks {w t : World} (walks : Walks w t) : rank t < rank w := by
  have cheaper := cost_goes walks.goes
  simp only [rank, walks.ble.handoffValid, walks.ble.notification, walks.commit, walks.forget]
  omega

/-- A wait takes the bits that are posted. -/
structure Wakes (w t : World) : Prop where
  ble : t.ble = (waitEvents w).ble
  commit : t.events.commit = (waitEvents w).events.commit
  forget : t.events.forget = (waitEvents w).events.forget
  held : t.held = w.held

theorem wakes_task {p : Platform} {w : World} (o : Obs) (wait : waits w.pc = true) :
    Wakes w (taskStep p w o) := by
  unfold taskStep
  cases pc : w.pc with
  | idle _ _ => exact ⟨rfl, rfl, rfl, rfl⟩
  | mainWait _ _ => exact ⟨rfl, rfl, rfl, rfl⟩
  | lostWait => exact ⟨rfl, rfl, rfl, rfl⟩
  | wifiWait _ _ => dsimp only; split <;> exact ⟨rfl, rfl, rfl, rfl⟩
  | mqttWait _ _ => dsimp only; split <;> exact ⟨rfl, rfl, rfl, rfl⟩
  | commitWait _ _ _ => dsimp only; split <;> exact ⟨rfl, rfl, rfl, rfl⟩
  | onlineEvents caller badLinks =>
      dsimp only
      unfold onlineEvents
      dsimp only
      split
      · cases caller <;> exact ⟨rfl, rfl, rfl, rfl⟩
      · split <;> exact ⟨rfl, rfl, rfl, rfl⟩
  | _ => rw [pc] at wait; cases wait

theorem waits_quiet {pc : Pc} (wait : waits pc = true) : mayHaveNoticed pc = false := by
  cases pc with
  | idle _ _ => rfl
  | mainWait _ _ => rfl
  | lostWait => rfl
  | wifiWait _ _ => rfl
  | mqttWait _ _ => rfl
  | commitWait _ _ _ => rfl
  | onlineEvents _ _ => rfl
  | _ => cases wait

theorem waitedMs_le (w : World) (o : Obs) (ms : Nat) : waitedMs w o ms ≤ ms := by
  unfold waitedMs
  split
  · exact Nat.le_refl ms
  · exact Nat.min_le_right ..

/-- Only a bit ends a wait early. -/
theorem waitedMs_eq {w : World} (commit : w.ble.notification.commit = false)
    (forget : w.ble.notification.forget = false)
    (left : w.ble.notification.bleDisconnected = false) (o : Obs) (ms : Nat) :
    waitedMs w o ms = ms := by
  have none : w.ble.notification = .none := by
    cases bits : w.ble.notification
    simp_all [Events.none]
  rw [waitedMs, if_pos none]

/-- Where a trial waits. -/
theorem waits_trial {pc : Pc} (wait : waits pc = true) (trial : inTrial pc = true) :
    (∃ call elapsed, pc = .wifiWait call elapsed) ∨
      (∃ call elapsed, pc = .mqttWait call elapsed) ∨
      ∃ attempt wifiTries mqttTries, pc = .commitWait attempt wifiTries mqttTries := by
  cases pc with
  | wifiWait call elapsed => exact .inl ⟨call, elapsed, rfl⟩
  | mqttWait call elapsed => exact .inr (.inl ⟨call, elapsed, rfl⟩)
  | commitWait attempt wifiTries mqttTries =>
      exact .inr (.inr ⟨attempt, wifiTries, mqttTries, rfl⟩)
  | idle _ _ => cases trial
  | mainWait _ _ => cases trial
  | lostWait => cases trial
  | onlineEvents _ _ => cases trial
  | _ => cases wait

/-- A wait in a trial with no command after it: the trial goes on. -/
theorem cost_trying {p : Platform} {w : World} (o : Obs) (wait : waits w.pc = true)
    (trial : inTrial w.pc = true) (calm : (waitEvents w).events.interrupt = false)
    (commit : w.ble.notification.commit = false) (forget : w.ble.notification.forget = false) :
    cost (taskStep p w o).pc < cost w.pc +
      if w.ble.notification.bleDisconnected then 2 else 0 := by
  have short := waitedMs_le w o 100
  have full := fun left => waitedMs_eq commit forget left o 100
  have stays : ¬(waitEvents w).events.interrupt = true := by
    rw [calm]
    exact Bool.false_ne_true
  rcases waits_trial wait trial with ⟨call, elapsed, pc⟩ | ⟨call, elapsed, pc⟩ |
    ⟨attempt, wifiTries, mqttTries, pc⟩
  · simp only [taskStep, pc, if_neg stays]
    simp only [cost, tries, callOf, Option.elim, place, turnsLeft, wifiJoinTimeoutMs]
    split
    · omega
    · rename_i none
      rw [full (Bool.eq_false_of_not_eq_true none)]
      omega
  · simp only [taskStep, pc, if_neg stays]
    simp only [cost, tries, callOf, Option.elim, place, turnsLeft, mqttConnectTimeoutMs]
    split
    · omega
    · rename_i none
      rw [full (Bool.eq_false_of_not_eq_true none)]
      omega
  · simp only [taskStep, pc, if_neg stays]
    simp only [cost, tries, callOf, Option.elim, triesLeft, place]
    omega

/-- No apply waits: one is on trial, and no command came after it. -/
theorem trying_of_asks {p : Platform} {w : World} (asks : Mailbox.Unanswered (mailbox p w))
    (empty : w.ble.handoffValid = false) : inTrial w.pc = true ∧
      w.ble.notification.commit = false ∧ w.ble.notification.forget = false ∧
      w.events.interrupt = false := by
  rcases asks with waits | ⟨⟨value, trying⟩, posted, noticed⟩
  · have slot : (slotOf w.ble).isSome = true := waits
    rw [slotOf_isSome, empty] at slot
    cases slot
  · refine ⟨(stageOf_trying trying).1, congrArg Mailbox.Bits.apply posted,
      congrArg Mailbox.Bits.forget posted, ?_⟩
    cases alarm : w.events.interrupt with
    | false => rfl
    | true => exact absurd noticed (noticed_some alarm p)

/-- At the head of the loop the next command is taken. -/
theorem rank_dispatch {w : World} {wifiFails mqttFails : Nat}
    (pc : w.pc = .dispatch wifiFails mqttFails) (valid : w.ble.handoffValid = true) :
    rank (dispatch w wifiFails mqttFails) < rank w := by
  unfold dispatch
  split
  · rename_i forget
    simp [rank, pc, valid, forget, cost, tries, callOf, place]
    omega
  · rename_i none
    split
    · rename_i commit
      simp only [BleProvision.takeCandidate, valid]
      simp [rank, pc, valid, commit, cost, tries, callOf, triesLeft, place, netCandidateWifiTries,
        netCandidateMqttTries]
      split <;> omega
    · rename_i none'
      dsimp only
      split
      · simp [rank, clearDisconnected, pc, valid, none, none', cost, tries, callOf, triesLeft, place]
      · simp [rank, clearDisconnected, pc, valid, none, none', cost, tries, callOf, place]

/-- **While an apply is unanswered, every step of the task brings its answer closer.** -/
theorem rank_task {p : Platform} {w : World} (alert : Alert w)
    (signalled : Mailbox.Signalled (mailbox p w)) (asks : Mailbox.Unanswered (mailbox p w))
    (o : Obs) : rank (taskStep p w o) < rank w := by
  have bits : w.ble.handoffValid = (w.ble.notification.commit || w.events.commit) :=
    (slotOf_isSome w.ble).symm.trans signalled.slot
  cases wait : waits w.pc with
  | true =>
      obtain ⟨ble, commit, forget, -⟩ := wakes_task (p := p) o wait
      have calm := alert.quiet (waits_quiet wait)
      obtain ⟨commit', forget'⟩ := Bool.or_eq_false_iff.mp calm
      cases valid : w.ble.handoffValid with
      | true =>
          have posted : w.ble.notification.commit = true := by
            rw [valid, commit', Bool.or_false] at bits
            exact bits.symm
          have noticed : (taskStep p w o).events.commit = true := by
            rw [commit, waitEvents, Events.union, posted, Bool.or_true]
          have valid' : (taskStep p w o).ble.handoffValid = true := by
            rw [ble]
            exact valid
          have tries := tries_le (taskStep p w o).pc
          have place := place_le (taskStep p w o).pc
          simp only [rank, valid, valid', noticed, commit', cost, if_true, Bool.false_eq_true,
            if_false]
          split <;> omega
      | false =>
          obtain ⟨trial, posted, posted', -⟩ := trying_of_asks asks valid
          have quiet : (waitEvents w).events.interrupt = false := by
            simp [waitEvents, Events.union, Events.interrupt, commit', forget', posted, posted']
          have cheaper := cost_trying (p := p) o wait trial quiet posted posted'
          have valid' : (taskStep p w o).ble.handoffValid = false := by
            rw [ble]
            exact valid
          have left : (taskStep p w o).ble.notification.bleDisconnected = false := by
            rw [ble]
            rfl
          simp only [rank, valid, valid', left, Bool.false_eq_true, if_false]
          omega
  | false =>
      cases head : atHead w.pc with
      | true =>
          cases pc : w.pc with
          | dispatch wifiFails mqttFails =>
              cases valid : w.ble.handoffValid with
              | true =>
                  have after : taskStep p w o = dispatch w wifiFails mqttFails := by
                    simp only [taskStep, pc]
                  rw [after]
                  exact rank_dispatch pc valid
              | false =>
                  have trial := (trying_of_asks asks valid).1
                  rw [pc] at trial
                  cases trial
          | _ => rw [pc] at head; cases head
      | false => exact rank_walks (walks_task p alert o wait head)

/-! ## No apply is lost -/

/-- Steps of the task. -/
def taskSteps (event : Event) : Nat :=
  match event with
  | .task _ => 1
  | _ => 0

/-- A client that leaves may cost the task a turn. -/
def turnLost (event : Event) : Nat :=
  match event with
  | .ble .disconnected => 2
  | _ => 0

theorem quiet_signalled {p : Platform} {w t : World} (moves : Moves p w t)
    (signalled : Mailbox.Signalled (mailbox p w)) : Mailbox.Signalled (mailbox p t) := by
  obtain ⟨es, none, run⟩ := moves.quiet
  refine Mailbox.quiet_run ?_ none (run w.held) signalled
  intro s e t quiet step signalled
  exact Mailbox.signalled_step signalled (inTime_quiet s e quiet) step

theorem quiet_asks {p : Platform} {w t : World} (moves : Moves p w t)
    (asks : Mailbox.Unanswered (mailbox p t)) : Mailbox.Unanswered (mailbox p w) := by
  obtain ⟨es, none, run⟩ := moves.quiet
  by_contra silent
  refine Mailbox.quiet_run (P := fun s => ¬Mailbox.Unanswered s) ?_ none (run w.held) silent asks
  intro s e t quiet step silent asks
  exact silent (Mailbox.unanswered_step quiet step asks)

theorem quiet_accepted {p : Platform} {w t : World} {es : List Event} (alert : Alert w)
    (run : ((machine p).restrict Quiet).Run w es t) :
    t.history.accepted = w.history.accepted := by
  suffices both : Alert t ∧ t.history.accepted = w.history.accepted from both.2
  refine Machine.run_preserves (P := fun t => Alert t ∧ t.history.accepted = w.history.accepted)
    ?_ ⟨alert, rfl⟩ run
  rintro s event t ⟨alert, same⟩ ⟨quiet, step⟩
  obtain ⟨alert, -, moved⟩ := simulated_quiet (p := p) alert quiet step
  obtain ⟨es, none, moves⟩ := moved.quiet
  refine ⟨alert, ?_⟩
  refine Mailbox.quiet_run (P := fun s => s.history.accepted = w.history.accepted) ?_ none
    (moves s.held) same
  intro s e t quiet step same
  exact (Mailbox.accepted_step quiet step).trans same

theorem rank_next {p : Platform} {w t : World} {event : Event} (alert : Alert w)
    (signalled : Mailbox.Signalled (mailbox p w)) (asks : Mailbox.Unanswered (mailbox p w))
    (quiet : Quiet w event) (step : next p w event = some t) :
    rank t + taskSteps event ≤ rank w + turnLost event := by
  cases event with
  | task o =>
      obtain rfl := task_next step
      exact rank_task alert signalled asks o
  | mqtt status =>
      have same : rank t = rank w := by
        obtain ⟨_, _, _, _, rfl⟩ := mqttCallback_eq step
        rfl
      rw [same]
      exact Nat.le_refl _
  | ble e =>
      obtain ⟨ble, _, callback, rfl, -⟩ := bleCallback_eq step
      have effect := BleProvision.effect_callback callback
      rw [show BleProvision.accepted w.ble e = none from quiet] at effect
      have valid : ble.handoffValid = w.ble.handoffValid := by simpa using effect.handoffValid
      have left := effect.bleDisconnected
      cases e with
      | disconnected =>
          simp only [rank, valid, taskSteps, turnLost]
          split
          · omega
          · split <;> omega
      | _ =>
          have same := left.trans (Bool.or_false _)
          simp only [rank, valid, same, taskSteps, turnLost]
          omega

/-- Steps of the task that answer an apply, whatever it was at. -/
def answerSteps : Nat := 15000

theorem rank_le (w : World) : rank w ≤ answerSteps := by
  have tries := tries_le w.pc
  have place := place_le w.pc
  unfold rank cost answerSteps
  split
  · split <;> split <;> omega
  · split <;> omega

/-- Without a new command an apply that is still unanswered bounds the steps of the
task. -/
theorem steps_unanswered {p : Platform} {w t : World} {es : List Event} (alert : Alert w)
    (signalled : Mailbox.Signalled (mailbox p w)) (run : ((machine p).restrict Quiet).Run w es t)
    (asks : Mailbox.Unanswered (mailbox p t)) :
    (es.map taskSteps).sum ≤ answerSteps + (es.map turnLost).sum := by
  have bound := Machine.run_rank (fun w => Alert w ∧ Mailbox.Signalled (mailbox p w))
    (fun w => Mailbox.Unanswered (mailbox p w)) rank taskSteps turnLost ?_ ?_ ?_ run
    ⟨alert, signalled⟩ asks
  · have start := rank_le w
    omega
  · rintro s event t ⟨alert, signalled⟩ ⟨quiet, step⟩
    have simulated := simulated_quiet (p := p) alert quiet step
    exact ⟨simulated.alert, quiet_signalled simulated.moves signalled⟩
  · rintro s event t ⟨alert, -⟩ ⟨quiet, step⟩ asks
    exact quiet_asks (simulated_quiet alert quiet step).moves asks
  · rintro s event t ⟨alert, signalled⟩ asks ⟨quiet, step⟩
    exact rank_next alert signalled asks quiet step

/-- `handle_commit` returns to the loop without a result for its candidate. -/
def Abandons (w t : World) : Prop := inTrial w.pc = true ∧ atHead t.pc = true

instance (w t : World) : Decidable (Abandons w t) := inferInstanceAs (Decidable (_ ∧ _))

theorem not_atHead_of_failed {call : Call} {pc : Pc} (failed : Failed call pc) :
    atHead pc = false := by
  cases failed <;> rfl

/-- Away from its waits a trial returns to the loop only from a wait broken off. -/
theorem brokenOff_of_goes {pc pc' : Pc} (goes : Goes pc pc') (trial : inTrial pc = true)
    (head : atHead pc' = true) : brokenOff pc = true := by
  have left : ∀ {cause : Leave}, Left cause pc' → inTrial (.leave cause) = true →
      brokenOff (.leave cause) = true := by
    intro cause left trial
    cases left with
    | aborted => rfl
    | failed failed => rw [not_atHead_of_failed failed] at head; cases head
    | join => cases head
    | forget => cases head
  have aborted : ∀ {cause : Abort}, Aborted cause pc' → inTrial (.abort cause) = true →
      brokenOff (.abort cause) = true := by
    intro cause aborted trial
    cases aborted with
    | aborted => rfl
    | failed failed => rw [not_atHead_of_failed failed] at head; cases head
    | start => cases head
    | reverted => cases trial
    | forget => cases trial
  cases goes with
  | leaveAtOnce returns => exact left returns trial
  | left returns =>
      rename_i cause polls
      exact (alike_leave cause polls).broken ▸ left returns trial
  | abortAtOnce returns => exact aborted returns trial
  | disconnected returns =>
      rename_i cause
      exact (alike_abort cause).broken ▸ aborted returns trial
  | wifiRefused failed => rw [not_atHead_of_failed failed] at head; cases head
  | noAddress failed => rw [not_atHead_of_failed failed] at head; cases head
  | mqttRefused failed => rw [not_atHead_of_failed failed] at head; cases head
  | boot => cases trial
  | refresh => cases trial
  | brokerLost caller badLinks => cases trial
  | linkLost caller badLinks => cases trial
  | _ => cases head

theorem alarm_of_abandons {p : Platform} {w : World} (alert : Alert w) (o : Obs)
    (abandons : Abandons w (taskStep p w o)) : (taskStep p w o).events.interrupt = true := by
  obtain ⟨trial, head⟩ := abandons
  cases wait : waits w.pc with
  | false =>
      have off : atHead w.pc = false := by
        cases pc : w.pc with
        | dispatch _ _ => rw [pc] at trial; cases trial
        | _ => rfl
      obtain ⟨goes, -, commit, forget, -⟩ := walks_task p alert o wait off
      have alarm := alert.interrupted (brokenOff_of_goes goes trial head)
      rw [Events.interrupt, commit, forget]
      exact alarm
  | true =>
      cases alarm : (waitEvents w).events.interrupt with
      | true =>
          obtain ⟨-, commit, forget, -⟩ := wakes_task (p := p) o wait
          rw [Events.interrupt, commit, forget]
          exact alarm
      | false =>
          have calm : ¬(waitEvents w).events.interrupt = true := by
            rw [alarm]
            exact Bool.false_ne_true
          rcases waits_trial wait trial with ⟨call, elapsed, pc⟩ | ⟨call, elapsed, pc⟩ |
            ⟨attempt, wifiTries, mqttTries, pc⟩
          · simp only [taskStep, pc, if_neg calm] at head
            cases head
          · simp only [taskStep, pc, if_neg calm] at head
            cases head
          · simp only [taskStep, pc, if_neg calm] at head
            cases head

/-- What the mailbox keeps when applies come in time. -/
structure Kept (p : Platform) (w : World) : Prop where
  alert : Alert w
  signalled : Mailbox.Signalled (mailbox p w)
  busy : Mailbox.Busy (mailbox p w)
  last : Mailbox.LastApply (mailbox p w)

theorem kept_reached {p : Platform} {flash : Flash} {w : World} {es : List Event}
    (run : ((machine p).restrict InTime).Run (initial flash) es w) : Kept p w := by
  have all := reached
    (P := fun s => Mailbox.Signalled s ∧ Mailbox.Busy s ∧ Mailbox.LastApply s) inTime_quiet
    inTime_accept
    ⟨Mailbox.signalled_initial _, Mailbox.busy_initial _, Mailbox.lastApply_initial _⟩ ?_ run
  · exact ⟨all.1, all.2.1, all.2.2.1, all.2.2.2⟩
  · rintro s e t ⟨signalled, busy, last⟩ inTime step
    exact ⟨Mailbox.signalled_step signalled inTime step, Mailbox.busy_step busy step,
      Mailbox.lastApply_step signalled busy last step⟩

/-- **No apply that is handed over in time is lost.**  A trial is given up only while
a newer apply waits or a forget is noticed.  The last apply waits, is on trial with
no command after it, or was tried to its end: online, or reverted.  Without a new
command it gets there within a bounded number of steps of the task. -/
theorem apply_not_lost {p : Platform} {flash : Flash} {w : World} {es : List Event}
    (run : ((machine p).restrict InTime).Run (initial flash) es w) :
    (∀ o t, next p w (.task o) = some t → Abandons w t →
      t.ble.handoffValid = true ∨ t.events.forget = true) ∧
    ∀ c, w.history.accepted.getLast? = some (.apply c) →
      ((w.ble.handoffValid = true ∧ w.ble.handoff = c) ∨
        (inTrial w.pc = true ∧ w.candidate = c ∧ w.events.interrupt = false ∧
          w.ble.notification.commit = false ∧ w.ble.notification.forget = false) ∨
        ∃ result, w.history.handled.getLast? = some (.apply c, .done result)) ∧
      ∀ fs t, ((machine p).restrict Quiet).Run w fs t →
        answerSteps + (fs.map turnLost).sum < (fs.map taskSteps).sum →
        ∃ result, t.history.handled.getLast? = some (.apply c, .done result) := by
  obtain ⟨alert, signalled, -, last⟩ := kept_reached run
  refine ⟨?_, fun c newest => ⟨?_, ?_⟩⟩
  · intro o t step abandons
    have inTime : InTime w (.task o) := trivial
    have after := kept_reached (run.snoc ⟨inTime, step⟩)
    obtain rfl := task_next step
    have alarm := alarm_of_abandons alert o abandons
    rcases Bool.or_eq_true_iff.mp alarm with commit | forget
    · refine .inl ?_
      have bits := (slotOf_isSome (taskStep p w o).ble).symm.trans after.signalled.slot
      rw [bits]
      exact Bool.or_eq_true_iff.mpr (.inr commit)
    · exact .inr forget
  · rcases last c newest with ⟨slot, -⟩ | ⟨empty, posted, noticed, trying | ⟨-, done⟩⟩
    · exact .inl (slotOf_some slot)
    · refine .inr (.inl ?_)
      obtain ⟨trial, same⟩ := stageOf_trying trying
      have bits := signalled.slot
      rw [empty] at bits
      obtain ⟨posted', noticed'⟩ := Bool.or_eq_false_iff.mp bits.symm
      exact ⟨trial, same, Bool.or_eq_false_iff.mpr ⟨noticed', noticed⟩, posted', posted⟩
    · exact .inr (.inr done)
  · intro fs t quiet long
    have after := kept_reached (run.append (quiet.mono quiet_inTime))
    have silent : ¬Mailbox.Unanswered (mailbox p t) := by
      intro asks
      have bound := steps_unanswered alert signalled quiet asks
      omega
    have same : t.history.accepted = w.history.accepted := quiet_accepted (p := p) alert quiet
    exact Mailbox.answered after.signalled after.last silent (same ▸ newest)

/-- An apply waits to be taken. -/
theorem apply_not_lost_homeNet : ∃ w es,
    ((machine bench).restrict InTime).Run (initial blank) es w ∧
      w.history.accepted = [.apply homeNet] ∧
      ∀ fs t, ((machine bench).restrict Quiet).Run w fs t →
        answerSteps + (fs.map turnLost).sum < (fs.map taskSteps).sum →
        ∃ result, t.history.handled.getLast? = some (.apply homeNet, .done result) := by
  have computed : (Machine.exec (Machine.guarded InTime (next bench)) (initial blank)
      (provision ++ [apply])).any (fun w =>
        decide (w.history.accepted = [.apply homeNet])) = true := by
    decide +kernel
  obtain ⟨w, run, accepted⟩ := Machine.exists_run_of_exec_restrict computed
  have newest : w.history.accepted.getLast? = some (.apply homeNet) := by
    rw [accepted]
    rfl
  exact ⟨w, _, run, accepted, ((apply_not_lost run).2 homeNet newest).2⟩

/-- The bit of the first apply has been noticed when the second one hands over its
settings.  They are taken at once, and their own bit interrupts their trial: it is
given up with no newer apply and no forget, and both are lost. -/
theorem apply_lost : ∃ w t es, (machine bench).Run (initial blank) es w ∧
    next bench w (.task (fair .down)) = some t ∧ Abandons w t ∧ w.candidate = movedBroker ∧
    t.ble.handoffValid = false ∧ t.events.forget = false ∧ t.ble.notification.forget = false ∧
    t.history.accepted = [.apply homeNet, .apply movedBroker] ∧
    t.history.handled = [(.apply homeNet, .overtaken), (.apply movedBroker, .overtaken)] := by
  have computed : (Machine.exec (next bench) (initial blank)
      (provision ++ [apply] ++ steps 1 .down ++ [write .host (bytes "192.168.1.7"), apply] ++
        steps 6 .down)).any (fun w =>
          let t := taskStep bench w (fair .down)
          decide (Abandons w t ∧ w.candidate = movedBroker ∧
            t.ble.handoffValid = false ∧ t.events.forget = false ∧
            t.ble.notification.forget = false ∧
            t.history.accepted = [.apply homeNet, .apply movedBroker] ∧
            t.history.handled =
              [(.apply homeNet, .overtaken), (.apply movedBroker, .overtaken)])) = true := by
    decide +kernel
  obtain ⟨w, run, abandons, lost⟩ := Machine.exists_run_of_exec computed
  exact ⟨w, _, _, run, rfl, abandons, lost⟩

end IrHub.Firmware.Progress
