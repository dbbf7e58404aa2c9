/-
# Firmware.Radio -- when BLE is on, and what a client starts from

BLE is started where `load_active` finds no settings, where the main loop has failed
often enough, and at the end of a forget; it is stopped in `run_online` only.  `Turn`
says this of one step of the task, together with the counters of the main loop, the
place it goes to and the candidate.  The two properties below are read off it.

* The failures of `bring_up(s_active)` are counted from outside (`tally`).  The
  counters agree with that count, so the hub is never stranded and never opens BLE
  without cause (`ble_with_cause`).
* `s_current` is refreshed by `start` only.  `handle_commit` changes `s_active` without
  it, and where that is done with BLE on, a client starts from settings that are no
  longer in use (`stale_current`); without it never (`client_starts_current`).
-/
import IrHub.Firmware.Trial

namespace IrHub.Firmware.Radio

set_option autoImplicit false

open IrHub.Theory IrHub.Firmware.NetConfig IrHub.Firmware.NetworkTask IrHub.Firmware.Commands
open IrHub.Firmware.Progress IrHub.Firmware.Trial
open IrHub.Firmware.NetConfigFlash (Flash homeNet zeroed)
open IrHub.Firmware.BleProvision (Ble Callback Status noIp)

/-! ## What a client is served from -/

/-- `s_active`, or blanks without settings: what `start_ble` passes on. -/
def inUse (h : Held) : NetConfig := if h.haveActive then h.active else zeroed

structure Still (b after : Ble) : Prop where
  active : after.active = b.active
  con : after.con = b.con
  current : after.current = b.current
  staged : after.staged = b.staged

theorem Still.refl (b : Ble) : Still b b := ⟨rfl, rfl, rfl, rfl⟩

theorem Still.trans {a b c : Ble} (first : Still a b) (second : Still b c) : Still a c where
  active := second.active.trans first.active
  con := second.con.trans first.con
  current := second.current.trans first.current
  staged := second.staged.trans first.staged

theorem still_ite {a b c : Ble} {P : Prop} [Decidable P] (yes : Still a b) (no : Still a c) :
    Still a (if P then b else c) := by
  split
  · exact yes
  · exact no

theorem still_reportBle (b : Ble) (status : Status) : Still b (reportBle b status) := by
  refine still_ite (.refl b) ?_
  obtain ⟨_, _, _, same⟩ := BleProvision.pushStatus_eq b status
  rw [BleProvision.setStatus, same]
  exact ⟨rfl, rfl, rfl, rfl⟩

theorem still_report (w : World) (state : BleProvision.State) (reason : UInt8)
    (source : BleProvision.Source) (attempt : UInt8) (ip : List.Vector UInt8 4) :
    Still w.ble (report w state reason source attempt ip).ble :=
  still_reportBle w.ble _

/-! ## The counters of the main loop -/

/-- `wifi_fails` and `mqtt_fails`. -/
structure Fails where
  wifi : Nat
  mqtt : Nat
  deriving DecidableEq, Repr

def Fails.none : Fails := ⟨0, 0⟩

/-- Enough of them to open BLE. -/
def Fails.enough (fails : Fails) : Prop :=
  netWifiFailsBeforeBle ≤ fails.wifi ∨ netMqttFailsBeforeBle ≤ fails.mqtt

instance (fails : Fails) : Decidable fails.enough :=
  inferInstanceAs (Decidable (_ ∨ _))

theorem not_enough_none : ¬Fails.none.enough := by decide

/-- The counters as they stand, zero where the loop has reset them. -/
def failsAt : Pc → Fails
  | .dispatch wifiFails mqttFails => ⟨wifiFails, mqttFails⟩
  | .idle wifiFails mqttFails => ⟨wifiFails, mqttFails⟩
  | .mainWait wifiFails mqttFails => ⟨wifiFails, mqttFails⟩
  | pc =>
      match callOf pc with
      | some (.main wifiFails mqttFails) => ⟨wifiFails, mqttFails⟩
      | _ => .none

/-- `bring_up` can return `WifiFailed` from here. -/
def joins : Pc → Bool
  | .wifiConnect _ => true
  | .leave (.joinFailed _ _) => true
  | .leavePoll (.joinFailed _ _) _ => true
  | _ => false

/-- The task has got online. -/
def gotOnline : Pc → Bool
  | .runOnline .main => true
  | .save => true
  | _ => false

/-- The main loop waits for its next attempt. -/
def retries : Pc → Bool
  | .mainWait _ _ => true
  | _ => false

/-- The failures of `bring_up(s_active)`, counted from outside: from one place of the
task to the next, with what is noticed at the first of them. -/
def tally (pc : Pc) (noticed : Bool) (pc' : Pc) (fails : Fails) : Fails :=
  if atHead pc && noticed then .none
  else if gotOnline pc' then .none
  else if retries pc' then
    if joins pc then { fails with wifi := fails.wifi + 1 } else { fails with mqtt := fails.mqtt + 1 }
  else fails

/-- The task uses `s_active`. -/
def uses : Pc → Bool
  | .runOnline _ => true
  | .online _ _ => true
  | .onlineEvents _ _ => true
  | .onlineBle _ _ => true
  | .onlineStop _ _ => true
  | .onlineLink _ _ => true
  | pc =>
      match callOf pc with
      | some (.main _ _) => true
      | _ => false

/-! ## One step of the task -/

/-- `load_active` is called here. -/
def loads : Pc → Bool
  | .boot => true
  | .forgetLoad => true
  | _ => false

/-- What it does to the server. -/
inductive Serves (pc : Pc) (w t : World) : Prop
  | still : Still w.ble t.ble →
      (loads pc = true → t.held.haveActive = true) →
      (retries t.pc = true → (failsAt t.pc).enough → w.ble.active = true) →
      (pc = .forgetRefresh → w.ble.active = false) → Serves pc w t
  | loaded : loads pc = true → t.held.haveActive = false →
      Still (BleProvision.start w.ble zeroed) t.ble → Serves pc w t
  | stuck : w.ble.active = false → retries t.pc = true → (failsAt t.pc).enough →
      t.held = w.held → Still (BleProvision.start w.ble (inUse w.held)) t.ble → Serves pc w t
  | stopped (caller : Caller) (badLinks : Nat) : pc = .onlineStop caller badLinks →
      t.pc = .onlineLink caller badLinks → t.held = w.held →
      t.ble = BleProvision.stop w.ble → Serves pc w t
  | refreshed : pc = .forgetRefresh → w.ble.active = true → t.held = w.held →
      Still (BleProvision.start w.ble (inUse w.held)) t.ble → Serves pc w t

/-- One step, from `pc`. -/
structure Turn (pc : Pc) (w t : World) : Prop where
  serves : Serves pc w t
  fails : failsAt t.pc = tally pc w.events.interrupt t.pc (failsAt pc)
  uses : uses t.pc = true →
    uses pc = true ∨ pc = .save ∨ (atHead pc = true ∧ w.held.haveActive = true)
  candidate : (t.candidate = w.candidate ∧ (inTrial pc = true → inTrial t.pc = true)) ∨
    t.candidate = zeroed ∨
    (inTrial t.pc = true ∧ w.ble.handoffValid = true ∧ t.candidate = w.ble.handoff)
  started : t.pc ≠ .boot

/-- `load_active`, the head of the loop and the end of a forget are elsewhere. -/
def plain (pc : Pc) : Bool :=
  match pc with
  | .forgetRefresh => false
  | pc => !(loads pc || atHead pc)

/-- Neither the start of the task nor a wait of the main loop. -/
def between : Pc → Bool
  | .boot => false
  | .mainWait _ _ => false
  | _ => true

/-- The server goes on as it was. -/
theorem serves_still {pc : Pc} {w t : World} (still : Still w.ble t.ble) (plain_ : plain pc = true)
    (retried : retries t.pc = true → (failsAt t.pc).enough → w.ble.active = true) :
    Serves pc w t := by
  refine .still still ?_ retried ?_
  · intro here
    cases pc with
    | boot => cases plain_
    | forgetLoad => cases plain_
    | _ => cases here
  · rintro rfl
    cases plain_

/-- The same, and the loop does not wait. -/
theorem turn_still {pc : Pc} {w t : World} (still : Still w.ble t.ble) (plain_ : plain pc = true)
    (walks : between t.pc = true)
    (fails : failsAt t.pc = tally pc w.events.interrupt t.pc (failsAt pc))
    (uses_ : uses t.pc = true → uses pc = true ∨ pc = .save)
    (candidate : (t.candidate = w.candidate ∧ (inTrial pc = true → inTrial t.pc = true)) ∨
      t.candidate = zeroed) : Turn pc w t where
  serves := by
    refine serves_still still plain_ ?_
    intro waits
    revert walks
    cases pc' : t.pc with
    | mainWait _ _ => nofun
    | _ => rw [pc'] at waits; cases waits
  fails := fails
  uses used := by
    rcases uses_ used with before | saved
    · exact .inl before
    · exact .inr (.inl saved)
  candidate := by
    rcases candidate with same | wiped
    · exact .inl same
    · exact .inr (.inl wiped)
  started start := by
    rw [start] at walks
    cases walks

theorem failsAt_main {pc : Pc} {wifiFails mqttFails : Nat}
    (here : callOf pc = some (.main wifiFails mqttFails)) : failsAt pc = ⟨wifiFails, mqttFails⟩ := by
  unfold failsAt
  split
  · cases here
  · cases here
  · cases here
  · simp only [here]

theorem failsAt_commit {pc : Pc} {attempt wifiTries mqttTries : Nat}
    (here : callOf pc = some (.commit attempt wifiTries mqttTries)) : failsAt pc = .none := by
  unfold failsAt
  split
  · cases here
  · cases here
  · cases here
  · simp only [here]

theorem uses_main {pc : Pc} {wifiFails mqttFails : Nat}
    (here : callOf pc = some (.main wifiFails mqttFails)) : uses pc = true := by
  unfold uses
  split
  · rfl
  · rfl
  · rfl
  · rfl
  · rfl
  · rfl
  · simp only [here]

theorem not_trial_main {pc : Pc} {wifiFails mqttFails : Nat}
    (here : callOf pc = some (.main wifiFails mqttFails)) {P : Prop} : inTrial pc = true → P := by
  intro trial
  simp [inTrial, here] at trial

/-- In a call of `bring_up`. -/
theorem plain_of_call {pc : Pc} {call : Call} (here : callOf pc = some call) :
    plain pc = true ∧ atHead pc = false := by
  cases pc with
  | boot => cases here
  | dispatch _ _ => cases here
  | forgetLoad => cases here
  | forgetRefresh => cases here
  | _ => exact ⟨rfl, rfl⟩

/-- `bring_up` fails. -/
theorem turn_failed {pc : Pc} {w u : World} {call : Call} (here : callOf pc = some call)
    {wifi : Bool} (joining : joins pc = wifi) (reason : UInt8) (still : Still w.ble u.ble)
    (held : u.held = w.held) (candidate : u.candidate = w.candidate) :
    Turn pc w (bringUpFailed u call wifi reason) := by
  obtain ⟨plain_, away⟩ := plain_of_call here
  cases call with
  | commit attempt wifiTries mqttTries =>
      have none := failsAt_commit here
      have reported := still.trans (still_report u (if wifi then .wifiFailed else .mqttFailed) reason
        (source u (.commit attempt wifiTries mqttTries))
        (NetworkTask.attempt (.commit attempt wifiTries mqttTries)) noIp)
      unfold bringUpFailed
      dsimp only
      generalize (if wifi = true then wifiTries + 1 else wifiTries) = wifiTries'
      generalize (if wifi = true then mqttTries else mqttTries + 1) = mqttTries'
      split
      · refine turn_still reported plain_ rfl ?_ nofun (.inr rfl)
        rw [none, tally, away]
        rfl
      · refine turn_still reported plain_ rfl ?_ nofun (.inl ⟨candidate, fun _ => rfl⟩)
        rw [none, tally, away]
        rfl
  | main wifiFails mqttFails =>
      have reported := still.trans (still_report u (if wifi then .wifiFailed else .mqttFailed) reason
        (source u (.main wifiFails mqttFails)) (NetworkTask.attempt (.main wifiFails mqttFails)) noIp)
      have counted : failsAt (.mainWait (if wifi = true then wifiFails + 1 else wifiFails)
          (if wifi = true then mqttFails else mqttFails + 1)) =
            tally pc w.events.interrupt (.mainWait (if wifi = true then wifiFails + 1 else wifiFails)
              (if wifi = true then mqttFails else mqttFails + 1)) (failsAt pc) := by
        rw [failsAt_main here, tally, away, joining]
        cases wifi <;> rfl
      have inUse_ : inUse u.held = inUse w.held := by rw [held]
      unfold bringUpFailed
      dsimp only
      generalize (if wifi = true then wifiFails + 1 else wifiFails) = wifiFails' at counted ⊢
      generalize (if wifi = true then mqttFails else mqttFails + 1) = mqttFails' at counted ⊢
      refine ⟨?_, counted, fun _ => .inl (uses_main here), .inl ⟨candidate, not_trial_main here⟩,
        nofun⟩
      by_cases enough : Fails.enough ⟨wifiFails', mqttFails'⟩
      · have decided : decide (netWifiFailsBeforeBle ≤ wifiFails' ∨
            netMqttFailsBeforeBle ≤ mqttFails') = true := decide_eq_true enough
        cases on : w.ble.active with
        | true =>
            refine serves_still ?_ plain_ fun _ _ => on
            simp only [reported.active.trans on, decided, Bool.not_true, Bool.false_and,
              Bool.false_eq_true, if_false]
            exact reported
        | false =>
            refine .stuck on rfl enough held ?_
            simp only [reported.active.trans on, decided, Bool.not_false, Bool.true_and, if_true]
            rw [← inUse_]
            exact ⟨rfl, reported.con, rfl, reported.staged⟩
      · have decided : decide (netWifiFailsBeforeBle ≤ wifiFails' ∨
            netMqttFailsBeforeBle ≤ mqttFails') = false := decide_eq_false enough
        refine serves_still ?_ plain_ fun _ there => absurd there enough
        simp only [decided, Bool.and_false, Bool.false_eq_true, if_false]
        exact reported

/-- A place of a call, or one that keeps no counters and does not use `s_active`. -/
theorem turn_aborted {pc : Pc} {w u : World} {call : Call} (here : callOf pc = some call)
    (still : Still w.ble u.ble) (candidate : u.candidate = w.candidate) :
    Turn pc w (bringUpAborted u call) := by
  obtain ⟨plain_, away⟩ := plain_of_call here
  cases call with
  | main wifiFails mqttFails =>
      refine turn_still still plain_ rfl ?_ nofun (.inl ⟨candidate, not_trial_main here⟩)
      rw [failsAt_main here, tally, away]
      rfl
  | commit attempt wifiTries mqttTries =>
      refine turn_still still plain_ rfl ?_ nofun (.inr rfl)
      rw [failsAt_commit here, tally, away]
      rfl

/-- `wifi_leave` returns. -/
theorem turn_left {pc : Pc} {w : World} {cause : Leave}
    (here : pc = .leave cause ∨ ∃ polls, pc = .leavePoll cause polls) :
    Turn pc w (left w cause) := by
  have call : callOf pc = leaveCall cause := by
    rcases here with rfl | ⟨polls, rfl⟩ <;> rfl
  cases cause with
  | join call' =>
      obtain ⟨plain_, away⟩ := plain_of_call call
      refine turn_still (.refl _) plain_ rfl ?_ ?_ (.inl ⟨rfl, ?_⟩)
      · rcases here with rfl | ⟨polls, rfl⟩ <;> rfl
      · intro used
        rcases here with rfl | ⟨polls, rfl⟩ <;> exact .inl used
      · rcases here with rfl | ⟨polls, rfl⟩ <;> exact id
  | joinAborted call' => exact turn_aborted call (.refl _) rfl
  | joinFailed call' reason =>
      refine turn_failed call ?_ reason (.refl _) rfl rfl
      rcases here with rfl | ⟨polls, rfl⟩ <;> rfl
  | forget =>
      rcases here with rfl | ⟨polls, rfl⟩ <;>
        exact turn_still (.refl _) rfl rfl rfl nofun (.inl ⟨rfl, nofun⟩)

/-- `mqtt_abort` returns. -/
theorem turn_mqttAborted {pc : Pc} {w u : World} {cause : Abort}
    (here : pc = .abort cause ∨ pc = .mqttDisconnect cause) (same : Still w.ble u.ble)
    (held : u.held = w.held) (candidate : u.candidate = w.candidate) :
    Turn pc w (aborted u cause) := by
  have call : callOf pc = abortCall cause := by
    rcases here with rfl | rfl <;> rfl
  cases cause with
  | start call' =>
      obtain ⟨plain_, away⟩ := plain_of_call call
      refine turn_still same plain_ rfl ?_ ?_ (.inl ⟨candidate, ?_⟩)
      · rcases here with rfl | rfl <;> rfl
      · intro used
        rcases here with rfl | rfl <;> exact .inl used
      · rcases here with rfl | rfl <;> exact id
  | waitFailed call' reason =>
      refine turn_failed call ?_ reason same held candidate
      rcases here with rfl | rfl <;> rfl
  | waitAborted call' => exact turn_aborted call same candidate
  | reverted =>
      have reported : Still w.ble (aborted u .reverted).ble :=
        same.trans (still_ite (still_report ..) ((still_report ..).trans (still_report ..)))
      rcases here with rfl | rfl <;>
        exact turn_still reported rfl rfl rfl nofun (.inl ⟨candidate, nofun⟩)
  | forget =>
      rcases here with rfl | rfl <;>
        exact turn_still same rfl rfl rfl nofun (.inl ⟨candidate, nofun⟩)

/-- `run_online` returns. -/
theorem turn_return {pc : Pc} {w u : World} {caller : Caller} (plain_ : plain pc = true)
    (none : failsAt pc = .none) (outside : inTrial pc = false) (still : Still w.ble u.ble)
    (candidate : u.candidate = w.candidate) : Turn pc w (onlineReturn u caller) := by
  have away : atHead pc = false := by
    cases pc with
    | dispatch _ _ => cases plain_
    | _ => rfl
  have place : (onlineReturn u caller).pc = .dispatch 0 0 ∨
      (onlineReturn u caller).pc = .lostWait := by
    cases caller with
    | commit => exact .inl rfl
    | main =>
        unfold onlineReturn
        dsimp only
        split
        · exact .inl rfl
        · exact .inr rfl
  have rest : (onlineReturn u caller).ble = u.ble ∧
      (onlineReturn u caller).candidate = u.candidate := by
    cases caller <;> exact ⟨rfl, rfl⟩
  refine turn_still (rest.1 ▸ still) plain_ ?_ ?_ ?_ (.inl ⟨rest.2.trans candidate, ?_⟩)
  · rcases place with at_ | at_ <;> rw [at_] <;> rfl
  · rcases place with at_ | at_ <;> rw [at_, none, tally, away] <;> rfl
  · rcases place with at_ | at_ <;> rw [at_] <;> nofun
  · rw [outside]
    nofun

/-- The head of the loop. -/
theorem turn_head {w t : World} {wifiFails mqttFails : Nat} (still : Still w.ble t.ble)
    (walks : retries t.pc = false)
    (fails : failsAt t.pc = tally (.dispatch wifiFails mqttFails) w.events.interrupt t.pc
      (failsAt (.dispatch wifiFails mqttFails)))
    (uses_ : uses t.pc = true → w.held.haveActive = true)
    (candidate : t.candidate = w.candidate ∨
      (inTrial t.pc = true ∧ w.ble.handoffValid = true ∧ t.candidate = w.ble.handoff))
    (started : t.pc ≠ .boot) : Turn (.dispatch wifiFails mqttFails) w t where
  serves := by
    refine .still still ?_ ?_ ?_
    · rintro ⟨⟩
    · rw [walks]
      rintro ⟨⟩
    · rintro ⟨⟩
  fails := fails
  uses used := .inr (.inr ⟨rfl, uses_ used⟩)
  candidate := by
    rcases candidate with same | taken
    · refine .inl ⟨same, ?_⟩
      rintro ⟨⟩
    · exact .inr (.inr taken)
  started := started

theorem turn_dispatch (w : World) (wifiFails mqttFails : Nat) :
    Turn (.dispatch wifiFails mqttFails) w (dispatch w wifiFails mqttFails) := by
  unfold dispatch
  by_cases forget : w.events.forget = true
  · have noticed : w.events.interrupt = true := by simp [Events.interrupt, forget]
    rw [if_pos forget]
    refine turn_head (.refl _) rfl ?_ ?_ (.inl rfl) ?_
    · rw [noticed]
      rfl
    · rintro ⟨⟩
    · rintro ⟨⟩
  · rw [if_neg forget]
    by_cases commit : w.events.commit = true
    · have noticed : w.events.interrupt = true := by simp [Events.interrupt, commit]
      rw [if_pos commit]
      dsimp only
      cases taken : BleProvision.takeCandidate w.ble with
      | none =>
          refine turn_head (.refl _) rfl ?_ ?_ (.inl rfl) ?_
          · rw [noticed]
            rfl
          · rintro ⟨⟩
          · rintro ⟨⟩
      | some handed =>
          unfold BleProvision.takeCandidate at taken
          split at taken
          · cases taken
          · rename_i valid
            cases taken
            have handed : w.ble.handoffValid = true := by simpa using valid
            refine turn_head ⟨rfl, rfl, rfl, rfl⟩ rfl ?_ ?_ (.inr ⟨rfl, handed, rfl⟩) ?_
            · rw [noticed]
              rfl
            · rintro ⟨⟩
            · rintro ⟨⟩
    · have calm : w.events.interrupt = false := by
        simp only [Bool.not_eq_true] at forget commit
        simp [Events.interrupt, forget, commit]
      rw [if_neg commit]
      dsimp only
      split
      · rename_i have_
        refine turn_head (.refl _) rfl ?_ (fun _ => have_) (.inl rfl) ?_
        · rw [calm]
          rfl
        · rintro ⟨⟩
      · refine turn_head (.refl _) rfl ?_ ?_ (.inl rfl) ?_
        · rw [calm]
          rfl
        · rintro ⟨⟩
        · rintro ⟨⟩

/-- `load_active` starts BLE where it finds no settings. -/
theorem serves_loadActive {p : Platform} {pc pc' : Pc} {w : World} (here : loads pc = true)
    (walks : retries pc' = false) : Serves pc w { loadActive p w with pc := pc' } := by
  cases have_ : (w.held.load p).haveActive with
  | true =>
      refine .still ?_ (fun _ => have_) ?_ ?_
      · unfold loadActive
        dsimp only
        rw [if_pos have_]
        exact .refl _
      · rw [walks]
        nofun
      · rintro rfl
        cases here
  | false =>
      refine .loaded here have_ ?_
      have blank : inUse (w.held.load p) = zeroed := by simp [inUse, have_]
      unfold loadActive
      dsimp only
      rw [if_neg (by simp [have_]), ← blank]
      exact still_report (startBle { w with held := w.held.load p }) ..

/-- **What one step of the task does.** -/
theorem turn_task (p : Platform) (w : World) (o : Obs) : Turn w.pc w (taskStep p w o) := by
  have same : Still w.ble w.ble := .refl _
  have woken : Still w.ble (waitEvents w).ble := ⟨rfl, rfl, rfl, rfl⟩
  unfold taskStep
  cases pc : w.pc with
  | boot => exact ⟨serves_loadActive rfl rfl, rfl, nofun, .inl ⟨rfl, nofun⟩, nofun⟩
  | dispatch wifiFails mqttFails => exact turn_dispatch w wifiFails mqttFails
  | idle wifiFails mqttFails => exact turn_still woken rfl rfl rfl nofun (.inl ⟨rfl, id⟩)
  | mainWait wifiFails mqttFails => exact turn_still woken rfl rfl rfl nofun (.inl ⟨rfl, id⟩)
  | lostWait => exact turn_still woken rfl rfl rfl nofun (.inl ⟨rfl, id⟩)
  | bringUp call =>
      dsimp only
      split
      · exact turn_still same rfl rfl rfl .inl (.inl ⟨rfl, id⟩)
      · exact turn_still (still_report ..) rfl rfl rfl .inl (.inl ⟨rfl, id⟩)
  | leave cause =>
      dsimp only
      split
      · exact turn_left (.inl rfl)
      · exact turn_still same rfl rfl rfl .inl (.inl ⟨rfl, id⟩)
  | leavePoll cause polls =>
      dsimp only
      split
      · exact turn_still same rfl rfl rfl .inl (.inl ⟨rfl, id⟩)
      · exact turn_left (.inr ⟨polls, rfl⟩)
  | wifiConnect call =>
      dsimp only
      split
      · exact turn_still same rfl rfl rfl .inl (.inl ⟨rfl, id⟩)
      · exact turn_failed rfl rfl 3 same rfl rfl
  | wifiPoll call elapsed =>
      dsimp only
      rcases wifiPoll_cases w o call elapsed with ⟨reason, after⟩ | ⟨-, after⟩
      · rw [after]
        exact turn_still same rfl rfl rfl .inl (.inl ⟨rfl, id⟩)
      · rw [after]
        exact turn_still same rfl rfl rfl .inl (.inl ⟨rfl, id⟩)
  | wifiWait call elapsed =>
      dsimp only
      split
      · exact turn_still woken rfl rfl rfl .inl (.inl ⟨rfl, id⟩)
      · exact turn_still woken rfl rfl rfl .inl (.inl ⟨rfl, id⟩)
  | wifiCheck call reason =>
      dsimp only
      unfold wifiCheck
      split
      · exact turn_still same rfl rfl rfl .inl (.inl ⟨rfl, id⟩)
      · exact turn_still same rfl rfl rfl .inl (.inl ⟨rfl, id⟩)
  | mqttStart call =>
      have reported := still_report w .mqttConnecting 0 (source w call) (attempt call) noIp
      dsimp only
      unfold mqttStart
      dsimp only
      split
      · exact turn_failed rfl rfl 3 reported rfl rfl
      · split
        · exact turn_still reported rfl rfl rfl .inl (.inl ⟨rfl, id⟩)
        · exact turn_still reported rfl rfl rfl .inl (.inl ⟨rfl, id⟩)
  | abort cause =>
      dsimp only
      split
      · exact turn_still same rfl rfl rfl .inl (.inl ⟨rfl, id⟩)
      · exact turn_mqttAborted (.inl rfl) same rfl rfl
  | mqttDisconnect cause => exact turn_mqttAborted (.inr rfl) same rfl rfl
  | mqttConnect call =>
      dsimp only
      unfold mqttConnect
      dsimp only
      split
      · exact turn_still same rfl rfl rfl .inl (.inl ⟨rfl, id⟩)
      · exact turn_failed rfl rfl 3 same rfl rfl
  | mqttPoll call elapsed =>
      dsimp only
      rcases mqttPoll_cases w o call elapsed with ⟨-, after⟩ | ⟨reason, after⟩ | ⟨-, after⟩
      · rw [after]
        cases call with
        | main _ _ => exact turn_still same rfl rfl rfl (fun _ => .inl rfl) (.inl ⟨rfl, id⟩)
        | commit _ _ _ => exact turn_still same rfl rfl rfl nofun (.inl ⟨rfl, id⟩)
      · rw [after]
        exact turn_still same rfl rfl rfl .inl (.inl ⟨rfl, id⟩)
      · rw [after]
        exact turn_still same rfl rfl rfl .inl (.inl ⟨rfl, id⟩)
  | mqttWait call elapsed =>
      dsimp only
      split
      · exact turn_still woken rfl rfl rfl .inl (.inl ⟨rfl, id⟩)
      · exact turn_still woken rfl rfl rfl .inl (.inl ⟨rfl, id⟩)
  | commitWait attempt wifiTries mqttTries =>
      dsimp only
      split
      · exact turn_still woken rfl rfl rfl nofun (.inr rfl)
      · exact turn_still woken rfl rfl rfl nofun (.inl ⟨rfl, id⟩)
  | save =>
      refine turn_still ?_ rfl rfl rfl (fun _ => .inr rfl) (.inr rfl)
      exact still_ite (still_report ..) (still_report ..)
  | runOnline caller =>
      refine turn_still ?_ rfl rfl rfl (fun _ => .inl rfl) (.inl ⟨rfl, id⟩)
      cases caller with
      | main => exact still_report ..
      | commit => exact same
  | online caller badLinks =>
      dsimp only
      split
      · exact turn_still same rfl rfl rfl (fun _ => .inl rfl) (.inl ⟨rfl, id⟩)
      · exact turn_return rfl rfl rfl same rfl
  | onlineEvents caller badLinks =>
      dsimp only
      unfold onlineEvents
      dsimp only
      split
      · exact turn_return (u := waitEvents w) rfl rfl rfl woken rfl
      · split
        · exact turn_still woken rfl rfl rfl (fun _ => .inl rfl) (.inl ⟨rfl, id⟩)
        · exact turn_still woken rfl rfl rfl (fun _ => .inl rfl) (.inl ⟨rfl, id⟩)
  | onlineBle caller badLinks =>
      dsimp only
      unfold onlineBle
      dsimp only
      split
      · exact turn_still same rfl rfl rfl (fun _ => .inl rfl) (.inl ⟨rfl, id⟩)
      · exact turn_still same rfl rfl rfl (fun _ => .inl rfl) (.inl ⟨rfl, id⟩)
  | onlineStop caller badLinks =>
      exact ⟨.stopped caller badLinks rfl rfl rfl rfl, rfl, fun _ => .inl rfl, .inl ⟨rfl, nofun⟩, nofun⟩
  | onlineLink caller badLinks =>
      dsimp only
      rcases onlineLink_cases w o caller badLinks with ⟨wifiUp, -, after⟩ | ⟨badLinks', after⟩
      · rw [after]
        exact turn_return rfl rfl rfl same rfl
      · rw [after]
        exact turn_still same rfl rfl rfl (fun _ => .inl rfl) (.inl ⟨rfl, id⟩)
  | forgetErase => exact turn_still same rfl rfl rfl nofun (.inl ⟨rfl, id⟩)
  | forgetLoad => exact ⟨serves_loadActive rfl rfl, rfl, nofun, .inl ⟨rfl, nofun⟩, nofun⟩
  | forgetRefresh =>
      refine ⟨?_, rfl, nofun, .inl ⟨rfl, nofun⟩, nofun⟩
      cases on : w.ble.active with
      | true =>
          refine .refreshed rfl on rfl ?_
          exact ⟨rfl, rfl, rfl, rfl⟩
      | false =>
          refine .still same nofun nofun fun _ => on

/-- What it does to the settings. -/
def heldAfter (p : Platform) (w : World) (o : Obs) : Held :=
  match w.pc with
  | .boot => w.held.load p
  | .forgetLoad => w.held.load p
  | .save => (w.held.adopt p o.fault w.candidate).2
  | .forgetErase => w.held.erase p o.eraseFails
  | _ => w.held

theorem heldAfter_same {p : Platform} {w : World} {o : Obs} (untouched : touches w.pc = false) :
    heldAfter p w o = w.held := by
  unfold heldAfter
  revert untouched
  cases w.pc with
  | boot => nofun
  | forgetLoad => nofun
  | save => nofun
  | forgetErase => nofun
  | _ => exact fun _ => rfl

theorem held_taskStep {p : Platform} {w : World} (alert : Alert w) (o : Obs) :
    (taskStep p w o).held = heldAfter p w o := by
  by_cases here : touches w.pc = true
  · unfold heldAfter taskStep
    revert here
    cases w.pc with
    | boot => exact fun _ => rfl
    | forgetLoad => exact fun _ => rfl
    | save => exact fun _ => rfl
    | forgetErase => exact fun _ => rfl
    | _ => nofun
  · rw [Bool.not_eq_true] at here
    rw [held_task alert o here, heldAfter_same here]

/-! ## A callback -/

/-- The server stays on or off, with the settings a client starts from. -/
structure Powered (b after : Ble) : Prop where
  active : after.active = b.active
  current : after.current = b.current

theorem powered_pushStatus (b : Ble) (s : Status) : Powered b (BleProvision.pushStatus b s) := by
  obtain ⟨_, _, _, same⟩ := BleProvision.pushStatus_eq b s
  rw [same]
  exact ⟨rfl, rfl⟩

theorem powered_applyValue (b : Ble) (handle : BleProvision.Attribute) (data : List UInt8) :
    Powered b (BleProvision.applyValue b handle data).1 := by
  unfold BleProvision.applyValue
  split
  · cases handle with
    | cmd =>
        unfold BleProvision.applyCommand
        dsimp only
        split
        · exact ⟨rfl, rfl⟩
        · split
          · split
            · exact powered_pushStatus b _
            · exact ⟨rfl, rfl⟩
          · split <;> exact ⟨rfl, rfl⟩
    | port =>
        dsimp only
        split <;> exact ⟨rfl, rfl⟩
    | _ => exact ⟨rfl, rfl⟩
  · exact ⟨rfl, rfl⟩

theorem powered_attWriteCb (b : Ble) (handle : BleProvision.Attribute)
    (mode : BleProvision.Transaction) (offset : Nat) (data : List UInt8) :
    Powered b (BleProvision.attWriteCb b handle mode offset data).1 := by
  unfold BleProvision.attWriteCb
  cases mode with
  | none =>
      dsimp only
      split
      · split
        · obtain ⟨active, current⟩ :=
            powered_pushStatus { b with subscribed := decide (get16 data = 1) } b.status
          exact ⟨active, current⟩
        · exact ⟨rfl, rfl⟩
      · exact powered_applyValue b handle data
  | active =>
      dsimp only
      split
      · exact ⟨rfl, rfl⟩
      · split <;> exact ⟨rfl, rfl⟩
  | validate => exact ⟨rfl, rfl⟩
  | execute =>
      dsimp only
      cases b.prepHandle with
      | none => exact ⟨rfl, rfl⟩
      | some handle =>
          obtain ⟨active, current⟩ := powered_applyValue b handle (b.prep.toList.take b.prepLen)
          exact ⟨active, current⟩
  | cancel => exact ⟨rfl, rfl⟩

theorem powered_callback {b after : Ble} {e : Callback}
    (happens : BleProvision.callback b e = some after) : Powered b after := by
  cases e with
  | connected con =>
      simp only [BleProvision.callback] at happens
      split at happens
      · cases happens
        exact ⟨rfl, rfl⟩
      · cases happens
  | disconnected =>
      cases happens
      unfold BleProvision.disconnected
      split <;> exact ⟨rfl, rfl⟩
  | write handle mode offset data =>
      simp only [BleProvision.callback] at happens
      split at happens
      · cases happens
        exact powered_attWriteCb b handle mode offset data
      · cases happens
  | canSendNow =>
      cases happens
      unfold BleProvision.canSendNow
      split <;> exact ⟨rfl, rfl⟩

/-- What another event leaves alone. -/
structure Between (w t : World) : Prop where
  pc : t.pc = w.pc
  held : t.held = w.held
  candidate : t.candidate = w.candidate
  powered : Powered w.ble t.ble

/-- A step of the task, or something between two of them. -/
theorem next_cases {p : Platform} {w t : World} {event : Event}
    (step : next p w event = some t) :
    (∃ o, event = .task o ∧ t = taskStep p w o) ∨
    ((∀ o, event ≠ .task o) ∧ Between w t) := by
  cases event with
  | task o =>
      obtain rfl := task_next step
      exact .inl ⟨o, rfl, rfl⟩
  | mqtt status =>
      refine .inr ⟨nofun, ?_⟩
      obtain ⟨_, _, _, _, rfl⟩ := mqttCallback_eq step
      exact ⟨rfl, rfl, rfl, rfl, rfl⟩
  | ble e =>
      refine .inr ⟨nofun, ?_⟩
      obtain ⟨ble, _, happens, rfl, -⟩ := bleCallback_eq step
      exact ⟨rfl, rfl, rfl, powered_callback happens⟩

/-! ## BLE is on when it has to be, and only then -/

/-- The failures since the latest of boot, getting online and a handled command. -/
def count (w : World) (e : Event) (t : World) (fails : Fails) : Fails :=
  match e with
  | .task _ => tally w.pc w.events.interrupt t.pc fails
  | _ => fails

/-- The hub, and the count of failures beside it. -/
def counted (p : Platform) : Machine (World × Fails) Event :=
  (machine p).observed .none count

/-- The counters are the count, `s_active` is used only where there is one, and BLE is
on where it has to be. -/
structure Warranted (o : World × Fails) : Prop where
  alert : Alert o.1
  fails : o.2 = failsAt o.1.pc
  active : uses o.1.pc = true → o.1.held.haveActive = true
  open_ : o.1.pc ≠ .boot → o.1.held.haveActive = false ∨ o.2.enough → o.1.ble.active = true

theorem warranted_initial (flash : Flash) : Warranted (initial flash, .none) :=
  ⟨alert_initial flash, rfl, nofun, fun away => absurd rfl away⟩

theorem touches_of_uses {pc : Pc} (used : uses pc = true) : touches pc = false := by
  cases pc with
  | boot => cases used
  | forgetLoad => cases used
  | save => cases used
  | forgetErase => cases used
  | _ => rfl

/-- Where the settings are lost, `load_active` is called or they were lost before. -/
theorem active_of_lost {p : Platform} {w : World} {o : Obs}
    (lost : (heldAfter p w o).haveActive = false) : loads w.pc = true ∨
      w.pc ≠ .boot ∧ w.held.haveActive = false := by
  unfold heldAfter at lost
  cases pc : w.pc with
  | boot => exact .inl rfl
  | forgetLoad => exact .inl rfl
  | save =>
      rw [pc] at lost
      cases lost
  | _ =>
      rw [pc] at lost
      exact .inr ⟨nofun, lost⟩

/-- A count that is enough was so before, or the loop has just counted. -/
theorem enough_of_tally {pc pc' : Pc} {noticed : Bool} {fails : Fails}
    (enough : (tally pc noticed pc' fails).enough) : retries pc' = true ∨ fails.enough := by
  unfold tally at enough
  split at enough
  · exact absurd enough not_enough_none
  split at enough
  · exact absurd enough not_enough_none
  split at enough
  · rename_i waits
    exact .inl waits
  · exact .inr enough

theorem warranted_task {p : Platform} {w : World} {fails : Fails} (warranted : Warranted (w, fails))
    (o : Obs) (alert : Alert (taskStep p w o)) :
    Warranted (taskStep p w o, tally w.pc w.events.interrupt (taskStep p w o).pc fails) := by
  obtain ⟨alertBefore, counts, active, open_⟩ := warranted
  have turn := turn_task p w o
  have held := held_taskStep (p := p) alertBefore o
  have counted_ : tally w.pc w.events.interrupt (taskStep p w o).pc fails =
      failsAt (taskStep p w o).pc := by
    rw [turn.fails]
    exact congrArg _ counts
  refine ⟨alert, counted_, ?_, ?_⟩
  · intro used
    show (taskStep p w o).held.haveActive = true
    rw [held]
    rcases turn.uses used with before | saved | ⟨head, have_⟩
    · rw [heldAfter_same (touches_of_uses before)]
      exact active before
    · unfold heldAfter
      rw [saved]
      rfl
    · have untouched : touches w.pc = false := by
        revert head
        cases w.pc with
        | dispatch _ _ => exact fun _ => rfl
        | _ => nofun
      rw [heldAfter_same untouched]
      exact have_
  · intro away cause
    have cause' : (taskStep p w o).held.haveActive = false ∨ (failsAt (taskStep p w o).pc).enough := by
      rw [← counted_]
      exact cause
    show (taskStep p w o).ble.active = true
    cases turn.serves with
    | still same loaded retried =>
        rw [same.active]
        rcases cause' with lost | enough
        · rcases active_of_lost (held ▸ lost) with here | ⟨away', none⟩
          · rw [loaded here] at lost
            cases lost
          · exact open_ away' (.inl none)
        · rcases enough_of_tally (counted_ ▸ enough) with waits | before
          · exact retried waits enough
          · refine open_ ?_ (.inr before)
            intro start
            rw [show fails = failsAt w.pc from counts, start] at before
            exact not_enough_none before
    | loaded _ _ same => exact same.active
    | stuck _ _ _ _ same => exact same.active
    | refreshed _ _ _ same => exact same.active
    | stopped caller badLinks here place unchanged =>
        have have_ : w.held.haveActive = true := active (by rw [here]; rfl)
        rcases cause' with lost | enough
        · rw [unchanged, have_] at lost
          cases lost
        · rw [place] at enough
          exact absurd enough not_enough_none

theorem warranted_next {p : Platform} {o t : World × Fails} {e : Event} (warranted : Warranted o)
    (step : (counted p).step o e t) : Warranted t := by
  obtain ⟨w, fails⟩ := o
  obtain ⟨w', fails'⟩ := t
  obtain ⟨moved, counted_⟩ := step
  dsimp only at moved counted_
  subst counted_
  have alert := alert_next (p := p) warranted.alert moved
  rcases next_cases moved with ⟨o, rfl, rfl⟩ | ⟨other, pc, held, -, powered⟩
  · exact warranted_task warranted o alert
  · have same : count w e w' fails = fails := by
      cases e with
      | task o => exact absurd rfl (other o)
      | mqtt status => rfl
      | ble e => rfl
    obtain ⟨-, counts, active, open_⟩ := warranted
    rw [same]
    refine ⟨alert, ?_, ?_, ?_⟩
    · dsimp only
      rw [pc]
      exact counts
    · dsimp only
      rw [pc, held]
      exact active
    · dsimp only
      rw [pc, held, powered.active]
      exact open_

theorem warranted_reached {p : Platform} {o : World × Fails}
    (reached : (counted p).Reachable o) : Warranted o := by
  have inv : (counted p).Invariant Warranted := by
    refine ⟨?_, fun _ _ _ warranted step => warranted_next warranted step⟩
    rintro ⟨w, fails⟩ ⟨⟨flash, rfl⟩, rfl⟩
    exact warranted_initial flash
  exact inv.reachable reached

/-- **The hub is never stranded and never opens BLE without cause.**  BLE goes on only
where there are no settings to use, or where `bring_up(s_active)` has ended WifiFailed
3 times or MqttFailed 5 times since the latest of boot, getting online and a handled
apply or forget; and wherever the task waits without settings, or after as many
failures, BLE is on. -/
theorem ble_with_cause {p : Platform} {o : World × Fails} (reached : (counted p).Reachable o) :
    (∀ e t, (counted p).step o e t → o.1.ble.active = false → t.1.ble.active = true →
      t.1.held.haveActive = false ∨ t.2.enough) ∧
    (waits o.1.pc = true → o.1.held.haveActive = false ∨ o.2.enough → o.1.ble.active = true) := by
  constructor
  · intro e t step off on
    have after := warranted_reached (reached.step step)
    obtain ⟨moved, -⟩ := step
    rcases next_cases moved with ⟨i, rfl, same⟩ | ⟨-, -, -, -, powered⟩
    · have turn := turn_task p o.1 i
      rw [← same] at turn
      cases turn.serves with
      | still still =>
          rw [still.active, off] at on
          cases on
      | loaded _ none => exact .inl none
      | stuck _ _ enough =>
          rw [← after.fails] at enough
          exact .inr enough
      | stopped caller badLinks _ _ _ stop =>
          rw [stop] at on
          unfold BleProvision.stop at on
          simp [off] at on
      | refreshed _ already =>
          rw [off] at already
          cases already
    · rw [powered.active, off] at on
      cases on
  · intro wait cause
    refine (warranted_reached reached).open_ ?_ cause
    intro start
    rw [start] at wait
    cases wait

/-- A build with the settings of the network at home. -/
def homeBuild : Platform :=
  { bench with defs := ⟨bytes "HomeNet", bytes "hunter2hunter2", bytes "192.168.1.100", 1883⟩ }

/-- The driver refuses to join. -/
def refused : Obs := { fair .down with wifiConnectOk := false }

/-- The third time BLE goes on. -/
theorem ble_with_cause_third : ∃ o t, (counted homeBuild).Reachable o ∧
    (counted homeBuild).step o (.task refused) t ∧ o.1.ble.active = false ∧
    t.1.ble.active = true ∧ (t.1.held.haveActive = false ∨ t.2.enough) := by
  have computed : (Machine.exec (next homeBuild) (initial blank)
      (List.replicate 14 (.task refused))).any (fun w => decide (w.ble.active = false ∧
        (taskStep homeBuild w refused).ble.active = true)) = true := by decide +kernel
  obtain ⟨w, run, off, on⟩ := Machine.exists_run_of_exec computed
  have reached : (machine homeBuild).Reachable w := ⟨_, _, ⟨blank, rfl⟩, run⟩
  obtain ⟨fails, observed⟩ := reached.observed .none count
  have step : next homeBuild w (.task refused) = some (taskStep homeBuild w refused) := by
    rw [next, if_neg (by decide)]
  have moved : (counted homeBuild).step (w, fails) (.task refused)
      (taskStep homeBuild w refused, count w (.task refused) (taskStep homeBuild w refused) fails) :=
    ⟨step, rfl⟩
  exact ⟨_, _, observed, moved, off, on, (ble_with_cause observed).1 _ _ moved off on⟩

/-! ## A client starts from the settings in use -/

/-- Where settings are saved, BLE is off or they are the ones a client starts from. -/
def Refreshed (w : World) : Event → Prop
  | .task _ => w.pc = .save → w.ble.active = true → w.ble.current = w.candidate
  | _ => True

instance (w : World) (e : Event) : Decidable (Refreshed w e) := by
  unfold Refreshed
  cases e <;> infer_instance

structure Fresh (w : World) : Prop where
  alert : Alert w
  off : w.pc = .boot → w.ble.active = false
  current : w.pc ≠ .forgetRefresh → w.ble.active = true → w.ble.current = inUse w.held

theorem fresh_initial (flash : Flash) : Fresh (initial flash) :=
  ⟨alert_initial flash, fun _ => rfl, nofun⟩

theorem stop_inactive (b : Ble) : (BleProvision.stop b).active = false := by
  unfold BleProvision.stop
  split
  · rename_i off
    simpa using off
  · rfl

/-- A step that leaves the server as it is. -/
theorem current_of_still {p : Platform} {w : World} {o : Obs} (fresh : Fresh w)
    (refreshed : Refreshed w (.task o)) (idle : w.pc = .forgetRefresh → w.ble.active = false)
    (away : (taskStep p w o).pc ≠ .forgetRefresh) (on : w.ble.active = true) :
    w.ble.current = inUse (heldAfter p w o) := by
  obtain ⟨-, off, current⟩ := fresh
  unfold heldAfter
  cases pc : w.pc with
  | boot =>
      rw [off pc] at on
      cases on
  | forgetLoad => exact absurd (by simp only [taskStep, pc]) away
  | forgetRefresh =>
      rw [idle pc] at on
      cases on
  | save => exact refreshed pc on
  | _ =>
      refine current ?_ on
      rw [pc]
      rintro ⟨⟩

theorem fresh_next {p : Platform} {w t : World} {e : Event} (fresh : Fresh w)
    (refreshed : Refreshed w e) (step : next p w e = some t) : Fresh t := by
  have alert := alert_next (p := p) fresh.alert step
  rcases next_cases step with ⟨o, rfl, rfl⟩ | ⟨-, pc, held, -, powered⟩
  · have turn := turn_task p w o
    have held := held_taskStep (p := p) fresh.alert o
    refine ⟨alert, fun start => absurd start turn.started, ?_⟩
    intro away on
    cases turn.serves with
    | still same _ _ idle =>
        rw [same.active] at on
        rw [same.current, held]
        exact current_of_still fresh refreshed idle away on
    | loaded _ none same =>
        rw [same.current, inUse, none]
        rfl
    | stuck _ _ _ unchanged same =>
        rw [same.current, unchanged]
        rfl
    | stopped caller badLinks _ _ _ stop =>
        rw [stop, stop_inactive] at on
        cases on
    | refreshed _ _ unchanged same =>
        rw [same.current, unchanged]
        rfl
  · obtain ⟨-, off, current⟩ := fresh
    refine ⟨alert, ?_, ?_⟩
    · rw [pc, powered.active]
      exact off
    · rw [pc, held, powered.active, powered.current]
      exact current

/-- **A client starts from the settings in use**, in every run in which settings are
saved with BLE off, or are the ones a client starts from already. -/
theorem client_starts_current {p : Platform} {flash : Flash} {w : World} {es : List Event}
    (run : ((machine p).restrict fun w e => Refreshed w e).Run (initial flash) es w)
    (away : w.pc ≠ .forgetRefresh) (on : w.ble.active = true) :
    w.ble.current = if w.held.haveActive then w.held.active else zeroed := by
  have fresh : Fresh w := by
    refine Machine.run_preserves (P := Fresh) ?_ (fresh_initial flash) run
    rintro s e t fresh ⟨refreshed, step⟩
    exact fresh_next fresh refreshed step
  exact fresh.current away on

/-- The radio of a hub whose network is gone, opened after three failures. -/
theorem client_starts_current_third : ∃ w : World, w.ble.active = true ∧ w.held.active ≠ zeroed ∧
    w.ble.current = if w.held.haveActive then w.held.active else zeroed := by
  have computed : (Machine.exec (Machine.guarded (fun w e => Refreshed w e) (next homeBuild))
      (initial blank) (List.replicate 15 (.task refused))).any (fun w => decide (
        w.pc ≠ .forgetRefresh ∧ w.ble.active = true ∧ w.held.active ≠ zeroed)) = true := by
    decide +kernel
  obtain ⟨w, run, away, on, some⟩ := Machine.exists_run_of_exec_restrict computed
  exact ⟨w, on, some, client_starts_current run away on⟩

/-- A save that is not, breaks it at once. -/
theorem stale_of_save {p : Platform} {w : World} (o : Obs) (save : w.pc = .save)
    (on : w.ble.active = true) (other : w.ble.current ≠ w.candidate) :
    (taskStep p w o).ble.active = true ∧
      (taskStep p w o).ble.current ≠ inUse (taskStep p w o).held := by
  have turn := turn_task p w o
  have held : (taskStep p w o).held = (w.held.adopt p o.fault w.candidate).2 := by
    simp only [taskStep, save]
    rfl
  cases turn.serves with
  | still same =>
      rw [same.active, same.current, held]
      exact ⟨on, other⟩
  | loaded here => rw [save] at here; cases here
  | stuck off => rw [on] at off; cases off
  | stopped caller badLinks here => rw [save] at here; cases here
  | refreshed here => rw [save] at here; cases here

/-- The hub runs on the settings of its first client; the next one starts from blanks. -/
theorem stale_current : ∃ w es, (machine bench).Run (initial blank) es w ∧
    waits w.pc = true ∧ inTrial w.pc = false ∧ w.ble.active = true ∧
    w.held.haveActive = true ∧ w.held.active = homeNet ∧ w.ble.current = zeroed := by
  have computed : (Machine.exec (next bench) (initial blank)
      (provision ++ [apply] ++ steps 5 .down ++ steps 4 .up ++ [.mqtt .accepted] ++
        steps 4 .up)).any (fun w => decide (waits w.pc = true ∧ inTrial w.pc = false ∧
          w.ble.active = true ∧ w.held.haveActive = true ∧ w.held.active = homeNet ∧
          w.ble.current = zeroed)) = true := by decide +kernel
  obtain ⟨w, run, shown⟩ := Machine.exists_run_of_exec computed
  exact ⟨w, _, run, shown⟩

end IrHub.Firmware.Radio
