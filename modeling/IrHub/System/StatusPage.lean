/-
# System.StatusPage -- the setup page shows the status that the hub is in

The hub pushes its statuses to a queue of four that loses the oldest.  BTstack takes them from
there one by one and the page reads the value once beside them, so what arrives has gaps and may
go back to an older status for a while.  `State` is the hub with what is on its way to the page
of its client; the connection delivers in order, and loses what is on its way when it ends.

`told` is the invariant: hub and page are a `Feed` that is `Current` while the client is
subscribed.  What a step of NetworkTask does to the server is, but for `stop`, to push statuses
with reasons that `State` documents (`tells_task`).
-/
import IrHub.Firmware.Connected
import IrHub.Firmware.Notifications
import IrHub.Firmware.Radio
import IrHub.Frontend.ProvStatus
import IrHub.Theory.Feed

namespace IrHub.System.StatusPage

set_option autoImplicit false

open IrHub.Theory IrHub.Firmware.NetConfig IrHub.Firmware.NetworkTask
open IrHub.Firmware.BleProvision (Ble Callback Status canSendNow invalidReason notifyQueue noIp
  pushStatus sourceByte stateByte statusBytes)
open IrHub.Firmware.Connected (inRunOnline)
open IrHub.Firmware.NetConfigFlash (Flash zeroed)
open IrHub.Firmware.Notifications (Alike unsent)
open IrHub.Firmware IrHub.Frontend.ProvStatus

/-! ## The hub and the page of its client -/

/-- `air` is on its way, the oldest first.  `seen` is history: the last that arrived. -/
structure State where
  hub : World
  air : List Status
  page : Page
  seen : Option Status

/-- `arrives` is the `characteristicvaluechanged` of a notification or of a read. -/
inductive Event where
  | hub (e : NetworkTask.Event)
  | reads
  | arrives
  | applied

/-- What a callback gives to `att_server_notify`. -/
def notified (b : Ble) : NetworkTask.Event → List Status
  | .ble .canSendNow => (canSendNow b).2.toList
  | _ => []

/-- What the client's end of the connection notices of a step. -/
def notice (b : Ble) (e : NetworkTask.Event) (hub : World) (s : State) : State :=
  match e with
  | .ble (.connected _) => ⟨hub, [], setupFind, none⟩
  | _ =>
      if b.con.isSome ∧ hub.ble.con = none then ⟨hub, [], onSetupDisconnected s.page, none⟩
      else ⟨hub, s.air ++ notified b e, s.page, s.seen⟩

@[simp] theorem hub_notice (b : Ble) (e : NetworkTask.Event) (hub : World) (s : State) :
    (notice b e hub s).hub = hub := by
  unfold notice
  split
  · rfl
  · split <;> rfl

def next (p : Platform) (s : State) : Event → Option State
  | .hub e => (NetworkTask.next p s.hub e).map fun hub => notice s.hub.ble e hub s
  | .reads =>
      if s.hub.ble.con.isSome then some { s with air := s.air ++ [s.hub.ble.status] } else none
  | .arrives =>
      match s.air with
      | [] => none
      | status :: rest =>
          some { s with
            air := rest
            page := onProvStatus s.page (statusBytes status)
            seen := some status }
  | .applied =>
      if s.hub.ble.con.isSome then some { s with page := setupApplied s.page } else none

def machine (p : Platform) : Machine State Event :=
  Machine.ofStep (fun s => ∃ flash page, s = ⟨initial flash, [], page, none⟩) (next p)

/-! ## Statuses that mean something -/

/-- The reasons are those of the comments on `State`, and the 0 of a join whose network is lost
at once. -/
def Meaningful (s : Status) : Prop :=
  match s.state with
  | .wifiFailed => s.reason ≤ 3
  | .mqttFailed => 1 ≤ s.reason ∧ s.reason ≤ 3
  | .invalid => 1 ≤ s.reason ∧ s.reason ≤ 4
  | _ => s.reason = 0

theorem meaningful_invalid {why : Invalid} (fails : why ≠ .ok) :
    Meaningful ⟨.invalid, invalidReason why, noIp, 0, .candidate⟩ := by
  cases why with
  | ok => exact absurd rfl fails
  | _ => exact ⟨by decide, by decide⟩

theorem statusBytes_eq (s : Status) : ∃ a b c d,
    statusBytes s = [stateByte s.state, s.reason, a, b, c, d, s.attempt, sourceByte s.source] := by
  obtain ⟨state, reason, ⟨ip, four⟩, attempt, source⟩ := s
  obtain ⟨a, b, c, d, rfl⟩ := List.length_eq_four.mp four
  exact ⟨a, b, c, d, rfl⟩

theorem source_known (source : BleProvision.Source) :
    ∃ text, entry sources ((sourceByte source).toNat : Int) = some text := by
  cases source with
  | stored => exact ⟨_, rfl⟩
  | candidate => exact ⟨_, rfl⟩
  | buildDefaults => exact ⟨_, rfl⟩

/-- A list with a text for each of some bytes. -/
theorem reason_known (texts : List String) (first last : UInt8) {reason : UInt8}
    (each : ∀ n ≤ last.toNat, first.toNat ≤ n →
      (entry texts (UInt8.ofNat n).toInt8.toInt).isSome = true)
    (low : first ≤ reason) (high : reason ≤ last) :
    ∃ text, entry texts reason.toInt8.toInt = some text := by
  have there := each reason.toNat (UInt8.le_iff_toNat_le.mp high) (UInt8.le_iff_toNat_le.mp low)
  rw [UInt8.ofNat_toNat] at there
  exact Option.isSome_iff_exists.mp there

/-- **The page has a text for whatever means something.** -/
theorem Meaningful.named {s : Status} (meaningful : Meaningful s) : Named (statusBytes s) := by
  intro other
  obtain ⟨a, b, c, d, view⟩ := statusBytes_eq s
  obtain ⟨text, known⟩ := source_known s.source
  rw [describeProvStatus, describe, describe, view]
  simp only [getUint8, getInt8, List.getD_cons_zero, List.getD_cons_succ, known, Option.getD_some]
  obtain ⟨state, reason, ip, attempt, source⟩ := s
  cases state with
  | wifiFailed =>
      obtain ⟨text, known⟩ := reason_known wifiReasons 0 3 (by decide) (Nat.zero_le _) meaningful
      simp only [known]
      rfl
  | mqttFailed =>
      obtain ⟨text, known⟩ := reason_known mqttReasons 1 3 (by decide) meaningful.1 meaningful.2
      simp only [known]
      rfl
  | invalid =>
      obtain ⟨text, known⟩ := reason_known invalidFields 1 4 (by decide) meaningful.1 meaningful.2
      simp only [known]
      rfl
  | _ => rfl

/-! ## What a step of the task pushes -/

theorem alike_wait (w : World) : Alike w.ble (waitEvents w).ble :=
  ⟨rfl, rfl, rfl, rfl, rfl, rfl, id⟩

/-- Statuses are pushed, and all else that a client sees stays. -/
def Reports (b after : Ble) : Prop :=
  ∃ pushed : List Status, (∀ s ∈ pushed, Meaningful s) ∧ Alike (pushed.foldl pushStatus b) after

theorem alike_trans {a b c : Ble} (first : Alike a b) (second : Alike b c) : Alike a c where
  status := second.status.trans first.status
  notifyQ := second.notifyQ.trans first.notifyQ
  notifyHead := second.notifyHead.trans first.notifyHead
  notifyCount := second.notifyCount.trans first.notifyCount
  subscribed := second.subscribed.trans first.subscribed
  con := second.con.trans first.con
  active on := second.active (first.active on)

theorem alike_pushStatus {b after : Ble} (alike : Alike b after) (s : Status) :
    Alike (pushStatus b s) (pushStatus after s) := by
  unfold pushStatus
  simp only [alike.subscribed, alike.notifyCount, alike.notifyHead, alike.notifyQ]
  split
  · exact ⟨rfl, rfl, rfl, rfl, rfl, alike.con, alike.active⟩
  · split
    · exact ⟨rfl, rfl, rfl, rfl, rfl, alike.con, alike.active⟩
    · exact ⟨rfl, rfl, rfl, rfl, rfl, alike.con, alike.active⟩

theorem alike_pushes {b after : Ble} (alike : Alike b after) (pushed : List Status) :
    Alike (pushed.foldl pushStatus b) (pushed.foldl pushStatus after) := by
  induction pushed generalizing b after with
  | nil => exact alike
  | cons s rest ih => exact ih (alike_pushStatus alike s)

theorem Reports.of_alike {b after : Ble} (alike : Alike b after) : Reports b after :=
  ⟨[], by simp, alike⟩

theorem Reports.refl (b : Ble) : Reports b b := .of_alike (.refl b)

theorem Reports.trans {a b c : Ble} (first : Reports a b) (second : Reports b c) : Reports a c := by
  obtain ⟨pushed, meaningful, alike⟩ := first
  obtain ⟨later, meaningful', alike'⟩ := second
  refine ⟨pushed ++ later, fun s member => ?_, ?_⟩
  · rcases List.mem_append.mp member with here | here
    · exact meaningful s here
    · exact meaningful' s here
  · rw [List.foldl_append]
    exact alike_trans (alike_pushes alike later) alike'

theorem reports_ite {a b c : Ble} {P : Prop} [Decidable P] (yes : Reports a b) (no : Reports a c) :
    Reports a (if P then b else c) := by
  split
  · exact yes
  · exact no

theorem reports_reportBle (b : Ble) {s : Status} (meaningful : Meaningful s) :
    Reports b (reportBle b s) := by
  refine reports_ite (.refl b) ⟨[s], ?_, .refl _⟩
  intro other member
  obtain rfl := List.mem_singleton.mp member
  exact meaningful

theorem reports_startBle (w : World) : Reports w.ble (startBle w).ble :=
  .of_alike ⟨rfl, rfl, rfl, rfl, rfl, rfl, fun _ => rfl⟩

/-- The reason that a caller holds is one to report. -/
def LeaveReasoned : Leave → Prop
  | .joinFailed _ reason => reason ≤ 3
  | _ => True

def AbortReasoned : Abort → Prop
  | .waitFailed _ reason => 1 ≤ reason ∧ reason ≤ 3
  | _ => True

def Reasoned : Pc → Prop
  | .wifiCheck _ reason => reason ≤ 3
  | .leave cause => LeaveReasoned cause
  | .leavePoll cause _ => LeaveReasoned cause
  | .abort cause => AbortReasoned cause
  | .mqttDisconnect cause => AbortReasoned cause
  | _ => True

/-- What the server says while `run_online` goes: an apply may be refused meanwhile. -/
def Settled (s : Status) : Prop := s.state = .online ∨ s.state = .saveFailed ∨ s.state = .invalid

structure Placed (w : World) : Prop where
  reasoned : Reasoned w.pc
  settled : inRunOnline w.pc = true → w.ble.active = true →
    w.pc = .runOnline .main ∨ Settled w.ble.status

/-- Statuses are pushed, and the task is at a place where it belongs. -/
structure Tells (b : Ble) (t : World) : Prop where
  reports : Reports b t.ble
  placed : Placed t

theorem placed_away {w : World} (reasoned : Reasoned w.pc) (away : inRunOnline w.pc = false) :
    Placed w where
  reasoned := reasoned
  settled here := by
    rw [away] at here
    cases here

theorem tells_away {b : Ble} {t : World} (reports : Reports b t.ble) (reasoned : Reasoned t.pc)
    (away : inRunOnline t.pc = false) : Tells b t := ⟨reports, placed_away reasoned away⟩

theorem tells_ite {b : Ble} {t u : World} {P : Prop} [Decidable P] (yes : Tells b t)
    (no : Tells b u) : Tells b (if P then t else u) := by
  split
  · exact yes
  · exact no

/-- Nothing is said, and `run_online` goes on. -/
theorem tells_same {w t : World} (placed : Placed w) (alike : Alike w.ble t.ble)
    (active : t.ble.active = w.ble.active) (reasoned : Reasoned t.pc)
    (online : inRunOnline w.pc = true) (other : w.pc ≠ .runOnline .main) : Tells w.ble t := by
  refine ⟨.of_alike alike, reasoned, fun _ on => ?_⟩
  rw [alike.status]
  rcases placed.settled online (active.symm.trans on) with begins | settled
  · exact absurd begins other
  · exact .inr settled

theorem tells_failed (w : World) (call : Call) (wifi : Bool) (reason : UInt8) (high : reason ≤ 3)
    (low : wifi = false → 1 ≤ reason) : Tells w.ble (bringUpFailed w call wifi reason) := by
  have meaningful : ∀ source attempt, Meaningful
      ⟨if wifi then .wifiFailed else .mqttFailed, reason, noIp, attempt, source⟩ := by
    intro source attempt
    cases wifi with
    | true => exact high
    | false => exact ⟨low rfl, high⟩
  cases call with
  | main wifiFails mqttFails =>
      refine tells_away ?_ trivial rfl
      have reports := reports_reportBle w.ble (meaningful (source w (.main wifiFails mqttFails))
        (attempt (.main wifiFails mqttFails)))
      exact reports_ite (reports.trans (reports_startBle (report w _ _ _ _ _))) reports
  | commit attempt wifiTries mqttTries =>
      have reports := reports_reportBle w.ble (meaningful .candidate (UInt8.ofNat attempt))
      exact tells_ite (tells_away reports trivial rfl) (tells_away reports trivial rfl)

theorem tells_bringUpAborted (w : World) (call : Call) : Tells w.ble (bringUpAborted w call) := by
  cases call with
  | main wifiFails mqttFails => exact tells_away (.refl _) trivial rfl
  | commit attempt wifiTries mqttTries => exact tells_away (.refl _) trivial rfl

theorem tells_online (w : World) (call : Call) : Tells w.ble (bringUpOnline w call) := by
  cases call with
  | main wifiFails mqttFails => exact ⟨.refl _, trivial, fun _ _ => .inl rfl⟩
  | commit attempt wifiTries mqttTries => exact tells_away (.refl _) trivial rfl

theorem tells_left (w : World) {cause : Leave} (reasoned : LeaveReasoned cause) :
    Tells w.ble (left w cause) := by
  cases cause with
  | join call => exact tells_away (.refl _) trivial rfl
  | joinAborted call =>
      exact tells_bringUpAborted { w with wifiUp := false, joined := zeroed, lastJoin := none } call
  | joinFailed call reason =>
      exact tells_failed { w with wifiUp := false, joined := zeroed, lastJoin := none } call true
        reason reasoned (by rintro ⟨⟩)
  | forget => exact tells_away (.refl _) trivial rfl

theorem tells_mqttAborted (w : World) {cause : Abort} (reasoned : AbortReasoned cause) :
    Tells w.ble (aborted w cause) := by
  cases cause with
  | start call => exact tells_away (.refl _) trivial rfl
  | waitFailed call reason => exact tells_failed w call false reason reasoned.2 fun _ => reasoned.1
  | waitAborted call => exact tells_bringUpAborted _ call
  | reverted =>
      refine tells_away ?_ trivial rfl
      have reports : Reports w.ble (report w .reverted 0 w.held.activeSource 0 noIp).ble :=
        reports_reportBle w.ble rfl
      refine reports_ite reports (reports.trans ?_)
      exact reports_reportBle _ rfl
  | forget => exact tells_away (.refl _) trivial rfl

theorem tells_return (w : World) (caller : Caller) : Tells w.ble (onlineReturn w caller) := by
  cases caller with
  | main =>
      unfold onlineReturn
      dsimp only
      split
      · exact tells_away (.refl _) trivial rfl
      · exact tells_away (.refl _) trivial rfl
  | commit => exact tells_away (.refl _) trivial rfl

theorem reports_loadActive (p : Platform) (w : World) : Reports w.ble (loadActive p w).ble := by
  refine reports_ite (.refl _) ?_
  exact (reports_startBle { w with held := w.held.load p }).trans (reports_reportBle _ rfl)

theorem settled_reportBle {b : Ble} {s : Status} (settled : Settled s)
    (on : (reportBle b s).active = true) : Settled (reportBle b s).status := by
  unfold reportBle at on ⊢
  split at on
  · rename_i off
    rw [on] at off
    cases off
  · rename_i off
    rw [if_neg off]
    exact ((Notifications.pushStatus_subscribed b s).2.2.2).symm ▸ settled

theorem tells_settled {b : Ble} {t : World} {s : Status} (same : t.ble = reportBle b s)
    (meaningful : Meaningful s) (settled : Settled s) (reasoned : Reasoned t.pc) : Tells b t := by
  refine ⟨same ▸ reports_reportBle b meaningful, reasoned, fun _ on => .inr ?_⟩
  rw [same] at on ⊢
  exact settled_reportBle settled on

theorem tells_check (w : World) (call : Call) {reason : UInt8} (small : reason ≤ 3) :
    Tells w.ble { w with pc := .wifiCheck call reason } := tells_away (.refl _) small rfl

theorem tells_abort (w : World) (call : Call) {reason : UInt8} (low : 1 ≤ reason)
    (high : reason ≤ 3) : Tells w.ble { w with pc := .abort (.waitFailed call reason) } :=
  tells_away (.refl _) ⟨low, high⟩ rfl

theorem tells_dispatch (w : World) (wifiFails mqttFails : Nat) :
    Tells w.ble (dispatch w wifiFails mqttFails) := by
  unfold dispatch
  split
  · exact tells_away (.refl _) trivial rfl
  split
  · dsimp only
    split
    · exact tells_away (.refl _) trivial rfl
    · rename_i candidate ble taken
      refine tells_away (.of_alike ?_) trivial rfl
      unfold BleProvision.takeCandidate at taken
      split at taken
      · cases taken
      · cases taken
        exact ⟨rfl, rfl, rfl, rfl, rfl, rfl, id⟩
  · dsimp only
    split <;> exact tells_away (.refl _) trivial rfl

theorem tells_wifiPoll (w : World) (o : Obs) (call : Call) (elapsed : Nat) :
    Tells w.ble (wifiPoll w o call elapsed) := by
  unfold wifiPoll
  refine tells_ite (tells_check w call (by decide)) ?_
  refine tells_ite (tells_check w call (by decide)) ?_
  refine tells_ite (tells_check w call (by decide)) ?_
  refine tells_ite (tells_check w call (by decide)) ?_
  exact tells_ite (tells_check w call (by decide)) (tells_away (.refl _) trivial rfl)

theorem tells_mqttStart (p : Platform) (w : World) (call : Call) :
    Tells w.ble (mqttStart p w call) := by
  unfold mqttStart
  dsimp only
  have reports : Reports w.ble
      (report w .mqttConnecting 0 (source w call) (attempt call) noIp).ble :=
    reports_reportBle w.ble rfl
  generalize report w .mqttConnecting 0 (source w call) (attempt call) noIp = u at reports ⊢
  split
  · obtain ⟨more, placed⟩ := tells_failed u call false 3 (by decide) fun _ => by decide
    exact ⟨reports.trans more, placed⟩
  · exact tells_ite (tells_away reports trivial rfl) (tells_away reports trivial rfl)

theorem tells_mqttPoll (w : World) (o : Obs) (call : Call) (elapsed : Nat) :
    Tells w.ble (mqttPoll w o call elapsed) := by
  unfold mqttPoll
  refine tells_ite (tells_online w call) ?_
  split
  · exact tells_abort w call (by decide) (by decide)
  · exact tells_abort w call (by decide) (by decide)
  · exact tells_abort w call (by decide) (by decide)
  · exact tells_ite (tells_abort w call (by decide) (by decide))
      (tells_away (.refl _) trivial rfl)

theorem tells_saveCandidate (p : Platform) (w : World) (o : Obs) :
    Tells w.ble (saveCandidate p w o) := by
  unfold saveCandidate
  dsimp only
  split
  · exact tells_settled rfl rfl (.inl rfl) trivial
  · exact tells_settled rfl rfl (.inr (.inl rfl)) trivial

/-! `run_online` says something at its begin, if anything. -/

section Online

variable {w : World} (placed : Placed w) (online : inRunOnline w.pc = true)
  (other : w.pc ≠ .runOnline .main)

include placed online other

theorem tells_onlineEvents (caller : Caller) (badLinks : Nat) :
    Tells w.ble (onlineEvents w caller badLinks) := by
  unfold onlineEvents
  dsimp only
  split
  · obtain ⟨reports, placed⟩ := tells_return (waitEvents w) caller
    exact ⟨(Reports.of_alike (alike_wait w)).trans reports, placed⟩
  · exact tells_ite (tells_same placed (alike_wait w) rfl trivial online other)
      (tells_same placed (alike_wait w) rfl trivial online other)

theorem tells_onlineBle (o : Obs) (caller : Caller) (badLinks : Nat) :
    Tells w.ble (onlineBle w o caller badLinks) :=
  tells_ite (tells_same placed (.refl _) rfl trivial online other)
    (tells_same placed (.refl _) rfl trivial online other)

theorem tells_onlineLink (o : Obs) (caller : Caller) (badLinks : Nat) :
    Tells w.ble (onlineLink w o caller badLinks) := by
  rcases onlineLink_cases w o caller badLinks with ⟨wifiUp, -, after⟩ | ⟨badLinks', after⟩
  · rw [after]
    exact tells_return { w with wifiUp, mqttUp := false } caller
  · rw [after]
    exact tells_same placed (.refl _) rfl trivial online other

end Online

/-- **A step of the task pushes statuses that mean something**, unless it stops the server. -/
theorem tells_task {p : Platform} {w : World} (placed : Placed w) (o : Obs)
    (stays : ∀ caller badLinks, w.pc ≠ .onlineStop caller badLinks) :
    Tells w.ble (taskStep p w o) := by
  have reasoned := placed.reasoned
  unfold taskStep
  cases pc : w.pc with
  | boot => exact tells_away (reports_loadActive p w) trivial rfl
  | dispatch wifiFails mqttFails => exact tells_dispatch w wifiFails mqttFails
  | idle wifiFails mqttFails => exact tells_away (.of_alike (alike_wait w)) trivial rfl
  | bringUp call =>
      refine tells_ite (tells_away (.refl _) trivial rfl) ?_
      exact tells_away (reports_reportBle w.ble rfl) trivial rfl
  | leave cause =>
      rw [pc] at reasoned
      exact tells_ite (tells_left w reasoned) (tells_away (.refl _) reasoned rfl)
  | leavePoll cause polls =>
      rw [pc] at reasoned
      exact tells_ite (tells_away (.refl _) reasoned rfl) (tells_left w reasoned)
  | wifiConnect call =>
      refine tells_ite (tells_away (.refl _) trivial rfl) ?_
      exact tells_failed w call true 3 (by decide) (by rintro ⟨⟩)
  | wifiPoll call elapsed => exact tells_wifiPoll w o call elapsed
  | wifiWait call elapsed =>
      exact tells_ite (tells_away (.of_alike (alike_wait w)) trivial rfl)
        (tells_away (.of_alike (alike_wait w)) trivial rfl)
  | wifiCheck call reason =>
      rw [pc] at reasoned
      exact tells_ite (tells_away (.refl _) reasoned rfl) (tells_away (.refl _) trivial rfl)
  | mqttStart call => exact tells_mqttStart p w call
  | abort cause =>
      rw [pc] at reasoned
      exact tells_ite (tells_away (.refl _) reasoned rfl)
        (tells_mqttAborted { w with mqttUp := false } reasoned)
  | mqttDisconnect cause =>
      rw [pc] at reasoned
      exact tells_mqttAborted { w with connection := none } reasoned
  | mqttConnect call =>
      refine tells_ite (tells_away (.refl _) trivial rfl) ?_
      exact tells_failed { w with mqttUp := false, mqttStatus := .pending } call false 3 (by decide)
        fun _ => by decide
  | mqttPoll call elapsed => exact tells_mqttPoll w o call elapsed
  | mqttWait call elapsed =>
      exact tells_ite (tells_away (.of_alike (alike_wait w)) trivial rfl)
        (tells_away (.of_alike (alike_wait w)) trivial rfl)
  | mainWait wifiFails mqttFails => exact tells_away (.of_alike (alike_wait w)) trivial rfl
  | commitWait attempt wifiTries mqttTries =>
      exact tells_ite (tells_away (.of_alike (alike_wait w)) trivial rfl)
        (tells_away (.of_alike (alike_wait w)) trivial rfl)
  | save => exact tells_saveCandidate p w o
  | runOnline caller =>
      cases caller with
      | main => exact tells_settled rfl rfl (.inl rfl) trivial
      | commit =>
          exact tells_same placed (.refl _) rfl trivial (by rw [pc]; rfl) (by rw [pc]; rintro ⟨⟩)
  | online caller badLinks =>
      refine tells_ite ?_ (tells_return w caller)
      exact tells_same placed (.refl _) rfl trivial (by rw [pc]; rfl) (by rw [pc]; rintro ⟨⟩)
  | onlineEvents caller badLinks =>
      exact tells_onlineEvents placed (by rw [pc]; rfl) (by rw [pc]; rintro ⟨⟩) caller badLinks
  | onlineBle caller badLinks =>
      exact tells_onlineBle placed (by rw [pc]; rfl) (by rw [pc]; rintro ⟨⟩) o caller badLinks
  | onlineStop caller badLinks => exact absurd pc (stays caller badLinks)
  | onlineLink caller badLinks =>
      exact tells_onlineLink placed (by rw [pc]; rfl) (by rw [pc]; rintro ⟨⟩) o caller badLinks
  | lostWait => exact tells_away (.of_alike (alike_wait w)) trivial rfl
  | forgetErase => exact tells_away (.refl _) trivial rfl
  | forgetLoad => exact tells_away (reports_loadActive p w) trivial rfl
  | forgetRefresh => exact tells_away (reports_ite (reports_startBle w) (.refl _)) trivial rfl

/-! ## What a callback pushes -/

theorem subscribed_applyValue (b : Ble) (handle : BleProvision.Attribute) (data : List UInt8) :
    (BleProvision.applyValue b handle data).1.subscribed = b.subscribed := by
  unfold BleProvision.applyValue
  split
  · cases handle with
    | cmd =>
        unfold BleProvision.applyCommand
        dsimp only
        split
        · rfl
        · split
          · split
            · exact (Notifications.pushStatus_subscribed b _).1
            · rfl
          · split <;> rfl
    | port =>
        dsimp only
        split <;> rfl
    | _ => rfl
  · rfl

theorem subscribed_write {b : Ble} {handle : BleProvision.Attribute}
    {mode : BleProvision.Transaction} {offset : Nat} {data : List UInt8}
    (silent : Notifications.reported b (.callback (.write handle mode offset data)) = none)
    (on : (BleProvision.attWriteCb b handle mode offset data).1.subscribed = true) :
    b.subscribed = true := by
  cases mode with
  | none =>
      simp only [Notifications.reported] at silent
      simp only [BleProvision.attWriteCb] at on
      split at silent
      · rename_i subscription
        rw [if_pos subscription] at on
        split at silent
        · cases silent
        · rename_i off
          simp only [off, decide_false, Bool.false_eq_true, if_false] at on
      · rename_i other
        rw [if_neg other, subscribed_applyValue] at on
        exact on
  | active =>
      simp only [BleProvision.attWriteCb] at on
      split at on
      · exact on
      · split at on <;> exact on
  | validate => exact on
  | execute =>
      simp only [BleProvision.attWriteCb] at on
      cases prepared : b.prepHandle with
      | none =>
          rw [prepared] at on
          exact on
      | some handle =>
          rw [prepared] at on
          exact (subscribed_applyValue b handle _).symm.trans on
  | cancel => exact on

/-- Who subscribes is told where things stand. -/
theorem subscribed_silent {b after : Ble} {e : Callback}
    (happens : BleProvision.callback b e = some after)
    (silent : Notifications.reported b (.callback e) = none) (on : after.subscribed = true) :
    b.subscribed = true := by
  cases e with
  | connected con =>
      simp only [BleProvision.callback] at happens
      split at happens
      · cases happens
        cases on
      · cases happens
  | disconnected =>
      cases happens
      unfold BleProvision.disconnected at on
      split at on
      · exact on
      · cases on
  | canSendNow =>
      cases happens
      unfold canSendNow at on
      split at on <;> exact on
  | write handle mode offset data =>
      simp only [BleProvision.callback] at happens
      split at happens
      · cases happens
        exact subscribed_write silent on
      · cases happens

theorem refused_value {b : Ble} {handle : BleProvision.Attribute} {data : List UInt8} {s : Status}
    (reports : Notifications.reportedValue b handle data = some s) :
    s.state = .invalid ∧ Meaningful s := by
  unfold Notifications.reportedValue at reports
  split at reports
  · rename_i refused
    cases reports
    exact ⟨rfl, meaningful_invalid refused.2.2⟩
  · cases reports

/-- What a callback pushes is the status it finds, or that the settings are refused. -/
theorem reported_callback {b : Ble} {e : Callback} {s : Status}
    (reports : Notifications.reported b (.callback e) = some s) :
    s = b.status ∨ (s.state = .invalid ∧ Meaningful s) := by
  cases e with
  | connected con => cases reports
  | disconnected => cases reports
  | canSendNow => cases reports
  | write handle mode offset data =>
      cases mode with
      | none =>
          simp only [Notifications.reported] at reports
          split at reports
          · split at reports
            · exact .inl (Option.some.inj reports).symm
            · cases reports
          · exact .inr (refused_value reports)
      | execute =>
          obtain ⟨prepared, -, refused⟩ := Option.bind_eq_some_iff.mp reports
          exact .inr (refused_value refused)
      | active => cases reports
      | validate => cases reports
      | cancel => cases reports

/-! ## What is on its way -/

/-- What the page has seen is what arrived last. -/
def see (_ : Option Status) (s : Status) : Option Status := some s

def feed (b : Ble) (air : List Status) (seen : Option Status) : Feed Status (Option Status) :=
  ⟨b.status, unsent b, air, seen⟩

/-- All that there is to tell means something. -/
structure Fine (b : Ble) (air : List Status) : Prop where
  count : b.notifyCount ≤ notifyQueue
  status : Meaningful b.status
  waiting : ∀ s ∈ unsent b, Meaningful s
  air : ∀ s ∈ air, Meaningful s

/-- A subscriber comes to the status that the server is in. -/
structure Good (b : Ble) (air : List Status) (seen : Option Status) : Prop where
  fine : Fine b air
  current : b.subscribed = true → (feed b air seen).Current see

theorem overwrites_see : Feed.Overwrites see := fun _ _ _ => rfl

theorem Fine.alike {b after : Ble} {air : List Status} (fine : Fine b air) (alike : Alike b after) :
    Fine after air where
  count := alike.notifyCount ▸ fine.count
  status := alike.status ▸ fine.status
  waiting := by
    rw [alike.unsent]
    exact fine.waiting
  air := fine.air

theorem Good.alike {b after : Ble} {air : List Status} {seen : Option Status}
    (good : Good b air seen) (alike : Alike b after) : Good after air seen where
  fine := good.fine.alike alike
  current on := by
    rw [feed, alike.unsent, alike.status]
    exact good.current (alike.subscribed ▸ on)

/-- A push brings a subscriber up to date. -/
theorem Fine.push {b : Ble} {air : List Status} (fine : Fine b air) {s : Status}
    (meaningful : Meaningful s) (seen : Option Status) : Good (pushStatus b s) air seen := by
  have same := Notifications.pushStatus_subscribed b s
  by_cases subscribed : b.subscribed = true
  · obtain ⟨queue, count⟩ := Notifications.unsent_pushStatus s fine.count subscribed
    refine ⟨⟨count, ?_, ?_, fine.air⟩, fun _ => ?_⟩
    · rw [same.2.2.2]
      exact meaningful
    · intro other member
      rw [queue] at member
      rcases List.mem_append.mp member with before | last
      · refine fine.waiting other ?_
        split at before
        · exact List.mem_of_mem_drop before
        · exact before
      · rw [List.mem_singleton.mp last]
        exact meaningful
    · rw [feed, queue, same.2.2.2]
      exact Feed.Current.publish overwrites_see notifyQueue s (feed b air seen)
  · have silent : b.subscribed = false := by simpa using subscribed
    rw [Notifications.pushStatus_unsubscribed s silent]
    exact ⟨⟨fine.count, meaningful, fine.waiting, fine.air⟩, fun on => absurd on subscribed⟩

theorem Good.pushes {b : Ble} {air : List Status} {seen : Option Status} (good : Good b air seen)
    {pushed : List Status} (meaningful : ∀ s ∈ pushed, Meaningful s) :
    Good (pushed.foldl pushStatus b) air seen := by
  induction pushed generalizing b with
  | nil => exact good
  | cons s rest ih =>
      refine ih (good.fine.push (meaningful s List.mem_cons_self) seen) fun other member => ?_
      exact meaningful other (List.mem_cons_of_mem _ member)

theorem Good.reports {b after : Ble} {air : List Status} {seen : Option Status}
    (good : Good b air seen) (reports : Reports b after) : Good after air seen := by
  obtain ⟨pushed, meaningful, alike⟩ := reports
  exact (good.pushes meaningful).alike alike

theorem Good.sends {b : Ble} {air : List Status} {seen : Option Status} (good : Good b air seen) :
    Good (canSendNow b).1 (air ++ (canSendNow b).2.toList) seen := by
  by_cases quiet : b.notifyCount = 0 ∨ b.con = none
  · rw [Notifications.canSendNow_waits quiet, Option.toList_none, List.append_nil]
    exact good
  · obtain ⟨waiting, con⟩ := not_or.mp quiet
    obtain ⟨oldest, others⟩ := Notifications.canSendNow_sends waiting con
    have first : (canSendNow b).2.toList = (unsent b).take 1 := by
      rw [oldest]
      cases unsent b <;> rfl
    have shape : (canSendNow b).1.status = b.status ∧ (canSendNow b).1.subscribed = b.subscribed ∧
        (canSendNow b).1.notifyCount = b.notifyCount - 1 := by
      rw [canSendNow, if_neg quiet]
      exact ⟨rfl, rfl, rfl⟩
    obtain ⟨status, subscribed, count⟩ := shape
    refine ⟨⟨?_, status ▸ good.fine.status, ?_, ?_⟩, fun on => ?_⟩
    · rw [count]
      exact (Nat.sub_le _ _).trans good.fine.count
    · rw [others]
      exact fun s member => good.fine.waiting s (List.mem_of_mem_drop member)
    · rw [first]
      intro s member
      rcases List.mem_append.mp member with before | sent
      · exact good.fine.air s before
      · exact good.fine.waiting s (List.mem_of_mem_take sent)
    · rw [feed, others, first, status]
      exact (good.current (subscribed ▸ on)).send

theorem Good.read {b : Ble} {air : List Status} {seen : Option Status} (good : Good b air seen) :
    Good b (air ++ [b.status]) seen where
  fine := by
    refine ⟨good.fine.count, good.fine.status, good.fine.waiting, fun s member => ?_⟩
    rcases List.mem_append.mp member with before | last
    · exact good.fine.air s before
    · rw [List.mem_singleton.mp last]
      exact good.fine.status
  current on := (good.current on).read overwrites_see

theorem Good.arrive {b : Ble} {s : Status} {rest : List Status} {seen : Option Status}
    (good : Good b (s :: rest) seen) : Good b rest (some s) where
  fine := by
    refine ⟨good.fine.count, good.fine.status, good.fine.waiting, fun other member => ?_⟩
    exact good.fine.air other (List.mem_cons_of_mem _ member)
  current on := (good.current on).arrive rfl

/-- Nothing waits for who has just connected, or has left. -/
theorem Fine.restart {b after : Ble} {air air' : List Status} (fine : Fine b air)
    (status : after.status = b.status) (silent : after.subscribed = false)
    (empty : after.notifyCount = 0) (fewer : air' ⊆ air) (seen : Option Status) :
    Good after air' seen where
  fine := by
    refine ⟨empty ▸ Nat.zero_le _, status ▸ fine.status, ?_, fun s member => ?_⟩
    · rw [unsent, empty]
      rintro s ⟨⟩
    · exact fine.air s (fewer member)
  current on := by
    rw [silent] at on
    cases on

theorem Reports.con {b after : Ble} (reports : Reports b after) : after.con = b.con := by
  obtain ⟨pushed, -, alike⟩ := reports
  rw [alike.con]
  clear alike
  induction pushed generalizing b with
  | nil => rfl
  | cons s rest ih => exact ih.trans (Notifications.pushStatus_subscribed b s).2.1

theorem Reports.subscribed {b after : Ble} (reports : Reports b after) :
    after.subscribed = b.subscribed := by
  obtain ⟨pushed, -, alike⟩ := reports
  rw [alike.subscribed]
  clear alike
  induction pushed generalizing b with
  | nil => rfl
  | cons s rest ih => exact ih.trans (Notifications.pushStatus_subscribed b s).1

theorem notified_other (b : Ble) {e : Callback} (other : e ≠ .canSendNow) :
    notified b (.ble e) = [] := by
  cases e with
  | canSendNow => exact absurd rfl other
  | _ => rfl

/-- Within a connection a callback tells what it has to. -/
theorem good_callback {b after : Ble} {e : Callback} {air : List Status} {seen : Option Status}
    (good : Good b air seen) (happens : BleProvision.callback b e = some after)
    (inside : Notifications.reconnects (.callback e) = false) :
    Good after (air ++ notified b (.ble e)) seen ∧ after.con = b.con ∧
      (after.status = b.status ∨ after.status.state = .invalid) := by
  have moves := Notifications.next_moves (e := .callback e) happens inside
  generalize reports : Notifications.reported b (.callback e) = pushed at moves
  cases moves with
  | pushes s _ alike kept =>
      have same := Notifications.pushStatus_subscribed { b with subscribed := after.subscribed } s
      have other : e ≠ .canSendNow := by
        rintro rfl
        cases reports
      have status : after.status = s := alike.status.trans same.2.2.2
      have meaningful : Meaningful s := by
        rcases reported_callback reports with rfl | ⟨-, meaningful⟩
        · exact good.fine.status
        · exact meaningful
      have fine : Fine { b with subscribed := after.subscribed } air :=
        ⟨good.fine.count, good.fine.status, good.fine.waiting, good.fine.air⟩
      rw [notified_other b other, List.append_nil]
      refine ⟨(fine.push meaningful seen).alike alike, alike.con.trans same.2.1, ?_⟩
      rw [status]
      rcases reported_callback reports with same | ⟨invalid, -⟩
      · exact .inl same
      · exact .inr invalid
  | sends alike =>
      have kept : (canSendNow b).1.con = b.con ∧ (canSendNow b).1.status = b.status := by
        unfold canSendNow
        split <;> exact ⟨rfl, rfl⟩
      exact ⟨good.sends.alike alike, alike.con.trans kept.1, .inl (alike.status.trans kept.2)⟩
  | spares _ other alike kept =>
      have quiet : e ≠ .canSendNow := by
        rintro rfl
        exact other rfl
      rw [notified_other b quiet, List.append_nil]
      refine ⟨Good.alike ⟨?_, fun on => ?_⟩ alike, alike.con, .inl alike.status⟩
      · exact ⟨good.fine.count, good.fine.status, good.fine.waiting, good.fine.air⟩
      · exact good.current (subscribed_silent happens reports on)

/-! ## The invariant -/

/-- The page shows a status, or that `setupApply` is through since. -/
structure Shows (page : Page) (s : Status) : Prop where
  lastState : page.lastState = some (stateByte s.state)
  text : page.text = describeProvStatus (statusBytes s) ∨ page.text = settingsSent

structure Told (s : State) : Prop where
  placed : Placed s.hub
  alone : s.hub.ble.con = none → s.hub.ble.subscribed = false
  good : Good s.hub.ble s.air s.seen
  shows : ∀ status, s.seen = some status → Shows s.page status

theorem shows_arrived (page : Page) (s : Status) : Shows (onProvStatus page (statusBytes s)) s := by
  obtain ⟨a, b, c, d, view⟩ := statusBytes_eq s
  have long : 8 ≤ (statusBytes s).length := by rw [view]; exact Nat.le_refl 8
  rw [onProvStatus_long page long]
  exact ⟨by rw [view]; rfl, .inl rfl⟩

theorem told_initial (flash : Flash) (page : Page) : Told ⟨initial flash, [], page, none⟩ where
  placed := placed_away trivial rfl
  alone _ := rfl
  good := by
    refine ⟨⟨Nat.zero_le _, rfl, ?_, ?_⟩, ?_⟩
    · rintro s ⟨⟩
    · rintro s ⟨⟩
    · rintro ⟨⟩
  shows := by rintro status ⟨⟩

/-- The connection goes on as it was. -/
theorem told_goes {s : State} {hub : World} {e : NetworkTask.Event} (told : Told s)
    (placed : Placed hub) (other : ∀ con, e ≠ .ble (.connected con))
    (con : hub.ble.con = s.hub.ble.con)
    (alone : s.hub.ble.con = none → hub.ble.subscribed = false)
    (good : Good hub.ble (s.air ++ notified s.hub.ble e) s.seen) :
    Told (notice s.hub.ble e hub s) := by
  unfold notice
  split
  · rename_i con
    exact absurd rfl (other con)
  · have stays : ¬(s.hub.ble.con.isSome ∧ hub.ble.con = none) := by
      rintro ⟨there, gone⟩
      rw [← con, gone] at there
      cases there
    rw [if_neg stays]
    exact ⟨placed, fun gone => alone (con ▸ gone), good, told.shows⟩

theorem told_silent {s : State} {hub : World} {e : NetworkTask.Event} (told : Told s)
    (placed : Placed hub) (other : ∀ con, e ≠ .ble (.connected con))
    (con : hub.ble.con = s.hub.ble.con)
    (alone : s.hub.ble.con = none → hub.ble.subscribed = false)
    (quiet : notified s.hub.ble e = []) (good : Good hub.ble s.air s.seen) :
    Told (notice s.hub.ble e hub s) := by
  refine told_goes told placed other con alone ?_
  rw [quiet, List.append_nil]
  exact good

/-- There is no client any more. -/
theorem told_left {s : State} {hub : World} {e : NetworkTask.Event} (told : Told s)
    (placed : Placed hub) (other : ∀ con, e ≠ .ble (.connected con))
    (quiet : notified s.hub.ble e = []) (gone : hub.ble.con = none)
    (status : hub.ble.status = s.hub.ble.status) (silent : hub.ble.subscribed = false)
    (empty : hub.ble.notifyCount = 0) : Told (notice s.hub.ble e hub s) := by
  cases con : s.hub.ble.con with
  | none =>
      refine told_silent told placed other (gone.trans con.symm) (fun _ => silent) quiet ?_
      exact told.good.fine.restart status silent empty (List.Subset.refl _) _
  | some there =>
      unfold notice
      split
      · rename_i con
        exact absurd rfl (other con)
      · rw [if_pos ⟨by rw [con]; rfl, gone⟩]
        refine ⟨placed, fun _ => silent, ?_, by rintro status ⟨⟩⟩
        exact told.good.fine.restart status silent empty (List.nil_subset _) _

theorem taskStep_stop {p : Platform} {w : World} {o : Obs} {caller : Caller} {badLinks : Nat}
    (pc : w.pc = .onlineStop caller badLinks) :
    (taskStep p w o).pc = .onlineLink caller badLinks ∧
      (taskStep p w o).ble = BleProvision.stop w.ble := by
  unfold taskStep
  rw [pc]
  exact ⟨rfl, rfl⟩

theorem told_task {p : Platform} {s : State} (told : Told s) (o : Obs) :
    Told (notice s.hub.ble (.task o) (taskStep p s.hub o) s) := by
  have other : ∀ con, NetworkTask.Event.task o ≠ .ble (.connected con) := by rintro con ⟨⟩
  by_cases stays : ∀ caller badLinks, s.hub.pc ≠ .onlineStop caller badLinks
  · obtain ⟨reports, placed⟩ := tells_task told.placed (p := p) o stays
    refine told_silent told placed other reports.con (fun gone => ?_) rfl
      (told.good.reports reports)
    rw [reports.subscribed]
    exact told.alone gone
  · obtain ⟨caller, badLinks, pc⟩ : ∃ caller badLinks, s.hub.pc = .onlineStop caller badLinks := by
      simpa using stays
    obtain ⟨pc', ble⟩ := taskStep_stop (p := p) (o := o) pc
    by_cases on : s.hub.ble.active = true
    · have stops : (taskStep p s.hub o).ble.active = false := by
        rw [ble]
        exact Radio.stop_inactive _
      rw [BleProvision.stop, if_neg (by simp [on])] at ble
      refine told_left told ⟨by rw [pc']; trivial, fun _ running => ?_⟩ other rfl ?_ ?_ ?_ ?_
      · rw [stops] at running
        cases running
      all_goals rw [ble]; rfl
    · have off : s.hub.ble.active = false := by simpa using on
      rw [BleProvision.stop, if_pos (by simp [off])] at ble
      have placed : Placed (taskStep p s.hub o) :=
        ⟨by rw [pc']; trivial, fun _ running => absurd (ble ▸ running) on⟩
      refine told_silent told placed other (by rw [ble]) (by rw [ble]; exact told.alone) rfl ?_
      rw [ble]
      exact told.good

theorem placed_callback {w hub : World} (placed : Placed w) (pc : hub.pc = w.pc)
    (active : hub.ble.active = w.ble.active)
    (status : hub.ble.status = w.ble.status ∨ hub.ble.status.state = .invalid) : Placed hub where
  reasoned := pc ▸ placed.reasoned
  settled here on := by
    rw [pc] at here ⊢
    rcases placed.settled here (active ▸ on) with begins | settled
    · exact .inl begins
    · rcases status with same | invalid
      · exact .inr (same ▸ settled)
      · exact .inr (.inr (.inr invalid))

theorem status_callback {b after : Ble} {e : Callback} {air : List Status} {seen : Option Status}
    (good : Good b air seen) (happens : BleProvision.callback b e = some after) :
    after.status = b.status ∨ after.status.state = .invalid := by
  cases again : Notifications.reconnects (.callback e) with
  | false => exact (good_callback good happens again).2.2
  | true =>
      refine .inl ?_
      cases e with
      | connected con =>
          simp only [BleProvision.callback] at happens
          split at happens
          · cases happens
            rfl
          · cases happens
      | disconnected =>
          cases happens
          unfold BleProvision.disconnected
          split <;> rfl
      | write handle mode offset data => cases again
      | canSendNow => cases again

theorem told_ble {p : Platform} {s : State} {hub : World} {e : Callback} (told : Told s)
    (step : NetworkTask.next p s.hub (.ble e) = some hub) :
    Told (notice s.hub.ble (.ble e) hub s) := by
  obtain ⟨ble, history, happens, rfl, -⟩ := bleCallback_eq step
  have placed : Placed { s.hub with ble, history } :=
    placed_callback told.placed rfl (Radio.powered_callback happens).active
      (status_callback told.good happens)
  cases again : Notifications.reconnects (.callback e) with
  | false =>
      obtain ⟨good, con, -⟩ := good_callback told.good happens again
      refine told_goes told placed ?_ con (fun gone => ?_) good
      · rintro con ⟨⟩
        cases again
      · cases e with
        | write handle mode offset data =>
            simp only [BleProvision.callback, gone] at happens
            cases happens
        | canSendNow =>
            cases happens
            show (canSendNow s.hub.ble).1.subscribed = false
            rw [Notifications.canSendNow_waits (.inr gone)]
            exact told.alone gone
        | connected con => cases again
        | disconnected => cases again
  | true =>
      cases e with
      | connected con =>
          simp only [BleProvision.callback] at happens
          split at happens
          · cases happens
            refine ⟨placed, by rintro ⟨⟩, ?_, by rintro status ⟨⟩⟩
            exact told.good.fine.restart (by rfl) (by rfl) (by rfl) (List.nil_subset _) _
          · cases happens
      | disconnected =>
          cases happens
          unfold BleProvision.disconnected at placed ⊢
          by_cases gone : s.hub.ble.con = none
          · rw [if_pos gone] at placed ⊢
            exact told_silent told placed (by rintro con ⟨⟩) rfl told.alone rfl told.good
          · rw [if_neg gone] at placed ⊢
            exact told_left told placed (by rintro con ⟨⟩) rfl rfl rfl rfl rfl
      | write handle mode offset data => cases again
      | canSendNow => cases again

theorem told_next {p : Platform} {s t : State} {event : Event} (told : Told s)
    (step : next p s event = some t) : Told t := by
  cases event with
  | hub e =>
      obtain ⟨hub, moved, rfl⟩ := Option.map_eq_some_iff.mp step
      cases e with
      | task o =>
          obtain rfl := task_next moved
          exact told_task told o
      | mqtt status =>
          obtain ⟨_, _, _, _, rfl⟩ := mqttCallback_eq moved
          exact told_silent told ⟨told.placed.reasoned, told.placed.settled⟩ (by rintro con ⟨⟩)
            rfl told.alone rfl told.good
      | ble e => exact told_ble told moved
  | reads =>
      simp only [next] at step
      split at step
      · cases step
        exact ⟨told.placed, told.alone, told.good.read, told.shows⟩
      · cases step
  | arrives =>
      simp only [next] at step
      split at step
      · cases step
      · rename_i status rest first
        cases step
        have good := told.good
        rw [first] at good
        refine ⟨told.placed, told.alone, good.arrive, ?_⟩
        rintro _ ⟨⟩
        exact shows_arrived _ _
  | applied =>
      simp only [next] at step
      split at step
      · cases step
        refine ⟨told.placed, told.alone, told.good, fun status seen => ?_⟩
        exact ⟨(told.shows status seen).lastState, .inr rfl⟩
      · cases step

variable {p : Platform}

theorem told : (machine p).Invariant Told where
  base := by
    rintro s ⟨flash, page, rfl⟩
    exact told_initial flash page
  step _ _ _ told step := told_next told step

/-! ## What the page shows -/

/-- There is nothing more to tell the page. -/
structure Quiet (s : State) : Prop where
  sent : unsent s.hub.ble = []
  landed : s.air = []

theorem Told.quiet {s : State} (told : Told s) (subscribed : s.hub.ble.subscribed = true)
    (quiet : Quiet s) : Shows s.page s.hub.ble.status :=
  told.shows _ ((told.good.current subscribed).quiet quiet.landed quiet.sent none)

/-- **The page comes to the status that the hub is in**: in every run, whatever was dropped from
the queue and in whatever order reads, notifications and changes fell, a subscriber that is sent
what waits and gets what is on its way has then seen the hub's status.  With nothing left of
either it is the one on the page.  And the page has a text for each, with no stand-in for a state,
a reason or a source that it does not know. -/
theorem page_tells {s : State} (reached : (machine p).Reachable s) :
    (s.hub.ble.subscribed = true →
      (s.air ++ unsent s.hub.ble).foldl see s.seen = some s.hub.ble.status ∧
        (Quiet s → Shows s.page s.hub.ble.status)) ∧
    (∀ status, s.seen = some status → Shows s.page status) ∧
    ∀ status ∈ s.hub.ble.status :: (s.air ++ unsent s.hub.ble), Named (statusBytes status) := by
  have now := told.reachable reached
  refine ⟨fun subscribed => ⟨?_, now.quiet subscribed⟩, now.shows, fun status member => ?_⟩
  · exact (now.good.current subscribed).told none
  · refine Meaningful.named ?_
    rcases List.mem_cons.mp member with rfl | member
    · exact now.good.fine.status
    · rcases List.mem_append.mp member with flies | waits
      · exact now.good.fine.air status flies
      · exact now.good.fine.waiting status waits

instance (s : State) : Decidable (Quiet s) :=
  decidable_of_iff (unsent s.hub.ble = [] ∧ s.air = [])
    ⟨fun both => ⟨both.1, both.2⟩, fun quiet => ⟨quiet.1, quiet.2⟩⟩

/-- A client of a hub without settings. -/
theorem page_tells_blank : ∃ s, (machine bench).Reachable s ∧ Quiet s ∧
    s.page.text = ("The hub has no settings yet — enter them below.", .info) ∧
    Shows s.page s.hub.ble.status := by
  have computed : (Machine.exec (next bench) ⟨initial blank, [], setupFind, none⟩
      [.hub (.task (fair .down)), .hub (.ble (.connected 64)),
        .hub (write .statusCcc [1, 0]), .reads, .hub (.ble .canSendNow), .arrives,
        .arrives]).any (fun s => decide (s.hub.ble.subscribed = true ∧ Quiet s ∧
          s.page.text = ("The hub has no settings yet — enter them below.", .info))) = true := by
    decide +kernel
  obtain ⟨s, run, subscribed, quiet, text⟩ := Machine.exists_run_of_exec computed
  have reached : (machine bench).Reachable s := ⟨_, _, ⟨blank, setupFind, rfl⟩, run⟩
  exact ⟨s, reached, quiet, text, ((page_tells reached).1 subscribed).2 quiet⟩

/-! ## What the page says when the hub has gone -/

/-- A step of the task that ends a connection is `stop`, while `run_online` goes. -/
theorem parts_task {s : State} (told : Told s) {o : Obs} (there : s.hub.ble.con.isSome = true)
    (gone : (taskStep p s.hub o).ble.con = none) :
    (∃ caller badLinks, s.hub.pc = .onlineStop caller badLinks) ∧ Settled s.hub.ble.status := by
  by_cases stays : ∀ caller badLinks, s.hub.pc ≠ .onlineStop caller badLinks
  · have con := (tells_task told.placed (p := p) o stays).reports.con
    rw [← con, gone] at there
    cases there
  · obtain ⟨caller, badLinks, pc⟩ : ∃ caller badLinks, s.hub.pc = .onlineStop caller badLinks := by
      simpa using stays
    refine ⟨⟨caller, badLinks, pc⟩, ?_⟩
    obtain ⟨-, ble⟩ := taskStep_stop (p := p) (o := o) pc
    by_cases on : s.hub.ble.active = true
    · rcases told.placed.settled (by rw [pc]; rfl) on with begins | settled
      · rw [pc] at begins
        cases begins
      · exact settled
    · rw [BleProvision.stop, if_pos (by simpa using on)] at ble
      rw [ble] at gone
      rw [gone] at there
      cases there

theorem stateByte_online {state : BleProvision.State} :
    stateByte state = UInt8.ofNat ProvState.online ↔ state = .online := by
  cases state <;> decide

/-- **The page takes a hub that turns Bluetooth off for one that is online, and is right**: when a
step of NetworkTask ends the connection, the hub's status is that it is online, that it is online
with settings that it could not save, or that it refused an apply meanwhile; and a page that has
been told says that the hub is online in the first case and no other. -/
theorem page_parts {s t : State} {o : Obs} (reached : (machine p).Reachable s)
    (step : next p s (.hub (.task o)) = some t) (there : s.hub.ble.con.isSome = true)
    (gone : t.hub.ble.con = none) :
    (∃ caller badLinks, s.hub.pc = .onlineStop caller badLinks) ∧
      Settled s.hub.ble.status ∧
      (s.hub.ble.subscribed = true → Quiet s →
        t.page.text = if s.hub.ble.status.state = .online then hubOnline else hubDisconnected) := by
  have now := told.reachable reached
  obtain ⟨hub, moved, rfl⟩ := Option.map_eq_some_iff.mp step
  obtain rfl := task_next moved
  have left : (taskStep p s.hub o).ble.con = none := by rwa [hub_notice] at gone
  obtain ⟨stops, settled⟩ := parts_task now there left
  refine ⟨stops, settled, fun subscribed quiet => ?_⟩
  have shows := now.quiet subscribed quiet
  simp only [notice, if_pos (And.intro there left)]
  simp only [onSetupDisconnected, shows.lastState, Option.some.injEq, stateByte_online]

/-- A hub that has just saved its first settings, its page open. -/
theorem page_parts_homeNet : ∃ s t, (machine bench).Reachable s ∧
    next bench s (.hub (.task (fair .up))) = some t ∧ t.page.text = hubOnline := by
  have computed : (Machine.exec (next bench) ⟨initial blank, [], setupFind, none⟩
      ((provision ++ [write .statusCcc [1, 0], apply] ++ steps 5 .down ++ steps 4 .up ++
          [NetworkTask.Event.mqtt .accepted] ++ steps 4 .up).map Event.hub ++
        List.replicate 4 (.hub (.ble .canSendNow)) ++ List.replicate 4 .arrives ++
        [.hub (.task (fair .up)),
          .hub (.task { fair .up with onlineMs := bleOnlineMaxMs })])).any
      (fun s => decide (s.hub.ble.subscribed = true ∧ Quiet s ∧ s.hub.ble.con.isSome = true ∧
        s.hub.ble.status.state = .online ∧ (taskStep bench s.hub (fair .up)).ble.con = none)) =
      true := by
    decide +kernel
  obtain ⟨s, run, subscribed, quiet, there, online, gone⟩ := Machine.exists_run_of_exec computed
  have reached : (machine bench).Reachable s := ⟨_, _, ⟨blank, setupFind, rfl⟩, run⟩
  have step : next bench s (.hub (.task (fair .up))) =
      some (notice s.hub.ble (.task (fair .up)) (taskStep bench s.hub (fair .up)) s) := rfl
  refine ⟨s, _, reached, step, ?_⟩
  obtain ⟨-, -, text⟩ := page_parts reached step there (by rw [hub_notice]; exact gone)
  rw [text subscribed quiet, if_pos online]

end IrHub.System.StatusPage
