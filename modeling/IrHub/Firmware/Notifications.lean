/-
# Firmware.Notifications -- the queue of status notifications of `ble_provision.cpp`

`server` runs what BTstack calls back with and what NetworkTask calls, in any order.
`reported` is the status that an event gives to `push_status`; `Log` keeps, for the
connection in progress, the statuses pushed while the client was subscribed, the
notifications handed to `att_server_notify`, and where each status went.

The ring of `notifyQ`, `notifyHead` and `notifyCount` is the queue `unsent`.  Its
steps are those of a ledger that loses its oldest when it is full (`Tracked`), also
across a change of the connection, which empties it and leaves the head where it is.
-/
import IrHub.Firmware.BleProvision
import IrHub.Theory.Machine
import IrHub.Theory.Queue

namespace IrHub.Firmware.Notifications

set_option autoImplicit false

open IrHub.Theory IrHub.Firmware.NetConfig IrHub.Firmware.BleProvision

instance : NeZero notifyQueue := ⟨by decide⟩

/-! ## Runs -/

inductive Event where
  | callback (e : Callback)
  | setStatus (s : Status)
  | start (current : NetConfig)
  | stop
  | takeCandidate

def next (b : Ble) : Event → Option Ble
  | .callback e => callback b e
  | .setStatus s => some (setStatus b s)
  | .start current => some (start b current)
  | .stop => some (stop b)
  | .takeCandidate => (takeCandidate b).map Prod.snd

def server : Machine Ble Event := Machine.ofStep (fun b => b = init) next

/-- What a complete value gives to `push_status`. -/
def reportedValue (b : Ble) (handle : Attribute) (data : List UInt8) : Option Status :=
  if handle = .cmd ∧ data = [cmdApply] ∧ validate b.staged ≠ .ok then
    some ⟨.invalid, invalidReason (validate b.staged), noIp, 0, .candidate⟩
  else none

/-- What an event gives to `push_status`. -/
def reported (b : Ble) : Event → Option Status
  | .setStatus s => some s
  | .callback (.write handle .none _ data) =>
      if handle = .statusCcc then if get16 data = 1 then some b.status else none
      else reportedValue b handle data
  | .callback (.write _ .execute _ _) =>
      b.prepHandle.bind fun handle => reportedValue b handle (b.prep.toList.take b.prepLen)
  | _ => none

/-- What an event gives to `att_server_notify`. -/
def notified (b : Ble) : Event → Option Status
  | .callback .canSendNow => (canSendNow b).2
  | _ => none

/-- A connection begins or is over. -/
def reconnects : Event → Bool
  | .callback (.connected _) => true
  | .callback .disconnected => true
  | .stop => true
  | _ => false

inductive Fate where
  | sent
  | dropped
  deriving DecidableEq, Repr

/-- The latest status, and of this connection: the statuses pushed while subscribed,
the notifications, and where each status went. -/
structure Log where
  latest : Status
  pushed : List Status
  notified : List Status
  ledger : Ledger Status Fate

namespace Log

/-- A status is pushed to a subscriber. -/
def push (log : Log) (s : Status) : Log where
  latest := s
  pushed := log.pushed ++ [s]
  notified := log.notified
  ledger := log.ledger.push notifyQueue .dropped s

def send (log : Log) (s : Status) : Log :=
  { log with notified := log.notified ++ [s], ledger := log.ledger.leave .sent }

end Log

def observe (b : Ble) (e : Event) (after : Ble) (log : Log) : Log :=
  if reconnects e then ⟨log.latest, [], [], .empty⟩
  else
    match reported b e with
    | some s => if after.subscribed then log.push s else { log with latest := s }
    | none => (notified b e).elim log log.send

def machine : Machine (Ble × Log) Event :=
  server.observed ⟨init.status, [], [], .empty⟩ observe

/-! ## What a step does to the queue -/

/-- The statuses still to be sent, the oldest first. -/
def unsent (b : Ble) : List Status := contents b.notifyQ b.notifyHead b.notifyCount

/-- The status, its queue and the connection are the same, and the radio stays on. -/
structure Alike (b after : Ble) : Prop where
  status : after.status = b.status
  notifyQ : after.notifyQ = b.notifyQ
  notifyHead : after.notifyHead = b.notifyHead
  notifyCount : after.notifyCount = b.notifyCount
  subscribed : after.subscribed = b.subscribed
  con : after.con = b.con
  active : b.active = true → after.active = true

theorem Alike.refl (b : Ble) : Alike b b := ⟨rfl, rfl, rfl, rfl, rfl, rfl, id⟩

theorem Alike.unsent {b after : Ble} (alike : Alike b after) : unsent after = unsent b := by
  rw [Notifications.unsent, Notifications.unsent, alike.notifyQ, alike.notifyHead,
    alike.notifyCount]

theorem pushStatus_subscribed (b : Ble) (s : Status) :
    (pushStatus b s).subscribed = b.subscribed ∧ (pushStatus b s).con = b.con ∧
      (pushStatus b s).active = b.active ∧ (pushStatus b s).status = s := by
  obtain ⟨_, _, _, same⟩ := pushStatus_eq b s
  rw [same]
  exact ⟨rfl, rfl, rfl, rfl⟩

/-- What a step inside a connection does: it pushes a status, it sends one, or it
leaves the queue alone.  Only a client that is there subscribes. -/
inductive Moves (b after : Ble) : Option Status → Event → Prop
  | pushes (s : Status) (e : Event)
      (alike : Alike (pushStatus { b with subscribed := after.subscribed } s) after)
      (kept : b.con = none → after.subscribed = b.subscribed) : Moves b after (some s) e
  | sends (alike : Alike (canSendNow b).1 after) : Moves b after none (.callback .canSendNow)
  | spares (e : Event) (other : e ≠ .callback .canSendNow)
      (alike : Alike { b with subscribed := after.subscribed } after)
      (kept : b.con = none → after.subscribed = b.subscribed) : Moves b after none e

theorem Moves.spared {b after : Ble} {e : Event} (other : e ≠ .callback .canSendNow)
    (alike : Alike b after) : Moves b after none e :=
  .spares e other { alike with subscribed := rfl } fun _ => alike.subscribed

theorem applyCommand_moves (b : Ble) (data : List UInt8) (e : Event)
    (other : e ≠ .callback .canSendNow) :
    Moves b (applyCommand b data).1 (reportedValue b .cmd data) e := by
  unfold applyCommand reportedValue
  by_cases apply : data = [cmdApply]
  · subst apply
    have one : ¬[cmdApply].length ≠ 1 := by decide
    by_cases ok : validate b.staged = .ok
    · simp only [if_neg one, if_true, ok, ne_eq, not_true, if_false, and_false]
      exact .spared other ⟨rfl, rfl, rfl, rfl, rfl, rfl, id⟩
    · have same := pushStatus_subscribed b
        ⟨.invalid, invalidReason (validate b.staged), noIp, 0, .candidate⟩
      simp only [if_neg one, if_true, ne_eq, ok, not_false_eq_true, and_true]
      refine .pushes _ e ?_ fun _ => same.1
      rw [same.1]
      exact .refl _
  · simp only [apply, if_false, false_and, and_false]
    split
    · exact .spared other ⟨rfl, rfl, rfl, rfl, rfl, rfl, id⟩
    · split <;> exact .spared other ⟨rfl, rfl, rfl, rfl, rfl, rfl, id⟩

theorem applyValue_moves (b : Ble) (handle : Attribute) (data : List UInt8) (e : Event)
    (other : e ≠ .callback .canSendNow) :
    Moves b (applyValue b handle data).1 (reportedValue b handle data) e := by
  by_cases command : handle = .cmd
  · subst command
    by_cases fits : data.length ≤ fieldCap .cmd
    · simpa only [applyValue, dif_pos fits] using applyCommand_moves b data e other
    · have wrong : data ≠ [cmdApply] := by
        rintro rfl
        exact fits (Nat.le_refl 1)
      rw [applyValue, dif_neg fits, reportedValue, if_neg fun all => wrong all.2.1]
      exact .spared other ⟨rfl, rfl, rfl, rfl, rfl, rfl, id⟩
  · rw [reportedValue, if_neg fun all => command all.1]
    unfold applyValue
    split
    · cases handle with
      | cmd => exact absurd rfl command
      | port =>
          dsimp only
          split <;> exact .spared other ⟨rfl, rfl, rfl, rfl, rfl, rfl, id⟩
      | _ => exact .spared other ⟨rfl, rfl, rfl, rfl, rfl, rfl, id⟩
    · exact .spared other ⟨rfl, rfl, rfl, rfl, rfl, rfl, id⟩

/-- What resets the prepared buffer spares the queue. -/
theorem Moves.resetPrepared {b after : Ble} {status : Option Status} {e : Event}
    (moves : Moves b after status e) : Moves b (resetPrepared after) status e := by
  cases moves with
  | pushes s e alike kept =>
      exact .pushes s e ⟨alike.1, alike.2, alike.3, alike.4, alike.5, alike.6, alike.7⟩ kept
  | sends alike => exact .sends ⟨alike.1, alike.2, alike.3, alike.4, alike.5, alike.6, alike.7⟩
  | spares e other alike kept =>
      exact .spares e other ⟨alike.1, alike.2, alike.3, alike.4, alike.5, alike.6, alike.7⟩ kept

theorem attWriteCb_moves {b : Ble} (handle : Attribute) (mode : Transaction) (offset : Nat)
    (data : List UInt8) (con : b.con.isSome = true) :
    Moves b (attWriteCb b handle mode offset data).1
      (reported b (.callback (.write handle mode offset data)))
      (.callback (.write handle mode offset data)) := by
  have other : Event.callback (.write handle mode offset data) ≠ .callback .canSendNow := nofun
  have there : b.con ≠ none := Option.isSome_iff_ne_none.mp con
  cases mode with
  | none =>
      simp only [attWriteCb, reported]
      by_cases subscription : handle = .statusCcc
      · simp only [if_pos subscription]
        by_cases on : get16 data = 1
        · simp only [on, decide_true, if_true]
          refine .pushes b.status _ ?_ fun gone => absurd gone there
          rw [(pushStatus_subscribed { b with subscribed := true } b.status).1]
          exact .refl _
        · simp only [on, decide_false, if_false, Bool.false_eq_true]
          exact .spares _ other (.refl _) fun gone => absurd gone there
      · simp only [if_neg subscription]
        exact applyValue_moves b handle data _ other
  | active =>
      simp only [attWriteCb, reported]
      split
      · exact .spared other (.refl b)
      · split <;> exact .spared other ⟨rfl, rfl, rfl, rfl, rfl, rfl, id⟩
  | validate => exact .spared other (.refl b)
  | execute =>
      simp only [attWriteCb, reported]
      cases b.prepHandle with
      | none => exact .resetPrepared (.spared other (.refl b))
      | some handle => exact .resetPrepared (applyValue_moves b handle _ _ other)
  | cancel => exact .resetPrepared (.spared other (.refl b))

/-- **Inside a connection a step pushes, sends or spares.** -/
theorem next_moves {b after : Ble} {e : Event} (step : next b e = some after)
    (inside : reconnects e = false) : Moves b after (reported b e) e := by
  cases e with
  | callback e =>
      cases e with
      | connected con => cases inside
      | disconnected => cases inside
      | write handle mode offset data =>
          simp only [next, callback] at step
          split at step
          · rename_i con
            cases step
            exact attWriteCb_moves handle mode offset data con
          · cases step
      | canSendNow =>
          cases step
          exact .sends (.refl _)
  | setStatus s =>
      cases step
      refine .pushes s _ ?_ fun _ => (pushStatus_subscribed b s).1
      show Alike (pushStatus { b with subscribed := (pushStatus b s).subscribed } s) (pushStatus b s)
      rw [(pushStatus_subscribed b s).1]
      exact .refl _
  | start current =>
      cases step
      exact .spared (by simp) ⟨rfl, rfl, rfl, rfl, rfl, rfl, fun _ => rfl⟩
  | stop => cases inside
  | takeCandidate =>
      obtain ⟨⟨candidate, taken⟩, found, rfl⟩ := Option.map_eq_some_iff.mp step
      unfold takeCandidate at found
      split at found
      · cases found
      · cases found
        exact .spared (by simp) ⟨rfl, rfl, rfl, rfl, rfl, rfl, id⟩

/-! ## The ring is a queue that loses its oldest -/

/-- A push to a subscriber: the queue loses its oldest when it is full. -/
theorem unsent_pushStatus {b : Ble} (s : Status) (count : b.notifyCount ≤ notifyQueue)
    (subscribed : b.subscribed = true) :
    unsent (pushStatus b s) =
        (if (unsent b).length = notifyQueue then (unsent b).drop 1 else unsent b) ++ [s] ∧
      (pushStatus b s).notifyCount ≤ notifyQueue := by
  have length : (unsent b).length = b.notifyCount := length_contents ..
  by_cases full : b.notifyCount = notifyQueue
  · have shape : pushStatus b s = { b with
        status := s
        notifyHead := (b.notifyHead + 1) % notifyQueue
        notifyCount := b.notifyCount - 1 + 1
        notifyQ := b.notifyQ.set
          (Fin.ofNat _ ((b.notifyHead + 1) % notifyQueue + (b.notifyCount - 1))) s } := by
      simp [pushStatus, subscribed, full, Fin.ofNat]
    have others : (unsent b).drop 1 =
        contents b.notifyQ ((b.notifyHead + 1) % notifyQueue) (b.notifyCount - 1) := by
      rw [unsent, show b.notifyCount = b.notifyCount - 1 + 1 by rw [full]; rfl, contents_succ]
      rfl
    have room : b.notifyCount - 1 < notifyQueue := by
      rw [full]
      decide
    rw [length, if_pos full, others, shape]
    exact ⟨contents_set _ _ room s, room⟩
  · have room : b.notifyCount < notifyQueue := by omega
    have shape : pushStatus b s = { b with
        status := s
        notifyCount := b.notifyCount + 1
        notifyQ := b.notifyQ.set (Fin.ofNat _ (b.notifyHead + b.notifyCount)) s } := by
      simp [pushStatus, subscribed, full, Fin.ofNat]
    rw [length, if_neg full, shape]
    exact ⟨contents_set _ _ room s, room⟩

theorem pushStatus_unsubscribed {b : Ble} (s : Status) (silent : b.subscribed = false) :
    pushStatus b s = { b with status := s } := by
  simp [pushStatus, silent]

theorem pushStatus_head {b : Ble} (s : Status) (head : b.notifyHead < notifyQueue) :
    (pushStatus b s).notifyHead < notifyQueue := by
  unfold pushStatus
  dsimp only
  split
  · exact head
  · split
    · exact Nat.mod_lt _ (by decide)
    · exact head

/-- What is sent is the oldest. -/
theorem canSendNow_sends {b : Ble} (waiting : b.notifyCount ≠ 0) (con : b.con ≠ none) :
    (canSendNow b).2 = (unsent b).head? ∧ unsent (canSendNow b).1 = (unsent b).drop 1 := by
  obtain ⟨count, more⟩ := Nat.exists_eq_succ_of_ne_zero waiting
  have shape : unsent b = b.notifyQ.get (Fin.ofNat _ b.notifyHead) ::
      contents b.notifyQ ((b.notifyHead + 1) % notifyQueue) count := by
    rw [unsent, more, contents_succ]
  have sends : canSendNow b = ({ b with
      notifyHead := (b.notifyHead + 1) % notifyQueue
      notifyCount := b.notifyCount - 1 }, some (b.notifyQ.get (Fin.ofNat _ b.notifyHead))) := by
    simp [canSendNow, waiting, con, Fin.ofNat]
  rw [sends, shape]
  exact ⟨rfl, by rw [unsent, more]; rfl⟩

theorem canSendNow_waits {b : Ble} (quiet : b.notifyCount = 0 ∨ b.con = none) :
    canSendNow b = (b, none) := by
  rw [canSendNow, if_pos quiet]

/-! ## The invariant -/

/-- The ring is the ledger's queue; nothing waits for a client that is not there. -/
structure Tracked (b : Ble) (log : Log) : Prop where
  head : b.notifyHead < notifyQueue
  count : b.notifyCount ≤ notifyQueue
  latest : b.status = log.latest
  waiting : log.ledger.waiting = unsent b
  pushed : log.ledger.entered = log.pushed
  notified : log.ledger.fated .sent = log.notified
  fresh : log.ledger.Fresh notifyQueue .dropped
  alone : b.con = none → b.subscribed = false ∧ b.notifyCount = 0
  off : b.active = false → b.con = none

theorem tracked_init : Tracked init ⟨init.status, [], [], .empty⟩ where
  head := by decide
  count := by decide
  latest := rfl
  waiting := rfl
  pushed := rfl
  notified := rfl
  fresh := Ledger.fresh_empty _ _
  alone _ := ⟨rfl, rfl⟩
  off _ := rfl

/-- A connection that is new or over has nothing waiting. -/
theorem Tracked.restart {b : Ble} {latest : Status} (head : b.notifyHead < notifyQueue)
    (empty : b.notifyCount = 0) (status : b.status = latest) (silent : b.subscribed = false)
    (off : b.active = false → b.con = none) : Tracked b ⟨latest, [], [], .empty⟩ where
  head := head
  count := by omega
  latest := status
  waiting := by rw [unsent, empty]; rfl
  pushed := rfl
  notified := rfl
  fresh := Ledger.fresh_empty _ _
  alone _ := ⟨silent, empty⟩
  off := off

theorem tracked_reconnects {b after : Ble} {e : Event} {log : Log} (tracked : Tracked b log)
    (step : next b e = some after) (again : reconnects e = true) :
    Tracked after ⟨log.latest, [], [], .empty⟩ := by
  cases e with
  | callback e =>
      cases e with
      | connected con =>
          simp only [next, callback] at step
          split at step
          · rename_i on
            cases step
            refine .restart tracked.head rfl tracked.latest rfl ?_
            intro off
            exact absurd (on.symm.trans off) (by decide)
          · cases step
      | disconnected =>
          cases step
          unfold disconnected
          split
          · rename_i gone
            obtain ⟨silent, empty⟩ := tracked.alone gone
            exact .restart tracked.head empty tracked.latest silent tracked.off
          · exact .restart tracked.head rfl tracked.latest rfl fun _ => rfl
      | write handle mode offset data => cases again
      | canSendNow => cases again
  | stop =>
      cases step
      unfold stop
      split
      · rename_i off
        have off : b.active = false := by simpa using off
        obtain ⟨silent, empty⟩ := tracked.alone (tracked.off off)
        exact .restart tracked.head empty tracked.latest silent tracked.off
      · exact .restart tracked.head rfl tracked.latest rfl fun _ => rfl
  | setStatus s => cases again
  | start current => cases again
  | takeCandidate => cases again

theorem tracked_push {b after : Ble} {log : Log} {s : Status} (tracked : Tracked b log)
    (alike : Alike (pushStatus { b with subscribed := after.subscribed } s) after)
    (kept : b.con = none → after.subscribed = b.subscribed) :
    Tracked after (if after.subscribed then log.push s else { log with latest := s }) := by
  have same := pushStatus_subscribed { b with subscribed := after.subscribed } s
  have alone : after.con = none → after.subscribed = false ∧ b.notifyCount = 0 := by
    intro gone
    rw [alike.con, same.2.1] at gone
    obtain ⟨silent, empty⟩ := tracked.alone gone
    exact ⟨(kept gone).trans silent, empty⟩
  have off : after.active = false → after.con = none := by
    intro off
    rw [alike.con, same.2.1]
    refine tracked.off ?_
    by_contra on
    have on : b.active = true := by simpa using on
    rw [alike.active (same.2.2.1.trans on)] at off
    cases off
  have head : after.notifyHead < notifyQueue := by
    rw [alike.notifyHead]
    exact pushStatus_head s tracked.head
  have latest : after.status = s := by rw [alike.status, same.2.2.2]
  by_cases subscribed : after.subscribed = true
  · obtain ⟨queue, count⟩ := unsent_pushStatus (b := { b with subscribed := after.subscribed }) s
      tracked.count subscribed
    have queue : unsent after =
        (if (unsent b).length = notifyQueue then (unsent b).drop 1 else unsent b) ++ [s] :=
      alike.unsent.trans queue
    rw [if_pos subscribed]
    constructor
    · exact head
    · rw [alike.notifyCount]
      exact count
    · exact latest
    · show (log.ledger.push notifyQueue .dropped s).waiting = unsent after
      rw [queue, Ledger.push, tracked.waiting]
      split <;> simp [Ledger.enter, Ledger.leave, tracked.waiting]
    · show (log.ledger.push notifyQueue .dropped s).entered = log.pushed ++ [s]
      rw [Ledger.entered_push, tracked.pushed]
    · exact (Ledger.fated_push _ (by decide) _ _).trans tracked.notified
    · exact tracked.fresh.push s
    · intro gone
      rw [(alone gone).1] at subscribed
      cases subscribed
    · exact off
  · have silent : after.subscribed = false := by simpa using subscribed
    have plain := pushStatus_unsubscribed (b := { b with subscribed := after.subscribed }) s silent
    have queue : unsent after = unsent b := by
      rw [alike.unsent, plain]
      rfl
    have count : after.notifyCount = b.notifyCount := by rw [alike.notifyCount, plain]
    rw [if_neg subscribed]
    constructor
    · exact head
    · rw [count]
      exact tracked.count
    · exact latest
    · rw [queue]
      exact tracked.waiting
    · exact tracked.pushed
    · exact tracked.notified
    · exact tracked.fresh
    · intro gone
      rw [count]
      exact alone gone
    · exact off

/-- A step that leaves the queue alone. -/
theorem Tracked.spared {b after : Ble} {log : Log} (tracked : Tracked b log)
    (alike : Alike { b with subscribed := after.subscribed } after)
    (kept : b.con = none → after.subscribed = b.subscribed) : Tracked after log where
  head := by rw [alike.notifyHead]; exact tracked.head
  count := by rw [alike.notifyCount]; exact tracked.count
  latest := alike.status.trans tracked.latest
  waiting := tracked.waiting.trans alike.unsent.symm
  pushed := tracked.pushed
  notified := tracked.notified
  fresh := tracked.fresh
  alone gone := by
    have gone : b.con = none := alike.con.symm.trans gone
    rw [alike.notifyCount, kept gone]
    exact tracked.alone gone
  off off := by
    rw [alike.con]
    refine tracked.off ?_
    by_contra on
    have on : b.active = true := by simpa using on
    rw [alike.active on] at off
    cases off

theorem tracked_sends {b after : Ble} {log : Log} (tracked : Tracked b log)
    (alike : Alike (canSendNow b).1 after) :
    Tracked after ((canSendNow b).2.elim log log.send) := by
  by_cases quiet : b.notifyCount = 0 ∨ b.con = none
  · rw [canSendNow_waits quiet] at alike ⊢
    refine tracked.spared ?_ fun _ => alike.subscribed
    exact { alike with subscribed := rfl }
  · obtain ⟨waiting, con⟩ := not_or.mp quiet
    obtain ⟨oldest, others⟩ := canSendNow_sends waiting con
    have shape : (canSendNow b).1.status = b.status ∧ (canSendNow b).1.con = b.con ∧
        (canSendNow b).1.active = b.active ∧ (canSendNow b).1.notifyHead < notifyQueue ∧
        (canSendNow b).1.notifyCount = b.notifyCount - 1 := by
      rw [canSendNow, if_neg quiet]
      exact ⟨rfl, rfl, rfl, Nat.mod_lt _ (by decide), rfl⟩
    obtain ⟨status, sameCon, active, head, count⟩ := shape
    cases queue : unsent b with
    | nil =>
        have length : (unsent b).length = b.notifyCount := length_contents ..
        rw [queue] at length
        exact absurd length.symm waiting
    | cons s rest =>
        rw [queue] at oldest others
        have bound := tracked.count
        have first : log.ledger.waiting = s :: rest := tracked.waiting.trans queue
        rw [oldest]
        constructor
        · rw [alike.notifyHead]
          exact head
        · rw [alike.notifyCount, count]
          omega
        · rw [alike.status, status]
          exact tracked.latest
        · show (log.ledger.leave .sent).waiting = unsent after
          rw [alike.unsent, others, Ledger.leave, first]
        · show (log.ledger.leave .sent).entered = log.pushed
          rw [Ledger.entered_leave, tracked.pushed]
        · show (log.ledger.leave .sent).fated .sent = log.notified ++ [s]
          rw [Ledger.fated_leave, if_pos rfl, first, tracked.notified]
          rfl
        · exact tracked.fresh.leave (by decide)
        · intro gone
          rw [alike.con, sameCon] at gone
          exact absurd gone con
        · intro off
          rw [alike.con, sameCon]
          refine tracked.off ?_
          by_contra on
          have on : b.active = true := by simpa using on
          rw [alike.active (active.trans on)] at off
          cases off

theorem tracked_step {b after : Ble} {e : Event} {log : Log} (tracked : Tracked b log)
    (step : next b e = some after) : Tracked after (observe b e after log) := by
  cases again : reconnects e with
  | true =>
      rw [observe, if_pos again]
      exact tracked_reconnects tracked step again
  | false =>
      have moves := next_moves step again
      rw [observe, if_neg (by simp [again])]
      generalize reported b e = status at moves
      cases moves with
      | pushes s e alike kept => exact tracked_push tracked alike kept
      | sends alike => exact tracked_sends tracked alike
      | spares e other alike kept =>
          have silent : notified b e = none := by
            unfold notified
            split
            · exact absurd rfl other
            · rfl
          simp only [silent]
          exact tracked.spared alike kept

theorem tracked : machine.Invariant fun o => Tracked o.1 o.2 where
  base := by
    rintro ⟨b, log⟩ ⟨start, first⟩
    obtain rfl : b = init := start
    obtain rfl : log = _ := first
    exact tracked_init
  step := by
    rintro ⟨b, log⟩ e ⟨after, log'⟩ tracked ⟨step, seen⟩
    obtain rfl : log' = observe b e after log := seen
    exact tracked_step tracked step

/-! ## An ordered queue that keeps the newest -/

/-- What a step inside a connection loses: the oldest, to a push that finds no place. -/
theorem step_drops {b after : Ble} {log log' : Log} {e : Event}
    (step : machine.step (b, log) e (after, log')) (tracked : Tracked b log)
    (inside : reconnects e = false) {i : Nat} {s : Status}
    (gone : log'.ledger.left[i]? = some (s, .dropped)) :
    log.ledger.left[i]? = some (s, .dropped) ∨
      (i = log.ledger.left.length ∧ (reported b e).isSome ∧ after.subscribed = true ∧
        (unsent b).length = notifyQueue ∧ (unsent b).head? = some s) := by
  obtain ⟨-, seen⟩ := step
  obtain rfl : log' = observe b e after log := seen
  rw [observe, if_neg (by simp [inside])] at gone
  cases status : reported b e with
  | some p =>
      simp only [status] at gone
      by_cases subscribed : after.subscribed = true
      · simp only [if_pos subscribed] at gone
        rcases Ledger.getElem?_push gone with before | ⟨last, full, oldest⟩
        · exact .inl before
        · rw [tracked.waiting] at full oldest
          exact .inr ⟨last, rfl, subscribed, full, oldest⟩
      · simp only [if_neg subscribed] at gone
        exact .inl gone
  | none =>
      simp only [status] at gone
      cases sent : notified b e with
      | none =>
          rw [sent] at gone
          exact .inl gone
      | some p =>
          rw [sent] at gone
          rcases Ledger.getElem?_leave gone with before | ⟨-, -, same⟩
          · exact .inl before
          · cases same

/-- What is pushed and what has left only grows while a connection lasts. -/
theorem pushed_grows {o t : Ble × Log} {es : List Event} (run : machine.Run o es t)
    (inside : ∀ e ∈ es, reconnects e = false) : o.2.pushed <+: t.2.pushed := by
  induction run with
  | nil => exact List.prefix_rfl
  | @cons s u t e es step rest ih =>
      have further := ih fun e member => inside e (List.mem_cons_of_mem _ member)
      refine List.IsPrefix.trans ?_ further
      obtain ⟨-, seen⟩ := step
      rw [seen, observe, if_neg (by simp [inside e List.mem_cons_self])]
      cases reported s.1 e with
      | some p =>
          dsimp only
          split
          · exact List.prefix_append _ _
          · exact List.prefix_rfl
      | none =>
          cases notified s.1 e with
          | none => exact List.prefix_rfl
          | some p => exact List.prefix_rfl

/-- **Status notifications are an ordered queue that keeps the newest.**  The ring's
head and count stay in range.  Within a connection, what was pushed to the subscriber
is what was sent or dropped, in this order, followed by what is unsent.  A status is
dropped by a push that finds the queue full, of which it is the oldest; so a dropped
one has `NOTIFY_QUEUE` later ones, and after any run with no more pushes than that
none of these is dropped.  A read returns the latest status pushed. -/
theorem status_notifications {b : Ble} {log : Log} (reached : machine.Reachable (b, log)) :
    (b.notifyHead < notifyQueue ∧ b.notifyCount ≤ notifyQueue) ∧
    (log.pushed = log.ledger.left.map Prod.fst ++ unsent b ∧
      (log.ledger.left.filter fun entry => entry.2 = .sent).map Prod.fst = log.notified) ∧
    (∀ e after log', machine.step (b, log) e (after, log') → reconnects e = false →
      ∀ i s, log'.ledger.left[i]? = some (s, .dropped) →
        log.ledger.left[i]? = some (s, .dropped) ∨
          (i = log.ledger.left.length ∧ (reported b e).isSome ∧ after.subscribed = true ∧
            (unsent b).length = notifyQueue ∧ (unsent b).head? = some s)) ∧
    (∀ i s, log.ledger.left[i]? = some (s, .dropped) → i + notifyQueue < log.pushed.length) ∧
    (∀ es after log', machine.Run (b, log) es (after, log') →
      (∀ e ∈ es, reconnects e = false) →
      log'.pushed.length ≤ log.pushed.length + notifyQueue →
      log.pushed <+: log'.pushed ∧
        ∀ i, log.pushed.length ≤ i → ∀ entry, log'.ledger.left[i]? = some entry → entry.2 = .sent) ∧
    (∀ handleBlob name offset buffer size,
      attReadCb handleBlob name b .status offset buffer size =
        handleBlob (statusBytes log.latest) offset buffer size) := by
  have now := tracked.reachable reached
  have entered : log.pushed = log.ledger.left.map Prod.fst ++ unsent b := by
    rw [← now.pushed, Ledger.entered, now.waiting]
  refine ⟨⟨now.head, now.count⟩, ⟨entered, now.notified⟩, ?_, ?_, ?_, ?_⟩
  · intro e after log' step inside i s gone
    exact step_drops step now inside gone
  · intro i s gone
    have bound := now.fresh i s gone
    rwa [now.pushed] at bound
  · intro es after log' run inside few
    refine ⟨pushed_grows run inside, ?_⟩
    rintro i new ⟨s, fate⟩ gone
    have later := tracked.reachable (reached.run run)
    cases fate with
    | sent => rfl
    | dropped =>
        have bound : i + notifyQueue < log'.pushed.length := later.pushed ▸ later.fresh i s gone
        omega
  · intro handleBlob name offset buffer size
    rw [attReadCb, now.latest]

/-- Six statuses for a subscriber that is sent none: two are dropped. -/
theorem status_notifications_six : ∃ b log, machine.Reachable (b, log) ∧
    log.ledger.left.length = 2 ∧ b.notifyHead = 2 ∧
      log.pushed = log.ledger.left.map Prod.fst ++ unsent b := by
  obtain ⟨⟨b, log⟩, run, dropped, head⟩ : ∃ t, machine.Run (init, ⟨init.status, [], [], .empty⟩)
      [.start init.current, .callback (.connected 64),
        .callback (.write .statusCcc .none 0 [1, 0]),
        .setStatus ⟨.wifiConnecting, 0, noIp, 1, .candidate⟩,
        .setStatus ⟨.wifiFailed, 0xff, noIp, 1, .candidate⟩,
        .setStatus ⟨.wifiConnecting, 0, noIp, 2, .candidate⟩,
        .setStatus ⟨.wifiFailed, 0xff, noIp, 2, .candidate⟩,
        .setStatus ⟨.reverted, 0xff, noIp, 0, .stored⟩] t ∧
      t.2.ledger.left.length = 2 ∧ t.1.notifyHead = 2 :=
    Machine.exists_run_of_exec_observed (by decide +kernel)
  have start : machine.init (init, ⟨init.status, [], [], .empty⟩) := ⟨show init = init from rfl, rfl⟩
  have reached : machine.Reachable (b, log) := ⟨_, _, start, run⟩
  exact ⟨b, log, reached, dropped, head, (status_notifications reached).2.1.1⟩

end IrHub.Firmware.Notifications
