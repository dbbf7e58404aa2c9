/-
# Firmware.Commands -- what becomes of the commands a client issues

The BLE server and NetworkTask are a mailbox: `s_handoff` is its slot, the COMMIT
and FORGET bits of the notification value are those posted and the bits in
`s_events` those noticed.  `mailbox` is that view of a `World`, and every step of
the machine is a few steps of the mailbox or none (`simulated_task`,
`simulated_mqtt`, `simulated_ble`).

Two facts about the task make this work.  Once `s_events` has one of the two bits,
the task is on its way to the head of its loop and does not wait again before it is
there; and a wait that is broken off has one of them (`Alert`).
-/
import IrHub.Firmware.NetworkTask

namespace IrHub.Firmware.Commands

set_option autoImplicit false

open IrHub.Theory IrHub.Firmware.NetConfig IrHub.Firmware.NetworkTask
open IrHub.Theory.Mailbox (Bits Command Effects Outcome Stage)
open IrHub.Firmware.NetConfigFlash (Flash zeroed)
open IrHub.Firmware.BleProvision (Ble Callback noIp)

/-! ## The task as the other end of a mailbox -/

/-- The call that a helper of `bring_up` returns to. -/
def leaveCall : Leave → Option Call
  | .join call => some call
  | .joinAborted call => some call
  | .joinFailed call _ => some call
  | .forget => none

def abortCall : Abort → Option Call
  | .start call => some call
  | .waitFailed call _ => some call
  | .waitAborted call => some call
  | .reverted => none
  | .forget => none

/-- The call of `bring_up` in progress, the waits between the tries of a trial and
the save at its end included. -/
def callOf : Pc → Option Call
  | .bringUp call => some call
  | .leave cause => leaveCall cause
  | .leavePoll cause _ => leaveCall cause
  | .wifiConnect call => some call
  | .wifiPoll call _ => some call
  | .wifiWait call _ => some call
  | .wifiCheck call _ => some call
  | .mqttStart call => some call
  | .abort cause => abortCall cause
  | .mqttDisconnect cause => abortCall cause
  | .mqttConnect call => some call
  | .mqttPoll call _ => some call
  | .mqttWait call _ => some call
  | .commitWait attempt wifiTries mqttTries => some (.commit attempt wifiTries mqttTries)
  | .save => some (.commit 0 0 0)
  | _ => none

/-- `handle_commit` has taken settings and has not decided on them. -/
def inTrial (pc : Pc) : Bool :=
  match callOf pc with
  | some (.commit _ _ _) => true
  | _ => false

/-- The flash has changed and `load_active` is still to come. -/
def loading : Pc → Bool
  | .boot => true
  | .abort .forget => true
  | .mqttDisconnect .forget => true
  | .leave .forget => true
  | .leavePoll .forget _ => true
  | .forgetLoad => true
  | _ => false

/-- A wait was broken off and its caller is still to return. -/
def brokenOff : Pc → Bool
  | .leave (.joinAborted _) => true
  | .leavePoll (.joinAborted _) _ => true
  | .abort (.waitAborted _) => true
  | .mqttDisconnect (.waitAborted _) => true
  | _ => false

/-- `s_events` may have a command. -/
def mayHaveNoticed (pc : Pc) : Bool :=
  brokenOff pc ||
    match pc with
    | .dispatch _ _ | .forgetErase | .forgetRefresh => true
    | .boot => false
    | pc => loading pc

def stageOf (pc : Pc) (candidate : NetConfig) : Stage NetConfig :=
  match pc with
  | .forgetErase => .forgetting
  | pc =>
      match callOf pc with
      | some (.commit _ _ _) => .trying candidate
      | _ => .free

theorem stageOf_trying {pc : Pc} {candidate value : NetConfig}
    (trying : stageOf pc candidate = .trying value) : inTrial pc = true ∧ candidate = value := by
  unfold stageOf at trying
  unfold inTrial
  split at trying
  · cases trying
  · split at trying
    · cases trying
      exact ⟨rfl, rfl⟩
    · cases trying

def slotOf (b : Ble) : Option NetConfig := if b.handoffValid then some b.handoff else none

theorem slotOf_isSome (b : Ble) : (slotOf b).isSome = b.handoffValid := by
  unfold slotOf
  split
  · rename_i valid
    exact valid.symm
  · rename_i none
    rw [Bool.not_eq_true] at none
    exact none.symm

theorem slotOf_some {b : Ble} {c : NetConfig} (slot : slotOf b = some c) :
    b.handoffValid = true ∧ b.handoff = c := by
  unfold slotOf at slot
  split at slot
  · rename_i valid
    exact ⟨valid, Option.some.inj slot⟩
  · cases slot

/-- What a command does to the settings in use: a trial that succeeds is saved, a
forget erases and loads. -/
def effects (p : Platform) : Effects NetConfig Result Bool Held where
  apply c
    | .online fault, held => (held.adopt p fault c).2
    | .reverted, held => held
  forget eraseFails held := (held.erase p eraseFails).load p

/-- The mailbox in a world. -/
def mailbox (p : Platform) (w : World) : Mailbox.State NetConfig Result Bool Held where
  posted := ⟨w.ble.notification.commit, w.ble.notification.forget⟩
  noticed := ⟨w.events.commit, w.events.forget⟩
  slot := slotOf w.ble
  stage := stageOf w.pc w.candidate
  store := if loading w.pc then w.held.load p else w.held
  history := w.history

structure Alert (w : World) : Prop where
  interrupted : brokenOff w.pc = true → w.events.interrupt = true
  quiet : mayHaveNoticed w.pc = false → w.events.interrupt = false

theorem Alert.of_eq {w u : World} (pc : u.pc = w.pc) (events : u.events = w.events)
    (alert : Alert w) : Alert u := by
  constructor
  · rw [pc, events]
    exact alert.interrupted
  · rw [pc, events]
    exact alert.quiet

/-- What the mailbox may do in a step from one place to another.  A command is settled at the
places where that happens, and nothing is taken or given up in the step that reverts. -/
def Inner (here there : Pc) : Mailbox.Event NetConfig Result Bool → Prop
  | .accept _ => False
  | .finish .reverted => there = .abort .reverted
  | .finish (.online _) => here = .save
  | .endForget _ => here = .forgetErase
  | .take | .abandon => there ≠ .abort .reverted
  | .wake | .beginForget | .miss => True

/-- The mailbox makes some steps, none of them an acceptance. -/
def Moves (p : Platform) (w t : World) : Prop :=
  ∃ es, (∀ e ∈ es, Inner w.pc t.pc e) ∧
    ∀ store, (Mailbox.machine (effects p) store).Run (mailbox p w) es (mailbox p t)

structure Simulated (p : Platform) (w t : World) : Prop where
  alert : Alert t
  loads : loading t.pc = true → loading w.pc = true ∨ w.pc = .forgetErase
  moves : Moves p w t

/-! ## Steps of the mailbox -/

theorem Moves.of_eq {p : Platform} {w t : World} (same : mailbox p t = mailbox p w) : Moves p w t :=
  ⟨[], nofun, fun _ => same ▸ .nil _⟩

theorem Moves.of_step {p : Platform} {w t : World} {e : Mailbox.Event NetConfig Result Bool}
    (inner : Inner w.pc t.pc e)
    (step : Mailbox.Step (effects p) (mailbox p w) e (mailbox p t)) : Moves p w t :=
  ⟨[e], fun _ member => List.mem_singleton.mp member ▸ inner, fun _ => .single step⟩

/-- What changed before the step is no part of the mailbox. -/
theorem Moves.of_same {p : Platform} {w u t : World} (same : mailbox p u = mailbox p w)
    (pc : u.pc = w.pc) (moves : Moves p u t) : Moves p w t := by
  obtain ⟨es, inner, run⟩ := moves
  exact ⟨es, pc ▸ inner, same ▸ run⟩

theorem Moves.quiet {p : Platform} {w t : World} (moves : Moves p w t) :
    ∃ es, (∀ command, Mailbox.Event.accept command ∉ es) ∧
      ∀ store, (Mailbox.machine (effects p) store).Run (mailbox p w) es (mailbox p t) := by
  obtain ⟨es, inner, run⟩ := moves
  exact ⟨es, fun command member => inner _ member, run⟩

theorem slotOf_keeps {b after : Ble} (keeps : Keeps b after) : slotOf after = slotOf b := by
  rw [slotOf, slotOf, keeps.handoff, keeps.handoffValid]

/-- What a step changes is no part of the mailbox. -/
structure Unmoved (w t : World) : Prop where
  ble : Keeps w.ble t.ble
  commit : t.events.commit = w.events.commit
  forget : t.events.forget = w.events.forget
  candidate : t.candidate = w.candidate
  held : t.held = w.held
  history : t.history = w.history

theorem Unmoved.interrupt {w t : World} (unmoved : Unmoved w t) :
    t.events.interrupt = w.events.interrupt := by
  rw [Events.interrupt, unmoved.commit, unmoved.forget, Events.interrupt]

/-- The step stays in its stage. -/
theorem moves_unmoved {p : Platform} {w t : World} (unmoved : Unmoved w t)
    (stage : stageOf t.pc w.candidate = stageOf w.pc w.candidate)
    (loads : loading t.pc = loading w.pc) : Moves p w t := by
  refine .of_eq ?_
  simp only [mailbox, unmoved.ble.notification, slotOf_keeps unmoved.ble, unmoved.commit,
    unmoved.forget, unmoved.candidate, unmoved.held, unmoved.history, stage, loads]

/-- The same with no command noticed, to a place where none has to be. -/
theorem simulated_calm {p : Platform} {w t : World} (calm : w.events.interrupt = false)
    (unmoved : Unmoved w t) (stage : stageOf t.pc w.candidate = stageOf w.pc w.candidate)
    (loads : loading t.pc = loading w.pc) (whole : brokenOff t.pc = false) : Simulated p w t where
  alert := by
    constructor
    · intro broken
      rw [whole] at broken
      cases broken
    · intro _
      rw [unmoved.interrupt, calm]
  loads := by
    rw [loads]
    exact .inl
  moves := moves_unmoved unmoved stage loads

theorem mailbox_report (p : Platform) (w : World) (state : BleProvision.State) (reason : UInt8)
    (source : BleProvision.Source) (attempt : UInt8) (ip : List.Vector UInt8 4) :
    mailbox p (report w state reason source attempt ip) = mailbox p w := by
  have keeps := keeps_report w state reason source attempt ip
  simp only [mailbox, keeps.notification, slotOf_keeps keeps]
  rfl

/-- What changed before the step is no part of the mailbox. -/
theorem Simulated.of_same {p : Platform} {w u t : World} (same : mailbox p u = mailbox p w)
    (pc : u.pc = w.pc) (simulated : Simulated p u t) : Simulated p w t :=
  ⟨simulated.alert, pc ▸ simulated.loads, simulated.moves.of_same same pc⟩

theorem noticed_none {w : World} (calm : w.events.interrupt = false) (p : Platform) :
    (mailbox p w).noticed = .none := by
  rw [Events.interrupt, Bool.or_eq_false_iff] at calm
  exact Bits.eq_none calm.1 calm.2

theorem noticed_some {w : World} (alarm : w.events.interrupt = true) (p : Platform) :
    (mailbox p w).noticed ≠ .none := by
  intro none
  have commit : w.events.commit = false := congrArg Bits.apply none
  have forget : w.events.forget = false := congrArg Bits.forget none
  rw [Events.interrupt, commit, forget] at alarm
  cases alarm

/-- `wait_events` takes the bits that are set. -/
theorem moves_wait {p : Platform} {w t : World} (calm : w.events.interrupt = false)
    (after : Moves p (waitEvents w) t) : Moves p w t := by
  obtain ⟨es, inner, run⟩ := after
  have commit := (Bool.or_eq_false_iff.mp calm).1
  have forget := (Bool.or_eq_false_iff.mp calm).2
  have same : mailbox p (waitEvents w) = { mailbox p w with
      posted := .none, noticed := (mailbox p w).posted, history := (mailbox p w).history.wake } := by
    simp [mailbox, waitEvents, Events.union, Events.none, Bits.none, commit, forget, slotOf]
  refine ⟨.wake :: es, ?_, fun store => .cons ?_ (run store)⟩
  · intro e member
    rcases List.mem_cons.mp member with rfl | later
    · trivial
    · exact inner e later
  · rw [same]
    exact .wake (noticed_none calm p)

/-! ## The calls of `bring_up` -/

theorem loading_of_call {pc : Pc} {call : Call} (here : callOf pc = some call) :
    loading pc = false := by
  cases pc with
  | leave cause => cases cause <;> first | rfl | cases here
  | leavePoll cause polls => cases cause <;> first | rfl | cases here
  | abort cause => cases cause <;> first | rfl | cases here
  | mqttDisconnect cause => cases cause <;> first | rfl | cases here
  | boot => cases here
  | forgetLoad => cases here
  | _ => rfl

theorem stage_of_call {pc : Pc} {call : Call} (here : callOf pc = some call)
    (candidate : NetConfig) :
    stageOf pc candidate = match call with
      | .commit _ _ _ => .trying candidate
      | .main _ _ => .free := by
  cases pc with
  | forgetErase => cases here
  | _ =>
      simp only [stageOf, here]
      cases call <;> rfl

/-- A failed try: the trial goes on, or its tries are used up. -/
theorem simulated_failed {p : Platform} {w : World} {call : Call} (here : callOf w.pc = some call)
    (calm : w.events.interrupt = false) (wifi : Bool) (reason : UInt8) :
    Simulated p w (bringUpFailed w call wifi reason) := by
  have loads := loading_of_call here
  have stage := stage_of_call here w.candidate
  cases call with
  | main wifiFails mqttFails =>
      obtain ⟨ble, _, _, keeps, after⟩ := bringUpFailed_main w wifiFails mqttFails wifi reason
      rw [after]
      exact simulated_calm calm ⟨keeps, rfl, rfl, rfl, rfl, rfl⟩ stage.symm loads.symm rfl
  | commit attempt wifiTries mqttTries =>
      obtain ⟨ble, _, _, keeps, -, after⟩ :=
        bringUpFailed_commit w attempt wifiTries mqttTries wifi reason
      rw [after]
      split
      · refine ⟨⟨nofun, fun _ => calm⟩, nofun, .of_step (e := .finish .reverted) rfl ?_⟩
        have same : mailbox p { w with
              ble
              candidate := zeroed
              pc := .abort .reverted
              history := w.history.settle (.done .reverted) } =
            { mailbox p w with
              stage := .free
              store := (effects p).apply w.candidate .reverted (mailbox p w).store
              history := (mailbox p w).history.settle (.done .reverted) } := by
          have free : stageOf (.abort Abort.reverted) zeroed = .free := rfl
          have loaded : loading (.abort Abort.reverted) = false := rfl
          simp [mailbox, keeps.notification, slotOf_keeps keeps, loads, effects, free, loaded]
        rw [same]
        exact .finish Result.reverted stage
      · exact simulated_calm calm ⟨keeps, rfl, rfl, rfl, rfl, rfl⟩ stage.symm loads.symm rfl

/-- A trial is given up because of a command. -/
theorem moves_abandon {p : Platform} {w : World} (alarm : w.events.interrupt = true)
    (trying : stageOf w.pc w.candidate = .trying w.candidate) (loads : loading w.pc = false) :
    Moves p w (abandon w) := by
  refine .of_step (e := .abandon) nofun ?_
  have free : stageOf (.dispatch 0 0) zeroed = .free := rfl
  have loaded : loading (.dispatch 0 0) = false := rfl
  have same : mailbox p (abandon w) =
      { mailbox p w with
        stage := .free
        history := (mailbox p w).history.settle .overtaken } := by
    simp [mailbox, abandon, loads, free, loaded]
  rw [same]
  exact .abandon trying (noticed_some alarm p)

/-- A call that was broken off returns. -/
theorem simulated_aborted {p : Platform} {w : World} {call : Call} (here : callOf w.pc = some call)
    (alarm : w.events.interrupt = true) : Simulated p w (bringUpAborted w call) := by
  have loads := loading_of_call here
  have stage := stage_of_call here w.candidate
  cases call with
  | main wifiFails mqttFails =>
      refine ⟨⟨nofun, nofun⟩, nofun, moves_unmoved ?_ stage.symm loads.symm⟩
      exact ⟨.refl _, rfl, rfl, rfl, rfl, rfl⟩
  | commit attempt wifiTries mqttTries =>
      exact ⟨⟨nofun, nofun⟩, nofun, moves_abandon alarm stage loads⟩

/-! ## The steps of the task -/

/-- Two places in one stage. -/
structure Alike (first second : Pc) : Prop where
  call : callOf first = callOf second
  stage : ∀ candidate, stageOf first candidate = stageOf second candidate
  loads : loading first = loading second
  broken : brokenOff first = brokenOff second
  noticed : mayHaveNoticed first = mayHaveNoticed second

theorem Alike.refl (pc : Pc) : Alike pc pc := ⟨rfl, fun _ => rfl, rfl, rfl, rfl⟩

theorem Alike.symm {first second : Pc} (alike : Alike first second) : Alike second first where
  call := alike.call.symm
  stage candidate := (alike.stage candidate).symm
  loads := alike.loads.symm
  broken := alike.broken.symm
  noticed := alike.noticed.symm

theorem Alike.trans {first second third : Pc} (left : Alike first second)
    (right : Alike second third) : Alike first third where
  call := left.call.trans right.call
  stage candidate := (left.stage candidate).trans (right.stage candidate)
  loads := left.loads.trans right.loads
  broken := left.broken.trans right.broken
  noticed := left.noticed.trans right.noticed

theorem alike_leave (cause : Leave) (polls : Nat) :
    Alike (.leave cause) (.leavePoll cause polls) := by
  constructor
  case stage => intro candidate; rfl
  all_goals cases cause <;> rfl

theorem alike_abort (cause : Abort) : Alike (.abort cause) (.mqttDisconnect cause) := by
  constructor
  case stage => intro candidate; rfl
  all_goals cases cause <;> rfl

/-- A step from one of them to the other. -/
theorem simulated_alike {p : Platform} {w t : World} (alert : Alert w) (alike : Alike t.pc w.pc)
    (unmoved : Unmoved w t) : Simulated p w t where
  alert := by
    constructor
    · rw [alike.broken, unmoved.interrupt]
      exact alert.interrupted
    · rw [alike.noticed, unmoved.interrupt]
      exact alert.quiet
  loads := by
    rw [alike.loads]
    exact .inl
  moves := moves_unmoved unmoved (alike.stage w.candidate) alike.loads

/-- The end of `wifi_leave`, whoever called it. -/
theorem simulated_left {p : Platform} {w : World} {cause : Leave} (alert : Alert w)
    (alike : Alike (.leave cause) w.pc) : Simulated p w (left w cause) := by
  have calm := alert.quiet
  rw [← alike.noticed] at calm
  -- `left` clears the variables of the link before it returns
  let u := { w with wifiUp := false, joined := zeroed, lastJoin := none }
  cases cause with
  | join call =>
      exact simulated_calm (calm rfl) ⟨.refl _, rfl, rfl, rfl, rfl, rfl⟩ (alike.stage _)
        alike.loads rfl
  | joinAborted call =>
      have alarm := alert.interrupted (alike.broken.symm.trans rfl)
      exact .of_same (u := u) rfl rfl (simulated_aborted (w := u) alike.call.symm alarm)
  | joinFailed call reason =>
      exact .of_same (u := u) rfl rfl (simulated_failed (w := u) alike.call.symm (calm rfl) true reason)
  | forget =>
      refine ⟨⟨nofun, nofun⟩, fun _ => .inl (alike.loads ▸ rfl),
        moves_unmoved ?_ (alike.stage _) alike.loads⟩
      exact ⟨.refl _, rfl, rfl, rfl, rfl, rfl⟩

/-- The end of `mqtt_abort`, whoever called it. -/
theorem simulated_mqttAborted {p : Platform} {w : World} {cause : Abort} (alert : Alert w)
    (alike : Alike (.abort cause) w.pc) : Simulated p w (aborted w cause) := by
  have calm := alert.quiet
  rw [← alike.noticed] at calm
  cases cause with
  | start call =>
      exact simulated_calm (calm rfl) ⟨.refl _, rfl, rfl, rfl, rfl, rfl⟩ (alike.stage _)
        alike.loads rfl
  | waitFailed call reason => exact simulated_failed alike.call.symm (calm rfl) false reason
  | waitAborted call =>
      exact simulated_aborted alike.call.symm (alert.interrupted (alike.broken.symm.trans rfl))
  | reverted =>
      obtain ⟨ble, keeps, after⟩ := aborted_reverted w
      rw [after]
      exact simulated_calm (calm rfl) ⟨keeps, rfl, rfl, rfl, rfl, rfl⟩ (alike.stage _)
        alike.loads rfl
  | forget =>
      refine ⟨⟨nofun, nofun⟩, fun _ => .inl (alike.loads ▸ rfl),
        moves_unmoved ?_ (alike.stage _) alike.loads⟩
      exact ⟨.refl _, rfl, rfl, rfl, rfl, rfl⟩

/-- A wait, and what the task does once it returns. -/
theorem simulated_wait {p : Platform} {w t : World} (calm : w.events.interrupt = false)
    (after : Simulated p (waitEvents w) t) : Simulated p w t :=
  ⟨after.alert, after.loads, moves_wait calm after.moves⟩

/-- The head of the loop, where the commands noticed are taken. -/
theorem simulated_dispatch {p : Platform} {w : World} {wifiFails mqttFails : Nat}
    (pc : w.pc = .dispatch wifiFails mqttFails) :
    Simulated p w (dispatch w wifiFails mqttFails) := by
  have stage : (mailbox p w).stage = .free := by simp only [mailbox, pc]; rfl
  have loads : loading w.pc = false := by rw [pc]; rfl
  unfold dispatch
  by_cases forget : w.events.forget = true
  · rw [if_pos forget]
    refine ⟨⟨nofun, nofun⟩, nofun, .of_step (e := .beginForget) trivial ?_⟩
    have same : mailbox p { w with
          events := { w.events with forget := false }
          pc := .forgetErase
          history := w.history.takeForgets } =
        { mailbox p w with
          noticed := { (mailbox p w).noticed with forget := false }
          stage := .forgetting
          history := (mailbox p w).history.takeForgets } := by
      simp only [mailbox, loads]
      rfl
    rw [same]
    exact .beginForget stage forget
  · rw [if_neg forget]
    rw [Bool.not_eq_true] at forget
    by_cases commit : w.events.commit = true
    · rw [if_pos commit]
      have noticed : (mailbox p w).noticed = ⟨true, false⟩ := by
        simp only [mailbox, commit, forget]
      cases valid : w.ble.handoffValid with
      | false =>
          have slot : (mailbox p w).slot = none := by simp [mailbox, slotOf, valid]
          simp only [BleProvision.takeCandidate, valid]
          refine ⟨⟨nofun, nofun⟩, nofun, .of_step (e := .miss) trivial ?_⟩
          have same : mailbox p { w with
                events := { w.events with commit := false }
                pc := .dispatch 0 0 } =
              { mailbox p w with noticed := .none } := by
            simp only [mailbox, pc, forget]
            rfl
          rw [Bool.not_false, if_pos rfl, same]
          exact .miss stage noticed slot
      | true =>
          have slot : (mailbox p w).slot = some w.ble.handoff := by simp [mailbox, slotOf, valid]
          simp only [BleProvision.takeCandidate, valid]
          refine ⟨⟨nofun, fun _ => by simp [Events.interrupt, forget]⟩, nofun,
            .of_step (e := .take) nofun ?_⟩
          have same : mailbox p { w with
                events := { w.events with commit := false }
                ble := { w.ble with handoff := zeroed, handoffValid := false }
                candidate := w.ble.handoff
                pc := .bringUp (.commit 1 0 0)
                history := w.history.takeApply w.ble.handoff } =
              { mailbox p w with
                noticed := .none
                slot := none
                stage := .trying w.ble.handoff
                history := (mailbox p w).history.takeApply w.ble.handoff } := by
            simp only [mailbox, loads, forget]
            rfl
          rw [Bool.not_true, if_neg nofun, same]
          exact .take stage noticed slot
    · rw [if_neg commit]
      rw [Bool.not_eq_true] at commit
      have calm : w.events.interrupt = false := by simp [Events.interrupt, commit, forget]
      dsimp only
      split
      · exact simulated_calm calm ⟨.refl _, rfl, rfl, rfl, rfl, rfl⟩ (by rw [pc]; rfl)
          (by rw [pc]; rfl) rfl
      · exact simulated_calm calm ⟨.refl _, rfl, rfl, rfl, rfl, rfl⟩ (by rw [pc]; rfl)
          (by rw [pc]; rfl) rfl

/-- The end of `run_online`. -/
theorem simulated_return {p : Platform} {w : World} (caller : Caller)
    (stage : stageOf w.pc w.candidate = .free) (loads : loading w.pc = false) :
    Simulated p w (onlineReturn w caller) := by
  have same : ∀ pc, Unmoved w { w with pc } := fun _ => ⟨.refl _, rfl, rfl, rfl, rfl, rfl⟩
  cases caller with
  | commit => exact ⟨⟨nofun, nofun⟩, nofun, moves_unmoved (same _) stage.symm loads.symm⟩
  | main =>
      cases alarm : w.events.interrupt with
      | true =>
          simp only [onlineReturn, alarm, if_true]
          exact ⟨⟨nofun, nofun⟩, nofun, moves_unmoved (same _) stage.symm loads.symm⟩
      | false =>
          simp only [onlineReturn, alarm, if_neg Bool.false_ne_true]
          exact simulated_calm alarm (same _) stage.symm loads.symm rfl

/-- A step within one stage from a place where no command is noticed. -/
theorem simulated_at {p : Platform} {w t : World} {pc : Pc} (alert : Alert w) (here : w.pc = pc)
    (quiet : mayHaveNoticed pc = false) (unmoved : Unmoved w t)
    (stage : stageOf t.pc w.candidate = stageOf pc w.candidate)
    (loads : loading t.pc = loading pc) (whole : brokenOff t.pc = false) : Simulated p w t := by
  subst here
  exact simulated_calm (alert.quiet quiet) unmoved stage loads whole

/-- A wait after which the task looks at its events again anyway. -/
theorem simulated_pause {p : Platform} {w : World} {pc : Pc} (alert : Alert w) (here : w.pc = pc)
    (quiet : mayHaveNoticed pc = false) (stage : stageOf pc w.candidate = .free)
    (loads : loading pc = false) (wifiFails mqttFails : Nat) :
    Simulated p w { waitEvents w with pc := .dispatch wifiFails mqttFails } := by
  subst here
  refine simulated_wait (alert.quiet quiet)
    ⟨⟨nofun, nofun⟩, nofun, moves_unmoved ?_ stage.symm loads.symm⟩
  exact ⟨.refl _, rfl, rfl, rfl, rfl, rfl⟩

/-- A wait in a loop of `bring_up`: it is broken off, or the loop goes on. -/
theorem simulated_poll {p : Platform} {w : World} {pc leave poll : Pc} (alert : Alert w)
    (here : w.pc = pc) (quiet : mayHaveNoticed pc = false)
    (stageLeave : stageOf leave w.candidate = stageOf pc w.candidate)
    (stagePoll : stageOf poll w.candidate = stageOf pc w.candidate)
    (loadsLeave : loading leave = loading pc) (loadsPoll : loading poll = loading pc)
    (broken : mayHaveNoticed leave = true) (whole : brokenOff poll = false) :
    Simulated p w
      (if (waitEvents w).events.interrupt then { waitEvents w with pc := leave }
      else { waitEvents w with pc := poll }) := by
  subst here
  refine simulated_wait (alert.quiet quiet) ?_
  have same : ∀ pc, Unmoved (waitEvents w) { waitEvents w with pc } :=
    fun _ => ⟨.refl _, rfl, rfl, rfl, rfl, rfl⟩
  cases alarm : (waitEvents w).events.interrupt with
  | true =>
      rw [if_pos rfl]
      refine ⟨⟨fun _ => alarm, ?_⟩, fun loads => .inl (loadsLeave ▸ loads),
        moves_unmoved (same leave) stageLeave loadsLeave⟩
      intro none
      rw [broken] at none
      cases none
  | false =>
      rw [if_neg Bool.false_ne_true]
      exact simulated_calm alarm (same poll) stagePoll loadsPoll whole

/-- A trial that is online is saved. -/
theorem finish_save (p : Platform) {w : World} (o : Obs) (pc : w.pc = .save) :
    Mailbox.Step (effects p) (mailbox p w) (.finish (.online o.fault))
      (mailbox p (saveCandidate p w o)) := by
  obtain ⟨ble, keeps, after⟩ := saveCandidate_eq p w o
  have stage : (mailbox p w).stage = .trying w.candidate := by simp only [mailbox, pc]; rfl
  have same : mailbox p { w with
        held := (w.held.adopt p o.fault w.candidate).2
        candidate := zeroed
        ble
        pc := .runOnline .commit
        history := w.history.settle (.done (.online o.fault)) } =
      { mailbox p w with
        stage := .free
        store := (effects p).apply w.candidate (.online o.fault) (mailbox p w).store
        history := (mailbox p w).history.settle (.done (.online o.fault)) } := by
    simp only [mailbox, keeps.notification, slotOf_keeps keeps, pc]
    rfl
  rw [after, same]
  exact .finish (Result.online o.fault) stage

/-- A forget erases. -/
theorem endForget_erase (p : Platform) {w : World} (o : Obs) (pc : w.pc = .forgetErase) :
    Mailbox.Step (effects p) (mailbox p w) (.endForget o.eraseFails)
      (mailbox p (taskStep p w o)) := by
  have stage : (mailbox p w).stage = .forgetting := by simp only [mailbox, pc]; rfl
  have same : mailbox p { w with
        held := w.held.erase p o.eraseFails
        pc := .abort .forget
        history := w.history.settle (.forgotten o.eraseFails) } =
      { mailbox p w with
        stage := .free
        store := (effects p).forget o.eraseFails (mailbox p w).store
        history := (mailbox p w).history.settle (.forgotten o.eraseFails) } := by
    simp only [mailbox, pc]
    rfl
  rw [taskStep, pc]
  dsimp only
  rw [same]
  exact .endForget o.eraseFails stage

/-- **Every step of the task is some steps of the mailbox.** -/
theorem simulated_task {p : Platform} {w : World} (alert : Alert w) (o : Obs) :
    Simulated p w (taskStep p w o) := by
  have keep : Keeps w.ble w.ble := .refl _
  have calm := alert.quiet
  unfold taskStep
  cases pc : w.pc with
  | boot =>
      obtain ⟨ble, keeps, after⟩ := loadActive_eq p w
      dsimp only
      rw [after]
      refine ⟨⟨nofun, nofun⟩, nofun, .of_eq ?_⟩
      simp [mailbox, pc, keeps.notification, slotOf_keeps keeps, loading, stageOf, callOf]
  | dispatch wifiFails mqttFails => exact simulated_dispatch pc
  | idle wifiFails mqttFails => exact simulated_pause alert pc rfl rfl rfl wifiFails mqttFails
  | bringUp call =>
      dsimp only
      split
      · exact simulated_at alert pc rfl ⟨keep, rfl, rfl, rfl, rfl, rfl⟩ rfl rfl rfl
      · exact simulated_at alert pc rfl ⟨keeps_report .., rfl, rfl, rfl, rfl, rfl⟩ rfl rfl rfl
  | leave cause =>
      dsimp only
      split
      · exact simulated_left alert (pc ▸ .refl _)
      · exact simulated_alike alert (pc ▸ (alike_leave cause 0).symm)
          ⟨keep, rfl, rfl, rfl, rfl, rfl⟩
  | leavePoll cause polls =>
      dsimp only
      split
      · refine simulated_alike alert (pc ▸ ?_) ⟨keep, rfl, rfl, rfl, rfl, rfl⟩
        exact (alike_leave cause (polls + 1)).symm.trans (alike_leave cause polls)
      · exact simulated_left alert (pc ▸ alike_leave cause polls)
  | wifiConnect call =>
      dsimp only
      split
      · exact simulated_at alert pc rfl ⟨keep, rfl, rfl, rfl, rfl, rfl⟩ rfl rfl rfl
      · exact simulated_failed (pc ▸ rfl) (calm (pc ▸ rfl)) true 3
  | wifiPoll call elapsed =>
      dsimp only
      rcases wifiPoll_cases w o call elapsed with ⟨reason, after⟩ | ⟨-, after⟩
      · rw [after]
        exact simulated_at alert pc rfl ⟨keep, rfl, rfl, rfl, rfl, rfl⟩ rfl rfl rfl
      · rw [after]
        exact simulated_at alert pc rfl ⟨keep, rfl, rfl, rfl, rfl, rfl⟩ rfl rfl rfl
  | wifiWait call elapsed => exact simulated_poll alert pc rfl rfl rfl rfl rfl rfl rfl
  | wifiCheck call reason =>
      dsimp only
      unfold wifiCheck
      split
      · exact simulated_at alert pc rfl ⟨keep, rfl, rfl, rfl, rfl, rfl⟩ rfl rfl rfl
      · exact simulated_at alert pc rfl ⟨keep, rfl, rfl, rfl, rfl, rfl⟩ rfl rfl rfl
  | mqttStart call =>
      have keeps := keeps_report w .mqttConnecting 0 (source w call) (attempt call) noIp
      dsimp only
      unfold mqttStart
      dsimp only
      split
      · refine .of_same (mailbox_report ..) rfl (simulated_failed ?_ ?_ false 3)
        · exact pc ▸ rfl
        · exact calm (pc ▸ rfl)
      · split
        · exact simulated_at alert pc rfl ⟨keeps, rfl, rfl, rfl, rfl, rfl⟩ rfl rfl rfl
        · exact simulated_at alert pc rfl ⟨keeps, rfl, rfl, rfl, rfl, rfl⟩ rfl rfl rfl
  | abort cause =>
      dsimp only
      split
      · exact simulated_alike alert (pc ▸ (alike_abort cause).symm)
          ⟨keep, rfl, rfl, rfl, rfl, rfl⟩
      · exact .of_same (u := { w with pc := .abort cause, mqttUp := false })
          (by simp only [mailbox, pc]) pc.symm
          (simulated_mqttAborted (alert.of_eq pc.symm rfl) (.refl _))
  | mqttDisconnect cause =>
      exact .of_same (u := { w with pc := .mqttDisconnect cause, connection := none })
        (by simp only [mailbox, pc]) pc.symm
        (simulated_mqttAborted (alert.of_eq pc.symm rfl) (alike_abort cause))
  | mqttConnect call =>
      dsimp only
      unfold mqttConnect
      dsimp only
      split
      · exact simulated_at alert pc rfl ⟨keep, rfl, rfl, rfl, rfl, rfl⟩ rfl rfl rfl
      · refine .of_same (u := { w with mqttUp := false, mqttStatus := .pending }) rfl rfl
          (simulated_failed ?_ ?_ false 3)
        · exact pc ▸ rfl
        · exact calm (pc ▸ rfl)
  | mqttPoll call elapsed =>
      dsimp only
      rcases mqttPoll_cases w o call elapsed with ⟨-, after⟩ | ⟨reason, after⟩ | ⟨-, after⟩
      · rw [after]
        cases call with
        | main _ _ => exact simulated_at alert pc rfl ⟨keep, rfl, rfl, rfl, rfl, rfl⟩ rfl rfl rfl
        | commit _ _ _ => exact simulated_at alert pc rfl ⟨keep, rfl, rfl, rfl, rfl, rfl⟩ rfl rfl rfl
      · rw [after]
        exact simulated_at alert pc rfl ⟨keep, rfl, rfl, rfl, rfl, rfl⟩ rfl rfl rfl
      · rw [after]
        exact simulated_at alert pc rfl ⟨keep, rfl, rfl, rfl, rfl, rfl⟩ rfl rfl rfl
  | mqttWait call elapsed => exact simulated_poll alert pc rfl rfl rfl rfl rfl rfl rfl
  | mainWait wifiFails mqttFails => exact simulated_pause alert pc rfl rfl rfl wifiFails mqttFails
  | commitWait attempt wifiTries mqttTries =>
      dsimp only
      refine simulated_wait (calm (pc ▸ rfl)) ?_
      split
      · rename_i alarm
        exact ⟨⟨nofun, nofun⟩, nofun,
          moves_abandon alarm (by rw [waitEvents, pc]; rfl) (pc ▸ rfl)⟩
      · rename_i quiet
        rw [Bool.not_eq_true] at quiet
        exact simulated_calm quiet ⟨.refl _, rfl, rfl, rfl, rfl, rfl⟩ (pc ▸ rfl) (pc ▸ rfl) rfl
  | save =>
      have finished := finish_save p o pc
      obtain ⟨ble, keeps, after⟩ := saveCandidate_eq p w o
      dsimp only
      rw [after] at finished ⊢
      exact ⟨⟨nofun, fun _ => calm (pc ▸ rfl)⟩, nofun,
        .of_step (e := .finish (.online o.fault)) pc finished⟩
  | runOnline caller =>
      refine simulated_at alert pc rfl ⟨?_, rfl, rfl, rfl, rfl, rfl⟩ rfl rfl rfl
      cases caller with
      | main => exact keeps_report ..
      | commit => exact keep
  | online caller badLinks =>
      dsimp only
      split
      · exact simulated_at alert pc rfl ⟨keep, rfl, rfl, rfl, rfl, rfl⟩ rfl rfl rfl
      · exact simulated_return caller (pc ▸ rfl) (pc ▸ rfl)
  | onlineEvents caller badLinks =>
      refine simulated_wait (calm (pc ▸ rfl)) ?_
      have stage : Stage.free = stageOf (waitEvents w).pc (waitEvents w).candidate := by
        rw [waitEvents, pc]
        rfl
      have loads : false = loading (waitEvents w).pc := by
        rw [waitEvents, pc]
        rfl
      dsimp only
      unfold onlineEvents
      dsimp only
      split
      · exact simulated_return caller stage.symm loads.symm
      · rename_i quiet
        rw [Bool.not_eq_true] at quiet
        split
        · exact simulated_calm quiet ⟨.refl _, rfl, rfl, rfl, rfl, rfl⟩ stage loads rfl
        · exact simulated_calm quiet ⟨.refl _, rfl, rfl, rfl, rfl, rfl⟩ stage loads rfl
  | onlineBle caller badLinks =>
      dsimp only
      unfold onlineBle
      dsimp only
      split
      · exact simulated_at alert pc rfl ⟨keep, rfl, rfl, rfl, rfl, rfl⟩ rfl rfl rfl
      · exact simulated_at alert pc rfl ⟨keep, rfl, rfl, rfl, rfl, rfl⟩ rfl rfl rfl
  | onlineStop caller badLinks =>
      exact simulated_at alert pc rfl ⟨keeps_stop w.ble, rfl, rfl, rfl, rfl, rfl⟩ rfl rfl rfl
  | onlineLink caller badLinks =>
      have stage : stageOf w.pc w.candidate = .free := by rw [pc]; rfl
      have loads : loading w.pc = false := by rw [pc]; rfl
      dsimp only
      rcases onlineLink_cases w o caller badLinks with ⟨wifiUp, -, after⟩ | ⟨badLinks', after⟩
      · rw [after]
        exact .of_same (u := { w with wifiUp, mqttUp := false }) rfl rfl
          (simulated_return caller stage loads)
      · rw [after]
        exact simulated_at alert pc rfl ⟨keep, rfl, rfl, rfl, rfl, rfl⟩ rfl rfl rfl
  | lostWait => exact simulated_pause alert pc rfl rfl rfl 0 0
  | forgetErase =>
      have forgotten := endForget_erase p o pc
      rw [taskStep, pc] at forgotten
      exact ⟨⟨nofun, nofun⟩, fun _ => .inr pc, .of_step (e := .endForget o.eraseFails) pc forgotten⟩
  | forgetLoad =>
      obtain ⟨ble, keeps, after⟩ := loadActive_eq p w
      dsimp only
      rw [after]
      refine ⟨⟨nofun, nofun⟩, nofun, .of_eq ?_⟩
      simp [mailbox, pc, keeps.notification, slotOf_keeps keeps, loading, stageOf, callOf]
  | forgetRefresh =>
      have stage : Stage.free = stageOf w.pc w.candidate := by rw [pc]; rfl
      have loads : false = loading w.pc := by rw [pc]; rfl
      refine ⟨⟨nofun, nofun⟩, nofun, moves_unmoved ⟨?_, rfl, rfl, rfl, rfl, rfl⟩ stage loads⟩
      exact keeps_ite (keeps_startBle w) keep

/-! ## The callbacks -/

theorem simulated_mqtt {p : Platform} {w t : World} {status : MqttStatus} (alert : Alert w)
    (happens : mqttCallback w status = some t) : Simulated p w t := by
  have alike : Alike t.pc w.pc ∧ Unmoved w t := by
    obtain ⟨_, _, _, _, rfl⟩ := mqttCallback_eq happens
    exact ⟨.refl _, ⟨.refl _, rfl, rfl, rfl, rfl, rfl⟩⟩
  exact simulated_alike alert alike.1 alike.2

/-- A callback of BTstack posts the command that it accepts. -/
theorem simulated_ble {p : Platform} {w t : World} {e : Callback} (alert : Alert w)
    (happens : bleCallback w e = some t) :
    Alert t ∧ t.pc = w.pc ∧ match BleProvision.accepted w.ble e with
      | some command => Mailbox.Step (effects p) (mailbox p w) (.accept command) (mailbox p t)
      | none => mailbox p t = mailbox p w := by
  obtain ⟨ble, _, callback, rfl, rfl⟩ := bleCallback_eq happens
  have effect := BleProvision.effect_callback callback
  refine ⟨.of_eq (w := w) rfl rfl alert, rfl, ?_⟩
  cases command : BleProvision.accepted w.ble e with
  | none =>
      rw [command] at effect
      have valid := effect.handoffValid
      have handoff := effect.handoff
      have commit := effect.commit
      have forget := effect.forget
      simp at valid handoff commit forget
      simp [mailbox, slotOf, valid, handoff, commit, forget]
  | some accepted =>
      rw [command] at effect
      have valid := effect.handoffValid
      have handoff := effect.handoff
      have commit := effect.commit
      have forget := effect.forget
      cases accepted with
      | apply c =>
          simp [Command.value] at valid handoff commit forget
          have same : mailbox p { w with ble, history := w.history.accept (.apply c) } =
              { mailbox p w with
                posted := { (mailbox p w).posted with apply := true }
                slot := some c
                history := (mailbox p w).history.accept (.apply c) } := by
            simp [mailbox, slotOf, valid, handoff, commit, forget]
          rw [same]
          exact .apply _ c
      | forget =>
          simp [Command.value] at valid handoff commit forget
          have same : mailbox p { w with ble, history := w.history.accept .forget } =
              { mailbox p w with
                posted := { (mailbox p w).posted with forget := true }
                history := (mailbox p w).history.accept .forget } := by
            simp [mailbox, slotOf, valid, handoff, commit, forget]
          rw [same]
          exact .forget _

/-! ## The clients -/

/-- No settings are handed over while others are, whose bit has been taken. -/
def InTime (w : World) : Event → Prop
  | .ble e => (BleProvision.accepted w.ble e).any Mailbox.isApply = true →
      w.ble.handoffValid = false ∨ w.ble.notification.commit = true
  | _ => True

/-- No forget is posted while the bit of an apply is. -/
def Separate (w : World) : Event → Prop
  | .ble e => (BleProvision.accepted w.ble e).any Mailbox.isForget = true →
      w.ble.notification.commit = false
  | _ => True

/-- Both. -/
def InOrder (w : World) (event : Event) : Prop := InTime w event ∧ Separate w event

instance (w : World) : (event : Event) → Decidable (InTime w event)
  | .ble _ => inferInstanceAs (Decidable (_ → _))
  | .task _ => .isTrue trivial
  | .mqtt _ => .isTrue trivial

instance (w : World) : (event : Event) → Decidable (Separate w event)
  | .ble _ => inferInstanceAs (Decidable (_ → _))
  | .task _ => .isTrue trivial
  | .mqtt _ => .isTrue trivial

instance (w : World) (event : Event) : Decidable (InOrder w event) :=
  inferInstanceAs (Decidable (_ ∧ _))

/-- No command is accepted. -/
def Quiet (w : World) : Event → Prop
  | .ble e => BleProvision.accepted w.ble e = none
  | _ => True

instance (w : World) : (event : Event) → Decidable (Quiet w event)
  | .ble _ => inferInstanceAs (Decidable (_ = _))
  | .task _ => .isTrue trivial
  | .mqtt _ => .isTrue trivial

/-- Without a new command, a step is some steps of the mailbox. -/
theorem simulated_quiet {p : Platform} {w t : World} {event : Event} (alert : Alert w)
    (quiet : Quiet w event) (step : next p w event = some t) : Simulated p w t := by
  cases event with
  | task o =>
      obtain rfl := task_next step
      exact simulated_task alert o
  | mqtt status => exact simulated_mqtt alert step
  | ble e =>
      obtain ⟨after, pc, posted⟩ := simulated_ble (p := p) alert step
      rw [quiet] at posted
      refine ⟨after, ?_, .of_eq posted⟩
      rw [pc]
      exact .inl

theorem alert_next {p : Platform} {w t : World} {event : Event} (alert : Alert w)
    (step : next p w event = some t) : Alert t := by
  cases event with
  | ble e => exact (simulated_ble (p := p) alert step).1
  | task o =>
      have quiet : Quiet w (.task o) := trivial
      exact (simulated_quiet (p := p) alert quiet step).alert
  | mqtt status => exact (simulated_mqtt (p := p) alert step).alert

/-- **NetworkTask and the BLE server simulate the mailbox**, and clients that are
disciplined simulate such clients. -/
theorem simulation {p : Platform} (store : Held) {ok : World → Event → Prop}
    {ok' : Mailbox.State NetConfig Result Bool Held → Mailbox.Event NetConfig Result Bool → Prop}
    (quiet : ∀ s e, (∀ command, e ≠ .accept command) → ok' s e)
    (accept : ∀ w e command, ok w (.ble e) → BleProvision.accepted w.ble e = some command →
      ok' (mailbox p w) (.accept command)) :
    ((machine p).restrict ok).Simulation ((Mailbox.machine (effects p) store).restrict ok') Alert
      (mailbox p) := by
  constructor
  rintro w event t alert ⟨allowed, step⟩
  have moved : Quiet w event → Alert t ∧
      ∃ es, ((Mailbox.machine (effects p) store).restrict ok').Run (mailbox p w) es
        (mailbox p t) := by
    intro none
    obtain ⟨alert, -, moves⟩ := simulated_quiet alert none step
    obtain ⟨es, none, run⟩ := moves.quiet
    refine ⟨alert, es, (run store).restrict ?_⟩
    intro e member s
    refine quiet s e ?_
    rintro command rfl
    exact none command member
  cases event with
  | task o => exact moved trivial
  | mqtt status => exact moved trivial
  | ble e =>
      cases command : BleProvision.accepted w.ble e with
      | none => exact moved command
      | some accepted =>
          obtain ⟨alert, -, posted⟩ := simulated_ble (p := p) alert step
          rw [command] at posted
          exact ⟨alert, [.accept accepted], .single ⟨accept w e accepted allowed command, posted⟩⟩

theorem alert_initial (flash : Flash) : Alert (initial flash) :=
  ⟨nofun, fun _ => rfl⟩

/-- The settings that the flash holds are loaded first. -/
theorem mailbox_initial (p : Platform) (flash : Flash) :
    mailbox p (initial flash) = Mailbox.initial ((initial flash).held.load p) := rfl

/-- An invariant of the mailbox with disciplined clients. -/
theorem reached {p : Platform} {flash : Flash} {ok : World → Event → Prop}
    {ok' : Mailbox.State NetConfig Result Bool Held → Mailbox.Event NetConfig Result Bool → Prop}
    {P : Mailbox.State NetConfig Result Bool Held → Prop}
    (quiet : ∀ s e, (∀ command, e ≠ .accept command) → ok' s e)
    (accept : ∀ w e command, ok w (.ble e) → BleProvision.accepted w.ble e = some command →
      ok' (mailbox p w) (.accept command))
    (base : P (Mailbox.initial ((initial flash).held.load p)))
    (step : ∀ s e t, P s → ok' s e → Mailbox.Step (effects p) s e t → P t)
    {w : World} {es : List Event} (run : ((machine p).restrict ok).Run (initial flash) es w) :
    Alert w ∧ P (mailbox p w) := by
  let store := (initial flash).held.load p
  obtain ⟨alert, fs, moves⟩ :=
    (simulation store quiet accept).run (alert_initial flash) run
  rw [← mailbox_initial] at base
  refine ⟨alert, Machine.run_preserves ?_ base moves⟩
  rintro s e t holds ⟨allowed, move⟩
  exact step s e t holds allowed move

theorem inTime_quiet (s : Mailbox.State NetConfig Result Bool Held)
    (e : Mailbox.Event NetConfig Result Bool) (quiet : ∀ command, e ≠ .accept command) :
    Mailbox.InTime s e := by
  cases e with
  | accept command => exact absurd rfl (quiet command)
  | _ => trivial

theorem quiet_inTime (w : World) (event : Event) (quiet : Quiet w event) : InTime w event := by
  cases event with
  | ble e =>
      intro applies
      rw [show BleProvision.accepted w.ble e = none from quiet] at applies
      cases applies
  | _ => trivial

theorem inTime_accept {p : Platform} (w : World) (e : Callback) (command : BleProvision.Command)
    (inTime : InTime w (.ble e)) (accepted : BleProvision.accepted w.ble e = some command) :
    Mailbox.InTime (mailbox p w) (.accept command) := by
  cases command with
  | forget => trivial
  | apply c =>
      rcases inTime (by rw [accepted]; rfl) with empty | posted
      · refine .inl ?_
        simp [mailbox, slotOf, empty]
      · exact .inr posted

theorem inOrder_quiet (s : Mailbox.State NetConfig Result Bool Held)
    (e : Mailbox.Event NetConfig Result Bool) (quiet : ∀ command, e ≠ .accept command) :
    Mailbox.InOrder s e :=
  ⟨inTime_quiet s e quiet, fun accepts => absurd accepts (quiet .forget)⟩

theorem inOrder_accept {p : Platform} (w : World) (e : Callback) (command : BleProvision.Command)
    (inOrder : InOrder w (.ble e)) (accepted : BleProvision.accepted w.ble e = some command) :
    Mailbox.InOrder (mailbox p w) (.accept command) := by
  refine ⟨inTime_accept w e command inOrder.1 accepted, ?_⟩
  rintro ⟨⟩
  exact inOrder.2 (by rw [accepted]; rfl)

end IrHub.Firmware.Commands
