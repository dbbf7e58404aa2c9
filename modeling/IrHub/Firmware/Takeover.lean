/-
# Firmware.Takeover -- settings that work take over

A client has handed over settings and sends nothing more.  NetworkTask may be anywhere then:
online with other settings, in a trial that the new ones cut short, in a forget.  `Favours` asks
nothing of the outside until they are taken, and from there on that their own network and
broker answer and that flash takes the record.

Their trial loses no try (`promising_task`), and a trial comes to its end (`Progress`), so after
a bounded number of steps the hub is online with them and has stored them (`takes_over`).
-/
import IrHub.Firmware.BrokerAddress
import IrHub.Firmware.Recovery
import IrHub.Firmware.Sources

namespace IrHub.Firmware.Takeover

set_option autoImplicit false

open IrHub.Theory IrHub.Firmware.NetConfig IrHub.Firmware.NetworkTask IrHub.Firmware.Commands
open IrHub.Firmware.Progress IrHub.Firmware.Trial IrHub.Firmware.Connected
open IrHub.Firmware.Recovery
open IrHub.Firmware.BleProvision (Ble noIp)
open IrHub.Firmware.NetConfigFlash (Flash homeNet)

/-! ## A network for the candidate -/

/-- What is outside does its part in this step of a trial, and of `run_online` after it. -/
def answers (w : World) (o : Obs) : Bool :=
  match w.pc with
  | .wifiConnect (.commit _ _ _) => o.wifiConnectOk
  | .wifiCheck (.commit _ _ _) _ => o.link = .up
  | .mqttConnect (.commit _ _ _) => o.mqttConnectOk
  | .mqttPoll (.commit _ _ _) elapsed => w.mqttUp || elapsed + o.late < mqttConnectTimeoutMs
  | .save => o.fault = .none
  | .onlineLink _ _ => o.linkJoin
  | _ => true

/-- The connection is the candidate's. -/
def listens : Pc → Bool
  | .mqttPoll (.commit _ _ _) _ => true
  | .mqttWait (.commit _ _ _) _ => true
  | .save => true
  | pc => inRunOnline pc

/-- Once the settings are taken their network and their broker answer; no client sends a
command. -/
def Favours (w : World) : Event → Prop
  | .task o => w.ble.handoffValid = false → answers w o = true
  | .mqtt status => w.ble.handoffValid = false → listens w.pc = true → status = .accepted
  | .ble e => BleProvision.accepted w.ble e = none

instance (w : World) : (event : Event) → Decidable (Favours w event)
  | .task o => inferInstanceAs (Decidable (w.ble.handoffValid = false → answers w o = true))
  | .mqtt status => inferInstanceAs
      (Decidable (w.ble.handoffValid = false → listens w.pc = true → status = .accepted))
  | .ble e => inferInstanceAs (Decidable (BleProvision.accepted w.ble e = none))

theorem quiet_favours (w : World) (event : Event) (favours : Favours w event) : Quiet w event := by
  cases event with
  | ble e => exact favours
  | _ => trivial

/-! ## A trial that loses no try -/

/-- The first call of `bring_up` in a trial. -/
abbrev firstTry : Call := .commit 1 0 0

/-- The trial is in its first call of `bring_up`, and nothing has failed yet. -/
inductive Promising (w : World) : Pc → Prop
  | bringUp : Promising w (.bringUp firstTry)
  | leave : Promising w (.leave (.join firstTry))
  | leavePoll (polls : Nat) : Promising w (.leavePoll (.join firstTry) polls)
  | wifiConnect : Promising w (.wifiConnect firstTry)
  | wifiPoll (elapsed : Nat) : Promising w (.wifiPoll firstTry elapsed)
  | wifiWait (elapsed : Nat) : Promising w (.wifiWait firstTry elapsed)
  | wifiCheck (reason : UInt8) : Promising w (.wifiCheck firstTry reason)
  | mqttStart : Promising w (.mqttStart firstTry)
  | abort : Promising w (.abort (.start firstTry))
  | mqttDisconnect : Promising w (.mqttDisconnect (.start firstTry))
  | mqttConnect : Promising w (.mqttConnect firstTry)
  | mqttPoll (elapsed : Nat) (going : MqttStatus.failed w.mqttStatus = false) :
      Promising w (.mqttPoll firstTry elapsed)
  | mqttWait (elapsed : Nat) (going : MqttStatus.failed w.mqttStatus = false) :
      Promising w (.mqttWait firstTry elapsed)
  | save (up : w.mqttUp = true) : Promising w .save

theorem Promising.inTrial {w : World} {pc : Pc} (promising : Promising w pc) :
    inTrial pc = true := by
  cases promising <;> rfl

theorem mqttStart_found {p : Platform} {w : World} {call : Call} {addr : List UInt8}
    (found : p.aton (text (settings w call).brokerHost) = some addr) :
    ∃ ble, mqttStart p w call =
        { w with ble, brokerAddr := addr, pc := .abort (.start call) } ∨
      mqttStart p w call =
        { w with ble, brokerAddr := addr, client := true, pc := .mqttConnect call } := by
  refine ⟨(report w .mqttConnecting 0 (source w call) (attempt call) noIp).ble, ?_⟩
  have found' : p.aton (text (settings (report w .mqttConnecting 0 (source w call)
      (attempt call) noIp) call).brokerHost) = some addr := by
    cases call <;> exact found
  unfold mqttStart
  dsimp only
  rw [found']
  dsimp only
  split
  · exact .inl rfl
  · exact .inr rfl

/-- **A step of the trial**: it comes nearer to the save. -/
theorem promising_task {p : Platform} {w : World} {o : Obs} {pc : Pc} (calm : Calm w)
    (here : w.pc = pc) (promising : Promising w pc) (more : pc ≠ .save)
    (address : (p.aton (text w.candidate.brokerHost)).isSome = true) (serves : answers w o = true) :
    Promising (taskStep p w o) (taskStep p w o).pc ∧
      (taskStep p w o).candidate = w.candidate := by
  have stays : ¬(waitEvents w).events.interrupt = true := by
    rw [calm_wait calm]
    exact Bool.false_ne_true
  rw [answers, here] at serves
  unfold taskStep
  rw [here]
  cases promising with
  | bringUp =>
      dsimp only
      split
      · exact ⟨.mqttStart, rfl⟩
      · exact ⟨.leave, rfl⟩
  | leave =>
      dsimp only
      split
      · exact ⟨.wifiConnect, rfl⟩
      · exact ⟨.leavePoll 0, rfl⟩
  | leavePoll polls =>
      dsimp only
      split
      · exact ⟨.leavePoll (polls + 1), rfl⟩
      · exact ⟨.wifiConnect, rfl⟩
  | wifiConnect =>
      dsimp only at serves ⊢
      rw [if_pos serves]
      exact ⟨.wifiPoll 0, rfl⟩
  | wifiPoll elapsed =>
      dsimp only
      rcases wifiPoll_cases w o firstTry elapsed with ⟨reason, after⟩ | ⟨-, after⟩
      · rw [after]
        exact ⟨.wifiCheck reason, rfl⟩
      · rw [after]
        exact ⟨.wifiWait _, rfl⟩
  | wifiWait elapsed =>
      dsimp only
      rw [if_neg stays]
      exact ⟨.wifiPoll _, rfl⟩
  | wifiCheck reason =>
      dsimp only at serves ⊢
      unfold wifiCheck
      dsimp only
      rw [if_neg (not_not_intro (of_decide_eq_true serves))]
      exact ⟨.mqttStart, rfl⟩
  | mqttStart =>
      obtain ⟨addr, found⟩ := Option.isSome_iff_exists.mp address
      obtain ⟨ble, after | after⟩ := @mqttStart_found p w firstTry addr found
      · dsimp only
        rw [after]
        exact ⟨.abort, rfl⟩
      · dsimp only
        rw [after]
        exact ⟨.mqttConnect, rfl⟩
  | abort =>
      dsimp only
      split
      · exact ⟨.mqttDisconnect, rfl⟩
      · exact ⟨.mqttConnect, rfl⟩
  | mqttDisconnect => exact ⟨.mqttConnect, rfl⟩
  | mqttConnect =>
      dsimp only at serves ⊢
      unfold mqttConnect
      dsimp only
      rw [if_pos serves]
      exact ⟨.mqttPoll 0 rfl, rfl⟩
  | mqttPoll elapsed going =>
      dsimp only at serves ⊢
      cases up : w.mqttUp with
      | true =>
          rw [mqttPoll, if_pos up]
          exact ⟨.save up, rfl⟩
      | false =>
          have inside : elapsed + o.late < mqttConnectTimeoutMs := by simpa [up] using serves
          rw [mqttPoll_pending firstTry up going inside]
          exact ⟨.mqttWait _ going, rfl⟩
  | mqttWait elapsed going =>
      dsimp only
      rw [if_neg stays]
      exact ⟨.mqttPoll _ going, rfl⟩
  | save up => exact absurd rfl more

theorem status_accepted {w t : World} (happens : mqttCallback w .accepted = some t) :
    t.mqttStatus = .accepted := by
  unfold mqttCallback at happens
  cases opened : w.connection with
  | none =>
      rw [opened] at happens
      cases happens
  | some connection =>
      rw [opened] at happens
      dsimp only at happens
      split at happens
      · cases happens
      · cases happens
        rfl

/-- What a trial keeps when a callback of the broker comes. -/
theorem promising_mqtt {w t : World} {status : MqttStatus} {pc : Pc} (promising : Promising w pc)
    (fine : listens pc = true → status = .accepted) (happens : mqttCallback w status = some t) :
    Promising t pc := by
  have accepted : listens pc = true → t.mqttUp = true ∧ t.mqttStatus = .accepted := by
    intro hears
    obtain rfl := fine hears
    exact ⟨mqttUp_accepted happens, status_accepted happens⟩
  cases promising with
  | mqttPoll elapsed going =>
      exact .mqttPoll elapsed (by rw [(accepted rfl).2]; rfl)
  | mqttWait elapsed going =>
      exact .mqttWait elapsed (by rw [(accepted rfl).2]; rfl)
  | save up => exact .save (accepted rfl).1
  | bringUp => exact .bringUp
  | leave => exact .leave
  | leavePoll polls => exact .leavePoll polls
  | wifiConnect => exact .wifiConnect
  | wifiPoll elapsed => exact .wifiPoll elapsed
  | wifiWait elapsed => exact .wifiWait elapsed
  | wifiCheck reason => exact .wifiCheck reason
  | mqttStart => exact .mqttStart
  | abort => exact .abort
  | mqttDisconnect => exact .mqttDisconnect
  | mqttConnect => exact .mqttConnect

theorem promising_ble {w : World} {ble : Ble} {history : History} {pc : Pc}
    (promising : Promising w pc) : Promising { w with ble, history } pc := by
  cases promising <;> constructor <;> assumption

/-! ## The save -/

/-- The hub is online with `c`, and the next load finds it. -/
structure Settled (p : Platform) (c : NetConfig) (w : World) : Prop where
  online : isOnline w
  active : w.held.active = c
  stored : (NetConfigFlash.load p.defs w.held.flash).1 = (.flash, canonical c)

theorem load_adopt {p : Platform} {c : NetConfig} (clear : p.binaryClear = true)
    (valid : validate c = .ok) (h : Held) :
    (NetConfigFlash.load p.defs (h.adopt p .none c).2.flash).1 = (.flash, canonical c) := by
  rcases NetConfigFlash.load_save p.defs p.binaryClear .none h.flash c with
    ⟨-, -, loaded⟩ | ⟨failed, -⟩
  · exact loaded
  · refine absurd ?_ failed
    have accepted : ¬(validate c ≠ .ok ∨ p.binaryClear = false) := by simp [valid, clear]
    rw [NetConfigFlash.save, if_neg accepted]
    simp [NetConfigFlash.parse_serializePage valid]

theorem settled_save {p : Platform} {w : World} {o : Obs} (here : w.pc = .save)
    (up : w.mqttUp = true) (clear : p.binaryClear = true) (valid : validate w.candidate = .ok)
    (serves : answers w o = true) : Settled p w.candidate (taskStep p w o) := by
  rw [answers, here] at serves
  dsimp only at serves
  obtain ⟨ble, -, after⟩ := saveCandidate_eq p w o
  have moved : taskStep p w o = saveCandidate p w o := by simp only [taskStep, here]
  rw [moved, after, of_decide_eq_true serves]
  exact ⟨⟨rfl, up⟩, rfl, load_adopt clear valid w.held⟩

theorem idle_online {pc : Pc} (running : inRunOnline pc = true) : touches pc = false := by
  cases pc with
  | boot => cases running
  | save => cases running
  | forgetErase => cases running
  | forgetLoad => cases running
  | _ => rfl

theorem listens_online {pc : Pc} (running : inRunOnline pc = true) : listens pc = true := by
  cases pc with
  | mqttPoll _ _ => cases running
  | mqttWait _ _ => cases running
  | save => cases running
  | _ => exact running

/-- In `run_online` only the link is asked for, whoever is served. -/
theorem works_online {w : World} {o : Obs} (running : inRunOnline w.pc = true)
    (link : (∃ caller badLinks, w.pc = .onlineLink caller badLinks) → o.linkJoin = true) :
    Works w o := by
  rw [Works]
  cases pc : w.pc with
  | onlineLink caller badLinks => exact link ⟨caller, badLinks, pc⟩
  | runOnline _ => trivial
  | online _ _ => trivial
  | onlineEvents _ _ => trivial
  | onlineBle _ _ => trivial
  | onlineStop _ _ => trivial
  | _ => rw [pc] at running; cases running

/-- In `run_online` the settings in use are the candidate's. -/
theorem up_of_favours {w : World} {event : Event} (running : inRunOnline w.pc = true)
    (taken : w.ble.handoffValid = false) (favours : Favours w event) : Up w event := by
  cases event with
  | ble e => exact favours
  | mqtt status => exact fun _ => favours taken (listens_online running)
  | task o =>
      refine works_online running ?_
      rintro ⟨caller, badLinks, pc⟩
      have serves := favours taken
      rw [answers, pc] at serves
      exact serves

theorem settled_next {p : Platform} {c : NetConfig} {w t : World} {event : Event}
    (alert : Alert w) (wired : Wired p w) (calm : Calm w) (taken : w.ble.handoffValid = false)
    (settled : Settled p c w) (favours : Favours w event) (step : next p w event = some t) :
    Settled p c t := by
  obtain ⟨online, active, stored⟩ := settled
  have up := up_of_favours online.1 taken favours
  have idle := idle_online online.1
  have same := held_next alert step idle
  exact ⟨isOnline_next wired calm online up step, by rw [same]; exact active,
    by rw [same]; exact stored⟩

/-! ## From the hand-over on -/

theorem taken_dispatch {w : World} {wifiFails mqttFails : Nat}
    (valid : w.ble.handoffValid = true)
    (taken : (dispatch w wifiFails mqttFails).ble.handoffValid = false) :
    (dispatch w wifiFails mqttFails).pc = .bringUp firstTry ∧
      (dispatch w wifiFails mqttFails).candidate = w.ble.handoff := by
  unfold dispatch at taken ⊢
  by_cases forget : w.events.forget = true
  · rw [if_pos forget] at taken
    exact absurd (valid.symm.trans taken) (by decide)
  rw [if_neg forget] at taken ⊢
  by_cases commit : w.events.commit = true
  · rw [if_pos commit] at taken ⊢
    simp only [BleProvision.takeCandidate, valid]
    exact ⟨rfl, rfl⟩
  · rw [if_neg commit] at taken
    dsimp only at taken
    split at taken
    · exact absurd (valid.symm.trans taken) (by decide)
    · exact absurd (valid.symm.trans taken) (by decide)

/-- The settings are taken. -/
theorem taken_task {p : Platform} {w : World} (alert : Alert w) (o : Obs)
    (valid : w.ble.handoffValid = true) (taken : (taskStep p w o).ble.handoffValid = false) :
    (taskStep p w o).pc = .bringUp firstTry ∧
      (taskStep p w o).candidate = w.ble.handoff := by
  cases wait : waits w.pc with
  | true =>
      rw [(wakes_task (p := p) o wait).ble] at taken
      exact absurd (valid.symm.trans taken) (by decide)
  | false =>
      cases head : atHead w.pc with
      | false =>
          have keeps := (walks_task p alert o wait head).ble
          rw [keeps.handoffValid, valid] at taken
          cases taken
      | true =>
          cases pc : w.pc with
          | dispatch wifiFails mqttFails =>
              have after : taskStep p w o = dispatch w wifiFails mqttFails := by
                simp only [taskStep, pc]
              rw [after] at taken ⊢
              exact taken_dispatch valid taken
          | _ => rw [pc] at head; cases head

/-- How far the settings of the last apply have got. -/
inductive Phase (p : Platform) (c : NetConfig) (w : World) : Prop
  | waiting (valid : w.ble.handoffValid = true) (same : w.ble.handoff = c)
  | tried (taken : w.ble.handoffValid = false) (promising : Promising w w.pc)
      (same : w.candidate = c)
  | settled (taken : w.ble.handoffValid = false) (settled : Settled p c w)

/-- A callback without a command leaves what is handed over as it is. -/
theorem handoff_callback {p : Platform} {w t : World} {event : Event} (quiet : Quiet w event)
    (outside : ∀ o, event ≠ .task o) (step : next p w event = some t) :
    t.ble.handoffValid = w.ble.handoffValid ∧ t.ble.handoff = w.ble.handoff := by
  cases event with
  | task o => exact absurd rfl (outside o)
  | mqtt status =>
      obtain ⟨_, _, _, _, rfl⟩ := mqttCallback_eq step
      exact ⟨rfl, rfl⟩
  | ble e =>
      obtain ⟨ble, _, callback, rfl, -⟩ := bleCallback_eq step
      have effect := BleProvision.effect_callback callback
      rw [show BleProvision.accepted w.ble e = none from quiet] at effect
      exact ⟨by simpa using effect.handoffValid, by simpa using effect.handoff⟩

/-- Without a command nothing is handed over. -/
theorem handoff_next {p : Platform} {w t : World} {event : Event} (alert : Alert w)
    (quiet : Quiet w event) (step : next p w event = some t)
    (valid : t.ble.handoffValid = true) :
    w.ble.handoffValid = true ∧ t.ble.handoff = w.ble.handoff := by
  by_cases task : ∃ o, event = .task o
  · obtain ⟨o, rfl⟩ := task
    obtain rfl := task_next step
    exact Sources.handoff_task alert o valid
  · obtain ⟨same, kept⟩ := handoff_callback quiet (fun o is => task ⟨o, is⟩) step
    exact ⟨same.symm.trans valid, kept⟩

/-- What is taken stays taken. -/
theorem taken_next {p : Platform} {w t : World} {event : Event} (alert : Alert w)
    (quiet : Quiet w event) (step : next p w event = some t)
    (taken : w.ble.handoffValid = false) : t.ble.handoffValid = false := by
  cases valid : t.ble.handoffValid with
  | false => rfl
  | true => exact absurd ((handoff_next alert quiet step valid).1.symm.trans taken) (by decide)

/-- The last command has been taken: nothing else is on its way. -/
theorem calm_taken {p : Platform} {c : NetConfig} {w : World} (kept : Kept p w)
    (newest : w.history.accepted.getLast? = some (.apply c))
    (taken : w.ble.handoffValid = false) : Calm w := by
  rcases kept.last c newest with ⟨slot, -⟩ | ⟨empty, posted, noticed, -⟩
  · exact absurd ((slotOf_some slot).1.symm.trans taken) (by decide)
  · have bits := kept.signalled.slot
    rw [empty] at bits
    obtain ⟨posted', noticed'⟩ := Bool.or_eq_false_iff.mp bits.symm
    exact ⟨Bool.or_eq_false_iff.mpr ⟨noticed', noticed⟩, posted', posted⟩

/-- **Every step**: the settings wait, are tried without a failure, or are settled. -/
theorem phase_next {p : Platform} {c : NetConfig} {w t : World} {event : Event}
    (kept : Kept p w) (wired : Wired p w)
    (newest : w.history.accepted.getLast? = some (.apply c))
    (clear : p.binaryClear = true) (valid : validate c = .ok)
    (address : (p.aton (text c.brokerHost)).isSome = true) (phase : Phase p c w)
    (favours : Favours w event) (step : next p w event = some t) : Phase p c t := by
  have alert := kept.alert
  have quiet := quiet_favours w event favours
  cases phase with
  | waiting handed same =>
      cases after : t.ble.handoffValid with
      | true => exact .waiting after ((handoff_next alert quiet step after).2.trans same)
      | false =>
          by_cases task : ∃ o, event = .task o
          · obtain ⟨o, rfl⟩ := task
            obtain rfl := task_next step
            obtain ⟨there, candidate⟩ := taken_task alert o handed after
            refine .tried after ?_ (candidate.trans same)
            rw [there]
            exact .bringUp
          · have kept := (handoff_callback quiet (fun o is => task ⟨o, is⟩) step).1
            rw [after, handed] at kept
            cases kept
  | tried taken promising same =>
      have calm := calm_taken kept newest taken
      have after := taken_next alert quiet step taken
      subst same
      cases event with
      | task o =>
          obtain rfl := task_next step
          have serves := favours taken
          by_cases save : w.pc = .save
          · rw [save] at promising
            cases promising with
            | save up => exact .settled after (settled_save save up clear valid serves)
          · obtain ⟨promising, candidate⟩ :=
              promising_task calm rfl promising save address serves
            exact .tried after promising candidate
      | mqtt status =>
          obtain ⟨-, there, candidate⟩ := held_mqtt step
          refine .tried after ?_ candidate
          rw [there]
          exact promising_mqtt promising (favours taken) step
      | ble e =>
          obtain ⟨_, _, -, rfl, -⟩ := bleCallback_eq step
          exact .tried after (promising_ble promising) rfl
  | settled taken settled =>
      exact .settled (taken_next alert quiet step taken)
        (settled_next alert wired (calm_taken kept newest taken) taken settled favours step)

theorem asks_of_phase {p : Platform} {c : NetConfig} {w : World} (kept : Kept p w)
    (newest : w.history.accepted.getLast? = some (.apply c)) (phase : Phase p c w) :
    Mailbox.Unanswered (mailbox p w) ∨ Settled p c w := by
  cases phase with
  | waiting valid same =>
      refine .inl (.inl ?_)
      show (slotOf w.ble).isSome = true
      rw [slotOf_isSome, valid]
  | tried taken promising same =>
      have calm := calm_taken kept newest taken
      have trying : stageOf w.pc w.candidate = .trying w.candidate := by
        generalize w.pc = pc at promising
        cases promising <;> rfl
      exact .inl (.inr ⟨⟨_, trying⟩, Mailbox.Bits.eq_none calm.commit calm.forget,
        noticed_none calm.noticed p⟩)
  | settled taken settled => exact .inr settled

/-- Enough steps after the hand-over the settings are settled. -/
theorem settled_run {p : Platform} {flash : Flash} {w t : World} {es fs : List Event}
    {c : NetConfig} (run : ((machine p).restrict InTime).Run (initial flash) es w)
    (newest : w.history.accepted.getLast? = some (.apply c))
    (waiting : w.ble.handoffValid = true)
    (address : (p.aton (text c.brokerHost)).isSome = true) (clear : p.binaryClear = true)
    (run' : ((machine p).restrict Favours).Run w fs t)
    (long : answerSteps + (fs.map turnLost).sum < (fs.map taskSteps).sum) :
    Wired p t ∧ Settled p c t := by
  have kept := kept_reached run
  have handed : w.ble.handoff = c := by
    rcases kept.last c newest with ⟨slot, -⟩ | ⟨empty, -⟩
    · exact (slotOf_some slot).2
    · have none : slotOf w.ble = none := empty
      rw [slotOf, if_pos waiting] at none
      cases none
  have valid : validate c = .ok := by
    refine (BrokerAddress.valid_reached run.unrestrict).slot c ?_
    show slotOf w.ble = some c
    rw [slotOf, if_pos waiting, handed]
  have quiet := run'.mono quiet_favours
  have keeps : ∀ u event v, (∃ us, ((machine p).restrict InTime).Run (initial flash) us u) ∧
      u.history.accepted.getLast? = some (.apply c) ∧ Phase p c u →
      ((machine p).restrict Favours).step u event v →
      (∃ us, ((machine p).restrict InTime).Run (initial flash) us v) ∧
        v.history.accepted.getLast? = some (.apply c) ∧ Phase p c v := by
    rintro u event v ⟨⟨us, ran⟩, newest, phase⟩ ⟨favours, step⟩
    have quiet := quiet_favours u event favours
    have kept := kept_reached ran
    have same := quiet_accepted (p := p) kept.alert (.single ⟨quiet, step⟩)
    refine ⟨⟨_, ran.snoc ⟨quiet_inTime u event quiet, step⟩⟩, by rw [same]; exact newest, ?_⟩
    exact phase_next kept (wired_reached ran.unrestrict) newest clear valid address phase favours
      step
  obtain ⟨⟨us, ran⟩, newest', phase⟩ :=
    Machine.run_preserves keeps ⟨⟨es, run⟩, newest, .waiting waiting handed⟩ run'
  rcases asks_of_phase (kept_reached ran) newest' phase with asks | settled
  · have bound := steps_unanswered kept.alert kept.signalled quiet asks
    omega
  · exact ⟨wired_reached ran.unrestrict, settled⟩

/-- **Settings that work take over.**  When settings have been handed over and no command comes
after them, the hub is online with them after a bounded number of steps of NetworkTask, if their
network, their broker and the flash do their part, and it stays there; wherever the task was when
they were handed over, and whatever its link and its old connection do until they are taken.  The
next load finds them. -/
theorem takes_over {p : Platform} {flash : Flash} {w t : World} {es fs : List Event}
    {c : NetConfig} (run : ((machine p).restrict InTime).Run (initial flash) es w)
    (newest : w.history.accepted.getLast? = some (.apply c))
    (waiting : w.ble.handoffValid = true)
    (address : (p.aton (text c.brokerHost)).isSome = true) (clear : p.binaryClear = true)
    (run' : ((machine p).restrict Favours).Run w fs t)
    (long : answerSteps + (fs.map turnLost).sum < (fs.map taskSteps).sum) :
    Online p t ∧ t.held.active = c ∧
      (NetConfigFlash.load p.defs t.held.flash).1 = (.flash, canonical c) := by
  obtain ⟨wired, settled⟩ := settled_run run newest waiting address clear run' long
  exact ⟨(online_iff wired).mpr settled.online, settled.active, settled.stored⟩

theorem answers_fair {w : World} (running : inRunOnline w.pc = true) :
    answers w (fair .up) = true := by
  rw [answers]
  cases pc : w.pc with
  | wifiConnect _ => rw [pc] at running; cases running
  | wifiCheck _ _ => rw [pc] at running; cases running
  | mqttConnect _ => rw [pc] at running; cases running
  | mqttPoll _ _ => rw [pc] at running; cases running
  | save => rfl
  | onlineLink _ _ => rfl
  | _ => trivial

/-- A hub that is online goes round its loop as often as one likes. -/
theorem favours_online {p : Platform} {w : World} (steady : Steady p w) (online : isOnline w)
    (n : Nat) : ∃ t, ((machine p).restrict Favours).Run w (steps n .up) t := by
  induction n generalizing w with
  | zero => exact ⟨w, .nil w⟩
  | succ n ih =>
      have step : next p w (.task (fair .up)) = some (taskStep p w (fair .up)) := rfl
      have up : Works w (fair .up) := works_online online.1 fun _ => rfl
      have favours : Favours w (.task (fair .up)) := fun _ => answers_fair online.1
      obtain ⟨t, run⟩ := ih (@steady_next p w _ (.task (fair .up)) steady up step)
        (isOnline_task steady.wired steady.calm online up)
      exact ⟨t, .cons ⟨favours, step⟩ run⟩

/-- The save is over, and no command is on its way. -/
def Arrived (p : Platform) (w : World) : Prop :=
  w.pc = .runOnline .commit ∧ w.mqttUp = true ∧ w.events = .none ∧ w.ble.notification = .none ∧
    w.held.haveActive = true ∧ (p.aton (text w.held.active.brokerHost)).isSome = true

instance (p : Platform) (w : World) : Decidable (Arrived p w) :=
  inferInstanceAs (Decidable (_ ∧ _))

/-- From there it goes on as long as one likes. -/
theorem favours_arrived {p : Platform} {flash : Flash} {w u : World} {es fs : List Event}
    (run : (machine p).Run (initial flash) es w)
    (run' : ((machine p).restrict Favours).Run w fs u) (arrived : Arrived p u) :
    ∃ gs t, ((machine p).restrict Favours).Run w gs t ∧
      answerSteps + (gs.map turnLost).sum < (gs.map taskSteps).sum := by
  obtain ⟨pc, up, events, posted, haveActive, address⟩ := arrived
  have whole := run.append run'.unrestrict
  have steady : Steady p u :=
    { alert := alert_reached whole
      sound := sound_reached whole
      wired := wired_reached whole
      calm := ⟨by rw [events]; rfl, by rw [posted]; rfl, by rw [posted]; rfl⟩
      ready := ⟨by rw [pc]; rfl, by rw [pc]; rintro ⟨⟩, haveActive, address⟩ }
  have online : isOnline u := ⟨by rw [pc]; rfl, up⟩
  obtain ⟨t, rest⟩ := favours_online steady online (answerSteps + (fs.map turnLost).sum + 1)
  refine ⟨_, t, run'.append rest, ?_⟩
  simp only [List.map_append, List.sum_append, steps, List.map_replicate, List.sum_replicate_nat,
    turnLost, taskSteps]
  omega

/-- Handed over, and taken to the broker. -/
def homeward : List Event := steps 5 .down ++ steps 4 .up ++ [.mqtt .accepted] ++ steps 2 .up

/-- The first settings of a hub. -/
theorem takes_over_homeNet : ∃ w t fs,
    ((machine bench).restrict InTime).Run (initial blank) (provision ++ [apply]) w ∧
    ((machine bench).restrict Favours).Run w fs t ∧ Online bench t ∧
    t.held.active = homeNet ∧
    (NetConfigFlash.load bench.defs t.held.flash).1 = (.flash, homeNet) := by
  have computed : (Machine.exec (Machine.guarded InTime (next bench)) (initial blank)
      (provision ++ [apply])).any (fun w => decide (w.ble.handoffValid = true ∧
        w.history.accepted = [.apply homeNet] ∧
        (Machine.exec (Machine.guarded Favours (next bench)) w homeward).any
          (fun u => decide (Arrived bench u)) = true)) = true := by
    decide +kernel
  obtain ⟨w, run, waiting, accepted, onward⟩ := Machine.exists_run_of_exec_restrict computed
  obtain ⟨u, run', arrived⟩ := Machine.exists_run_of_exec_restrict onward
  have run : ((machine bench).restrict InTime).Run (initial blank) (provision ++ [apply]) w := run
  obtain ⟨fs, t, favoured, long⟩ := favours_arrived run.unrestrict run' arrived
  have newest : w.history.accepted.getLast? = some (.apply homeNet) := by
    rw [accepted]
    rfl
  have taken := takes_over run newest waiting rfl rfl favoured long
  rw [NetConfigFlash.canonical_homeNet] at taken
  exact ⟨w, t, fs, run, favoured, taken⟩

end IrHub.Firmware.Takeover
