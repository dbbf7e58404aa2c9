/-
# Firmware.Sources -- where settings come from, and what a forget leaves of them

Settings are copied from the flash to `s_active`, to `s_current`, to `s_staged`, to
`s_handoff`, to `s_candidate` and back.  `Values` says which values the fields may
have.  If it holds of all copies, and of what clients write, it holds of all copies
ever after (`sourced_run`): nothing is made up, and nothing comes back.

A forget leaves the build defaults or blanks in force.  It refreshes `s_current`; the
settings of a client that is connected stay staged, and settings that are handed over
stay handed over.  Where the first are those in force and the second have no forgotten
value, nothing of the forgotten settings is used again (`forget_leaves_nothing`).
Where they are not, a client that stays connected applies them again
(`forgotten_applied_again`).
-/
import IrHub.Firmware.Radio
import IrHub.Firmware.Secrecy

namespace IrHub.Firmware.Sources

set_option autoImplicit false

open IrHub.Theory IrHub.Firmware.NetConfig IrHub.Firmware.NetworkTask IrHub.Firmware.Commands
open IrHub.Firmware.Progress IrHub.Firmware.Trial IrHub.Firmware.Radio
open IrHub.Firmware.NetConfigFlash (Flash Fault homeNet zeroed unstored)
open IrHub.Firmware.BleProvision (Ble Callback Attribute HandleBlob)
open IrHub.Firmware.Secrecy (Terminated)

/-! ## Values of the fields -/

structure Values where
  ssid : Chars (ssidMax + 1) → Prop
  password : Chars (passMax + 1) → Prop
  brokerHost : Chars (hostMax + 1) → Prop
  brokerPort : UInt16 → Prop

structure Within (v : Values) (c : NetConfig) : Prop where
  ssid : v.ssid c.ssid
  password : v.password c.password
  brokerHost : v.brokerHost c.brokerHost
  brokerPort : v.brokerPort c.brokerPort

/-- Blanks and the build defaults are among them, and what a record keeps of settings
among them. -/
structure Values.Complete (p : Platform) (v : Values) : Prop where
  blank : Within v zeroed
  defaults : ∀ c, buildDefaults p.defs = some c → Within v c
  canonical : ∀ c, validate c = .ok → Within v c → Within v (canonical c)

/-- A complete value for an attribute is among them. -/
def Values.Allows (v : Values) : Attribute → List UInt8 → Prop
  | .ssid, data => ∀ fits : data.length ≤ ssidMax, v.ssid (BleProvision.setText data fits)
  | .pass, data => ∀ fits : data.length ≤ passMax, v.password (BleProvision.setText data fits)
  | .host, data => ∀ fits : data.length ≤ hostMax, v.brokerHost (BleProvision.setText data fits)
  | .port, data => v.brokerPort (get16 data)
  | _, _ => True

theorem within_unstored {p : Platform} {v : Values} (complete : v.Complete p) :
    Within v (unstored p.defs).2 := by
  unfold unstored
  cases found : buildDefaults p.defs with
  | none => exact complete.blank
  | some c => exact complete.defaults c found

theorem within_inUse {v : Values} {h : Held} (blank : Within v zeroed) (active : Within v h.active) :
    Within v (inUse h) := by
  unfold inUse
  split
  · exact active
  · exact blank

/-! ## What a callback stages -/

/-- The complete value that a callback gets. -/
def completeValue (b : Ble) : Callback → Option (Attribute × List UInt8)
  | .write handle .none _ data => if handle = .statusCcc then none else some (handle, data)
  | .write _ .execute _ _ =>
      b.prepHandle.map fun handle => (handle, b.prep.toList.take b.prepLen)
  | _ => none

/-- What becomes of the staged settings. -/
inductive Stages (b after : Ble) (e : Callback) : Prop
  | same : after.staged = b.staged → Stages b after e
  | connected (con : UInt16) : e = .connected con → after.staged = b.current → Stages b after e
  | disconnected : e = .disconnected → after.staged = zeroed → Stages b after e
  | wrote (handle : Attribute) (data : List UInt8) : completeValue b e = some (handle, data) →
      after.staged = (BleProvision.applyValue b handle data).1.staged → Stages b after e

theorem stages_callback {b after : Ble} {e : Callback}
    (happens : BleProvision.callback b e = some after) : Stages b after e := by
  cases e with
  | connected con =>
      simp only [BleProvision.callback] at happens
      split at happens
      · cases happens
        exact .connected con rfl rfl
      · cases happens
  | disconnected =>
      cases happens
      unfold BleProvision.disconnected
      split
      · exact .same rfl
      · exact .disconnected rfl rfl
  | canSendNow =>
      cases happens
      unfold BleProvision.canSendNow
      split <;> exact .same rfl
  | write handle mode offset data =>
      simp only [BleProvision.callback] at happens
      split at happens
      · cases happens
        cases mode with
        | none =>
            by_cases subscription : handle = .statusCcc
            · refine .same ?_
              simp only [BleProvision.attWriteCb, if_pos subscription]
              split
              · obtain ⟨_, _, _, same⟩ := BleProvision.pushStatus_eq
                  { b with subscribed := decide (get16 data = 1) } b.status
                rw [same]
              · rfl
            · refine .wrote handle data (if_neg subscription) ?_
              simp only [BleProvision.attWriteCb, if_neg subscription]
        | active =>
            refine .same ?_
            simp only [BleProvision.attWriteCb]
            split
            · rfl
            · split <;> rfl
        | validate => exact .same rfl
        | execute =>
            cases pending : b.prepHandle with
            | none =>
                refine .same ?_
                simp only [BleProvision.attWriteCb, pending]
                rfl
            | some prepared =>
                refine .wrote prepared (b.prep.toList.take b.prepLen) ?_ ?_
                · simp only [completeValue, pending, Option.map_some]
                · simp only [BleProvision.attWriteCb, pending]
                  rfl
        | cancel => exact .same rfl
      · cases happens

/-- A complete value changes the field of its attribute. -/
theorem staged_applyCommand (b : Ble) (data : List UInt8) :
    (BleProvision.applyCommand b data).1.staged = b.staged := by
  unfold BleProvision.applyCommand
  dsimp only
  split
  · rfl
  · split
    · split
      · obtain ⟨_, _, _, same⟩ := BleProvision.pushStatus_eq b
          ⟨.invalid, BleProvision.invalidReason (validate b.staged), BleProvision.noIp, 0, .candidate⟩
        rw [same]
      · rfl
    · split <;> rfl

theorem within_applyValue {v : Values} {b : Ble} (staged : Within v b.staged) {handle : Attribute}
    {data : List UInt8} (allowed : v.Allows handle data) :
    Within v (BleProvision.applyValue b handle data).1.staged := by
  unfold BleProvision.applyValue
  by_cases fits : data.length ≤ BleProvision.fieldCap handle
  · rw [dif_pos fits]
    cases handle with
    | ssid => exact ⟨allowed fits, staged.password, staged.brokerHost, staged.brokerPort⟩
    | pass => exact ⟨staged.ssid, allowed fits, staged.brokerHost, staged.brokerPort⟩
    | host => exact ⟨staged.ssid, staged.password, allowed fits, staged.brokerPort⟩
    | port =>
        dsimp only
        split
        · exact staged
        · exact ⟨staged.ssid, staged.password, staged.brokerHost, allowed⟩
    | cmd =>
        dsimp only
        rw [staged_applyCommand]
        exact staged
    | _ => exact staged
  · rw [dif_neg fits]
    exact staged

/-! ## The settings in use and in flash -/

/-- What the next load would find. -/
def stored (p : Platform) (f : Flash) : NetConfig := (NetConfigFlash.load p.defs f).1.2

theorem stored_config (p : Platform) {f g : Flash} (same : f.config = g.config) :
    stored p f = stored p g := by
  rw [stored, NetConfigFlash.load_config p.defs same, stored]

/-- `load_active` takes what it finds, and leaves the flash as it is. -/
theorem held_load (p : Platform) (h : Held) :
    (h.load p).flash.config = h.flash.config ∧ (h.load p).active = stored p h.flash ∧
      inUse (h.load p) = stored p h.flash := by
  unfold Held.load stored NetConfigFlash.load
  dsimp only
  cases NetConfig.parse h.flash.config.toList with
  | some c => exact ⟨rfl, rfl, rfl⟩
  | none =>
      unfold unstored
      dsimp only
      cases buildDefaults p.defs with
      | none => exact ⟨rfl, rfl, rfl⟩
      | some c => exact ⟨rfl, rfl, rfl⟩

/-- After a save the flash holds the candidate, what it held, or nothing. -/
theorem within_adopt {p : Platform} {v : Values} (complete : v.Complete p) {h : Held}
    {c : NetConfig} (fault : Fault) (candidate : Within v c)
    (before : Within v (stored p h.flash)) :
    Within v (stored p (h.adopt p fault c).2.flash) := by
  have shape : (h.adopt p fault c).2.flash = (NetConfigFlash.save p.binaryClear fault h.flash c).2 :=
    rfl
  rw [shape, stored]
  rcases NetConfigFlash.load_save p.defs p.binaryClear fault h.flash c with
    ⟨-, valid, found⟩ | ⟨-, found⟩
  · rw [found]
    exact complete.canonical c valid candidate
  · rw [found]
    split
    · exact within_unstored complete
    · exact before

theorem load_erase (p : Platform) {h : Held} {eraseFails : Bool}
    (done : (NetConfigFlash.erase p.binaryClear eraseFails h.flash).1 = true) :
    (NetConfigFlash.load p.defs (h.erase p eraseFails).flash).1 = unstored p.defs := by
  have config : (h.erase p eraseFails).flash.config = NetConfigFlash.erased := by
    unfold Held.erase NetConfigFlash.erase at *
    dsimp only at *
    split at done
    · cases done
    · rename_i clear
      rw [if_neg clear]
  rw [NetConfigFlash.load_config p.defs (g := ⟨NetConfigFlash.erased, h.flash.page⟩) config,
    NetConfigFlash.load_erased]

theorem within_erase {p : Platform} {v : Values} (complete : v.Complete p) {h : Held}
    (eraseFails : Bool) (before : Within v (stored p h.flash)) :
    Within v (stored p (h.erase p eraseFails).flash) := by
  cases done : (NetConfigFlash.erase p.binaryClear eraseFails h.flash).1 with
  | true =>
      rw [stored, load_erase p done]
      exact within_unstored complete
  | false =>
      have same : (h.erase p eraseFails).flash = h.flash := by
        unfold Held.erase NetConfigFlash.erase at *
        dsimp only at *
        split at done
        · rename_i refused
          rw [if_pos refused]
        · cases done
      rw [same]
      exact before

theorem within_heldAfter {p : Platform} {v : Values} (complete : v.Complete p) {w : World} (o : Obs)
    (active : Within v w.held.active) (found : Within v (stored p w.held.flash))
    (candidate : Within v w.candidate) :
    Within v (heldAfter p w o).active ∧ Within v (stored p (heldAfter p w o).flash) := by
  obtain ⟨config, taken, -⟩ := held_load p w.held
  have left := stored_config p config
  unfold heldAfter
  cases w.pc with
  | boot =>
      dsimp only
      rw [taken, left]
      exact ⟨found, found⟩
  | forgetLoad =>
      dsimp only
      rw [taken, left]
      exact ⟨found, found⟩
  | save => exact ⟨candidate, within_adopt complete o.fault candidate found⟩
  | forgetErase => exact ⟨active, within_erase complete o.eraseFails found⟩
  | _ => exact ⟨active, found⟩

/-! ## All copies -/

/-- What is written is among the values. -/
def Writes (v : Values) (w : World) : Event → Prop
  | .ble e => ∀ handle data, completeValue w.ble e = some (handle, data) → v.Allows handle data
  | _ => True

/-- Every copy of settings has values of `v`. -/
structure Sourced (p : Platform) (v : Values) (w : World) : Prop where
  alert : Alert w
  active : Within v w.held.active
  stored : Within v (stored p w.held.flash)
  candidate : Within v w.candidate
  current : Within v w.ble.current
  staged : Within v w.ble.staged
  handoff : w.ble.handoffValid = true → Within v w.ble.handoff

/-- What is taken is gone. -/
theorem handoff_dispatch {w : World} {wifiFails mqttFails : Nat}
    (valid : (dispatch w wifiFails mqttFails).ble.handoffValid = true) :
    w.ble.handoffValid = true ∧ (dispatch w wifiFails mqttFails).ble.handoff = w.ble.handoff := by
  unfold dispatch at valid ⊢
  by_cases forget : w.events.forget = true
  · rw [if_pos forget] at valid ⊢
    exact ⟨valid, rfl⟩
  · rw [if_neg forget] at valid ⊢
    by_cases commit : w.events.commit = true
    · rw [if_pos commit] at valid ⊢
      dsimp only at valid ⊢
      unfold BleProvision.takeCandidate at valid ⊢
      cases handed : w.ble.handoffValid with
      | true =>
          simp only [handed, Bool.not_true, Bool.false_eq_true, if_false] at valid
      | false =>
          simp only [handed, Bool.not_false, if_true, Bool.false_eq_true] at valid
    · rw [if_neg commit] at valid ⊢
      dsimp only at valid ⊢
      split at valid
      · rename_i have_
        rw [if_pos have_]
        exact ⟨valid, rfl⟩
      · rename_i none
        rw [if_neg none]
        exact ⟨valid, rfl⟩

/-- The task hands over nothing. -/
theorem handoff_task {p : Platform} {w : World} (alert : Alert w) (o : Obs)
    (valid : (taskStep p w o).ble.handoffValid = true) :
    w.ble.handoffValid = true ∧ (taskStep p w o).ble.handoff = w.ble.handoff := by
  cases wait : waits w.pc with
  | true =>
      have woken := (wakes_task (p := p) o wait).ble
      rw [woken] at valid ⊢
      exact ⟨valid, rfl⟩
  | false =>
      cases head : atHead w.pc with
      | false =>
          have keeps := (walks_task p alert o wait head).ble
          exact ⟨keeps.handoffValid.symm.trans valid, keeps.handoff⟩
      | true =>
          cases pc : w.pc with
          | dispatch wifiFails mqttFails =>
              have after : taskStep p w o = dispatch w wifiFails mqttFails := by
                simp only [taskStep, pc]
              rw [after] at valid ⊢
              exact handoff_dispatch valid
          | _ => rw [pc] at head; cases head

theorem current_task {p : Platform} {v : Values} {w : World} (blank : Within v zeroed) (o : Obs)
    (active : Within v w.held.active) (current : Within v w.ble.current)
    (staged : Within v w.ble.staged) : Within v (taskStep p w o).ble.current ∧
      Within v (taskStep p w o).ble.staged := by
  have inUse_ := within_inUse (h := w.held) blank active
  cases (turn_task p w o).serves with
  | still same =>
      rw [same.current, same.staged]
      exact ⟨current, staged⟩
  | loaded _ _ same =>
      rw [same.current, same.staged]
      exact ⟨blank, staged⟩
  | stuck _ _ _ _ same =>
      rw [same.current, same.staged]
      exact ⟨inUse_, staged⟩
  | refreshed _ _ _ same =>
      rw [same.current, same.staged]
      exact ⟨inUse_, staged⟩
  | stopped caller badLinks _ _ _ stop =>
      rw [stop]
      unfold BleProvision.stop
      split
      · exact ⟨current, staged⟩
      · exact ⟨blank, blank⟩

theorem sourced_task {p : Platform} {v : Values} (complete : v.Complete p) {w : World}
    (sourced : Sourced p v w) (o : Obs) (alert : Alert (taskStep p w o)) :
    Sourced p v (taskStep p w o) := by
  obtain ⟨before, active, found, candidate, current, staged, handoff⟩ := sourced
  have held := held_taskStep (p := p) before o
  obtain ⟨active', found'⟩ := within_heldAfter complete o active found candidate
  obtain ⟨current', staged'⟩ := current_task complete.blank o active current staged (p := p)
  refine ⟨alert, held ▸ active', held ▸ found', ?_, current', staged', ?_⟩
  · rcases (turn_task p w o).candidate with ⟨same, -⟩ | wiped | ⟨-, valid, taken⟩
    · rw [same]
      exact candidate
    · rw [wiped]
      exact complete.blank
    · rw [taken]
      exact handoff valid
  · intro valid
    obtain ⟨handed, same⟩ := handoff_task before o valid
    rw [same]
    exact handoff handed

theorem sourced_ble {p : Platform} {v : Values} (complete : v.Complete p) {w t : World}
    {e : Callback} (sourced : Sourced p v w) (writes : Writes v w (.ble e))
    (happens : bleCallback w e = some t) (alert : Alert t) : Sourced p v t := by
  obtain ⟨ble, _, callback, rfl, -⟩ := bleCallback_eq happens
  obtain ⟨-, active, found, candidate, current, staged, handoff⟩ := sourced
  refine ⟨alert, active, found, candidate, ?_, ?_, ?_⟩
  · show Within v ble.current
    rw [(powered_callback callback).current]
    exact current
  · show Within v ble.staged
    cases stages_callback callback with
    | same same =>
        rw [same]
        exact staged
    | connected con _ seeded =>
        rw [seeded]
        exact current
    | disconnected _ wiped =>
        rw [wiped]
        exact complete.blank
    | wrote handle data complete wrote =>
        rw [wrote]
        exact within_applyValue staged (writes handle data complete)
  · intro valid
    show Within v ble.handoff
    have effect := BleProvision.effect_callback callback
    have valid' := effect.handoffValid.symm.trans valid
    rw [effect.handoff]
    cases command : BleProvision.accepted w.ble e with
    | none =>
        rw [command] at valid'
        exact handoff (by simpa using valid')
    | some command' =>
        rw [command] at valid'
        cases command' with
        | forget => exact handoff (by simpa [Mailbox.Command.value] using valid')
        | apply c =>
            rw [(BleProvision.accepted_apply command).1]
            exact staged

theorem sourced_next {p : Platform} {v : Values} (complete : v.Complete p) {w t : World}
    {e : Event} (sourced : Sourced p v w) (writes : Writes v w e) (step : next p w e = some t) :
    Sourced p v t := by
  have alert := alert_next (p := p) sourced.alert step
  cases e with
  | task o =>
      obtain rfl := task_next step
      exact sourced_task complete sourced o alert
  | mqtt status =>
      obtain ⟨-, active, found, candidate, current, staged, handoff⟩ := sourced
      obtain ⟨_, _, _, _, rfl⟩ := mqttCallback_eq step
      exact ⟨alert, active, found, candidate, current, staged, handoff⟩
  | ble e => exact sourced_ble complete sourced writes step alert

/-- **Nothing is made up, and nothing comes back**: where every copy of settings has
values of `v`, and only such values are written, every copy has such values ever after. -/
theorem sourced_run {p : Platform} {v : Values} (complete : v.Complete p) {w t : World}
    {es : List Event} (sourced : Sourced p v w)
    (run : ((machine p).restrict (Writes v)).Run w es t) : Sourced p v t := by
  refine Machine.run_preserves (P := Sourced p v) ?_ sourced run
  rintro s e t sourced ⟨writes, step⟩
  exact sourced_next complete sourced writes step

/-! ## Values of valid settings -/

/-- The values of all valid settings, and of blanks. -/
theorem Values.complete_of_validate (p : Platform) {v : Values} (blank : Within v zeroed)
    (valid : ∀ c, validate c = .ok → Within v c) : v.Complete p where
  blank := blank
  defaults _ found := valid _ (validate_of_buildDefaults found)
  canonical _ ok _ := valid _ (validate_canonical ok)

/-- When power comes on, the flash holds valid settings or none. -/
theorem sourced_initial (p : Platform) {v : Values} (blank : Within v zeroed)
    (valid : ∀ c, validate c = .ok → Within v c) (flash : Flash) :
    Sourced p v (initial flash) where
  alert := alert_initial flash
  active := blank
  stored := by
    unfold stored NetConfigFlash.load
    dsimp only
    cases found : NetConfig.parse (initial flash).held.flash.config.toList with
    | some c => exact valid c (validate_of_parse found)
    | none => exact within_unstored (Values.complete_of_validate p blank valid)
  candidate := blank
  current := blank
  staged := blank
  handoff := nofun

/-! ## Every text is terminated -/

/-- The arrays of an SSID hold a text. -/
def texts : Values := ⟨Terminated, fun _ => True, fun _ => True, fun _ => True⟩

theorem within_texts {c : NetConfig} (terminated : Terminated c.ssid) : Within texts c :=
  ⟨terminated, trivial, trivial, trivial⟩

theorem texts_of_validate (c : NetConfig) (valid : validate c = .ok) : Within texts c :=
  within_texts (terminated_of_validate valid).1

theorem texts_writes (w : World) (e : Event) : Writes texts w e := by
  cases e with
  | ble e =>
      intro handle data _
      cases handle with
      | ssid => exact fun fits => Secrecy.terminated_setText data fits
      | pass => exact fun _ => trivial
      | host => exact fun _ => trivial
      | _ => exact trivial
  | _ => trivial

/-- **`strlen` never leaves the SSID of a client's settings.** -/
theorem texts_reached {p : Platform} {flash : Flash} {w : World} {es : List Event}
    (run : (machine p).Run (initial flash) es w) :
    Terminated w.ble.current.ssid ∧ Terminated w.ble.staged.ssid := by
  have blank : Within texts zeroed := within_texts Secrecy.terminated_zeroed
  have sourced := sourced_run (Values.complete_of_validate p blank texts_of_validate)
    (sourced_initial p blank texts_of_validate flash) (run.restrict fun e _ s => texts_writes s e)
  exact ⟨sourced.current.ssid, sourced.staged.ssid⟩

/-! ## A forget -/

/-- Inside `handle_forget`. -/
def forgetting : Pc → Bool
  | .forgetErase => true
  | .abort .forget => true
  | .mqttDisconnect .forget => true
  | .leave .forget => true
  | .leavePoll .forget _ => true
  | .forgetLoad => true
  | _ => false

/-- The task is inside it, and its erase is done. -/
def InForget (w : World) : Event → Prop
  | .task o => forgetting w.pc = true ∧ (w.pc = .forgetErase → o.eraseFails = false)
  | _ => True

/-- From the erase to the refresh at the end. -/
structure Forgotten (p : Platform) (before w : World) : Prop where
  reached : (machine p).Reachable before
  begins : before.pc = .forgetErase
  clear : p.binaryClear = true
  run : ∃ es, ((machine p).restrict InForget).Run before es w
  ends : w.pc = .forgetRefresh

/-- What the erase has left, place by place. -/
def Cleared (p : Platform) (w : World) : Prop :=
  match w.pc with
  | .forgetErase => True
  | .forgetRefresh =>
      (NetConfigFlash.load p.defs w.held.flash).1 = unstored p.defs ∧
        w.held.active = (unstored p.defs).2 ∧ inUse w.held = (unstored p.defs).2
  | pc => forgetting pc = true ∧ (NetConfigFlash.load p.defs w.held.flash).1 = unstored p.defs

theorem cleared_task {p : Platform} {w : World} (clear : p.binaryClear = true)
    (cleared : Cleared p w) {o : Obs} (inside : InForget w (.task o)) :
    Cleared p (taskStep p w o) := by
  obtain ⟨here, erased⟩ := inside
  unfold Cleared at cleared
  unfold taskStep
  cases pc : w.pc with
  | forgetErase =>
      refine ⟨rfl, load_erase p ?_⟩
      simp [NetConfigFlash.erase, clear, erased pc]
  | forgetLoad =>
      rw [pc] at cleared
      obtain ⟨config, taken, used⟩ := held_load p w.held
      have found : stored p w.held.flash = (unstored p.defs).2 := by rw [stored, cleared.2]
      exact ⟨(NetConfigFlash.load_config p.defs config).trans cleared.2, taken.trans found,
        used.trans found⟩
  | abort cause =>
      rw [pc] at cleared
      cases cause with
      | forget =>
          dsimp only
          split
          · exact cleared
          · exact cleared
      | _ => cases cleared.1
  | mqttDisconnect cause =>
      rw [pc] at cleared
      cases cause with
      | forget => exact cleared
      | _ => cases cleared.1
  | leave cause =>
      rw [pc] at cleared
      cases cause with
      | forget =>
          dsimp only
          split
          · exact cleared
          · exact cleared
      | _ => cases cleared.1
  | leavePoll cause polls =>
      rw [pc] at cleared
      cases cause with
      | forget =>
          dsimp only
          split
          · exact cleared
          · exact cleared
      | _ => cases cleared.1
  | _ =>
      rw [pc] at here
      cases here

theorem cleared_next {p : Platform} {w t : World} (clear : p.binaryClear = true)
    (cleared : Cleared p w) {e : Event} (inside : InForget w e) (step : next p w e = some t) :
    Cleared p t := by
  rcases next_cases step with ⟨o, rfl, rfl⟩ | ⟨-, pc, held, -, -⟩
  · exact cleared_task clear cleared inside
  · unfold Cleared
    rw [pc, held]
    exact cleared

/-- At its end the build defaults or blanks are in force. -/
theorem Forgotten.cleared {p : Platform} {before w : World} (forgot : Forgotten p before w) :
    (NetConfigFlash.load p.defs w.held.flash).1 = unstored p.defs ∧
      w.held.active = (unstored p.defs).2 ∧ inUse w.held = (unstored p.defs).2 := by
  obtain ⟨es, run⟩ := forgot.run
  have start : Cleared p before := by
    unfold Cleared
    rw [forgot.begins]
    trivial
  have cleared : Cleared p w := by
    refine Machine.run_preserves (P := Cleared p) ?_ start run
    rintro s e t cleared ⟨inside, step⟩
    exact cleared_next forgot.clear cleared inside step
  unfold Cleared at cleared
  rw [forgot.ends] at cleared
  exact cleared

theorem Forgotten.reaches {p : Platform} {before w : World} (forgot : Forgotten p before w) :
    (machine p).Reachable w := by
  obtain ⟨es, run⟩ := forgot.run
  exact forgot.reached.run run.unrestrict

/-! ## What is left elsewhere -/

/-- Without a trial there is no candidate, and without BLE nothing to start from. -/
structure Tidy (w : World) : Prop where
  candidate : inTrial w.pc = false → w.candidate = zeroed
  current : w.ble.active = false → w.ble.current = zeroed

theorem tidy_next {p : Platform} {w t : World} {e : Event} (tidy : Tidy w)
    (step : next p w e = some t) : Tidy t := by
  rcases next_cases step with ⟨o, rfl, rfl⟩ | ⟨-, pc, -, candidate, powered⟩
  · have turn := turn_task p w o
    constructor
    · intro outside
      rcases turn.candidate with ⟨same, stays⟩ | wiped | ⟨trial, -, -⟩
      · rw [same]
        refine tidy.candidate ?_
        by_contra trial
        rw [Bool.not_eq_false] at trial
        rw [stays trial] at outside
        cases outside
      · exact wiped
      · rw [trial] at outside
        cases outside
    · intro off
      cases turn.serves with
      | still same =>
          rw [same.current]
          exact tidy.current (same.active.symm.trans off)
      | loaded _ _ same => cases same.active.symm.trans off
      | stuck _ _ _ _ same => cases same.active.symm.trans off
      | refreshed _ _ _ same => cases same.active.symm.trans off
      | stopped caller badLinks _ _ _ stop =>
          rw [stop]
          unfold BleProvision.stop
          split
          · rename_i idle
            exact tidy.current (by simpa using idle)
          · rfl
  · constructor
    · rw [pc, candidate]
      exact tidy.candidate
    · rw [powered.active, powered.current]
      exact tidy.current

theorem tidy_reached {p : Platform} {w : World} (reached : (machine p).Reachable w) : Tidy w := by
  have inv : (machine p).Invariant Tidy := by
    refine ⟨?_, fun _ _ _ tidy step => tidy_next (p := p) tidy step⟩
    rintro w ⟨flash, rfl⟩
    exact ⟨fun _ => rfl, fun _ => rfl⟩
  exact inv.reachable reached

/-! ## What a client has staged -/

def field : Attribute → NetConfig → List UInt8
  | .ssid, c => c.ssid.toList
  | .pass, c => c.password.toList
  | .host, c => c.brokerHost.toList
  | .port, c => put16 c.brokerPort
  | _, _ => []

/-- The client stays, and does not write the field. -/
def Unwritten (handle : Attribute) (w : World) : Event → Prop
  | .task _ => ∀ caller badLinks, w.pc ≠ .onlineStop caller badLinks
  | .mqtt _ => True
  | .ble e => (∀ con, e ≠ .connected con) ∧ e ≠ .disconnected ∧
      ∀ data, completeValue w.ble e ≠ some (handle, data)

/-- A complete value changes only the field of its attribute. -/
theorem field_applyValue {b : Ble} {handle written : Attribute} {data : List UInt8}
    (other : written ≠ handle) :
    field handle (BleProvision.applyValue b written data).1.staged = field handle b.staged := by
  unfold BleProvision.applyValue
  split
  · cases written with
    | cmd =>
        dsimp only
        rw [staged_applyCommand]
    | port =>
        dsimp only
        split
        · rfl
        · cases handle with
          | port => exact absurd rfl other
          | _ => rfl
    | ssid =>
        cases handle with
        | ssid => exact absurd rfl other
        | _ => rfl
    | pass =>
        cases handle with
        | pass => exact absurd rfl other
        | _ => rfl
    | host =>
        cases handle with
        | host => exact absurd rfl other
        | _ => rfl
    | _ => rfl
  · rfl

theorem field_next {p : Platform} {w t : World} {e : Event} {handle : Attribute}
    (unwritten : Unwritten handle w e) (step : next p w e = some t) :
    field handle t.ble.staged = field handle w.ble.staged := by
  cases e with
  | task o =>
      obtain rfl := task_next step
      cases (turn_task p w o).serves with
      | still same => rw [same.staged]
      | loaded _ _ same => rw [same.staged]; rfl
      | stuck _ _ _ _ same => rw [same.staged]; rfl
      | refreshed _ _ _ same => rw [same.staged]; rfl
      | stopped caller badLinks here => exact absurd here (unwritten caller badLinks)
  | mqtt status =>
      obtain ⟨_, _, _, _, rfl⟩ := mqttCallback_eq step
      rfl
  | ble e =>
      obtain ⟨ble, _, happens, rfl, -⟩ := bleCallback_eq step
      obtain ⟨connects, leaves, untouched⟩ := unwritten
      show field handle ble.staged = _
      cases stages_callback happens with
      | same same => rw [same]
      | connected con here => exact absurd here (connects con)
      | disconnected here => exact absurd here leaves
      | wrote written data complete wrote =>
          rw [wrote]
          refine field_applyValue ?_
          rintro rfl
          exact untouched data complete

theorem field_run {p : Platform} {w t : World} {es : List Event} {handle : Attribute}
    (run : ((machine p).restrict (Unwritten handle)).Run w es t) :
    field handle t.ble.staged = field handle w.ble.staged := by
  refine Machine.run_preserves
    (P := fun t => field handle t.ble.staged = field handle w.ble.staged) ?_ rfl run
  rintro s e t same ⟨unwritten, step⟩
  exact (field_next unwritten step).trans same

/-- A read returns what the field of its attribute says. -/
theorem attReadCb_field {b : Ble} {c : NetConfig} (handleBlob : HandleBlob) (name : List UInt8)
    {handle : Attribute} (same : field handle b.staged = field handle c)
    (text : Terminated b.staged.ssid) (offset : Nat) (buffer : Option (List UInt8)) (size : Nat) :
    BleProvision.attReadCb handleBlob name b handle offset buffer size =
      BleProvision.attReadCb handleBlob name { b with staged := c } handle offset buffer size := by
  cases handle with
  | ssid =>
      have ssid : b.staged.ssid.toList = c.ssid.toList := same
      have text' : Terminated c.ssid := by
        rw [Terminated, ← ssid]
        exact text
      simp only [BleProvision.attReadCb, Secrecy.ssidText_eq text, Secrecy.ssidText_eq text', ssid]
  | host =>
      have host : b.staged.brokerHost.toList = c.brokerHost.toList := same
      simp only [BleProvision.attReadCb, host]
  | port =>
      have port : put16 b.staged.brokerPort = put16 c.brokerPort := same
      simp only [BleProvision.attReadCb, port]
  | _ => rfl

/-! ## A forget leaves nothing usable behind -/

/-- The refresh changes nothing but `s_current`. -/
theorem refresh_step {p : Platform} {before w t : World} (forgot : Forgotten p before w) {o : Obs}
    (step : next p w (.task o) = some t) : t.held = w.held ∧ t.candidate = zeroed ∧
      (t.ble.current = zeroed ∨ t.ble.current = inUse w.held) ∧ t.ble.staged = w.ble.staged := by
  have tidy := tidy_reached forgot.reaches
  have outside : w.candidate = zeroed := tidy.candidate (by rw [forgot.ends]; rfl)
  have ends := forgot.ends
  obtain rfl := task_next step
  simp only [taskStep, ends]
  cases on : w.ble.active with
  | true => exact ⟨trivial, outside, .inr rfl, rfl⟩
  | false => exact ⟨trivial, outside, .inl (tidy.current on), rfl⟩

/-- After it every copy is one of those in force, or pending. -/
theorem sourced_forgotten {p : Platform} {v : Values} (complete : v.Complete p) {before w t : World}
    (forgot : Forgotten p before w) {o : Obs} (step : next p w (.task o) = some t)
    (staged : w.ble.staged = inUse w.held)
    (pending : w.ble.handoffValid = true → Within v w.ble.handoff) : Sourced p v t := by
  obtain ⟨nothing, active, used⟩ := forgot.cleared
  obtain ⟨held, candidate, current, unstaged⟩ := refresh_step forgot step
  have inForce : Within v (unstored p.defs).2 := within_unstored complete
  obtain ⟨_, es, ⟨flash, rfl⟩, run⟩ := forgot.reaches
  have alert := alert_reached run
  refine ⟨alert_next (p := p) alert step, ?_, ?_, ?_, ?_, ?_, ?_⟩
  · rw [held, active]
    exact inForce
  · rw [held, stored, nothing]
    exact inForce
  · rw [candidate]
    exact complete.blank
  · rcases current with blank | refreshed
    · rw [blank]
      exact complete.blank
    · rw [refreshed, used]
      exact inForce
  · rw [unstaged, staged, used]
    exact inForce
  · intro valid
    obtain rfl := task_next step
    obtain ⟨handed, same⟩ := handoff_task alert o valid
    rw [same]
    exact pending handed

/-- Where it is not, some field is not, at once. -/
theorem field_of_staged {p : Platform} {before w t : World} (forgot : Forgotten p before w)
    {o : Obs} (step : next p w (.task o) = some t) (other : w.ble.staged ≠ inUse w.held) :
    ∃ handle, field handle t.ble.staged ≠ field handle (inUse t.held) := by
  obtain ⟨held, -, -, unstaged⟩ := refresh_step forgot step
  rw [unstaged, held]
  by_contra same
  rw [not_exists] at same
  have equal : ∀ handle, field handle w.ble.staged = field handle (inUse w.held) :=
    fun handle => not_not.mp (same handle)
  have ssid : w.ble.staged.ssid = (inUse w.held).ssid := List.Vector.toList_injective (equal .ssid)
  have password : w.ble.staged.password = (inUse w.held).password :=
    List.Vector.toList_injective (equal .pass)
  have brokerHost : w.ble.staged.brokerHost = (inUse w.held).brokerHost :=
    List.Vector.toList_injective (equal .host)
  have brokerPort : w.ble.staged.brokerPort = (inUse w.held).brokerPort := by
    have read : ∀ port, get16 (put16 port) = port := by
      intro port
      simpa using get16_put16 port []
    have port := congrArg get16 (equal .port)
    simpa [field, read] using port
  cases staged : w.ble.staged
  cases used : inUse w.held
  simp_all

/-- **A forget leaves nothing usable behind**, if at its end what a connected client has
staged is what is then in force, the build defaults or blanks.  A field that the client
does not write reads back as in force, and is so in what the client applies, for as long
as it stays.  Of the forgotten settings, nothing but what is pending in `s_handoff` or is
written again is ever handed over, tried, saved or shown to a client: all copies have
values of any `v` that has blanks, defaults, what is pending and what is written. -/
theorem forget_leaves_nothing {p : Platform} {before w t : World} (forgot : Forgotten p before w)
    {o : Obs} (step : next p w (.task o) = some t) (staged : w.ble.staged = inUse w.held) :
    inUse t.held = (unstored p.defs).2 ∧
    (∀ handle es u, ((machine p).restrict (Unwritten handle)).Run t es u →
      (∀ handleBlob name offset buffer size,
        BleProvision.attReadCb handleBlob name u.ble handle offset buffer size =
          BleProvision.attReadCb handleBlob name { u.ble with staged := inUse t.held } handle offset
            buffer size) ∧
      ∀ e c, BleProvision.accepted u.ble e = some (.apply c) →
        field handle c = field handle (inUse t.held)) ∧
    (∀ v : Values, v.Complete p → (w.ble.handoffValid = true → Within v w.ble.handoff) →
      ∀ es u, ((machine p).restrict (Writes v)).Run t es u → Sourced p v u) := by
  obtain ⟨-, -, used⟩ := forgot.cleared
  obtain ⟨held, -, -, unstaged⟩ := refresh_step forgot step
  refine ⟨?_, ?_, ?_⟩
  · rw [held, used]
  · intro handle es u run
    have same : field handle u.ble.staged = field handle (inUse t.held) := by
      rw [field_run run, unstaged, staged, held]
    have reached := (forgot.reaches.step step).run run.unrestrict
    obtain ⟨_, es', ⟨flash, rfl⟩, whole⟩ := reached
    have text := (texts_reached whole).2
    refine ⟨fun handleBlob name => attReadCb_field handleBlob name same text, ?_⟩
    intro e c applied
    rw [(BleProvision.accepted_apply applied).1]
    exact same
  · intro v complete pending es u run
    exact sourced_run complete (sourced_forgotten complete forgot step staged pending) run

instance (w : World) : (e : Event) → Decidable (InForget w e)
  | .task _ => decidable_of_iff (_ ∧ (¬_ ∨ _)) (and_congr_right' imp_iff_not_or.symm)
  | .mqtt _ => .isTrue trivial
  | .ble _ => .isTrue trivial

/-- A client of a hub without settings has blanks staged when it forgets. -/
theorem forget_leaves_nothing_blank : ∃ before w t, Forgotten bench before w ∧
    next bench w (.task (fair .down)) = some t ∧ w.ble.con.isSome = true ∧
    inUse t.held = (unstored bench.defs).2 := by
  have computed : (Machine.exec (next bench) (initial blank)
      ([.task (fair .down), .task (fair .down), .ble (.connected 1), forget] ++ steps 2 .down)).any
        (fun before => decide (before.pc = .forgetErase ∧
          (Machine.exec (Machine.guarded InForget (next bench)) before (steps 4 .down)).any
            (fun w => decide (w.pc = .forgetRefresh ∧ w.ble.staged = inUse w.held ∧
              w.ble.con.isSome = true)) = true)) = true := by decide +kernel
  obtain ⟨before, run, begins, rest⟩ := Machine.exists_run_of_exec computed
  obtain ⟨w, inside, ends, staged, client⟩ := Machine.exists_run_of_exec_restrict rest
  have forgot : Forgotten bench before w :=
    ⟨⟨_, _, ⟨blank, rfl⟩, run⟩, begins, rfl, ⟨_, inside⟩, ends⟩
  have step : next bench w (.task (fair .down)) = some (taskStep bench w (fair .down)) := by
    rw [next, if_neg (by decide)]
  exact ⟨before, w, _, forgot, step, client, (forget_leaves_nothing forgot step staged).1⟩

/-- The client that has set the hub up stays, and applies the forgotten settings again. -/
theorem forgotten_applied_again : ∃ before w t u : World, Forgotten bench before w ∧
    before.held.active = homeNet ∧ w.ble.con.isSome = true ∧
    next bench w (.task (fair .down)) = some t ∧ t.held.haveActive = false ∧
    t.ble.staged = homeNet ∧ next bench t apply = some u ∧
    u.ble.handoffValid = true ∧ u.ble.handoff = homeNet := by
  have computed : (Machine.exec (next bench) (initial blank)
      (provision ++ [apply] ++ steps 5 .down ++ steps 4 .up ++ [.mqtt .accepted] ++
        steps 4 .up ++ [forget] ++ steps 2 .up)).any
        (fun before => decide (before.pc = .forgetErase ∧ before.held.active = homeNet ∧
          (Machine.exec (Machine.guarded InForget (next bench)) before (steps 5 .down)).any
            (fun w => decide (w.pc = .forgetRefresh ∧ w.ble.con.isSome = true ∧
              (next bench w (.task (fair .down))).any (fun t => decide (
                t.held.haveActive = false ∧ t.ble.staged = homeNet ∧
                (next bench t apply).any (fun u => decide (
                  u.ble.handoffValid = true ∧ u.ble.handoff = homeNet)) = true)) = true)) =
              true)) = true := by decide +kernel
  obtain ⟨before, run, begins, known, rest⟩ := Machine.exists_run_of_exec computed
  obtain ⟨w, inside, ends, client, rest⟩ := Machine.exists_run_of_exec_restrict rest
  obtain ⟨t, step, rest⟩ := (Option.any_eq_true ..).mp rest
  obtain ⟨none, staged, rest⟩ := of_decide_eq_true rest
  obtain ⟨u, again, rest⟩ := (Option.any_eq_true ..).mp rest
  obtain ⟨valid, handoff⟩ := of_decide_eq_true rest
  have forgot : Forgotten bench before w :=
    ⟨⟨_, _, ⟨blank, rfl⟩, run⟩, begins, rfl, ⟨_, inside⟩, ends⟩
  exact ⟨before, w, t, u, forgot, known, client, step, none, staged, again, valid, handoff⟩

end IrHub.Firmware.Sources
