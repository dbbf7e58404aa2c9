/-
# System.Commission -- from the form of the setup page to a hub that is online with it

`setupApply` awaits each of its writes, and the hub does not wait with it: between two of them
NetworkTask tries the old settings, the broker answers or leaves, parts of a long value come.
`Session` is the hub with the writes that the page has still to make.  It ends with the last of
them, or with the connection.

What is staged at the hub is what the writes alone stage (`follows_next`).  So a form that the
page has nothing against is written without an error and handed over, and from there on
`Takeover` says what becomes of it.
-/
import IrHub.Firmware.Takeover
import IrHub.System.Provision

namespace IrHub.System.Commission

set_option autoImplicit false

open IrHub.Theory IrHub.Theory.Utf16 IrHub.Firmware.NetConfig
open IrHub.Firmware.NetworkTask hiding write
open IrHub.Firmware.Commands IrHub.Firmware.Connected IrHub.Firmware.Sources
open IrHub.Firmware.Radio
open IrHub.Firmware.Progress IrHub.Firmware.Takeover
open IrHub.Firmware.BleProvision (Attribute Ble Callback applyValue accepted acceptedValue)
open IrHub.Firmware.NetConfigFlash (Flash homeNet zeroed)
open IrHub.Firmware.Secrecy (Acceptable)
open IrHub.Frontend.Setup hiding cmdApply
open IrHub.Firmware IrHub.System.Provision
open IrHub.Firmware.Validation (validate_iff)

/-! ## The page at its writes -/

/-- The hub, and the writes that are still to be made. -/
structure Session where
  hub : World
  writes : List Write

/-- A callback while the page waits for its write `next`, with the writes left after it. -/
def serve (b : Ble) (writes : List Write) : Callback → Option (List Write)
  | .connected _ => none
  | .disconnected => none
  | e =>
      match completeValue b e, writes with
      | none, _ => some writes
      | some _, [] => none
      | some (handle, data), (characteristic, value) :: rest =>
          if handle = handleOf characteristic ∧ data = value ∧ (applyValue b handle data).2 = 0 then
            some rest
          else none

/-- What the hub does until the page has made its last write. -/
def sessionNext (p : Platform) (s : Session) (event : Event) : Option Session :=
  if s.writes = [] then none
  else
    (next p s.hub event).bind fun hub =>
      match event with
      | .task _ =>
          -- `stop` ends the connection
          match s.hub.pc with
          | .onlineStop _ _ => none
          | _ => some ⟨hub, s.writes⟩
      | .mqtt _ => some ⟨hub, s.writes⟩
      | .ble e => (serve s.hub.ble s.writes e).map fun writes => ⟨hub, writes⟩

def session (p : Platform) : Machine Session Event :=
  Machine.ofStep (fun s => ∃ w con, (machine p).Reachable w ∧
    next p w (.ble (.connected con)) = some s.hub) (sessionNext p)

/-- A callback is none of the writes, or the next of them, taken without an error. -/
theorem serve_cases {b : Ble} {writes left : List Write} {e : Callback}
    (served : serve b writes e = some left) :
    (∀ con, e ≠ .connected con) ∧ e ≠ .disconnected ∧
    ((completeValue b e = none ∧ left = writes) ∨
      ∃ characteristic value, writes = (characteristic, value) :: left ∧
        completeValue b e = some (handleOf characteristic, value) ∧
        (applyValue b (handleOf characteristic) value).2 = 0) := by
  have others : (∀ con, e ≠ .connected con) ∧ e ≠ .disconnected := by
    constructor
    · rintro con rfl
      cases served
    · rintro rfl
      cases served
  refine ⟨others.1, others.2, ?_⟩
  cases complete : completeValue b e with
  | none =>
      refine .inl ⟨rfl, ?_⟩
      cases e with
      | connected con => cases served
      | disconnected => cases served
      | write handle mode offset data =>
          simp only [serve, complete] at served
          exact (Option.some.inj served).symm
      | canSendNow =>
          simp only [serve, complete] at served
          exact (Option.some.inj served).symm
  | some pair =>
      obtain ⟨handle, data⟩ := pair
      refine .inr ?_
      cases e with
      | connected con => cases served
      | disconnected => cases served
      | canSendNow => cases complete
      | write handle' mode offset data' =>
          simp only [serve, complete] at served
          cases writes with
          | nil => cases served
          | cons w rest =>
              obtain ⟨characteristic, value⟩ := w
              dsimp only at served
              split at served
              · rename_i taken
                obtain ⟨rfl, rfl, fine⟩ := taken
                cases served
                exact ⟨characteristic, data, rfl, rfl, fine⟩
              · cases served

/-! ## What is staged -/

/-- What a value does to the staged settings depends on nothing else. -/
theorem applyValue_staged {b b' : Ble} (same : b.staged = b'.staged) (handle : Attribute)
    (data : List UInt8) :
    (applyValue b handle data).1.staged = (applyValue b' handle data).1.staged ∧
      (applyValue b handle data).2 = (applyValue b' handle data).2 := by
  unfold applyValue
  split
  · cases handle with
    | cmd =>
        refine ⟨by simp only [staged_applyCommand, same], ?_⟩
        simp only [BleProvision.applyCommand, same]
        split
        · rfl
        · split
          · split <;> rfl
          · split <;> rfl
    | port =>
        dsimp only
        rw [same]
        split <;> exact ⟨by first | rfl | exact same, rfl⟩
    | ssid => exact ⟨by simp only [same], rfl⟩
    | pass => exact ⟨by simp only [same], rfl⟩
    | host => exact ⟨by simp only [same], rfl⟩
    | _ => exact ⟨same, rfl⟩
  · exact ⟨same, rfl⟩

/-- Between the writes the staged settings stay. -/
theorem staged_silent {p : Platform} {w t : World} {event : Event}
    (step : next p w event = some t)
    (stays : ∀ caller badLinks, (∃ o, event = .task o) → w.pc ≠ .onlineStop caller badLinks)
    (none : ∀ e, event = .ble e → (∀ con, e ≠ .connected con) ∧ e ≠ .disconnected ∧
      completeValue w.ble e = none) : t.ble.staged = w.ble.staged := by
  cases event with
  | task o =>
      obtain rfl := task_next step
      cases (turn_task p w o).serves with
      | still same => exact same.staged
      | loaded _ _ same => exact same.staged
      | stuck _ _ _ _ same => exact same.staged
      | refreshed _ _ _ same => exact same.staged
      | stopped caller badLinks here => exact absurd here (stays caller badLinks ⟨o, rfl⟩)
  | mqtt status =>
      obtain ⟨_, _, _, _, rfl⟩ := mqttCallback_eq step
      rfl
  | ble e =>
      obtain ⟨connects, leaves, silent⟩ := none e rfl
      obtain ⟨ble, _, happens, rfl, -⟩ := bleCallback_eq step
      cases stages_callback happens with
      | same same => exact same
      | connected con here => exact absurd here (connects con)
      | disconnected here => exact absurd here leaves
      | wrote handle data complete wrote =>
          rw [silent] at complete
          cases complete

/-- A value is complete when it comes whole, or at the end of a long write. -/
theorem complete_cases {b : Ble} {e : Callback} {handle : Attribute} {data : List UInt8}
    (complete : completeValue b e = some (handle, data)) :
    (∃ offset, e = .write handle .none offset data ∧ handle ≠ .statusCcc) ∨
      ∃ written offset part, e = .write written .execute offset part ∧
        b.prepHandle = some handle ∧ data = b.prep.toList.take b.prepLen := by
  cases e with
  | connected con => cases complete
  | disconnected => cases complete
  | canSendNow => cases complete
  | write written mode offset part =>
      cases mode with
      | none =>
          simp only [completeValue] at complete
          split at complete
          · cases complete
          · rename_i other
            cases complete
            exact .inl ⟨offset, rfl, other⟩
      | execute =>
          simp only [completeValue, Option.map_eq_some_iff] at complete
          obtain ⟨prepared, pending, same⟩ := complete
          cases same
          exact .inr ⟨written, offset, part, rfl, pending, rfl⟩
      | active => cases complete
      | validate => cases complete
      | cancel => cases complete

/-- A write that is taken. -/
theorem staged_write {w t : World} {e : Callback} {handle : Attribute} {data : List UInt8}
    (complete : completeValue w.ble e = some (handle, data))
    (happens : bleCallback w e = some t) :
    t.ble.staged = (applyValue w.ble handle data).1.staged := by
  obtain ⟨ble, _, callback, rfl, -⟩ := bleCallback_eq happens
  show ble.staged = _
  rcases complete_cases complete with
    ⟨offset, rfl, other⟩ | ⟨written, offset, part, rfl, pending, rfl⟩
  · simp only [BleProvision.callback] at callback
    split at callback
    · cases callback
      simp only [BleProvision.attWriteCb, if_neg other]
    · cases callback
  · simp only [BleProvision.callback] at callback
    split at callback
    · cases callback
      simp only [BleProvision.attWriteCb, pending]
      rfl
    · cases callback

/-- What an event is to the page: nothing, or its next write. -/
theorem sessionNext_cases {p : Platform} {s t : Session} {event : Event}
    (step : sessionNext p s event = some t) : next p s.hub event = some t.hub ∧
    ((t.writes = s.writes ∧ s.writes ≠ [] ∧ t.hub.ble.staged = s.hub.ble.staged) ∨
      ∃ e characteristic value, event = .ble e ∧ s.writes = (characteristic, value) :: t.writes ∧
        completeValue s.hub.ble e = some (handleOf characteristic, value) ∧
        (applyValue s.hub.ble (handleOf characteristic) value).2 = 0) := by
  unfold sessionNext at step
  split at step
  · cases step
  · rename_i more
    obtain ⟨hub, moved, step⟩ := Option.bind_eq_some_iff.mp step
    cases event with
    | task o =>
        dsimp only at step
        split at step
        · cases step
        · rename_i stays
          cases step
          have kept := staged_silent moved (fun caller badLinks _ => stays caller badLinks) nofun
          exact ⟨moved, .inl ⟨rfl, more, kept⟩⟩
    | mqtt status =>
        cases step
        exact ⟨moved, .inl ⟨rfl, more, staged_silent moved nofun nofun⟩⟩
    | ble e =>
        obtain ⟨left, served, rfl⟩ := Option.map_eq_some_iff.mp step
        obtain ⟨connects, leaves,
          ⟨silent, same⟩ | ⟨characteristic, value, next_, complete, fine⟩⟩ := serve_cases served
        · refine ⟨moved, .inl ⟨same, more, staged_silent moved nofun ?_⟩⟩
          rintro _ ⟨⟩
          exact ⟨connects, leaves, silent⟩
        · exact ⟨moved, .inr ⟨e, characteristic, value, rfl, next_, complete, fine⟩⟩

/-! ## The run of the page's writes -/

/-- What is staged is what the writes so far have staged; the last of them has handed it over. -/
structure Follows (b : Ble) (form : Form) (s : Session) : Prop where
  staged : ∃ written after, written ++ s.writes = setupWrites form ∧
    writeAll b written = .ok after ∧ s.hub.ble.staged = after.staged
  handed : s.writes = [] → s.hub.history.accepted.getLast? = some (.apply s.hub.ble.staged) ∧
    s.hub.ble.handoffValid = true

theorem accepted_complete {b : Ble} {e : Callback} {handle : Attribute} {data : List UInt8}
    (complete : completeValue b e = some (handle, data)) :
    accepted b e = acceptedValue b handle data := by
  rcases complete_cases complete with ⟨offset, rfl, -⟩ | ⟨written, offset, part, rfl, pending, rfl⟩
  · rfl
  · simp only [accepted, pending, Option.bind_some]

/-- The settings that are complete are handed over. -/
theorem handed_command {p : Platform} {w t : World} {e : Callback}
    (step : next p w (.ble e) = some t)
    (complete : completeValue w.ble e = some (.cmd, [BleProvision.cmdApply]))
    (fine : (applyValue w.ble .cmd [BleProvision.cmdApply]).2 = 0) :
    t.history.accepted.getLast? = some (.apply t.ble.staged) ∧ t.ble.handoffValid = true := by
  have staged := staged_write complete step
  rw [applyValue_command] at fine staged
  have valid : validate w.ble.staged = .ok := by
    by_contra invalid
    rw [if_pos invalid] at fine
    dsimp only at fine
    exact absurd fine (by decide)
  rw [if_neg (not_not_intro valid)] at staged
  have command : accepted w.ble e = some (.apply w.ble.staged) := by
    rw [accepted_complete complete, acceptedValue, if_neg (by decide), if_pos rfl, if_pos valid]
  obtain ⟨ble, _, callback, rfl, rfl⟩ := bleCallback_eq step
  have effect := BleProvision.effect_callback callback
  rw [command] at effect
  refine ⟨?_, by simpa [Mailbox.Command.value] using effect.handoffValid⟩
  simp only [command, Mailbox.History.accept, List.getLast?_concat]
  exact congrArg _ (congrArg _ staged.symm)

theorem write_of_taken {b after : Ble} (same : b.staged = after.staged)
    {characteristic : Characteristic} {value : List UInt8}
    (fine : (applyValue b (handleOf characteristic) value).2 = 0) :
    ∃ next, write after (characteristic, value) = .ok next ∧
      next.staged = (applyValue b (handleOf characteristic) value).1.staged := by
  obtain ⟨staged, rc⟩ := applyValue_staged same (handleOf characteristic) value
  refine ⟨(applyValue after (handleOf characteristic) value).1, ?_, staged.symm⟩
  rw [write]
  dsimp only
  rw [← rc, if_pos fine]

theorem follows_next {p : Platform} {b : Ble} {form : Form} {s t : Session} {event : Event}
    (follows : Follows b form s) (step : sessionNext p s event = some t) : Follows b form t := by
  obtain ⟨⟨written, after, whole, done, same⟩, -⟩ := follows
  obtain ⟨moved, ⟨left, more, kept⟩ | ⟨e, characteristic, value, rfl, left, complete, fine⟩⟩ :=
    sessionNext_cases step
  · refine ⟨⟨written, after, by rw [left]; exact whole, done, kept.trans same⟩, fun none => ?_⟩
    rw [left] at none
    exact absurd none more
  · obtain ⟨next_, wrote, staged⟩ := write_of_taken same fine
    refine ⟨⟨written ++ [(characteristic, value)], next_, ?_, ?_, ?_⟩, fun none => ?_⟩
    · rw [List.append_assoc, List.singleton_append, ← left]
      exact whole
    · exact writeAll_append_ok.mpr ⟨after, done, writeAll_singleton_ok.mpr wrote⟩
    · exact (staged_write complete moved).trans staged.symm
    · rw [none] at left
      have last : (characteristic, value) = (.command, [Frontend.Setup.cmdApply]) := by
        rw [left] at whole
        have ends := congrArg List.getLast? whole
        rw [List.getLast?_concat, setupWrites, List.getLast?_append_of_ne_nil _ (by simp)] at ends
        exact Option.some.inj ends
      cases last
      exact handed_command moved complete fine

/-! ## The password that is kept -/

theorem acceptable_of_validate {c : NetConfig} (valid : validate c = .ok) :
    Acceptable c.password := ((validate_iff c).mp valid).2.1

theorem acceptable_zeroed : Acceptable zeroed.password := ⟨0, by decide, by decide⟩

/-- Settings that a client may start from: none, or valid ones. -/
def Startable (c : NetConfig) : Prop := c = zeroed ∨ validate c = .ok

theorem startable_inUse {h : Held} (valid : BrokerAddress.Valid h) : Startable (inUse h) := by
  unfold inUse
  split
  · rename_i haveActive
    exact .inr (valid haveActive)
  · exact .inl rfl

theorem Startable.acceptable {c : NetConfig} (startable : Startable c) : Acceptable c.password := by
  rcases startable with rfl | valid
  · exact acceptable_zeroed
  · exact acceptable_of_validate valid

/-- What is in use has passed `validate`, away from the places where it is loaded. -/
theorem valid_held {p : Platform} {w : World} (reached : (machine p).Reachable w)
    (loaded : loading w.pc = false) : BrokerAddress.Valid w.held := by
  obtain ⟨_, es, ⟨flash, rfl⟩, run⟩ := reached
  have store := (BrokerAddress.valid_reached run).store
  simp only [mailbox, loaded, Bool.false_eq_true, if_false] at store
  exact store

/-- A client starts from blanks, or from valid settings. -/
theorem startable_current {p : Platform} {w : World} (reached : (machine p).Reachable w) :
    Startable w.ble.current := by
  refine Machine.Reachable.preserves (M := machine p)
    (P := fun w => Startable w.ble.current) ?_ ?_ reached
  · rintro w ⟨flash, rfl⟩
    exact .inl rfl
  · intro w event t reached fine step
    have reached' := reached.step step
    rcases next_cases step with ⟨o, rfl, rfl⟩ | ⟨-, between⟩
    · cases (turn_task p w o).serves with
      | still same =>
          rw [same.current]
          exact fine
      | loaded _ _ same =>
          rw [same.current]
          exact .inl rfl
      | stuck _ retried _ held same =>
          rw [same.current]
          have loaded : loading (taskStep p w o).pc = false := by
            cases pc : (taskStep p w o).pc with
            | mainWait _ _ => rfl
            | _ => rw [pc] at retried; cases retried
          have valid := valid_held reached' loaded
          rw [held] at valid
          exact startable_inUse valid
      | stopped caller badLinks _ _ _ same =>
          rw [same]
          unfold BleProvision.stop
          split
          · exact fine
          · exact .inl rfl
      | refreshed here _ held same =>
          rw [same.current]
          exact startable_inUse (valid_held reached (by rw [here]; rfl))
    · rw [between.powered.current]
      exact fine

theorem staged_connected {p : Platform} {w t : World} {con : UInt16}
    (step : next p w (.ble (.connected con)) = some t) : t.ble.staged = w.ble.current := by
  obtain ⟨ble, _, callback, rfl, -⟩ := bleCallback_eq step
  simp only [BleProvision.callback] at callback
  split at callback
  · cases callback
    rfl
  · cases callback

/-- What the writes of a form without a problem come to. -/
theorem writes_of_fine {b : Ble} {lastState : Option UInt8} {form : Form} (clean : NulFree form)
    (keptFine : Acceptable b.staged.password) (fine : validateSetupForm lastState form = none) :
    ∃ c, writeAll b (setupWrites form) = .ok (handOver b c) ∧
      Carries b.staged.password form c := by
  obtain ⟨ssid, -, address, n, least, most, port⟩ := (validateSetupForm_iff lastState form).mp fine
  obtain ⟨c, staged, acceptable⟩ := staged_exists keptFine clean fine
  have valid : validate c = .ok :=
    (validate_staged staged clean most port).mpr ⟨ssid, acceptable, address, by omega⟩
  exact ⟨c, writeAll_ok_iff.mpr ⟨c, staged, valid, rfl⟩, staged.carries clean most port⟩

theorem taken_of_write {b after : Ble} {characteristic : Characteristic} {value : List UInt8}
    (wrote : write b (characteristic, value) = .ok after) :
    (applyValue b (handleOf characteristic) value).2 = 0 := by
  rw [write] at wrote
  dsimp only at wrote
  split at wrote
  · assumption
  · cases wrote

theorem follows_start (v : World) (form : Form) : Follows v.ble form ⟨v, setupWrites form⟩ := by
  refine ⟨⟨[], v.ble, rfl, rfl, rfl⟩, fun none => ?_⟩
  cases none

/-- When the writes alone are taken, so are those of the session, and what they hand over is
handed over. -/
theorem Follows.writes {b : Ble} {form : Form} {s : Session} (follows : Follows b form s)
    {c : NetConfig} (written : writeAll b (setupWrites form) = .ok (handOver b c)) :
    (∀ characteristic value rest, s.writes = (characteristic, value) :: rest →
      (applyValue s.hub.ble (handleOf characteristic) value).2 = 0) ∧
    (s.writes = [] → s.hub.ble.staged = c ∧
      s.hub.history.accepted.getLast? = some (.apply c) ∧ s.hub.ble.handoffValid = true) := by
  obtain ⟨⟨before, after, whole, done, same⟩, handed⟩ := follows
  rw [← whole, writeAll_append_ok] at written
  obtain ⟨between, done', rest⟩ := written
  obtain rfl : between = after := Except.ok.inj (done'.symm.trans done)
  constructor
  · intro characteristic value left more
    rw [more, writeAll_cons_ok] at rest
    obtain ⟨_, wrote, -⟩ := rest
    rw [(applyValue_staged same (handleOf characteristic) value).2]
    exact taken_of_write wrote
  · intro none
    rw [none, writeAll_nil_ok] at rest
    obtain ⟨newest, waiting⟩ := handed none
    rw [← rest] at same
    rw [same] at newest
    exact ⟨same, newest, waiting⟩

/-! ## A form without a problem -/

/-- The client hands over its settings in time. -/
def Timely (s : Session) (event : Event) : Prop := InTime s.hub event

instance (s : Session) (event : Event) : Decidable (Timely s event) :=
  inferInstanceAs (Decidable (InTime s.hub event))

/-- The hub's part of a session. -/
theorem hub_run {p : Platform} {flash : Flash} {s t : Session} {es gs : List Event}
    (run : ((machine p).restrict InTime).Run (initial flash) es s.hub)
    (ran : ((session p).restrict Timely).Run s gs t) :
    ∃ es, ((machine p).restrict InTime).Run (initial flash) es t.hub := by
  refine Machine.run_preserves
    (P := fun t => ∃ es, ((machine p).restrict InTime).Run (initial flash) es t.hub) ?_
    ⟨es, run⟩ ran
  rintro u event v ⟨us, run⟩ ⟨timely, step⟩
  exact ⟨_, run.snoc ⟨timely, (sessionNext_cases step).1⟩⟩

theorem follows_run {p : Platform} {b : Ble} {form : Form} {s t : Session} {gs : List Event}
    (follows : Follows b form s) (ran : ((session p).restrict Timely).Run s gs t) :
    Follows b form t := by
  refine Machine.run_preserves (P := Follows b form) ?_ follows ran
  rintro u event v follows ⟨-, step⟩
  exact follows_next follows step

/-- **A form that the page has nothing against puts the hub online.**  A client connects, and the
page writes the form, whatever the hub does in between, in a run in which settings are handed
over in time (`InTime`).  No write is refused.  When the last one is made, the settings of the
form are the newest that are handed over, and wait for NetworkTask.  If lwIP reads the address of
their broker, the sector for settings is free, and their network, their broker and the flash do
their part, the hub is online with them after a bounded number of its steps, stays online, and
finds them when it is powered on again. -/
theorem commissions {p : Platform} {flash : Flash} {w v : World} {es gs : List Event}
    {con : UInt16} {lastState : Option UInt8} {form : Form} {s : Session}
    (run : ((machine p).restrict InTime).Run (initial flash) es w)
    (connects : next p w (.ble (.connected con)) = some v) (clean : NulFree form)
    (fine : validateSetupForm lastState form = none)
    (ran : ((session p).restrict Timely).Run ⟨v, setupWrites form⟩ gs s) :
    (∀ characteristic value rest, s.writes = (characteristic, value) :: rest →
      (applyValue s.hub.ble (handleOf characteristic) value).2 = 0) ∧
    (s.writes = [] → ∃ c, Carries v.ble.staged.password form c ∧
      s.hub.history.accepted.getLast? = some (.apply c) ∧ s.hub.ble.handoffValid = true ∧
      ((p.aton (encode (trim form.host))).isSome = true → p.binaryClear = true →
        ∀ fs t, ((machine p).restrict Favours).Run s.hub fs t →
          answerSteps + (fs.map turnLost).sum < (fs.map taskSteps).sum →
          Online p t ∧ t.held.active = c ∧
            (NetConfigFlash.load p.defs t.held.flash).1 = (.flash, canonical c))) := by
  have run' : ((machine p).restrict InTime).Run (initial flash) (es ++ [.ble (.connected con)]) v :=
    run.snoc ⟨(by rintro ⟨⟩), connects⟩
  have keptFine : Acceptable v.ble.staged.password := by
    rw [staged_connected connects]
    exact (startable_current ⟨_, _, ⟨flash, rfl⟩, run.unrestrict⟩).acceptable
  obtain ⟨c, written, carries⟩ := writes_of_fine (b := v.ble) clean keptFine fine
  obtain ⟨taken, handed⟩ := (follows_run (follows_start v form) ran).writes written
  refine ⟨taken, fun none => ?_⟩
  obtain ⟨-, newest, waiting⟩ := handed none
  refine ⟨c, carries, newest, waiting, fun address clear fs t favoured long => ?_⟩
  obtain ⟨us, reached⟩ := hub_run run' ran
  have found : (p.aton (text c.brokerHost)).isSome = true := by
    have host : text c.brokerHost = encode (trim form.host) := carries.brokerHost
    rw [host]
    exact address
  obtain ⟨wired, settled⟩ := settled_run reached newest waiting found clear favoured long
  exact ⟨(online_iff wired).mpr settled.online, settled.active, settled.stored⟩

/-! ## The first settings of a hub -/

def homeForm : Form where
  ssid := (bytes "HomeNet").map UInt8.toUInt16
  password := (bytes "hunter2hunter2").map UInt8.toUInt16
  openNetwork := false
  host := (bytes "192.168.1.100").map UInt8.toUInt16
  port := .finite 1883

def written (handle : Attribute) (data : List UInt8) : Event :=
  .ble (.write handle .none 0 data)

/-- The password comes in two parts, and the task looks for commands in between. -/
def pageWrites : List Event :=
  [written .ssid (bytes "HomeNet"), .ble (.write .pass .active 0 (bytes "hunter2")),
    .ble (.write .pass .active 7 (bytes "hunter2")), .task (fair .down),
    .ble (.write .pass .execute 0 []), written .host (bytes "192.168.1.100"),
    .task (fair .down), written .port [0x5B, 0x07], written .cmd [BleProvision.cmdApply]]

/-- A blank hub, and a page with the settings of the home network. -/
theorem commissions_homeForm : ∃ v s fs t c,
    ((session bench).restrict Timely).Run ⟨v, setupWrites homeForm⟩ pageWrites s ∧
    s.writes = [] ∧ Carries v.ble.staged.password homeForm c ∧
    ((machine bench).restrict Favours).Run s.hub fs t ∧ Online bench t ∧ t.held.active = c := by
  have computed : (Machine.exec (Machine.guarded InTime (next bench)) (initial blank)
      (steps 2 .down)).any (fun w => decide ((next bench w (.ble (.connected 1))).any (fun v =>
        decide ((Machine.exec (Machine.guarded Timely (sessionNext bench))
          ⟨v, setupWrites homeForm⟩ pageWrites).any (fun s => decide (s.writes = [] ∧
            (Machine.exec (Machine.guarded Favours (next bench)) s.hub homeward).any
              (fun u => decide (Arrived bench u)) = true)) = true)) = true)) = true := by
    decide +kernel
  obtain ⟨w, run, connected⟩ := Machine.exists_run_of_exec_restrict computed
  obtain ⟨v, connects, paged⟩ := (Option.any_eq_true ..).mp connected
  obtain ⟨s, ran, done, onward⟩ := Machine.exists_run_of_exec_restrict (of_decide_eq_true paged)
  obtain ⟨u, run', arrived⟩ := Machine.exists_run_of_exec_restrict onward
  have run : ((machine bench).restrict InTime).Run (initial blank) (steps 2 .down) w := run
  have ran : ((session bench).restrict Timely).Run ⟨v, setupWrites homeForm⟩ pageWrites s := ran
  have clean : NulFree homeForm := ⟨by decide, by decide, by decide⟩
  have fine : validateSetupForm (some unprovisioned) homeForm = none := by decide +kernel
  obtain ⟨c, carries, -, -, takes⟩ := (commissions run connects clean fine ran).2 done
  have timely : InTime w (.ble (.connected 1)) := by rintro ⟨⟩
  have begun : ((machine bench).restrict InTime).Run (initial blank)
      (steps 2 .down ++ [.ble (.connected 1)]) v := run.snoc ⟨timely, connects⟩
  obtain ⟨es, reached⟩ := @hub_run bench blank ⟨v, setupWrites homeForm⟩ s _ _ begun ran
  obtain ⟨fs, t, favoured, long⟩ := favours_arrived reached.unrestrict run' arrived
  obtain ⟨online, active, -⟩ := takes rfl rfl fs t favoured long
  exact ⟨v, s, fs, t, c, ran, done, carries, favoured, online, active⟩

end IrHub.System.Commission
