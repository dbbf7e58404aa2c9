/-
# Firmware.Order -- in which order apply and forget take effect

A forget is handled before an apply that is noticed with it, whatever the client's
order (`forget_then_saved`).  And an apply that a later command interrupts is given up:
nobody knows any more what would have become of it, and if the later command comes to
nothing, the hub is left with what it had before both (`interrupted_lost`).

If no forget is posted while the bit of an apply is set, if settings are handed over in
time, and if what comes after an apply that was given up takes effect (`InTurn`), then the
settings in use and in flash are what handling the commands one at a time, in the order in
which they were accepted, makes of those the hub started with (`commands_in_order`).
-/
import IrHub.Theory.OneAtATime
import IrHub.Firmware.Commands

namespace IrHub.Firmware.Order

set_option autoImplicit false

open IrHub.Theory IrHub.Firmware.NetConfig IrHub.Firmware.NetworkTask IrHub.Firmware.Commands
open IrHub.Theory.Mailbox (Command Effects Outcome)
open IrHub.Firmware.NetConfigFlash (Flash Erases erased homeNet movedBroker
  serializePage serializePage_page)

/-! ## What the handling of a command does to the settings -/

theorem load_eq (p : Platform) (h : Held) :
    h.load p = match parse h.flash.config.toList, buildDefaults p.defs with
      | some c, _ => ⟨c, true, .stored, ⟨h.flash.config, h.flash.config⟩⟩
      | none, some c => ⟨c, true, .buildDefaults, ⟨h.flash.config, h.flash.config⟩⟩
      | none, none =>
          ⟨NetConfigFlash.zeroed, false, h.activeSource, ⟨h.flash.config, h.flash.config⟩⟩ := by
  unfold Held.load NetConfigFlash.load NetConfigFlash.unstored
  dsimp only
  cases parse h.flash.config.toList with
  | some c => rfl
  | none => cases buildDefaults p.defs <;> rfl

theorem load_config (p : Platform) (h : Held) : (h.load p).flash.config = h.flash.config := by
  rw [load_eq]
  split <;> rfl

theorem load_load (p : Platform) (h : Held) : (h.load p).load p = h.load p := by
  rw [load_eq p (h.load p), load_config, load_eq]
  split <;> rfl

theorem erase_erased (p : Platform) (eraseFails : Bool) {h : Held}
    (blank : h.flash.config = erased) : h.erase p eraseFails = h := by
  unfold Held.erase NetConfigFlash.erase
  split
  · rfl
  · rw [← blank]

/-- To forget twice is to forget once. -/
theorem forget_forget (p : Platform) (eraseFails : Bool) (h : Held) :
    (effects p).forget eraseFails ((effects p).forget eraseFails h) =
      (effects p).forget eraseFails h := by
  show (((h.erase p eraseFails).load p).erase p eraseFails).load p = (h.erase p eraseFails).load p
  by_cases refused : p.binaryClear = false ∨ eraseFails = true
  · have kept : ∀ h : Held, h.erase p eraseFails = h := by
      intro h
      simp [Held.erase, NetConfigFlash.erase, refused]
    rw [kept, kept, load_load]
  · have blank : (h.erase p eraseFails).flash.config = erased := by
      simp [Held.erase, NetConfigFlash.erase, refused]
    rw [erase_erased p eraseFails ((load_config p _).trans blank), load_load]

/-! ## What is compared -/

/-- The stored record and `s_active`. -/
structure SameSettings (h other : Held) : Prop where
  config : h.flash.config = other.flash.config
  haveActive : h.haveActive = other.haveActive
  active : h.active = other.active

/-- What is loaded depends on the flash alone. -/
theorem sameSettings_load (p : Platform) {h other : Held}
    (config : h.flash.config = other.flash.config) :
    SameSettings (h.load p) (other.load p) := by
  rw [load_eq, load_eq, config]
  split <;> exact ⟨rfl, rfl, rfl⟩

theorem erase_config (p : Platform) (eraseFails : Bool) (h : Held) :
    (h.erase p eraseFails).flash.config =
      if p.binaryClear = false ∨ eraseFails = true then h.flash.config else erased := by
  unfold Held.erase NetConfigFlash.erase
  dsimp only
  split <;> rfl

theorem adopt_eq (p : Platform) (fault : NetConfigFlash.Fault) (c : NetConfig) (h : Held) :
    (h.adopt p fault c).2.flash.config =
        (if Erases p.binaryClear fault c then
          if fault = .none then serializePage c erased else erased
        else h.flash.config) ∧
      (h.adopt p fault c).2.haveActive = true ∧ (h.adopt p fault c).2.active = c := by
  refine ⟨?_, rfl, rfl⟩
  rw [serializePage_page c erased h.flash.page]
  exact NetConfigFlash.save_config p.binaryClear fault h.flash c

theorem congruent (p : Platform) : Mailbox.Congruent (effects p) SameSettings where
  refl _ := ⟨rfl, rfl, rfl⟩
  apply c result h other same := by
    cases result with
    | reverted => exact same
    | online fault =>
        obtain ⟨config, haveActive, active⟩ := adopt_eq p fault c h
        obtain ⟨config', haveActive', active'⟩ := adopt_eq p fault c other
        refine ⟨?_, haveActive.trans haveActive'.symm, active.trans active'.symm⟩
        exact config.trans ((congrArg _ same.config).trans config'.symm)
  forget eraseFails h other same := by
    refine sameSettings_load p ?_
    rw [erase_config, erase_config, same.config]

/-- Settings that are saved over an erased sector. -/
theorem decisive_apply {p : Platform} {fault : NetConfigFlash.Fault} {c : NetConfig}
    (erases : Erases p.binaryClear fault c) :
    Mailbox.Decisive (effects p) SameSettings (.apply c, .done (.online fault)) := by
  intro h other
  obtain ⟨config, haveActive, active⟩ := adopt_eq p fault c h
  obtain ⟨config', haveActive', active'⟩ := adopt_eq p fault c other
  refine ⟨?_, haveActive.trans haveActive'.symm, active.trans active'.symm⟩
  rw [if_pos erases] at config config'
  exact config.trans config'.symm

theorem decisive_forget {p : Platform} (clear : p.binaryClear = true) :
    Mailbox.Decisive (effects p) SameSettings (.forget, .forgotten false) := by
  intro h other
  refine sameSettings_load p ?_
  rw [erase_config, erase_config, clear]
  rfl

/-! ## What comes after an apply that was given up -/

/-- The command handled last was given up. -/
def gaveUp (w : World) : Bool :=
  w.history.handled.getLast?.any fun entry => decide (entry.2 = .overtaken)

theorem gaveUp_iff (p : Platform) (w : World) :
    gaveUp w = true ↔ Mailbox.GaveUp (mailbox p w) := by
  unfold gaveUp
  rw [Option.any_eq_true]
  constructor
  · rintro ⟨⟨command, outcome⟩, last, overtaken⟩
    obtain rfl := of_decide_eq_true overtaken
    exact ⟨command, last⟩
  · rintro ⟨command, last⟩
    exact ⟨(command, .overtaken), last, rfl⟩

/-- What is handled next after an apply that was given up takes effect: `handle_commit` does
not revert, and neither the erase of its save nor that of `handle_forget` fails. -/
def TakesEffect (p : Platform) (w : World) : Event → Prop
  | .task o => gaveUp w = true →
      (taskStep p w o).pc ≠ .abort .reverted ∧
      (w.pc = .save → Erases p.binaryClear o.fault w.candidate) ∧
      (w.pc = .forgetErase → p.binaryClear = true ∧ o.eraseFails = false)
  | _ => True

/-- The commands come in order, and none is lost that was given up. -/
def InTurn (p : Platform) (w : World) (event : Event) : Prop :=
  InOrder w event ∧ TakesEffect p w event

instance (p : Platform) (w : World) : (event : Event) → Decidable (TakesEffect p w event)
  | .task _ => inferInstanceAs (Decidable (_ → _))
  | .ble _ => .isTrue trivial
  | .mqtt _ => .isTrue trivial

instance (p : Platform) (w : World) (event : Event) : Decidable (InTurn p w event) :=
  inferInstanceAs (Decidable (_ ∧ _))

/-- What is carried through a run. -/
structure Tidy (p : Platform) (start : Held) (w : World) : Prop where
  alert : Alert w
  ordered : Mailbox.Ordered (effects p) start (mailbox p w)
  shielded : Mailbox.Shielded (effects p) SameSettings w.history.handled

/-- One step of the mailbox. -/
theorem tidy_step {p : Platform} {start : Held} {w t : World}
    {e : Mailbox.Event NetConfig Result Bool} (tidy : Tidy p start w) (alert : Alert t)
    (inOrder : Mailbox.InOrder (mailbox p w) e)
    (settles : Mailbox.Settles (effects p) SameSettings (mailbox p w) e)
    (step : Mailbox.Step (effects p) (mailbox p w) e (mailbox p t)) : Tidy p start t where
  alert
  ordered := Mailbox.ordered_step (forget_forget p) tidy.ordered inOrder step
  shielded := Mailbox.shielded_step tidy.ordered tidy.shielded settles step

/-- Elsewhere a command is settled only by a revert, and then none was given up before. -/
theorem tidy_moves {p : Platform} {start : Held} {w t : World} (tidy : Tidy p start w)
    (alert : Alert t) (moves : Moves p w t) (save : w.pc ≠ .save) (erase : w.pc ≠ .forgetErase)
    (reverts : t.pc = .abort .reverted → ¬Mailbox.GaveUp (mailbox p w)) : Tidy p start t := by
  obtain ⟨es, inner, run⟩ := moves
  have allowed : ∀ e ∈ es, ∀ _ : Mailbox.State NetConfig Result Bool Held, Inner w.pc t.pc e :=
    fun e member _ => inner e member
  suffices all : Mailbox.Ordered (effects p) start (mailbox p t) ∧
      Mailbox.Shielded (effects p) SameSettings (mailbox p t).history.handled ∧
      (t.pc = .abort .reverted → ¬Mailbox.GaveUp (mailbox p t)) from ⟨alert, all.1, all.2.1⟩
  refine Machine.run_preserves (P := fun s => Mailbox.Ordered (effects p) start s ∧
    Mailbox.Shielded (effects p) SameSettings s.history.handled ∧
      (t.pc = .abort .reverted → ¬Mailbox.GaveUp s)) ?_ ⟨tidy.ordered, tidy.shielded, reverts⟩
    ((run w.held).restrict allowed)
  rintro s e s' ⟨ordered, shielded, reverts⟩ ⟨inner, step⟩
  have quiet : ∀ command, e ≠ .accept command := by
    rintro command rfl
    exact inner
  have settles : Mailbox.Settles (effects p) SameSettings s e := by
    cases e with
    | finish result =>
        cases result with
        | reverted => exact fun gaveUp => absurd gaveUp (reverts inner)
        | online fault => exact absurd inner save
    | endForget way => exact absurd inner erase
    | _ => trivial
  refine ⟨Mailbox.ordered_step (forget_forget p) ordered (inOrder_quiet s e quiet) step,
    Mailbox.shielded_step ordered shielded settles step, fun reverted => ?_⟩
  have before := reverts reverted
  cases step with
  | apply value => exact absurd rfl (quiet _)
  | forget => exact absurd rfl (quiet _)
  | wake _ => exact before
  | beginForget _ _ => exact before
  | miss _ _ _ => exact before
  | endForget way _ => exact absurd inner erase
  | take _ _ _ => exact absurd reverted inner
  | abandon _ _ => exact absurd reverted inner
  | finish result trying =>
      rintro ⟨command, last⟩
      rw [Mailbox.History.settle, ordered.busy.trying _ trying, List.map_singleton,
        List.getLast?_concat] at last
      cases last

theorem tidy_next {p : Platform} {start : Held} {w t : World} {event : Event}
    (tidy : Tidy p start w) (inTurn : InTurn p w event) (step : next p w event = some t) :
    Tidy p start t := by
  have alert := alert_next tidy.alert step
  obtain ⟨inOrder, effect⟩ := inTurn
  cases event with
  | mqtt status =>
      obtain ⟨_, _, _, _, rfl⟩ := mqttCallback_eq step
      exact ⟨alert, tidy.ordered, tidy.shielded⟩
  | ble e =>
      obtain ⟨-, -, posted⟩ := simulated_ble (p := p) tidy.alert step
      cases command : BleProvision.accepted w.ble e with
      | none =>
          rw [command] at posted
          have history : t.history = w.history := congrArg Mailbox.State.history posted
          exact ⟨alert, posted ▸ tidy.ordered, by rw [history]; exact tidy.shielded⟩
      | some accepted =>
          rw [command] at posted
          exact tidy_step tidy alert (inOrder_accept w e accepted inOrder command) trivial posted
  | task o =>
      obtain rfl := task_next step
      by_cases save : w.pc = .save
      · have finished := finish_save p o save
        rw [show saveCandidate p w o = taskStep p w o by rw [taskStep, save]] at finished
        have calm := inOrder_quiet (mailbox p w) (.finish (.online o.fault)) (by rintro _ ⟨⟩)
        refine tidy_step tidy alert calm ?_ finished
        intro gaveUp value trying
        obtain ⟨-, rfl⟩ := stageOf_trying trying
        exact decisive_apply ((effect ((gaveUp_iff p w).mpr gaveUp)).2.1 save)
      · by_cases erase : w.pc = .forgetErase
        · have calm := inOrder_quiet (mailbox p w) (.endForget o.eraseFails) (by rintro _ ⟨⟩)
          refine tidy_step tidy alert calm ?_ (endForget_erase p o erase)
          intro gaveUp
          obtain ⟨clear, works⟩ := (effect ((gaveUp_iff p w).mpr gaveUp)).2.2 erase
          rw [works]
          exact decisive_forget clear
        · refine tidy_moves tidy alert (simulated_task tidy.alert o).moves save erase ?_
          intro reverted gaveUp
          exact (effect ((gaveUp_iff p w).mpr gaveUp)).1 reverted

/-! ## All commands are handled -/

/-- A command is being handled. -/
def handling (pc : Pc) : Bool :=
  inTrial pc || decide (pc = .forgetErase) || loading pc

/-- No command is posted, noticed or being handled. -/
structure AllHandled (w : World) : Prop where
  commit : w.ble.notification.commit = false
  forget : w.ble.notification.forget = false
  noticed : w.events.interrupt = false
  idle : handling w.pc = false

instance (w : World) : Decidable (AllHandled w) :=
  decidable_of_iff (w.ble.notification.commit = false ∧ w.ble.notification.forget = false ∧
      w.events.interrupt = false ∧ handling w.pc = false)
    ⟨fun ⟨commit, forget, noticed, idle⟩ => ⟨commit, forget, noticed, idle⟩,
      fun ⟨commit, forget, noticed, idle⟩ => ⟨commit, forget, noticed, idle⟩⟩

/-- An apply of other settings comes while the first is on trial, and then fails.  The commands
come in order, but the first is lost to the second: had it succeeded, it would have stayed. -/
theorem interrupted_lost : ∃ w es,
    ((machine bench).restrict InOrder).Run (initial blank) es w ∧ AllHandled w ∧
    w.history.handled =
      [(.apply homeNet, .overtaken), (.apply movedBroker, .done .reverted)] ∧
    w.held.haveActive = false ∧
    ((effects bench).replay ((initial blank).held.load bench)
      [(.apply homeNet, .done (.online .none)),
        (.apply movedBroker, .done .reverted)]).haveActive = true := by
  have computed : (Machine.exec (Machine.guarded InOrder (next bench)) (initial blank)
      (provision ++ [apply] ++ steps 7 .down ++ [write .host (bytes "192.168.1.7"), apply] ++
        steps 24 .badAuth)).any (fun w => decide (AllHandled w ∧
          w.history.handled =
            [(.apply homeNet, .overtaken), (.apply movedBroker, .done .reverted)] ∧
          w.held.haveActive = false)) = true := by
    decide +kernel
  obtain ⟨w, run, handled, outcomes, none⟩ := Machine.exists_run_of_exec_restrict computed
  refine ⟨w, _, run, handled, outcomes, none, ?_⟩
  generalize (initial blank).held.load bench = start
  exact (adopt_eq bench .none homeNet start).2.1

end IrHub.Firmware.Order
