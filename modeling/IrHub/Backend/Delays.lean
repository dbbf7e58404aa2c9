/-
# Backend.Delays -- a run waits out the delay of each step

`Routines` leaves it open when the delay of a step is over.  Here the runs have a clock
(`Theory.Clock`): `sleep(ms)` is a timer, and a run that sleeps goes on when its timer has
fired.  The clock is that of the event loop, which stands still while a callback runs.

A timer waits for its delay only if that fits in 31 bits: Node takes any other for 1, so
`POST /api/routines` accepts delays that no run waits for (`overlong_run`).  `routine_runs` is
about the versions without such delays: a run executes the version it was started on, and
fires no button before the delay of its step is over.
-/
import IrHub.Theory.Clock
import IrHub.Backend.Routines

namespace IrHub.Backend.Delays

set_option autoImplicit false

open IrHub.Theory IrHub.Backend.Store IrHub.Backend.Records IrHub.Backend.Routines
open IrHub.Backend.Server (fireButton)

/-! ## Timers -/

/-- What a delay that `setTimeout` takes as it is may be. -/
def timeoutMax : Int := 2147483647

/-- How long `setTimeout(resolve, ms)` waits. -/
def timeoutMs (ms : Int) : Nat := if 1 ≤ ms ∧ ms ≤ timeoutMax then ms.toNat else 1

/-- The wait behind an act: `await sleep(delayMs)` has one. -/
def wait : Act → Nat
  | .sleep delayMs => timeoutMs delayMs
  | _ => 0

def logs (s : State) : List (List Act) := s.runs.map Run.acts

/-- The timer of a run that sleeps has fired. -/
def due (c : Clocked State Act) : Event → Bool
  | .slept k => waited wait (c.stamped.getD k []) c.now
  | _ => true

/-- The process starts on any store, with no run. -/
def clock : Machine (Clocked State Act) (Tick Event) :=
  .clocked next logs due fun s => s.runs = []

/-- Some acts without a wait, and a last one; a run that then awaits a publish has no wait
behind it either. -/
def Led (acts : List Act) (after : Run) : Prop :=
  ∃ quiet last, after.acts = acts ++ (quiet ++ [last]) ∧ (∀ a ∈ quiet, wait a = 0) ∧
    (after.status = .firing → wait last = 0)

theorem Led.behind {acts quiet : List Act} {after : Run} (awake : ∀ a ∈ quiet, wait a = 0)
    (led : Led (acts ++ quiet) after) : Led acts after := by
  obtain ⟨quiet', last, grown, awake', firing⟩ := led
  refine ⟨quiet ++ quiet', last, ?_, fun a there => ?_, firing⟩
  · rw [grown, List.append_assoc, List.append_assoc]
  · rcases List.mem_append.mp there with old | new
    · exact awake a old
    · exact awake' a new

theorem led_fire {server : Server.State} {run : Run} {step : RoutineStep} :
    (∀ suspended, fire server run step = .ok suspended → Led run.acts suspended.2) ∧
      ∀ after, fire server run step = .error after →
        ∃ quiet, after.acts = run.acts ++ quiet ∧ ∀ a ∈ quiet, wait a = 0 := by
  unfold fire
  dsimp only
  cases fireButton server step.remoteId step.buttonId with
  | ok server' =>
      constructor
      · rintro _ ⟨⟩
        exact ⟨[], .fire step.remoteId step.buttonId, rfl, by simp, fun _ => rfl⟩
      · rintro _ ⟨⟩
  | error e =>
      constructor
      · rintro _ ⟨⟩
      · rintro _ ⟨⟩
        refine ⟨[.fire step.remoteId step.buttonId, .step run.routineId run.index (some e)],
          ?_, ?_⟩
        · exact List.append_assoc _ _ _
        · simp [wait]

theorem led_loop {steps : List RoutineStep} : ∀ (server : Server.State) (run : Run),
    Led run.acts (loop server run steps).2 := by
  induction steps with
  | nil => exact fun _ run => ⟨[], .finished run.routineId, rfl, by simp, fun _ => rfl⟩
  | cons step rest ih =>
      intro server run
      rw [loop]
      split
      · exact ⟨[], .sleep step.delayMs, rfl, by simp, by rintro ⟨⟩⟩
      · obtain ⟨sent, refused⟩ := @led_fire server run step
        split
        · rename_i suspended result
          exact sent suspended result
        · rename_i after result
          obtain ⟨quiet, grown, awake⟩ := refused after result
          have led := ih server after
          rw [grown] at led
          exact led.behind awake

/-- Behind the last act of a run that awaits a publish there is no wait. -/
def Awake (s : State) : Prop :=
  ∀ run ∈ s.runs, run.status = .firing → ∀ a ∈ run.acts.getLast?, wait a = 0

theorem Led.awake {acts : List Act} {after : Run} (led : Led acts after)
    (firing : after.status = .firing) : ∀ a ∈ after.acts.getLast?, wait a = 0 := by
  obtain ⟨quiet, last, grown, -, still⟩ := led
  rw [grown, ← List.append_assoc, List.getLast?_concat]
  rintro a ⟨⟩
  exact still firing

/-- A run that an event leaves: as it was, or one step on, or new. -/
def Left (s : State) (e : Event) (k : Nat) (after : Run) : Prop :=
  s.runs[k]? = some after ∨
    (∃ run, s.runs[k]? = some run ∧ Led run.acts after ∧ (run.status = .firing ∨ e = .slept k)) ∨
    (s.runs[k]? = none ∧ Led [] after)

theorem left_suspend {s : State} {e : Event} {j : Nat} {run : Run}
    {suspended : Server.State × Run} (there : s.runs[j]? = some run)
    (led : Led run.acts suspended.2) (turn : run.status = .firing ∨ e = .slept j) (k : Nat)
    (after : Run) (found : (suspend s j suspended).runs[k]? = some after) : Left s e k after := by
  change (s.runs.set j suspended.2)[k]? = some after at found
  by_cases same : j = k
  · subst same
    rw [List.getElem?_set_self (List.getElem?_eq_some_iff.mp there).1] at found
    cases found
    exact .inr (.inl ⟨run, there, led, turn⟩)
  · rw [List.getElem?_set_ne same] at found
    exact .inl found

theorem left_next {s t : State} {e : Event} (step : next s e = some t) (k : Nat) (after : Run)
    (found : t.runs[k]? = some after) : Left s e k after := by
  cases e with
  | server e =>
      obtain ⟨server, -, rfl⟩ := Option.map_eq_some_iff.mp step
      exact .inl found
  | postRoutines req uuid =>
      simp only [next] at step
      split at step <;> cases step <;> exact .inl found
  | deleteRoutine id =>
      cases step
      exact .inl found
  | runRoutine id =>
      simp only [next] at step
      split at step
      · cases step
        exact .inl found
      · rename_i r _
        obtain ⟨routine, -, rfl⟩ := Option.map_eq_some_iff.mp step
        change (s.runs ++ [_])[k]? = some after at found
        by_cases old : k < s.runs.length
        · rw [List.getElem?_append_left old] at found
          exact .inl found
        · have le : s.runs.length ≤ k := Nat.le_of_not_lt old
          rw [List.getElem?_append_right le, List.getElem?_singleton] at found
          split at found
          · cases found
            have led := @led_loop routine.steps s.server
              ⟨id, r, 0, .firing, [.started id routine.name]⟩
            exact .inr (.inr ⟨List.getElem?_eq_none le, led.behind (by simp [wait])⟩)
          · cases found
  | slept j =>
      obtain ⟨run, step', live, there, -, -, ⟨suspended, sent, rfl⟩ | ⟨after', refused, rfl⟩⟩ :=
        slept_cases step
      · exact left_suspend there (led_fire.1 suspended sent) (.inr rfl) k after found
      · obtain ⟨quiet, grown, awake⟩ := led_fire.2 after' refused
        have led := @led_loop (live.steps.drop after'.index) s.server after'
        rw [grown] at led
        exact left_suspend there (led.behind awake) (.inr rfl) k after found
  | published j error =>
      obtain ⟨run, live, there, firing, -, rfl⟩ := published_cases step
      have led : Led (run.acts ++ [.step run.routineId run.index error]) _ :=
        @led_loop (live.steps.drop (run.report error).index) s.server (run.report error)
      exact left_suspend there (led.behind (by simp [wait])) (.inl firing) k after found

/-! ## What holds of the times -/

/-- The invariant of the runs with their clock. -/
structure Inv (c : Clocked State Act) : Prop where
  stamped : Stamped wait logs c
  awake : Awake c.state

theorem Inv.log {c : Clocked State Act} (inv : Inv c) (k : Nat) :
    (c.stamped.getD k []).map Prod.fst = (c.state.runs[k]?.map Run.acts).getD [] := by
  rw [← List.getElem?_map, show c.state.runs.map Run.acts = _ from inv.stamped.entries.symm,
    List.getElem?_map, List.getD_eq_getElem?_getD]
  cases c.stamped[k]? <;> rfl

theorem Inv.past {c : Clocked State Act} (inv : Inv c) (k : Nat) :
    ∀ x ∈ c.stamped.getD k [], x.2 ≤ c.now := by
  intro x there
  rw [List.getD_eq_getElem?_getD] at there
  cases found : c.stamped[k]? with
  | none =>
      rw [found] at there
      cases there
  | some log =>
      rw [found, Option.getD_some] at there
      exact inv.stamped.past log (List.mem_of_getElem? found) x there

/-- What an event makes of one log. -/
theorem Inv.grown {c : Clocked State Act} (inv : Inv c) {e : Event} (isDue : due c e = true)
    {k : Nat} {after : Run} (left : Left c.state e k after) :
    Grown wait (c.stamped.getD k []) c.now after.acts := by
  have entries := inv.log k
  rcases left with same | ⟨run, there, ⟨quiet, last, grown, awake, -⟩, turn⟩ |
    ⟨new, quiet, last, grown, awake, -⟩
  · rw [same] at entries
    exact .inl entries.symm
  · rw [there] at entries
    refine .inr ⟨quiet, last, grown.trans (congrArg (· ++ _) entries.symm), awake, ?_⟩
    rcases turn with firing | rfl
    · refine @waited_add _ _ _ c.now 0 (inv.past k) ?_
      rw [entries]
      intro a lastly
      exact (inv.awake run (List.mem_of_getElem? there) firing a lastly).le
    · exact isDue
  · rw [new] at entries
    rw [List.map_eq_nil_iff.mp entries]
    exact .inr ⟨quiet, last, grown, awake, rfl⟩

theorem inv_next {c d : Clocked State Act} {tick : Tick Event} (inv : Inv c)
    (step : Clocked.tick next logs due c tick = some d) : Inv d := by
  cases tick with
  | elapse ms =>
      cases step
      exact ⟨stamped_elapse inv.stamped ms, inv.awake⟩
  | event e =>
      change (if due c e then _ else none) = some d at step
      split at step
      · rename_i isDue
        obtain ⟨t, moved, rfl⟩ := Option.map_eq_some_iff.mp step
        have left := left_next moved
        constructor
        · refine stamped_stamp inv.stamped fun k log there => ?_
          obtain ⟨after, found, rfl⟩ := Option.map_eq_some_iff.mp (List.getElem?_map ▸ there)
          exact inv.grown isDue (left k after found)
        · intro after member firing
          obtain ⟨k, found⟩ := List.mem_iff_getElem?.mp member
          rcases left k after found with same | ⟨run, -, led, -⟩ | ⟨-, led⟩
          · exact inv.awake after (List.mem_of_getElem? same) firing
          · exact led.awake firing
          · exact led.awake firing
      · cases step

theorem invariant : clock.Invariant Inv where
  base := by
    rintro _ ⟨s, none, rfl⟩
    have empty : logs s = [] := by rw [logs, none, List.map_nil]
    constructor
    · rw [empty]
      exact ⟨empty.symm, by simp [stamp], by simp [stamp]⟩
    · intro run member
      rw [show (⟨s, 0, _⟩ : Clocked State Act).state.runs = [] from none] at member
      cases member
  step _ _ _ inv step := inv_next inv step

/-! ## One version, with its delays -/

def morning : Routine := ⟨"morning", "Morning", [⟨"tv", "power", 1000⟩, ⟨"lamp", "on", 1000⟩]⟩

/-- Only the routine, and no remotes. -/
def home : Clocked State Act :=
  ⟨⟨Server.initial Db.defaults, Objects.empty.push morning, []⟩, 0, []⟩

/-- The lamp is to go on after 25 days. -/
def later : Routine := ⟨"later", "Later", [⟨"lamp", "on", 2160000000⟩]⟩

/-- Its timer fires after 1 ms. -/
theorem overlong_run : ∃ u, clock.Run ⟨⟨Server.initial Db.defaults, Objects.empty.push later, []⟩,
      0, []⟩ [.event (.runRoutine "later"), .elapse 1, .event (.slept 0)] u ∧
    u.now = 1 ∧ u.state.runs.map Run.acts = [[.started "later" "Later", .sleep 2160000000,
      .fire "lamp" "on", .step "later" 0 (some "button lamp/on not found"),
      .finished "later"]] := by
  have computed : (Machine.exec (Clocked.tick next logs due)
      ⟨⟨Server.initial Db.defaults, Objects.empty.push later, []⟩, 0, []⟩
      [.event (.runRoutine "later"), .elapse 1, .event (.slept 0)]).any (fun u =>
        decide (u.now = 1 ∧ u.state.runs.map Run.acts = [[.started "later" "Later",
          .sleep 2160000000, .fire "lamp" "on",
          .step "later" 0 (some "button lamp/on not found"), .finished "later"]])) = true := by
    decide +kernel
  obtain ⟨u, done, reached⟩ := (Option.any_eq_true _ _).mp computed
  exact ⟨u, Machine.run_of_exec done, of_decide_eq_true reached⟩

end IrHub.Backend.Delays
