/-
# Backend.Automation -- routine runs and passes over the rules, all at once

The timer calls `evaluateRules` whether or not the passes before are over, and clients start
routines whenever they like.  A pass awaits a publish of its own or a run of its own; meanwhile
remotes, routines and rules are edited, prices refreshed and signals learned.  `Pass` is one call
of `evaluateRules`; the routines, their runs and the rules are there for all of them.

Each part does what it does alone: the runs are those of `Routines.machine`, and every pass is
one of `RulePass.machine` (`parts_alone`).  Each callback brings all of it closer to its end, so
that what nobody touches comes to rest (`comes_to_rest`).
-/
import IrHub.Backend.Routines
import IrHub.Backend.RulePass
import Mathlib.Algebra.Order.BigOperators.Group.List
import Mathlib.Algebra.Order.Group.Nat

namespace IrHub.Backend.Automation

set_option autoImplicit false

open IrHub.Theory IrHub.Backend.Store IrHub.Backend.Records
open IrHub.Backend.Rules (PriceBlock RuleTriggered)

/-! ## The backend -/

/-- The promise that a pass awaits: `fireButton` or `runRoutine` has been rejected, a publish
has not been confirmed, or a run has not come to its end. -/
inductive Action where
  | rejected (error : String)
  | publishing
  | running (run : Nat)
  deriving DecidableEq, Repr

/-- A call of `evaluateRules`: what `RulePass` has of it besides the rules, and its promise. -/
structure Pass where
  index : Nat
  status : RulePass.Status
  fired : List RuleAction
  broadcasts : List RuleTriggered
  history : RulePass.History
  action : Option Action

def Pass.of (t : RulePass.State) (action : Option Action) : Pass :=
  ⟨t.index, t.status, t.fired, t.broadcasts, t.history, action⟩

def Pass.over (p : Pass) (rules : Objects PriceRule) : RulePass.State :=
  ⟨rules, p.index, p.status, p.fired, p.broadcasts, p.history⟩

/-- `house` has the remotes, the routines and their runs, `prices` is `priceCache.prices`. -/
structure State where
  house : Routines.State
  rules : Objects PriceRule
  prices : List PriceBlock
  now : Nat
  passes : List Pass

/-- The action of a rule, up to its first await. -/
def launch (house : Routines.State) : RuleAction → Routines.State × Action
  | .button remoteId buttonId =>
      match Server.fireButton house.server remoteId buttonId with
      | .error e => (house, .rejected e)
      | .ok server => ({ house with server }, .publishing)
  | .routine routineId =>
      match house.routines.lookup Routine.id routineId,
          Routines.next house (.runRoutine routineId) with
      | some _, some started => (started, .running house.runs.length)
      | _, _ => (house, .rejected "routine not found")

/-- A pass has started an action, or is over. -/
def suspend (s : State) (t : RulePass.State) : State × Pass :=
  match t.status with
  | .finished => ({ s with rules := t.rules }, .of t none)
  | .awaiting _ r =>
      match t.rules.get? r with
      | none => ({ s with rules := t.rules }, .of t none)
      | some rule =>
          let (house, action) := launch s.house rule.action
          ({ s with house, rules := t.rules }, .of t (some action))

/-- Whether the promise of a pass is settled, with an error or without. -/
def settled (runs : List Routines.Run) (error : Option String) : Action → Bool
  | .rejected e => error = some e
  | .publishing => true
  | .running j => error = none ∧ runs[j]?.any fun run => run.status = .finished

/-- The rules are edited while a pass goes on. -/
def Pass.edit (rules : Objects PriceRule) (f : RulePass.State → RulePass.State) (p : Pass) : Pass :=
  if p.status = .finished then p else .of (f (p.over rules)) p.action

/-- `POST /api/rules` with an accepted body. -/
def put (rules : Objects PriceRule) (rule : PriceRule) : Objects PriceRule :=
  match rules.lookup PriceRule.id rule.id with
  | some _ => rules.assign PriceRule.id rule.id (editRule rule)
  | none => rules.push rule

inductive Event where
  /-- A request, a message or a timer, or a callback of a run. -/
  | house (e : Routines.Event)
  | postRules (req : RuleReq) (uuid : String)
  | deleteRule (id : String)
  | refreshed (prices : List PriceBlock)
  | time (now : Nat)
  /-- The timer of `evaluateRules`. -/
  | tick
  | actionOver (k : Nat) (error : Option String)

/-- Only the runs and the passes fire buttons. -/
def outside : Routines.Event → Bool
  | .server (.fireButton _ _) => false
  | _ => true

def next (s : State) : Event → Option State
  | .house e =>
      if outside e then (Routines.next s.house e).map fun house => { s with house } else none
  | .postRules req uuid =>
      match ruleOf req uuid with
      | .error _ => some s
      | .ok rule =>
          some { s with
            rules := put s.rules rule
            passes := s.passes.map (.edit s.rules fun t => (t.post rule).settle) }
  | .deleteRule id =>
      some { s with
        rules := s.rules.remove PriceRule.id id
        passes := s.passes.map (.edit s.rules fun t => (t.delete id).settle) }
  | .refreshed prices => some { s with prices }
  | .time now => if s.now ≤ now then some { s with now } else none
  | .tick =>
      match RulePass.evaluateRules s.rules s.prices s.now with
      | none => some s
      | some t =>
          let (s, p) := suspend s t
          some { s with passes := s.passes ++ [p] }
  | .actionOver k error =>
      match s.passes[k]? with
      | none => none
      | some p =>
          if p.action.any (settled s.house.runs error) then
            (RulePass.next (p.over s.rules) (.actionOver error)).map fun t =>
              let (s, p) := suspend s t
              { s with passes := s.passes.set k p }
          else none

/-- Started over any store. -/
def machine : Machine State Event :=
  Machine.ofStep (fun s => s.house.runs = [] ∧ s.passes = []) next

/-! ## What the loop of a pass does to the rules -/

/-- Rules after some writes of `lastTriggeredState`. -/
def written (rules : Objects PriceRule) (writes : List (String × Bool)) : Objects PriceRule :=
  writes.foldl (fun rules write => rules.assign PriceRule.id write.1 fun rule =>
    { rule with lastTriggeredState := write.2 }) rules

theorem refs_written (rules : Objects PriceRule) (writes : List (String × Bool)) :
    (written rules writes).refs = rules.refs := by
  induction writes generalizing rules with
  | nil => rfl
  | cons write writes ih => exact (ih _).trans (Objects.refs_assign ..)

/-- The loop of a pass has started the action of a rule, or has come to its end. -/
structure Looped (priceCents : Rat) (s t : RulePass.State) : Prop where
  rules : ∃ writes, t.rules = written s.rules writes
  stops : t.status = .finished ∨ ∃ r rule, t.status = .awaiting priceCents r ∧
    t.rules.get? r = some rule ∧ t.fired.getLast? = some rule.action ∧ s.index < t.index ∧
    t.index ≤ s.rules.refs.length

theorem looped (priceCents : Rat) {ahead : List Nat} : ∀ {s : RulePass.State},
    s.rules.refs.drop s.index = ahead → Looped priceCents s (RulePass.loop priceCents ahead s) := by
  induction ahead with
  | nil => exact fun _ => ⟨⟨[], rfl⟩, .inl rfl⟩
  | cons r ahead ih =>
      intro s at_
      have inside : s.index < s.rules.refs.length := by
        by_contra outside
        rw [List.drop_eq_nil_of_le (by omega)] at at_
        cases at_
      have further : s.rules.refs.drop (s.index + 1) = ahead := by
        rw [← List.drop_drop, at_]
        rfl
      have visited : Looped priceCents s (RulePass.loop priceCents ahead (s.visit r)) := by
        obtain ⟨rules, stops⟩ := @ih (s.visit r) further
        refine ⟨rules, stops.imp_right ?_⟩
        rintro ⟨r', rule, status, held, fired, later, most⟩
        exact ⟨r', rule, status, held, fired, Nat.lt_of_succ_lt later, most⟩
      rw [RulePass.loop]
      dsimp only
      cases held : (s.visit r).rules.get? r with
      | none => exact visited
      | some rule =>
          dsimp only
          split
          · exact visited
          · split
            · exact ⟨⟨[], rfl⟩, .inr ⟨r, rule, rfl, held, List.getLast?_concat,
                Nat.lt_succ_self _, inside⟩⟩
            · rename_i met _
              let u := ((s.visit r).evaluate r).write rule.id
                (Rules.conditionMet rule priceCents)
              have refs : u.rules.refs = s.rules.refs := Objects.refs_assign ..
              obtain ⟨⟨writes, rules⟩, stops⟩ := @ih u (by rw [refs]; exact further)
              refine ⟨⟨(rule.id, Rules.conditionMet rule priceCents) :: writes, rules⟩,
                stops.imp_right ?_⟩
              rintro ⟨r', rule', status, held, fired, later, most⟩
              exact ⟨r', rule', status, held, fired, Nat.lt_of_succ_lt later, refs ▸ most⟩

theorem length_written (rules : Objects PriceRule) (writes : List (String × Bool)) :
    (written rules writes).heap.length = rules.heap.length := by
  induction writes generalizing rules with
  | nil => rfl
  | cons write writes ih => exact (ih _).trans (Objects.length_assign ..)

/-! ## What a pass starts -/

/-- The first part of a run, up to its first await. -/
def begun (house : Routines.State) (routineId : String) (r : Nat) (routine : Routine) :
    Server.State × Routines.Run :=
  Routines.loop house.server ⟨routineId, r, 0, .firing, [.started routineId routine.name]⟩
    routine.steps

theorem runRoutine_cases {house after : Routines.State} {routineId : String}
    (step : Routines.next house (.runRoutine routineId) = some after) :
    (house.routines.lookup Routine.id routineId = none ∧ after = house) ∨
      ∃ r routine, house.routines.lookup Routine.id routineId = some r ∧
        house.routines.get? r = some routine ∧
        after = { house with
          server := (begun house routineId r routine).1
          runs := house.runs ++ [(begun house routineId r routine).2] } := by
  simp only [Routines.next] at step
  cases found : house.routines.lookup Routine.id routineId with
  | none =>
      rw [found] at step
      exact .inl ⟨rfl, (Option.some.inj step).symm⟩
  | some r =>
      rw [found] at step
      obtain ⟨routine, held, rfl⟩ := Option.map_eq_some_iff.mp step
      exact .inr ⟨r, routine, rfl, held, rfl⟩

/-- An action is refused, publishes, or starts a run. -/
theorem launch_cases (house : Routines.State) (action : RuleAction) :
    (∃ e, launch house action = (house, .rejected e)) ∨
      (∃ remoteId buttonId server, action = .button remoteId buttonId ∧
        Server.fireButton house.server remoteId buttonId = .ok server ∧
        launch house action = ({ house with server }, .publishing)) ∨
      ∃ routineId after, action = .routine routineId ∧
        Routines.next house (.runRoutine routineId) = some after ∧
        (house.routines.lookup Routine.id routineId).isSome = true ∧
        launch house action = (after, .running house.runs.length) := by
  cases action with
  | button remoteId buttonId =>
      cases fired : Server.fireButton house.server remoteId buttonId with
      | error e => exact .inl ⟨e, by rw [launch, fired]⟩
      | ok server =>
          exact .inr (.inl ⟨remoteId, buttonId, server, rfl, fired, by rw [launch, fired]⟩)
  | routine routineId =>
      cases found : house.routines.lookup Routine.id routineId with
      | none => exact .inl ⟨"routine not found", by rw [launch, found]⟩
      | some r =>
          obtain ⟨routine, held, -⟩ := Objects.get?_lookup found
          have started : ∃ after, Routines.next house (.runRoutine routineId) = some after := by
            simp only [Routines.next, found, held, Option.map_some]
            exact ⟨_, rfl⟩
          obtain ⟨after, started⟩ := started
          exact .inr (.inr ⟨routineId, after, rfl, started, by rw [found]; rfl,
            by rw [launch, found, started]⟩)

/-- What a pass starts is a step of the runs, or nothing. -/
theorem launch_run (house : Routines.State) (action : RuleAction) :
    ∃ es, Routines.machine.Run house es (launch house action).1 := by
  rcases launch_cases house action with ⟨e, refused⟩ |
    ⟨remoteId, buttonId, server, -, fired, sent⟩ | ⟨routineId, after, -, step, -, started⟩
  · rw [refused]
    exact ⟨[], .nil _⟩
  · refine ⟨[.server (.fireButton remoteId buttonId)], ?_⟩
    have step : Routines.next house (.server (.fireButton remoteId buttonId)) =
        some { house with server } := by
      rw [Routines.next, Server.next, fired]
      rfl
    rw [sent]
    exact .single step
  · rw [started]
    exact ⟨_, .single step⟩

/-- The pass waits for the action of a rule, or is over. -/
def Halted (t : RulePass.State) : Prop :=
  t.status = .finished ∨ ∃ priceCents r rule, t.status = .awaiting priceCents r ∧
    t.rules.get? r = some rule ∧ t.fired.getLast? = some rule.action

theorem Looped.halted {priceCents : Rat} {s t : RulePass.State} (looped : Looped priceCents s t) :
    Halted t := by
  refine looped.stops.imp_right ?_
  rintro ⟨r, rule, status, held, fired, -⟩
  exact ⟨priceCents, r, rule, status, held, fired⟩

/-- A pass that has halted is put by, with what it started. -/
theorem suspend_cases (s : State) {t : RulePass.State} (halted : Halted t) :
    (t.status = .finished ∧ suspend s t = ({ s with rules := t.rules }, .of t none)) ∨
      ∃ priceCents r rule, t.status = .awaiting priceCents r ∧ t.rules.get? r = some rule ∧
        t.fired.getLast? = some rule.action ∧
        suspend s t = ({ s with house := (launch s.house rule.action).1, rules := t.rules },
          .of t (some (launch s.house rule.action).2)) := by
  rcases halted with ended | ⟨priceCents, r, rule, status, held, fired⟩
  · exact .inl ⟨ended, by rw [suspend, ended]⟩
  · refine .inr ⟨priceCents, r, rule, status, held, fired, ?_⟩
    rw [suspend, status]
    simp only [held]

/-- What is the same of every pass that has halted. -/
structure Suspended (s : State) (t : RulePass.State) (u : State) (p : Pass) : Prop where
  rules : u.rules = t.rules
  passes : u.passes = s.passes
  same : p.over t.rules = t
  house : ∃ es, Routines.machine.Run s.house es u.house

theorem suspended (s : State) {t : RulePass.State} (halted : Halted t) :
    Suspended s t (suspend s t).1 (suspend s t).2 := by
  rcases suspend_cases s halted with ⟨-, same⟩ | ⟨priceCents, r, rule, -, -, -, same⟩
  · rw [same]
    exact ⟨rfl, rfl, rfl, [], .nil _⟩
  · rw [same]
    exact ⟨rfl, rfl, rfl, launch_run s.house rule.action⟩

/-! ## Steps of the passes -/

theorem tick_cases {s u : State} (step : next s .tick = some u) :
    (RulePass.evaluateRules s.rules s.prices s.now = none ∧ u = s) ∨
      ∃ priceCents t, RulePass.evaluateRules s.rules s.prices s.now = some t ∧
        Looped priceCents ⟨s.rules, 0, .finished, [], [], ⟨[], [], [],
          s.rules.refs.filter fun r => RulePass.Standing s.rules r⟩⟩ t ∧
        u = { (suspend s t).1 with passes := (suspend s t).1.passes ++ [(suspend s t).2] } := by
  simp only [next] at step
  cases begun : RulePass.evaluateRules s.rules s.prices s.now with
  | none =>
      rw [begun] at step
      exact .inl ⟨rfl, (Option.some.inj step).symm⟩
  | some t =>
      rw [begun] at step
      obtain ⟨priceCents, -, ran⟩ := Option.map_eq_some_iff.mp begun
      refine .inr ⟨priceCents, t, rfl, ?_, (Option.some.inj step).symm⟩
      rw [← ran]
      exact looped priceCents rfl

theorem actionOver_cases {s u : State} {k : Nat} {error : Option String}
    (step : next s (.actionOver k error) = some u) :
    ∃ p priceCents r rule t, s.passes[k]? = some p ∧ p.status = .awaiting priceCents r ∧
      p.action.any (settled s.house.runs error) = true ∧ s.rules.get? r = some rule ∧
      RulePass.next (p.over s.rules) (.actionOver error) = some t ∧
      Looped priceCents (((p.over s.rules).report rule priceCents error).write rule.id true) t ∧
      u = { (suspend s t).1 with passes := (suspend s t).1.passes.set k (suspend s t).2 } := by
  simp only [next] at step
  split at step
  · cases step
  · rename_i p there
    split at step
    · rename_i ended
      obtain ⟨t, moved, rfl⟩ := Option.map_eq_some_iff.mp step
      obtain ⟨-, moves⟩ := RulePass.next_moves moved
      cases moves with
      | acted priceCents r rule error awaited held after =>
          refine ⟨p, priceCents, r, rule, t, there, awaited, ended, held, moved, ?_, rfl⟩
          rw [after]
          refine looped priceCents ?_
          rw [RulePass.State.write, Objects.refs_assign]
          rfl
    · cases step

/-! ## Every pass is a pass alone -/

/-- The pass is one of `RulePass.machine`, over the rules as long as it goes on. -/
def Viewed (rules : Objects PriceRule) (p : Pass) : Prop :=
  ∃ own, RulePass.machine.Reachable (p.over own) ∧ (p.status ≠ .finished → own = rules)

theorem awaiting_of_going {p : Pass} (going : p.status ≠ .finished) :
    ∃ priceCents r, p.status = .awaiting priceCents r := by
  cases status : p.status with
  | finished => exact absurd status going
  | awaiting priceCents r => exact ⟨priceCents, r, rfl⟩

/-- The writes of other passes. -/
theorem Viewed.written {rules : Objects PriceRule} {p : Pass} (viewed : Viewed rules p)
    (writes : List (String × Bool)) : Viewed (written rules writes) p := by
  obtain ⟨own, reached, same⟩ := viewed
  by_cases ended : p.status = .finished
  · exact ⟨own, reached, fun going => absurd ended going⟩
  · obtain rfl := same ended
    obtain ⟨priceCents, r, status⟩ := awaiting_of_going ended
    refine ⟨_, ?_, fun _ => rfl⟩
    induction writes generalizing own with
    | nil => exact reached
    | cons write writes ih =>
        refine ih _ (reached.step (e := .otherWrite write.1 write.2) ?_) fun _ => rfl
        show RulePass.next _ _ = _
        simp only [RulePass.next, Pass.over, status]
        rfl

/-- An edit that is a step of every pass that goes on. -/
theorem Viewed.edit {rules after : Objects PriceRule} {f : RulePass.State → RulePass.State}
    {e : RulePass.Event} (edits : ∀ p : Pass, p.status ≠ .finished →
      RulePass.next (p.over rules) e = some (f (p.over rules)) ∧ (f (p.over rules)).rules = after)
    {p : Pass} (viewed : Viewed rules p) : Viewed after (p.edit rules f) := by
  obtain ⟨own, reached, same⟩ := viewed
  by_cases ended : p.status = .finished
  · rw [Pass.edit, if_pos ended]
    exact ⟨own, reached, fun going => absurd ended going⟩
  · obtain rfl := same ended
    obtain ⟨step, rfl⟩ := edits p ended
    rw [Pass.edit, if_neg ended]
    exact ⟨_, reached.step step, fun _ => rfl⟩

theorem rules_post (t : RulePass.State) (rule : PriceRule) :
    (t.post rule).settle.rules = put t.rules rule := by
  unfold RulePass.State.post put
  cases t.rules.lookup PriceRule.id rule.id <;> rfl

theorem Viewed.post {rules : Objects PriceRule} {p : Pass} (viewed : Viewed rules p) {req : RuleReq}
    {uuid : String} {rule : PriceRule} (accepted : ruleOf req uuid = .ok rule) :
    Viewed (put rules rule) (p.edit rules fun t => (t.post rule).settle) := by
  refine viewed.edit (e := .postRules req uuid) fun q going => ⟨?_, rules_post _ rule⟩
  obtain ⟨priceCents, r, status⟩ := awaiting_of_going going
  simp only [RulePass.next, Pass.over, status, accepted]

theorem Viewed.delete {rules : Objects PriceRule} {p : Pass} (viewed : Viewed rules p)
    (id : String) :
    Viewed (rules.remove PriceRule.id id) (p.edit rules fun t => (t.delete id).settle) := by
  refine viewed.edit (e := .deleteRule id) fun q going => ⟨?_, rfl⟩
  obtain ⟨priceCents, r, status⟩ := awaiting_of_going going
  simp only [RulePass.next, Pass.over, status]

/-! ## Runs keep their routine -/

theorem loop_routineId {steps : List RoutineStep} : ∀ (server : Server.State) (run : Routines.Run),
    (Routines.loop server run steps).2.routineId = run.routineId := by
  induction steps with
  | nil => exact fun _ _ => rfl
  | cons step rest ih =>
      intro server run
      rw [Routines.loop]
      split
      · rfl
      · unfold Routines.fire
        dsimp only
        cases Server.fireButton server step.remoteId step.buttonId with
        | ok server' => rfl
        | error e => exact ih server _

/-- Runs are for the routines that they were started for. -/
structure Further (before after : Routines.State) : Prop where
  heap : before.routines.heap.length ≤ after.routines.heap.length
  runs : ∀ (j : Nat) (run : Routines.Run), before.runs[j]? = some run →
    ∃ later : Routines.Run, after.runs[j]? = some later ∧ later.routineId = run.routineId ∧
      later.routine = run.routine
  live : (∀ run ∈ before.runs, run.routine < before.routines.heap.length) →
    ∀ run ∈ after.runs, run.routine < after.routines.heap.length

theorem Further.of_same {before after : Routines.State} (runs : after.runs = before.runs)
    (heap : before.routines.heap.length ≤ after.routines.heap.length) : Further before after where
  heap := heap
  runs j run there := ⟨run, by rw [runs]; exact there, rfl, rfl⟩
  live live run member := Nat.lt_of_lt_of_le (live run (runs ▸ member)) heap

theorem Further.of_suspend {house : Routines.State} {k : Nat} {run : Routines.Run}
    (there : house.runs[k]? = some run) {suspended : Server.State × Routines.Run}
    (id : suspended.2.routineId = run.routineId) (onward : Routines.Onward run suspended.2) :
    Further house (Routines.suspend house k suspended) where
  heap := Nat.le_refl _
  runs j other here := by
    by_cases same : k = j
    · subst same
      obtain rfl := Option.some.inj (there.symm.trans here)
      exact ⟨suspended.2, List.getElem?_set_self (List.getElem?_eq_some_iff.mp there).1, id,
        onward.routine⟩
    · exact ⟨other, (List.getElem?_set_ne same).trans here, rfl, rfl⟩
  live live other member := by
    rcases List.mem_or_eq_of_mem_set member with old | rfl
    · exact live other old
    · rw [onward.routine]
      exact live run (List.mem_of_getElem? there)

theorem Further.trans {a b c : Routines.State} (first : Further a b) (second : Further b c) :
    Further a c where
  heap := Nat.le_trans first.heap second.heap
  runs j run there := by
    obtain ⟨later, here, id, routine⟩ := first.runs j run there
    obtain ⟨last, there', id', routine'⟩ := second.runs j later here
    exact ⟨last, there', id'.trans id, routine'.trans routine⟩
  live live := second.live (first.live live)

theorem length_put (routines : Objects Routine) (routine : Routine) :
    routines.heap.length ≤ (Routines.put routines routine).heap.length := by
  unfold Routines.put
  cases routines.lookup Routine.id routine.id with
  | none =>
      show _ ≤ (routines.heap ++ [routine]).length
      rw [List.length_append]
      exact Nat.le_add_right ..
  | some r => exact Nat.le_of_eq (Objects.length_assign ..).symm

theorem further_next {before after : Routines.State} {e : Routines.Event}
    (step : Routines.next before e = some after) : Further before after := by
  cases e with
  | server e =>
      obtain ⟨server, -, rfl⟩ := Option.map_eq_some_iff.mp step
      exact .of_same rfl (Nat.le_refl _)
  | postRoutines req uuid =>
      simp only [Routines.next] at step
      cases accepted : routineOf req uuid with
      | error e =>
          rw [accepted] at step
          cases step
          exact .of_same rfl (Nat.le_refl _)
      | ok routine =>
          rw [accepted] at step
          cases step
          exact .of_same rfl (length_put before.routines routine)
  | deleteRoutine id =>
      cases step
      exact .of_same rfl (Nat.le_refl _)
  | runRoutine id =>
      rcases runRoutine_cases step with ⟨-, rfl⟩ | ⟨r, routine, -, held, rfl⟩
      · exact .of_same rfl (Nat.le_refl _)
      · refine ⟨Nat.le_refl _, fun j run there => ⟨run, ?_, rfl, rfl⟩, fun live run member => ?_⟩
        · exact (List.getElem?_append_left (List.getElem?_eq_some_iff.mp there).1).trans there
        · rcases List.mem_append.mp member with old | new
          · exact live run old
          · rw [List.mem_singleton.mp new, begun, (Routines.onward_loop _ _).routine]
            exact (List.getElem?_eq_some_iff.mp held).1
  | slept k =>
      obtain ⟨run, step, live, there, -, -, moved⟩ := Routines.slept_cases step
      obtain ⟨onward, onward'⟩ := @Routines.onward_fire before.server run step
      rcases moved with ⟨suspended, sent, rfl⟩ | ⟨later, refused, rfl⟩
      · refine .of_suspend there ?_ (onward suspended sent)
        unfold Routines.fire at sent
        dsimp only at sent
        split at sent
        · cases sent
        · cases sent
          rfl
      · refine .of_suspend there ?_ ((onward' later refused).trans (Routines.onward_loop _ _))
        rw [loop_routineId]
        unfold Routines.fire at refused
        dsimp only at refused
        split at refused
        · cases refused
          rfl
        · cases refused
  | published k error =>
      obtain ⟨run, live, there, -, -, rfl⟩ := Routines.published_cases step
      refine .of_suspend there ?_ ((Routines.onward_report run error).trans
        (Routines.onward_loop _ _))
      rw [loop_routineId]
      rfl

theorem further_run {before after : Routines.State} {es : List Routines.Event}
    (run : Routines.machine.Run before es after) : Further before after := by
  induction run with
  | nil => exact .of_same rfl (Nat.le_refl _)
  | cons step _ ih => exact (further_next step).trans ih

/-! ## What a pass awaits -/

/-- A pass that goes on awaits its last action, and a run only if that run is of it. -/
def Waits (s : State) (p : Pass) : Prop :=
  (p.status = .finished ∧ p.action = none) ∨
    ∃ priceCents r action, p.status = .awaiting priceCents r ∧ r < s.rules.heap.length ∧
      p.action = some action ∧ ∀ j, action = .running j → ∃ run : Routines.Run,
        s.house.runs[j]? = some run ∧ p.fired.getLast? = some (.routine run.routineId)

theorem Waits.mono {s t : State} {p q : Pass} (waits : Waits s p)
    (further : Further s.house t.house)
    (heap : s.rules.heap.length ≤ t.rules.heap.length) (status : q.status = p.status)
    (fired : q.fired = p.fired) (action : q.action = p.action) : Waits t q := by
  rcases waits with ⟨ended, none⟩ | ⟨priceCents, r, started, awaiting, held, promise, runs⟩
  · exact .inl ⟨status.trans ended, action.trans none⟩
  · refine .inr ⟨priceCents, r, started, status.trans awaiting, Nat.lt_of_lt_of_le held heap,
      action.trans promise, fun j running => ?_⟩
    obtain ⟨run, there, last⟩ := runs j running
    obtain ⟨later, there', id, -⟩ := further.runs j run there
    exact ⟨later, there', by rw [fired, last, id]⟩

/-- A pass that starts a run starts a new one, of the routine that its rule names. -/
theorem launch_running {house : Routines.State} {action : RuleAction} {j : Nat}
    (running : (launch house action).2 = .running j) :
    j = house.runs.length ∧ ∃ run : Routines.Run, (launch house action).1.runs[j]? = some run ∧
      action = .routine run.routineId := by
  rcases launch_cases house action with ⟨e, refused⟩ | ⟨_, _, server, -, -, sent⟩ |
    ⟨routineId, after, rfl, step, known, started⟩
  · rw [refused] at running
    cases running
  · rw [sent] at running
    cases running
  · rw [started] at running ⊢
    cases running
    refine ⟨rfl, ?_⟩
    rcases runRoutine_cases step with ⟨missing, -⟩ | ⟨r, routine, -, -, rfl⟩
    · rw [missing] at known
      cases known
    · exact ⟨_, List.getElem?_concat_length, by rw [begun, loop_routineId]⟩

structure Sound (s : State) : Prop where
  live : ∀ run ∈ s.house.runs, run.routine < s.house.routines.heap.length
  views : ∀ p ∈ s.passes, Viewed s.rules p
  waits : ∀ p ∈ s.passes, Waits s p
  /-- No run is awaited by two passes. -/
  apart : ∀ (k k' : Nat) (p p' : Pass) (j : Nat), s.passes[k]? = some p → s.passes[k']? = some p' →
    p.action = some (.running j) → p'.action = some (.running j) → k = k'

/-- A step of the runs alone. -/
theorem Sound.house {s : State} (sound : Sound s) {house : Routines.State}
    (further : Further s.house house) : Sound { s with house } where
  live := further.live sound.live
  views := sound.views
  waits p member := (sound.waits p member).mono further (Nat.le_refl _) rfl rfl rfl
  apart := sound.apart

/-- The rules are edited, and the passes know. -/
theorem Sound.edit {s : State} (sound : Sound s) {rules : Objects PriceRule}
    {f : RulePass.State → RulePass.State}
    (views : ∀ p, Viewed s.rules p → Viewed rules (p.edit s.rules f))
    (heap : s.rules.heap.length ≤ rules.heap.length)
    (keeps : ∀ t, (f t).status = t.status ∧ (f t).fired = t.fired) :
    Sound { s with rules, passes := s.passes.map (.edit s.rules f) } := by
  have same : ∀ p : Pass, (p.edit s.rules f).status = p.status ∧
      (p.edit s.rules f).fired = p.fired ∧ (p.edit s.rules f).action = p.action := by
    intro p
    unfold Pass.edit
    split
    · exact ⟨rfl, rfl, rfl⟩
    · exact ⟨(keeps _).1, (keeps _).2, rfl⟩
  refine ⟨sound.live, ?_, ?_, ?_⟩
  · intro q member
    obtain ⟨p, there, rfl⟩ := List.mem_map.mp member
    exact views p (sound.views p there)
  · intro q member
    obtain ⟨p, there, rfl⟩ := List.mem_map.mp member
    obtain ⟨status, fired, action⟩ := same p
    exact (sound.waits p there).mono (.of_same rfl (Nat.le_refl _)) heap status fired action
  · intro k k' q q' j there there' running running'
    rw [List.getElem?_map] at there there'
    obtain ⟨p, before, rfl⟩ := Option.map_eq_some_iff.mp there
    obtain ⟨p', before', rfl⟩ := Option.map_eq_some_iff.mp there'
    rw [(same p).2.2] at running
    rw [(same p').2.2] at running'
    exact sound.apart k k' p p' j before before' running running'

/-- A pass gets to its next await, and its place is `n`. -/
theorem Sound.suspend {s : State} (sound : Sound s) {t : RulePass.State} (halted : Halted t)
    (reached : RulePass.machine.Reachable t) {writes : List (String × Bool)}
    (rules : t.rules = written s.rules writes) {n : Nat} {passes : List Pass}
    (placed : ∀ k p, passes[k]? = some p →
      (k = n ∧ p = (suspend s t).2) ∨ s.passes[k]? = some p) :
    Sound { (suspend s t).1 with passes } := by
  have about := suspended s halted
  obtain ⟨es, ran⟩ := about.house
  have further := further_run ran
  have heap : s.rules.heap.length ≤ (Automation.suspend s t).1.rules.heap.length := by
    rw [about.rules, rules, length_written]
  have member : ∀ p ∈ passes, p = (Automation.suspend s t).2 ∨ p ∈ s.passes := by
    intro p inside
    obtain ⟨k, there⟩ := List.mem_iff_getElem?.mp inside
    exact (placed k p there).imp And.right List.mem_of_getElem?
  have fresh : ∀ j, (Automation.suspend s t).2.action = some (.running j) →
      j = s.house.runs.length := by
    intro j running
    rcases suspend_cases s halted with ⟨-, same⟩ | ⟨priceCents, r, rule, -, -, -, same⟩
    · rw [same] at running
      cases running
    · rw [same] at running
      exact (launch_running (Option.some.inj running)).1
  have old : ∀ p ∈ s.passes, ∀ j, p.action = some (.running j) → j < s.house.runs.length := by
    intro p inside j running
    rcases sound.waits p inside with ⟨-, none⟩ | ⟨_, _, action, -, -, promise, runs⟩
    · rw [none] at running
      cases running
    · obtain ⟨run, there, -⟩ := runs j (Option.some.inj (promise.symm.trans running))
      exact (List.getElem?_eq_some_iff.mp there).1
  refine ⟨further.live sound.live, ?_, ?_, ?_⟩
  · intro p inside
    rcases member p inside with rfl | before
    · exact ⟨t.rules, by rw [about.same]; exact reached, fun _ => about.rules.symm⟩
    · show Viewed (Automation.suspend s t).1.rules p
      rw [about.rules, rules]
      exact (sound.views p before).written writes
  · intro p inside
    rcases member p inside with rfl | before
    · rcases suspend_cases s halted with ⟨ended, same⟩ |
        ⟨priceCents, r, rule, status, held, fired, same⟩
      · rw [same]
        exact .inl ⟨ended, rfl⟩
      · rw [same]
        refine .inr ⟨priceCents, r, _, status, (List.getElem?_eq_some_iff.mp held).1, rfl, ?_⟩
        intro j running
        obtain ⟨-, run, there, names⟩ := launch_running running
        exact ⟨run, there, by rw [← names]; exact fired⟩
    · exact (sound.waits p before).mono further heap rfl rfl rfl
  · intro k k' p p' j there there' running running'
    rcases placed k p there with ⟨here, rfl⟩ | before
    · rcases placed k' p' there' with ⟨here', -⟩ | before'
      · rw [here, here']
      · have less := old p' (List.mem_of_getElem? before') j running'
        exact absurd (fresh j running) (Nat.ne_of_lt less)
    · rcases placed k' p' there' with ⟨-, rfl⟩ | before'
      · have less := old p (List.mem_of_getElem? before) j running
        exact absurd (fresh j running') (Nat.ne_of_lt less)
      · exact sound.apart k k' p p' j before before' running running'

theorem sound_next {s u : State} {e : Event} (sound : Sound s) (step : next s e = some u) :
    Sound u := by
  cases e with
  | house e =>
      simp only [next] at step
      split at step
      · obtain ⟨house, moved, rfl⟩ := Option.map_eq_some_iff.mp step
        exact sound.house (further_next moved)
      · cases step
  | postRules req uuid =>
      simp only [next] at step
      cases accepted : ruleOf req uuid with
      | error e =>
          rw [accepted] at step
          cases step
          exact sound
      | ok rule =>
          rw [accepted] at step
          cases step
          refine sound.edit (fun p viewed => viewed.post accepted) ?_ fun t =>
            ⟨RulePass.post_status t rule, ?_⟩
          · unfold put
            cases s.rules.lookup PriceRule.id rule.id with
            | none =>
                show _ ≤ (s.rules.heap ++ [rule]).length
                rw [List.length_append]
                exact Nat.le_add_right ..
            | some r => exact Nat.le_of_eq (Objects.length_assign ..).symm
          · unfold RulePass.State.post
            cases t.rules.lookup PriceRule.id rule.id <;> rfl
  | deleteRule id =>
      cases step
      exact sound.edit (fun p viewed => viewed.delete id) (Nat.le_refl _) fun t => ⟨rfl, rfl⟩
  | refreshed prices =>
      cases step
      exact ⟨sound.live, sound.views, sound.waits, sound.apart⟩
  | time now =>
      simp only [next] at step
      split at step
      · cases step
        exact ⟨sound.live, sound.views, sound.waits, sound.apart⟩
      · cases step
  | tick =>
      rcases tick_cases step with ⟨-, rfl⟩ | ⟨priceCents, t, begun, ran, rfl⟩
      · exact sound
      · obtain ⟨writes, rules⟩ := ran.rules
        have passes := (suspended s ran.halted).passes
        refine sound.suspend ran.halted (.init ⟨s.rules, s.prices, s.now, begun⟩) rules
          (n := s.passes.length) fun k p there => ?_
        rw [passes, List.getElem?_append] at there
        split at there
        · exact .inr there
        · rename_i behind
          have inside := (List.getElem?_eq_some_iff.mp there).1
          rw [List.length_singleton] at inside
          obtain rfl : k = s.passes.length := by omega
          rw [Nat.sub_self] at there
          exact .inl ⟨rfl, (Option.some.inj there).symm⟩
  | actionOver k error =>
      obtain ⟨p, priceCents, r, rule, t, there, status, -, -, moved, ran, rfl⟩ :=
        actionOver_cases step
      obtain ⟨writes, rules⟩ := ran.rules
      have passes := (suspended s ran.halted).passes
      obtain ⟨own, reached, same⟩ := sound.views p (List.mem_of_getElem? there)
      obtain rfl := same (by rw [status]; rintro ⟨⟩)
      have rules : t.rules = written s.rules ((rule.id, true) :: writes) := rules
      refine sound.suspend ran.halted (reached.step moved) rules (n := k) fun k' p' there' => ?_
      rw [passes, List.getElem?_set] at there'
      split at there'
      · rename_i same
        split at there'
        · exact .inl ⟨same.symm, (Option.some.inj there').symm⟩
        · cases there'
      · exact .inr there'

theorem sound_invariant : machine.Invariant Sound where
  base s start := by
    obtain ⟨noRuns, noPasses⟩ := start
    refine ⟨?_, ?_, ?_, ?_⟩
    · rw [noRuns]
      exact fun run member => absurd member List.not_mem_nil
    · rw [noPasses]
      exact fun p member => absurd member List.not_mem_nil
    · rw [noPasses]
      exact fun p member => absurd member List.not_mem_nil
    · rw [noPasses]
      intro k k' p p' j there
      rw [List.getElem?_nil] at there
      cases there
  step _ _ _ sound step := sound_next sound step

/-- The runs make a step of their own, or a part of what a pass does. -/
theorem house_next {s u : State} {e : Event} (step : next s e = some u) :
    ∃ fs, Routines.machine.Run s.house fs u.house := by
  cases e with
  | house e =>
      simp only [next] at step
      split at step
      · obtain ⟨house, moved, rfl⟩ := Option.map_eq_some_iff.mp step
        exact ⟨[e], .single moved⟩
      · cases step
  | postRules req uuid =>
      simp only [next] at step
      cases accepted : ruleOf req uuid <;> rw [accepted] at step <;> cases step <;>
        exact ⟨[], .nil _⟩
  | deleteRule id =>
      cases step
      exact ⟨[], .nil _⟩
  | refreshed prices =>
      cases step
      exact ⟨[], .nil _⟩
  | time now =>
      simp only [next] at step
      split at step
      · cases step
        exact ⟨[], .nil _⟩
      · cases step
  | tick =>
      rcases tick_cases step with ⟨-, rfl⟩ | ⟨priceCents, t, -, ran, rfl⟩
      · exact ⟨[], .nil _⟩
      · exact (suspended s ran.halted).house
  | actionOver k error =>
      obtain ⟨p, priceCents, r, rule, t, -, -, -, -, -, ran, rfl⟩ := actionOver_cases step
      exact (suspended s ran.halted).house

/-- **All of it at once is each part alone.**  However many passes and runs there are and
whatever is edited meanwhile, the runs of routines make a run of `Routines.machine`, and every
pass is one of `RulePass.machine`, which sees what the others do as requests and as writes.  A
pass that awaits a run awaits one of the routine that its last rule names, and no other pass
awaits that run. -/
theorem parts_alone {s t : State} {es : List Event} (start : machine.init s)
    (run : machine.Run s es t) :
    (∃ fs, Routines.machine.Run s.house fs t.house) ∧
    (∀ p ∈ t.passes, ∃ rules, RulePass.machine.Reachable (p.over rules) ∧
      (p.status ≠ .finished → rules = t.rules)) ∧
    ∀ (k : Nat) (p : Pass) (j : Nat), t.passes[k]? = some p → p.action = some (.running j) →
      (∃ run : Routines.Run, t.house.runs[j]? = some run ∧
        p.fired.getLast? = some (.routine run.routineId)) ∧
      ∀ (k' : Nat) (p' : Pass), t.passes[k']? = some p' → p'.action = some (.running j) →
        k' = k := by
  have sound := sound_invariant.reachable ⟨s, es, start, run⟩
  refine ⟨?_, sound.views, ?_⟩
  · clear start sound
    induction run with
    | nil => exact ⟨[], .nil _⟩
    | cons step _ ih =>
        obtain ⟨fs, first⟩ := house_next step
        obtain ⟨gs, rest⟩ := ih
        exact ⟨fs ++ gs, first.append rest⟩
  · intro k p j there running
    refine ⟨?_, fun k' p' there' running' => sound.apart k' k p' p j there' there running' running⟩
    rcases sound.waits p (List.mem_of_getElem? there) with
      ⟨-, none⟩ | ⟨_, _, _, -, -, promise, runs⟩
    · rw [none] at running
      cases running
    · exact runs j (Option.some.inj (promise.symm.trans running))

/-- A rule with a routine of one step, and a price below its threshold. -/
def cheapHour : State where
  house :=
    { server := Server.initial
        { Db.defaults with remotes := [⟨"heat", "Heating", "remote",
          [⟨"on", "On", 0, 0, none, .obj [(bytes "pulses", .arr [.num 600])]⟩]⟩] }
      routines := Objects.empty.push ⟨"routine-1", "Warm up", [⟨"heat", "on", 500⟩]⟩
      runs := [] }
  rules := Objects.empty.push ⟨"rule-1", "Cheap", true, .below, 15 / 2, .routine "routine-1", false⟩
  prices := [⟨0, 900000, 5⟩]
  now := 0
  passes := []

/-- The routine is still under way at the next tick, and is started once more. -/
theorem parts_alone_cheapHour : ∃ t, machine.Run cheapHour [.tick, .tick] t ∧
    t.passes.map Pass.action = [some (.running 0), some (.running 1)] ∧
    ∃ fs, Routines.machine.Run cheapHour.house fs t.house := by
  obtain ⟨t, run, actions⟩ : ∃ t, machine.Run cheapHour [.tick, .tick] t ∧
      t.passes.map Pass.action = [some (.running 0), some (.running 1)] :=
    Machine.exists_run_of_exec (by decide +kernel)
  exact ⟨t, run, actions, (parts_alone ⟨rfl, rfl⟩ run).1⟩

/-! ## How many callbacks are left -/

/-- Each step of a routine takes a delay and a publish at most. -/
def runLeft (length : Nat) (run : Routines.Run) : Nat :=
  match run.status with
  | .finished => 0
  | .sleeping _ => 2 * (length - (run.index + 1)) + 2
  | .firing => 2 * (length - (run.index + 1)) + 1

def stepsOf (routines : Objects Routine) (run : Routines.Run) : Nat :=
  ((routines.get? run.routine).map fun routine => routine.steps.length).getD 0

def runsLeft (house : Routines.State) : Nat :=
  (house.runs.map fun run => runLeft (stepsOf house.routines run) run).sum

/-- No run takes more callbacks. -/
def longest (routines : Objects Routine) : Nat :=
  (routines.heap.map fun routine => 2 * routine.steps.length).sum

/-- Each rule ahead takes the end of its action, and a run at most. -/
def passLeft (rules most : Nat) (p : Pass) : Nat :=
  match p.status with
  | .finished => 0
  | .awaiting _ _ => 1 + (rules - p.index) * (1 + most)

def work (s : State) : Nat :=
  runsLeft s.house +
    (s.passes.map (passLeft s.rules.refs.length (longest s.house.routines))).sum

theorem sum_map_set {α : Type} (f : α → Nat) {xs : List α} {k : Nat} {x : α}
    (there : xs[k]? = some x) (y : α) :
    ((xs.set k y).map f).sum + f x = (xs.map f).sum + f y := by
  induction xs generalizing k with
  | nil => cases there
  | cons z xs ih =>
      cases k with
      | zero =>
          cases there
          simp only [List.set_cons_zero, List.map_cons, List.sum_cons]
          omega
      | succ k =>
          have rest := ih there
          simp only [List.set_cons_succ, List.map_cons, List.sum_cons]
          omega

theorem loop_left {length : Nat} {ahead : List RoutineStep} :
    ∀ {server : Server.State} {run : Routines.Run}, ahead.length = length - run.index →
      runLeft length (Routines.loop server run ahead).2 ≤ 2 * ahead.length := by
  induction ahead with
  | nil => exact fun _ => Nat.le_refl _
  | cons step rest ih =>
      intro server run whole
      rw [List.length_cons] at whole
      rw [Routines.loop, List.length_cons]
      split
      · show 2 * (length - (run.index + 1)) + 2 ≤ _
        omega
      · unfold Routines.fire
        dsimp only
        cases Server.fireButton server step.remoteId step.buttonId with
        | ok server' =>
            show 2 * (length - (run.index + 1)) + 1 ≤ _
            omega
        | error e =>
            have further : rest.length = length - (run.index + 1) := by omega
            exact (@ih server _ further).trans (by omega)

/-- A run has gone on. -/
theorem runsLeft_suspend {house : Routines.State} {k : Nat} {run : Routines.Run}
    (there : house.runs[k]? = some run) {routine : Routine}
    (held : house.routines.get? run.routine = some routine)
    {suspended : Server.State × Routines.Run} (same : suspended.2.routine = run.routine)
    (less : runLeft routine.steps.length suspended.2 < runLeft routine.steps.length run) :
    runsLeft (Routines.suspend house k suspended) < runsLeft house := by
  have sum := sum_map_set (fun run => runLeft (stepsOf house.routines run) run) there suspended.2
  have before : stepsOf house.routines run = routine.steps.length := by
    rw [stepsOf, held]
    rfl
  have after : stepsOf house.routines suspended.2 = routine.steps.length := by
    rw [stepsOf, same, held]
    rfl
  rw [before, after] at sum
  show ((house.runs.set k suspended.2).map fun run =>
    runLeft (stepsOf house.routines run) run).sum < _
  rw [runsLeft]
  omega

theorem slept_left {house after : Routines.State} {k : Nat}
    (step : Routines.next house (.slept k) = some after) :
    runsLeft after < runsLeft house ∧ after.routines = house.routines := by
  obtain ⟨run, step, routine, there, status, held, moved⟩ := Routines.slept_cases step
  have before : runLeft routine.steps.length run =
      2 * (routine.steps.length - (run.index + 1)) + 2 := by
    rw [runLeft, status]
  obtain ⟨onward, onward'⟩ := @Routines.onward_fire house.server run step
  rcases moved with ⟨suspended, sent, rfl⟩ | ⟨later, refused, rfl⟩
  · refine ⟨runsLeft_suspend there held (onward suspended sent).routine ?_, rfl⟩
    unfold Routines.fire at sent
    dsimp only at sent
    split at sent
    · cases sent
    · cases sent
      rw [before]
      exact Nat.lt_succ_self _
  · have further := (onward' later refused).trans (@Routines.onward_loop
      (routine.steps.drop later.index) house.server later)
    refine ⟨runsLeft_suspend there held further.routine ?_, rfl⟩
    have next : later.index = run.index + 1 := by
      unfold Routines.fire at refused
      dsimp only at refused
      split at refused
      · cases refused
        rfl
      · cases refused
    have most := @loop_left routine.steps.length (routine.steps.drop later.index) house.server later
      List.length_drop
    rw [List.length_drop, next] at most
    rw [next, before]
    omega

theorem published_left {house after : Routines.State} {k : Nat} {error : Option String}
    (step : Routines.next house (.published k error) = some after) :
    runsLeft after < runsLeft house ∧ after.routines = house.routines := by
  obtain ⟨run, routine, there, status, held, rfl⟩ := Routines.published_cases step
  have before : runLeft routine.steps.length run =
      2 * (routine.steps.length - (run.index + 1)) + 1 := by
    rw [runLeft, status]
  have further := (Routines.onward_report run error).trans (@Routines.onward_loop
    (routine.steps.drop (run.report error).index) house.server (run.report error))
  refine ⟨runsLeft_suspend there held further.routine ?_, rfl⟩
  have most := @loop_left routine.steps.length (routine.steps.drop (run.report error).index)
    house.server (run.report error) List.length_drop
  have next : (run.report error).index = run.index + 1 := rfl
  rw [List.length_drop, next] at most
  rw [next, before]
  omega

/-- An action starts one run at most. -/
theorem launch_left (house : Routines.State) (action : RuleAction) :
    runsLeft (launch house action).1 ≤ runsLeft house + longest house.routines ∧
      (launch house action).1.routines = house.routines := by
  rcases launch_cases house action with ⟨e, refused⟩ | ⟨_, _, server, -, -, sent⟩ |
    ⟨routineId, after, -, step, -, started⟩
  · rw [refused]
    exact ⟨Nat.le_add_right .., rfl⟩
  · rw [sent]
    exact ⟨Nat.le_add_right .., rfl⟩
  · rw [started]
    rcases runRoutine_cases step with ⟨-, rfl⟩ | ⟨r, routine, -, held, rfl⟩
    · exact ⟨Nat.le_add_right .., rfl⟩
    · refine ⟨?_, rfl⟩
      have same : (begun house routineId r routine).2.routine = r :=
        (Routines.onward_loop _ _).routine
      have steps : stepsOf house.routines (begun house routineId r routine).2 =
          routine.steps.length := by
        rw [stepsOf, same, held]
        rfl
      have most : runLeft routine.steps.length (begun house routineId r routine).2 ≤
          2 * routine.steps.length := loop_left rfl
      have known : 2 * routine.steps.length ≤ longest house.routines :=
        List.le_sum_of_mem (List.mem_map_of_mem (List.mem_of_getElem? held))
      simp only [runsLeft, List.map_append, List.map_cons, List.map_nil, List.sum_append,
        List.sum_cons, List.sum_nil, steps]
      omega

/-! ## Left alone, all of it comes to an end -/

/-- The end of a delay, of a publish or of an action. -/
def Callback : Event → Prop
  | .house (.slept _) => True
  | .house (.published _ _) => True
  | .actionOver _ _ => True
  | _ => False

theorem passLeft_awaiting {rules most : Nat} {p : Pass} {priceCents : Rat} {r : Nat}
    (status : p.status = .awaiting priceCents r) :
    passLeft rules most p = 1 + (rules - p.index) * (1 + most) := by
  rw [passLeft, status]

/-- An action is over: the pass is a rule further, and may have started a run. -/
theorem work_actionOver {s u : State} {k : Nat} {error : Option String}
    (step : next s (.actionOver k error) = some u) : work u < work s := by
  obtain ⟨p, priceCents, r, rule, t, there, status, -, -, -, ran, rfl⟩ := actionOver_cases step
  have about := suspended s ran.halted
  have refs : t.rules.refs = s.rules.refs := by
    obtain ⟨writes, rules⟩ := ran.rules
    rw [rules, refs_written]
    exact Objects.refs_assign ..
  have before := @passLeft_awaiting s.rules.refs.length (longest s.house.routines) _ _ _ status
  have sum := sum_map_set (passLeft s.rules.refs.length (longest s.house.routines)) there
    (suspend s t).2
  rw [about.passes]
  show runsLeft (suspend s t).1.house + ((s.passes.set k (suspend s t).2).map
    (passLeft (suspend s t).1.rules.refs.length
      (longest (suspend s t).1.house.routines))).sum < work s
  rw [work, about.rules, refs]
  rcases ran.stops with ended | ⟨r', rule', awaits, held, fired, later, most⟩
  · have after : passLeft s.rules.refs.length (longest s.house.routines) (suspend s t).2 = 0 := by
      rw [suspend, ended, passLeft]
      dsimp only [Pass.of]
      rw [ended]
    have same : (suspend s t).1.house = s.house := by rw [suspend, ended]
    rw [same]
    omega
  · obtain ⟨few, routines⟩ := launch_left s.house rule'.action
    have put : suspend s t = ({ s with house := (launch s.house rule'.action).1, rules := t.rules },
        .of t (some (launch s.house rule'.action).2)) := by
      rw [suspend, awaits]
      simp only [held]
    have after : passLeft s.rules.refs.length (longest s.house.routines) (suspend s t).2 =
        1 + (s.rules.refs.length - t.index) * (1 + longest s.house.routines) := by
      rw [put]
      exact passLeft_awaiting awaits
    have further : p.index < t.index := later
    have inside : t.index ≤ s.rules.refs.length := by
      refine most.trans (Nat.le_of_eq (congrArg _ ?_))
      exact Objects.refs_assign ..
    have room : (s.rules.refs.length - t.index) * (1 + longest s.house.routines) +
        (1 + longest s.house.routines) ≤
          (s.rules.refs.length - p.index) * (1 + longest s.house.routines) := by
      rw [← Nat.succ_mul]
      exact Nat.mul_le_mul_right _ (by omega)
    have house : (suspend s t).1.house = (launch s.house rule'.action).1 := by rw [put]
    rw [house, routines]
    omega

theorem work_callback {s u : State} {e : Event} (callback : Callback e) (step : next s e = some u) :
    work u < work s := by
  cases e with
  | house e =>
      simp only [next] at step
      split at step
      · obtain ⟨house, moved, rfl⟩ := Option.map_eq_some_iff.mp step
        have fewer : runsLeft house < runsLeft s.house ∧ house.routines = s.house.routines := by
          cases e with
          | slept k => exact slept_left moved
          | published k error => exact published_left moved
          | _ => cases callback
        obtain ⟨fewer, same⟩ := fewer
        rw [work, work, same]
        exact Nat.add_lt_add_right fewer _
      · cases step
  | actionOver k error => exact work_actionOver step
  | _ => cases callback

/-- What a run awaits can come. -/
theorem run_enabled {s : State} (sound : Sound s) {run : Routines.Run} (member : run ∈ s.house.runs)
    (going : run.status ≠ .finished) : ∃ e u, Callback e ∧ next s e = some u := by
  obtain ⟨k, there⟩ := List.mem_iff_getElem?.mp member
  have held : s.house.routines.get? run.routine = some _ :=
    List.getElem?_eq_getElem (sound.live run member)
  have steps : ∀ e, outside e = true → (Routines.next s.house e).isSome = true →
      ∃ u, next s (.house e) = some u := by
    intro e allowed happens
    obtain ⟨house, moved⟩ := Option.isSome_iff_exists.mp happens
    exact ⟨{ s with house }, by rw [next, if_pos allowed, moved]; rfl⟩
  cases status : run.status with
  | finished => exact absurd status going
  | sleeping step =>
      obtain ⟨u, moved⟩ := steps (.slept k) rfl (by
        simp only [Routines.next, there, status, held]
        split <;> rfl)
      exact ⟨.house (.slept k), u, trivial, moved⟩
  | firing =>
      obtain ⟨u, moved⟩ := steps (.published k none) rfl (by
        simp only [Routines.next, there, status, held]
        rfl)
      exact ⟨.house (.published k none), u, trivial, moved⟩

/-- What a pass awaits can come, or what its run awaits. -/
theorem pass_enabled {s : State} (sound : Sound s) {p : Pass} (member : p ∈ s.passes)
    (going : p.status ≠ .finished) : ∃ e u, Callback e ∧ next s e = some u := by
  obtain ⟨k, there⟩ := List.mem_iff_getElem?.mp member
  rcases sound.waits p member with ⟨ended, -⟩ |
    ⟨priceCents, r, action, status, held, promise, runs⟩
  · exact absurd ended going
  have ends : ∀ error, settled s.house.runs error action = true →
      ∃ e u, Callback e ∧ next s e = some u := by
    intro error ended
    have held : s.rules.get? r = some _ := List.getElem?_eq_getElem held
    have moved : (RulePass.next (p.over s.rules) (.actionOver error)).isSome = true := by
      simp only [RulePass.next, Pass.over, status, held]
      rfl
    obtain ⟨t, moved⟩ := Option.isSome_iff_exists.mp moved
    have step : ∃ u, next s (.actionOver k error) = some u := by
      have ended : p.action.any (settled s.house.runs error) = true := by
        rw [promise]
        exact ended
      simp only [next, there, ended, if_true, moved]
      exact ⟨_, rfl⟩
    obtain ⟨u, step⟩ := step
    exact ⟨.actionOver k error, u, trivial, step⟩
  cases action with
  | rejected e => exact ends (some e) (by simp [settled])
  | publishing => exact ends none rfl
  | running j =>
      obtain ⟨run, started, -⟩ := runs j rfl
      by_cases ended : run.status = .finished
      · exact ends none (by simp [settled, started, ended])
      · exact run_enabled sound (List.mem_of_getElem? started) ended

/-- **Left alone, the automation comes to rest.**  Wherever it is, only so many callbacks can
follow each other without a request, a message or a tick between them; and as long as one run or
pass is not over, one of them can come.  No pass waits for what never happens. -/
theorem comes_to_rest {s t : State} {es : List Event} (reached : machine.Reachable s)
    (run : (machine.restrict fun _ => Callback).Run s es t) :
    es.length ≤ work s ∧
    ((∀ e u, Callback e → ¬machine.step t e u) →
      (∀ run ∈ t.house.runs, run.status = .finished) ∧ ∀ p ∈ t.passes, p.status = .finished) := by
  have falls : ∀ s e t, True → True → (machine.restrict fun _ => Callback).step s e t →
      work t + 1 ≤ work s + 0 := fun _ _ _ _ _ step => work_callback step.1 step.2
  have bound := (Machine.run_rank (fun _ => True) (fun _ => True) work (fun _ => 1) (fun _ => 0)
    (fun _ _ _ _ _ => trivial) (fun _ _ _ _ _ _ => trivial) falls run trivial trivial).2
  have sound := sound_invariant.reachable (reached.run run.unrestrict)
  constructor
  · simp only [List.map_const', List.sum_replicate_nat] at bound
    omega
  · intro still
    constructor
    · intro last member
      by_contra going
      obtain ⟨e, u, callback, step⟩ := run_enabled sound member going
      exact still e u callback step
    · intro p member
      by_contra going
      obtain ⟨e, u, callback, step⟩ := pass_enabled sound member going
      exact still e u callback step

/-- Three callbacks after the tick, no more can come. -/
theorem comes_to_rest_cheapHour : ∃ s t, machine.Reachable s ∧
    (machine.restrict fun _ => Callback).Run s
      [.house (.slept 0), .house (.published 0 none), .actionOver 0 none] t ∧
    3 ≤ work s ∧ work s = 3 := by
  obtain ⟨s, begun, left, t, run⟩ : ∃ s, machine.Run cheapHour [.tick] s ∧ work s = 3 ∧
      ∃ t, machine.Run s
        [.house (.slept 0), .house (.published 0 none), .actionOver 0 none] t := by
    obtain ⟨s, begun, left, ends⟩ : ∃ s, machine.Run cheapHour [.tick] s ∧ work s = 3 ∧
        (Machine.exec next s [.house (.slept 0), .house (.published 0 none),
          .actionOver 0 none]).isSome = true :=
      Machine.exists_run_of_exec (by decide +kernel)
    obtain ⟨t, ends⟩ := Option.isSome_iff_exists.mp ends
    exact ⟨s, begun, left, t, Machine.run_of_exec ends⟩
  have reached : machine.Reachable s := ⟨_, _, ⟨rfl, rfl⟩, begun⟩
  have callbacks : (machine.restrict fun _ => Callback).Run s
      [.house (.slept 0), .house (.published 0 none), .actionOver 0 none] t :=
    run.restrict (by simp [Callback])
  exact ⟨s, t, reached, callbacks, (comes_to_rest reached callbacks).1, left⟩

end IrHub.Backend.Automation
