/-
# Backend.Rules -- `evaluateRules`: price rules, edge-triggered

A pass goes through the rules with the price it found when it started.  It runs
until it starts a rule's action, which it awaits, and goes on from there when the
action is over, with the price it still holds; other passes may start meanwhile.
`Pass` is one that is suspended.

The action of a button or a routine is awaited in either case and takes as long as
it takes: its end is an event of its own.

Two things keep rules edge-triggered: that no pass meets a rule whose action
another pass awaits, and that the price of a resumed pass still says what the
current one does.  `Undisturbed` states both of the rules a step gets to, and
`edge_triggered` is what follows for every run.
-/
import IrHub.Theory.Machine
import IrHub.Backend.Store
import Mathlib.Logic.Function.Basic

namespace IrHub.Backend.Rules

set_option autoImplicit false

open IrHub.Theory IrHub.Backend.Store

/-- An element of `priceCache.prices`, its dates as times. -/
structure PriceBlock where
  start : Nat
  stop : Nat
  price : Rat
  deriving DecidableEq

/-- `getCurrentPriceCents` -/
def getCurrentPriceCents (prices : List PriceBlock) (now : Nat) : Option Rat :=
  (prices.find? fun p => p.start ≤ now && now < p.stop).map PriceBlock.price

/-- `conditionMet` -/
def conditionMet (rule : PriceRule) (priceCents : Rat) : Bool :=
  match rule.condition with
  | .below => priceCents < rule.thresholdCents
  | .above => rule.thresholdCents < priceCents

/-- A pass that awaits the action of the rule at `index`. -/
structure Pass where
  priceCents : Rat
  index : Nat
  deriving DecidableEq

/-- `broadcast('rule-triggered', ..)` -/
structure RuleTriggered where
  ruleId : String
  name : String
  priceCents : Rat
  error : Option String
  deriving DecidableEq

/-- One evaluation of the rule at `index`: whether its condition holds at the
current price, whether it held at the evaluation before, and whether the action
was started. -/
structure Evaluation where
  index : Nat
  holds : Bool
  previous : Bool
  started : Bool
  deriving DecidableEq

/-- The rules and the passes over them.  `last` and `evaluations` record what the
conditions were; no source function reads them. -/
structure Evaluator where
  rules : List PriceRule
  prices : List PriceBlock
  now : Nat
  passes : List Pass
  broadcasts : List RuleTriggered
  last : Nat → Bool
  evaluations : List Evaluation

/-- The condition at the current price; no price, no condition. -/
def holdsNow (s : Evaluator) (rule : PriceRule) : Bool :=
  match getCurrentPriceCents s.prices s.now with
  | none => false
  | some price => conditionMet rule price

/-- The write of `lastTriggeredState`. -/
def persist (s : Evaluator) (ruleId : String) (met : Bool) : Evaluator :=
  { s with
    rules := Collection.assign PriceRule.id ruleId
      (fun rule => { rule with lastTriggeredState := met }) s.rules }

/-- The records of one evaluation. -/
def record (s : Evaluator) (i : Nat) (rule : PriceRule) (started : Bool) : Evaluator :=
  { s with
    last := Function.update s.last i (holdsNow s rule)
    evaluations := s.evaluations ++ [⟨i, holdsNow s rule, s.last i, started⟩] }

/-- The loop of `evaluateRules` from the rule at `i`, `n` turns at most, up to the
next await. -/
def evaluateFrom (priceCents : Rat) : Nat → Nat → Evaluator → Evaluator
  | 0, _, s => s
  | n + 1, i, s =>
      match s.rules[i]? with
      | none => s
      | some rule =>
          if !rule.enabled then evaluateFrom priceCents n (i + 1) s
          else if conditionMet rule priceCents && !rule.lastTriggeredState then
            let s := record s i rule true
            { s with passes := s.passes ++ [⟨priceCents, i⟩] }
          else
            let s := record s i rule false
            evaluateFrom priceCents n (i + 1) (persist s rule.id (conditionMet rule priceCents))

/-- `evaluateRules`, up to its first await. -/
def evaluateRules (s : Evaluator) : Evaluator :=
  match getCurrentPriceCents s.prices s.now with
  | none => s
  | some priceCents => evaluateFrom priceCents s.rules.length 0 s

/-- The awaited action is over, with an error or without. -/
def resume (s : Evaluator) (k : Nat) (error : Option String) : Option Evaluator :=
  match s.passes[k]? with
  | none => none
  | some pass =>
      match s.rules[pass.index]? with
      | none => none
      | some rule =>
          let s := { s with
            passes := s.passes.eraseIdx k
            broadcasts := s.broadcasts ++ [⟨rule.id, rule.name, pass.priceCents, error⟩] }
          let s := persist s rule.id true
          some (evaluateFrom pass.priceCents (s.rules.length - (pass.index + 1)) (pass.index + 1) s)

inductive Event where
  | time (now : Nat)
  | refresh (prices : List PriceBlock)
  | tick
  | resume (k : Nat) (error : Option String)

def next (s : Evaluator) : Event → Option Evaluator
  | .time now => if s.now ≤ now then some { s with now } else none
  | .refresh prices => some { s with prices }
  | .tick => some (evaluateRules s)
  | .resume k error => resume s k error

/-- Any rules with distinct ids, any prices, no pass under way; what the rules
remember counts as their previous evaluation. -/
def Initial (s : Evaluator) : Prop :=
  (s.rules.map PriceRule.id).Nodup ∧ s.passes = [] ∧ s.evaluations = [] ∧
    ∀ i rule, s.rules[i]? = some rule → s.last i = rule.lastTriggeredState

def machine : Machine Evaluator Event := Machine.ofStep Initial next

/-! ## What keeps the rules edge-triggered -/

/-- The pass starts the rule's action. -/
def Triggers (rule : PriceRule) (priceCents : Rat) : Prop :=
  rule.enabled = true ∧ conditionMet rule priceCents = true ∧ rule.lastTriggeredState = false

/-- A pass at `i` gets to the rule at `j` without starting an action on the way. -/
def Reaches (rules : List PriceRule) (priceCents : Rat) (i j : Nat) : Prop :=
  i ≤ j ∧ ∀ k rule, i ≤ k → k < j → rules[k]? = some rule → ¬Triggers rule priceCents

/-- Each enabled rule a pass at `i` gets to is awaited by no other pass, and its
condition is the same at the price of the pass and at the current one. -/
def Steady (s : Evaluator) (priceCents : Rat) (i : Nat) : Prop :=
  ∀ j rule, s.rules[j]? = some rule → rule.enabled = true → Reaches s.rules priceCents i j →
    (∀ p ∈ s.passes, p.index ≠ j) ∧ conditionMet rule priceCents = holdsNow s rule

/-- The step evaluates no rule that another pass awaits, and none at a price that
has been overtaken. -/
def Undisturbed (s : Evaluator) : Event → Prop
  | .tick => ∀ price, getCurrentPriceCents s.prices s.now = some price → Steady s price 0
  | .resume k _ => ∀ pass, s.passes[k]? = some pass →
      Steady { s with passes := s.passes.eraseIdx k } pass.priceCents (pass.index + 1)
  | _ => True

/-- The invariant, but for what the rule at `i` remembers. -/
structure SoundBut (s : Evaluator) (i : Nat) : Prop where
  ids : (s.rules.map PriceRule.id).Nodup
  apart : (s.passes.map Pass.index).Nodup
  awaited : ∀ p ∈ s.passes, s.last p.index = true
  settled : ∀ j rule, j ≠ i → s.rules[j]? = some rule → (∀ p ∈ s.passes, p.index ≠ j) →
    rule.lastTriggeredState = s.last j
  edges : ∀ e ∈ s.evaluations, e.started = true ↔ e.holds = true ∧ e.previous = false

/-- The invariant: one pass awaits a rule at most, and then its condition held at
its last evaluation; a rule that is not awaited remembers its last evaluation; and
actions were started on edges only. -/
structure Sound (s : Evaluator) : Prop where
  ids : (s.rules.map PriceRule.id).Nodup
  apart : (s.passes.map Pass.index).Nodup
  awaited : ∀ p ∈ s.passes, s.last p.index = true
  settled : ∀ j rule, s.rules[j]? = some rule → (∀ p ∈ s.passes, p.index ≠ j) →
    rule.lastTriggeredState = s.last j
  edges : ∀ e ∈ s.evaluations, e.started = true ↔ e.holds = true ∧ e.previous = false

theorem persist_rules {s : Evaluator} (ids : (s.rules.map PriceRule.id).Nodup) {i : Nat}
    {rule : PriceRule} (at_i : s.rules[i]? = some rule) (met : Bool) :
    (persist s rule.id met).rules = s.rules.set i { rule with lastTriggeredState := met } :=
  Collection.assign_eq_set PriceRule.id ids at_i _

theorem persist_rules_ne {s : Evaluator} (ids : (s.rules.map PriceRule.id).Nodup) {i j : Nat}
    {rule : PriceRule} (at_i : s.rules[i]? = some rule) (met : Bool) (ne : j ≠ i) :
    (persist s rule.id met).rules[j]? = s.rules[j]? := by
  rw [persist_rules ids at_i, List.getElem?_set_ne (Ne.symm ne)]

/-- Writing the last evaluation back completes the invariant. -/
theorem SoundBut.persist {s : Evaluator} {i : Nat} {rule : PriceRule} (sound : SoundBut s i)
    (at_i : s.rules[i]? = some rule) (met : Bool) (value : s.last i = met) :
    Sound (persist s rule.id met) where
  ids := by
    show ((Collection.assign PriceRule.id rule.id _ s.rules).map PriceRule.id).Nodup
    rw [Collection.map_key_assign PriceRule.id rule.id _ (by intro; rfl)]
    exact sound.ids
  apart := sound.apart
  awaited := sound.awaited
  settled j other found notAwaited := by
    by_cases same : j = i
    · subst same
      rw [persist_rules sound.ids at_i, List.getElem?_set_self (List.getElem?_eq_some_iff.mp at_i).1]
        at found
      cases found
      exact value.symm
    · rw [persist_rules_ne sound.ids at_i met same] at found
      exact sound.settled j other same found notAwaited
  edges := sound.edges

theorem mem_record {s : Evaluator} {i : Nat} {rule : PriceRule} {started : Bool} {e : Evaluation}
    (member : e ∈ (record s i rule started).evaluations) :
    e ∈ s.evaluations ∨ e = ⟨i, holdsNow s rule, s.last i, started⟩ := by
  simpa [record] using member

/-- An evaluation that starts nothing, of a rule no pass awaits. -/
theorem Sound.record {s : Evaluator} {i : Nat} {rule : PriceRule} (sound : Sound s)
    (notAwaited : ∀ p ∈ s.passes, p.index ≠ i) (started : Bool)
    (edge : started = true ↔ holdsNow s rule = true ∧ s.last i = false) :
    SoundBut (record s i rule started) i where
  ids := sound.ids
  apart := sound.apart
  awaited p member := by
    show Function.update s.last i _ p.index = true
    rw [Function.update_of_ne (notAwaited p member)]
    exact sound.awaited p member
  settled j other ne found free := by
    show _ = Function.update s.last i _ j
    rw [Function.update_of_ne ne]
    exact sound.settled j other found free
  edges e member := by
    rcases mem_record member with old | rfl
    · exact sound.edges e old
    · exact edge

/-- The pass awaits the action it started. -/
theorem SoundBut.await {s : Evaluator} {i : Nat} (sound : SoundBut s i) (priceCents : Rat)
    (notAwaited : ∀ p ∈ s.passes, p.index ≠ i) (held : s.last i = true) :
    Sound { s with passes := s.passes ++ [⟨priceCents, i⟩] } where
  ids := sound.ids
  apart := by
    show ((s.passes ++ [Pass.mk priceCents i]).map Pass.index).Nodup
    rw [List.map_append, List.nodup_append]
    refine ⟨sound.apart, by simp, ?_⟩
    intro a member b last same
    obtain ⟨p, inPasses, rfl⟩ := List.mem_map.mp member
    exact notAwaited p inPasses (same.trans (List.mem_singleton.mp last))
  awaited p member := by
    rcases List.mem_append.mp member with old | new
    · exact sound.awaited p old
    · rw [List.mem_singleton.mp new]
      exact held
  settled j rule found free := by
    have other : j ≠ i := fun same =>
      free (Pass.mk priceCents i) (List.mem_append_right _ (List.mem_singleton_self _)) same.symm
    exact sound.settled j rule other found fun p member => free p (List.mem_append_left _ member)
  edges := sound.edges

/-- Going on behind a rule that does not start anything. -/
theorem Steady.next {s : Evaluator} {priceCents : Rat} {i : Nat} {rule : PriceRule}
    (steady : Steady s priceCents i) (at_i : s.rules[i]? = some rule)
    (quiet : ¬Triggers rule priceCents) : Steady s priceCents (i + 1) := by
  rintro j other found enabled ⟨le, quietBetween⟩
  refine steady j other found enabled ⟨by omega, ?_⟩
  intro k between ik kj at_k
  by_cases same : k = i
  · subst same
    rw [at_i, Option.some.injEq] at at_k
    exact at_k ▸ quiet
  · exact quietBetween k between (by omega) kj at_k

/-- What is ahead stays steady while only a rule behind is written. -/
theorem Steady.congr {s t : Evaluator} {priceCents : Rat} {i : Nat} (steady : Steady s priceCents i)
    (rules : ∀ j, i ≤ j → t.rules[j]? = s.rules[j]?) (passes : t.passes = s.passes)
    (prices : t.prices = s.prices) (now : t.now = s.now) : Steady t priceCents i := by
  rintro j rule found enabled ⟨le, quiet⟩
  rw [rules j le] at found
  have reaches : Reaches s.rules priceCents i j := by
    refine ⟨le, fun k between ik kj at_k => quiet k between ik kj ?_⟩
    rw [rules k ik]
    exact at_k
  obtain ⟨free, same⟩ := steady j rule found enabled reaches
  rw [passes]
  refine ⟨free, same.trans ?_⟩
  rw [holdsNow, holdsNow, prices, now]

/-- The pass keeps the invariant up to its next await. -/
theorem Sound.evaluateFrom {priceCents : Rat} (n : Nat) {i : Nat} {s : Evaluator} (sound : Sound s)
    (steady : Steady s priceCents i) : Sound (evaluateFrom priceCents n i s) := by
  induction n generalizing i s with
  | zero => exact sound
  | succ n ih =>
      rw [Rules.evaluateFrom]
      cases at_i : s.rules[i]? with
      | none => exact sound
      | some rule =>
          simp only
          by_cases disabled : (!rule.enabled) = true
          · rw [if_pos disabled]
            have off : rule.enabled = false := by simpa using disabled
            refine ih sound (steady.next at_i fun triggers => ?_)
            rw [triggers.1] at off
            cases off
          · rw [if_neg disabled]
            have enabled : rule.enabled = true := by simpa using disabled
            obtain ⟨free, same⟩ := steady i rule at_i enabled ⟨Nat.le_refl i, by omega⟩
            have remembered := sound.settled i rule at_i free
            by_cases starts : (conditionMet rule priceCents && !rule.lastTriggeredState) = true
            · rw [if_pos starts]
              obtain ⟨met, fresh⟩ : conditionMet rule priceCents = true ∧
                  rule.lastTriggeredState = false := by simpa using starts
              have holds : holdsNow s rule = true := same.symm.trans met
              have edge : true = true ↔ holdsNow s rule = true ∧ s.last i = false :=
                ⟨fun _ => ⟨holds, remembered.symm.trans fresh⟩, fun _ => rfl⟩
              refine (sound.record free true edge).await priceCents free ?_
              exact (Function.update_self i _ s.last).trans holds
            · rw [if_neg starts]
              have quiet : ¬Triggers rule priceCents := by
                rintro ⟨-, met, fresh⟩
                exact starts (by simp [met, fresh])
              have edge : false = true ↔ holdsNow s rule = true ∧ s.last i = false := by
                refine ⟨nofun, ?_⟩
                rintro ⟨holds, fresh⟩
                exact absurd ⟨enabled, same.trans holds, remembered.trans fresh⟩ quiet
              have settled := (sound.record free false edge).persist at_i
                (conditionMet rule priceCents) ((Function.update_self i _ s.last).trans same.symm)
              refine ih settled ((steady.next at_i quiet).congr ?_ rfl rfl rfl)
              intro j behind
              exact persist_rules_ne (s := Rules.record s i rule false) sound.ids at_i _ (by omega)

/-- The end of an action: its rule remembers that the condition held. -/
theorem Sound.resume {s t : Evaluator} {k : Nat} {error : Option String} (sound : Sound s)
    (steady : Undisturbed s (.resume k error)) (step : resume s k error = some t) : Sound t := by
  unfold Rules.resume at step
  split at step
  · cases step
  · rename_i pass atPass
    split at step
    · cases step
    · rename_i rule at_i
      have member : pass ∈ s.passes := List.mem_of_getElem? atPass
      have others : ∀ p ∈ s.passes.eraseIdx k, p ∈ s.passes := fun p => List.mem_of_mem_eraseIdx
      have cleared : SoundBut { s with
          passes := s.passes.eraseIdx k
          broadcasts := s.broadcasts ++ [⟨rule.id, rule.name, pass.priceCents, error⟩] }
          pass.index := by
        refine ⟨sound.ids, ?_, fun p inside => sound.awaited p (others p inside), ?_, sound.edges⟩
        · exact sound.apart.sublist ((List.eraseIdx_sublist s.passes k).map Pass.index)
        · intro j other ne found free
          refine sound.settled j other found fun p inside => ?_
          by_cases same : p = pass
          · rw [same]
            exact Ne.symm ne
          · obtain ⟨l, atL⟩ := List.mem_iff_getElem?.mp inside
            refine free p (List.mem_eraseIdx_iff_getElem?.mpr ⟨l, ?_, atL⟩)
            rintro rfl
            exact same (Option.some.inj (atL.symm.trans atPass))
      have settled := cleared.persist at_i true (sound.awaited pass member)
      cases step
      refine settled.evaluateFrom _ ((steady pass atPass).congr ?_ rfl rfl rfl)
      intro j behind
      exact persist_rules_ne (s := { s with
          passes := s.passes.eraseIdx k
          broadcasts := s.broadcasts ++ [⟨rule.id, rule.name, pass.priceCents, error⟩] })
        sound.ids at_i true (by omega)

theorem Sound.next {s t : Evaluator} {e : Event} (sound : Sound s) (steady : Undisturbed s e)
    (step : next s e = some t) : Sound t := by
  cases e with
  | time now =>
      simp only [Rules.next] at step
      split at step
      · cases step
        exact ⟨sound.ids, sound.apart, sound.awaited, sound.settled, sound.edges⟩
      · cases step
  | refresh prices =>
      cases step
      exact ⟨sound.ids, sound.apart, sound.awaited, sound.settled, sound.edges⟩
  | tick =>
      cases step
      unfold evaluateRules
      split
      · exact sound
      · rename_i price current
        exact sound.evaluateFrom _ (steady price current)
  | resume k error => exact sound.resume steady step

theorem sound_invariant : (machine.restrict Undisturbed).Invariant Sound where
  base s start := by
    obtain ⟨ids, idle, fresh, remembered⟩ := start
    refine ⟨ids, ?_, ?_, fun i rule found _ => (remembered i rule found).symm, ?_⟩
    · rw [idle]
      exact List.nodup_nil
    · rw [idle]
      nofun
    · rw [fresh]
      nofun
  step s e t sound move := sound.next move.1 move.2

/-- **Edge-triggered, as long as no step is disturbed.**  An action is started
exactly at an evaluation where the condition holds at the current price and did not
at the evaluation before; a rule whose action is not awaited remembers its last
evaluation, and one whose action is awaited is about to remember it. -/
theorem edge_triggered {s : Evaluator} (reached : (machine.restrict Undisturbed).Reachable s) :
    (∀ e ∈ s.evaluations, e.started = true ↔ e.holds = true ∧ e.previous = false) ∧
    (∀ i rule, s.rules[i]? = some rule → (∀ p ∈ s.passes, p.index ≠ i) →
      rule.lastTriggeredState = s.last i) ∧
    ∀ p ∈ s.passes, s.last p.index = true := by
  have sound := sound_invariant.reachable reached
  exact ⟨sound.edges, sound.settled, sound.awaited⟩

/-! ## A slow action -/

/-- One rule, below five cents, over a routine; the price is three. -/
def cheapPower : Evaluator where
  rules := [⟨"r", "cheap", true, .below, 5, .routine "boiler", false⟩]
  prices := [⟨0, 900000, 3⟩]
  now := 0
  passes := []
  broadcasts := []
  last _ := false
  evaluations := []

theorem cheapPower_initial : Initial cheapPower := by
  refine ⟨by simp [cheapPower], rfl, rfl, ?_⟩
  intro i rule found
  cases i with
  | zero =>
      cases found
      rfl
  | succ i => cases found

/-- The routine is still running at the next tick, a minute later: it is started
again, although the condition held at the evaluation before. -/
theorem slow_routine_started_twice :
    ∃ s, machine.Reachable s ∧
      s.evaluations = [⟨0, true, false, true⟩, ⟨0, true, true, true⟩] := by
  refine ⟨_, ⟨cheapPower, [.tick, .time 60000, .tick], cheapPower_initial,
    .cons rfl (.cons rfl (.cons rfl (.nil _)))⟩, ?_⟩
  decide

/-- The routine is over before anything else happens. -/
theorem edge_triggered_quick :
    ∃ s : Evaluator, s.evaluations = [⟨0, true, false, true⟩] ∧
      ∀ e ∈ s.evaluations, e.started = true ↔ e.holds = true ∧ e.previous = false := by
  have first : Undisturbed cheapPower .tick := by
    intro price current j rule found enabled reaches
    refine ⟨nofun, ?_⟩
    simp [holdsNow, current]
  have second : Undisturbed (evaluateRules cheapPower) (.resume 0 none) := by
    rintro pass awaiting j rule found enabled ⟨behind, -⟩
    cases j with
    | zero => omega
    | succ j => cases found
  have reached : (machine.restrict Undisturbed).Reachable _ :=
    ⟨cheapPower, [.tick, .resume 0 none], cheapPower_initial,
      .cons ⟨first, rfl⟩ (.cons ⟨second, rfl⟩ (.nil _))⟩
  exact ⟨_, by decide, (edge_triggered reached).1⟩

end IrHub.Backend.Rules
