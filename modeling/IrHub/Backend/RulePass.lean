/-
# Backend.RulePass -- one pass of `evaluateRules` while rules are edited

`for (const rule of rules)` iterates over the stored array itself: the iterator keeps an
index, and looks at the array again for each next rule.  While an action is awaited,
requests assign to the rules, put new ones behind them or take some out, and other
passes write `lastTriggeredState`.  `State` is one pass with the rules as objects, as
`Sweep` has it: the rules it has been at (`visited`) and those that a deletion moved in
front of its index (`missed`); `steady` are those that have been there and enabled since
the pass began.

No rule is evaluated twice, and none that is deleted comes back.  But a deletion at or
in front of the awaited rule moves the rules behind it: `rule_pass` is the exact
condition for a pass to cover every steady rule.
-/
import IrHub.Theory.Objects
import IrHub.Theory.Sweep
import IrHub.Backend.Records
import IrHub.Backend.Rules

namespace IrHub.Backend.RulePass

set_option autoImplicit false

open IrHub.Theory IrHub.Backend.Store IrHub.Backend.Records
open IrHub.Backend.Rules (PriceBlock RuleTriggered getCurrentPriceCents conditionMet)

/-! ## The pass -/

/-- The pass awaits the action of a rule, or has come to the end of the array. -/
inductive Status where
  | awaiting (priceCents : Rat) (rule : Nat)
  | finished
  deriving DecidableEq

/-- References of rules; no source function reads them. -/
structure History where
  visited : List Nat
  evaluated : List Nat
  missed : List Nat
  steady : List Nat

/-- `index` is the iterator's, `fired` the actions that were started. -/
structure State where
  rules : Objects PriceRule
  index : Nat
  status : Status
  fired : List RuleAction
  broadcasts : List RuleTriggered
  history : History

/-- The rule is in the array and enabled. -/
def Standing (rules : Objects PriceRule) (r : Nat) : Prop :=
  r ∈ rules.refs ∧ (rules.get? r).any PriceRule.enabled = true

instance (rules : Objects PriceRule) (r : Nat) : Decidable (Standing rules r) :=
  inferInstanceAs (Decidable (_ ∧ _))

namespace State

def sweep (s : State) : Sweep Nat := ⟨s.rules.refs, s.index, s.history.visited, s.history.missed⟩

/-- The iterator goes on to a rule. -/
def visit (s : State) (r : Nat) : State :=
  { s with
    index := s.index + 1
    history := { s.history with visited := s.history.visited ++ [r] } }

def evaluate (s : State) (r : Nat) : State :=
  { s with history := { s.history with evaluated := s.history.evaluated ++ [r] } }

/-- `db.get('priceRules').find({ id }).assign({ lastTriggeredState }).write()` -/
def write (s : State) (ruleId : String) (met : Bool) : State :=
  { s with
    rules := s.rules.assign PriceRule.id ruleId fun rule =>
      { rule with lastTriggeredState := met } }

/-- `broadcast('rule-triggered', ..)` -/
def report (s : State) (rule : PriceRule) (priceCents : Rat) (error : Option String) : State :=
  { s with broadcasts := s.broadcasts ++ [⟨rule.id, rule.name, priceCents, error⟩] }

/-- What is left of the steady rules. -/
def settle (s : State) : State :=
  { s with
    history := { s.history with steady := s.history.steady.filter fun r => Standing s.rules r } }

end State

/-- The loop of `evaluateRules` up to its next await, with these rules ahead. -/
def loop (priceCents : Rat) : List Nat → State → State
  | [], s => { s with status := .finished }
  | r :: ahead, s =>
      let s := s.visit r
      match s.rules.get? r with
      | none => loop priceCents ahead s
      | some rule =>
          if !rule.enabled then loop priceCents ahead s
          else
            let s := s.evaluate r
            if conditionMet rule priceCents && !rule.lastTriggeredState then
              { s with status := .awaiting priceCents r, fired := s.fired ++ [rule.action] }
            else loop priceCents ahead (s.write rule.id (conditionMet rule priceCents))

/-- `evaluateRules` up to its first await; without a price there is no pass. -/
def evaluateRules (rules : Objects PriceRule) (prices : List PriceBlock) (now : Nat) :
    Option State :=
  (getCurrentPriceCents prices now).map fun priceCents =>
    loop priceCents rules.refs
      ⟨rules, 0, .finished, [], [], ⟨[], [], [], rules.refs.filter fun r => Standing rules r⟩⟩

/-! ## Requests -/

/-- `POST /api/rules` with an accepted body. -/
def State.post (s : State) (rule : PriceRule) : State :=
  match s.rules.lookup PriceRule.id rule.id with
  | some _ => { s with rules := s.rules.assign PriceRule.id rule.id (editRule rule) }
  | none =>
      let pushed := s.sweep.push s.rules.heap.length
      { s with rules := s.rules.push rule, history := { s.history with missed := pushed.missed } }

/-- Whether a deletion spares a rule. -/
def State.spared (s : State) (id : String) (r : Nat) : Bool := !s.rules.named PriceRule.id id r

/-- `DELETE /api/rules/:id` -/
def State.delete (s : State) (id : String) : State :=
  let kept := s.sweep.keep (s.spared id)
  { s with
    rules := s.rules.remove PriceRule.id id
    history := { s.history with missed := kept.missed } }

inductive Event where
  | actionOver (error : Option String)
  | postRules (req : RuleReq) (uuid : String)
  | deleteRule (id : String)
  | otherWrite (ruleId : String) (met : Bool)

def next (s : State) (e : Event) : Option State :=
  match s.status, e with
  | .finished, _ => none
  | .awaiting priceCents r, .actionOver error =>
      (s.rules.get? r).map fun rule =>
        let s := (s.report rule priceCents error).write rule.id true
        loop priceCents (s.rules.refs.drop s.index) s
  | .awaiting _ _, .postRules req uuid =>
      match ruleOf req uuid with
      | .error _ => some s
      | .ok rule => some (s.post rule).settle
  | .awaiting _ _, .deleteRule id => some (s.delete id).settle
  | .awaiting _ _, .otherWrite ruleId met => some (s.write ruleId met)

/-- One pass over any rules, with any requests between its awaits. -/
def machine : Machine State Event :=
  Machine.ofStep (fun s => ∃ rules prices now, evaluateRules rules prices now = some s) next

/-- What an event does to a pass that is not over. -/
inductive Moves (s t : State) : Event → Prop
  | acted (priceCents : Rat) (r : Nat) (rule : PriceRule) (error : Option String)
      (awaited : s.status = .awaiting priceCents r) (held : s.rules.get? r = some rule)
      (after : t = loop priceCents (s.rules.refs.drop s.index)
        ((s.report rule priceCents error).write rule.id true)) : Moves s t (.actionOver error)
  | refused (req : RuleReq) (uuid : String) (after : t = s) : Moves s t (.postRules req uuid)
  | posted (req : RuleReq) (uuid : String) (rule : PriceRule) (accepted : ruleOf req uuid = .ok rule)
      (after : t = (s.post rule).settle) : Moves s t (.postRules req uuid)
  | deleted (id : String) (after : t = (s.delete id).settle) : Moves s t (.deleteRule id)
  | written (ruleId : String) (met : Bool) (after : t = s.write ruleId met) :
      Moves s t (.otherWrite ruleId met)

theorem next_moves {s t : State} {e : Event} (step : next s e = some t) :
    s.status ≠ .finished ∧ Moves s t e := by
  unfold next at step
  cases status : s.status with
  | finished =>
      rw [status] at step
      cases step
  | awaiting priceCents r =>
      rw [status] at step
      refine ⟨nofun, ?_⟩
      cases e with
      | actionOver error =>
          obtain ⟨rule, held, rfl⟩ := Option.map_eq_some_iff.mp step
          have refs : ((s.report rule priceCents error).write rule.id true).rules.refs =
              s.rules.refs := Objects.refs_assign ..
          refine .acted priceCents r rule error status held ?_
          show loop priceCents
            (((s.report rule priceCents error).write rule.id true).rules.refs.drop s.index) _ = _
          rw [refs]
      | postRules req uuid =>
          dsimp only at step
          cases accepted : ruleOf req uuid with
          | error e =>
              rw [accepted] at step
              cases step
              exact .refused req uuid rfl
          | ok rule =>
              rw [accepted] at step
              cases step
              exact .posted req uuid rule accepted rfl
      | deleteRule id =>
          cases step
          exact .deleted id rfl
      | otherWrite ruleId met =>
          cases step
          exact .written ruleId met rfl

/-- The store is edited as `Records` has it. -/
theorem values_post (s : State) (rule : PriceRule) :
    (s.post rule).rules.values = putRule s.rules.values rule := by
  have found := Objects.find_values PriceRule.id s.rules rule.id
  unfold State.post putRule
  cases there : s.rules.lookup PriceRule.id rule.id with
  | none =>
      rw [found, there]
      exact s.rules.values_push rule
  | some r =>
      obtain ⟨old, held, -⟩ := Objects.get?_lookup there
      rw [found, there, Option.bind_some, held]
      exact Objects.values_assign PriceRule.id s.rules rule.id (editRule rule)

theorem values_delete (s : State) (id : String) :
    (s.delete id).rules.values = Collection.remove PriceRule.id id s.rules.values :=
  Objects.values_remove PriceRule.id s.rules id

theorem values_write (s : State) (ruleId : String) (met : Bool) :
    (s.write ruleId met).rules.values = Collection.assign PriceRule.id ruleId
      (fun rule => { rule with lastTriggeredState := met }) s.rules.values :=
  Objects.values_assign PriceRule.id s.rules ruleId _

/-! ## The invariant -/

/-- The sweep is sound, the rules it knows are old ones, and the steady rules it has been
at are those it has evaluated. -/
structure Covered (s : State) : Prop where
  sound : s.sweep.Sound
  known : ∀ r, r ∈ s.history.visited ∨ r ∈ s.history.missed → r < s.rules.heap.length
  standing : ∀ r ∈ s.history.steady, Standing s.rules r
  evaluated : s.history.evaluated.Sublist s.history.visited
  covered : ∀ r ∈ s.history.steady, r ∈ s.history.visited → r ∈ s.history.evaluated

/-- A write changes neither the array nor who is enabled. -/
theorem standing_write (s : State) (ruleId : String) (met : Bool) (r : Nat) :
    Standing (s.write ruleId met).rules r ↔ Standing s.rules r := by
  have refs : (s.write ruleId met).rules.refs = s.rules.refs := Objects.refs_assign ..
  have enabled : ((s.write ruleId met).rules.get? r).any PriceRule.enabled =
      (s.rules.get? r).any PriceRule.enabled := by
    rw [State.write, Objects.get?_assign]
    split
    · rw [Option.any_map]
    · rfl
  rw [Standing, Standing, refs, enabled]

theorem Covered.report {s : State} (covered : Covered s) (rule : PriceRule) (priceCents : Rat)
    (error : Option String) : Covered (s.report rule priceCents error) :=
  ⟨covered.1, covered.2, covered.3, covered.4, covered.5⟩

theorem Covered.write {s : State} (covered : Covered s) (ruleId : String) (met : Bool) :
    Covered (s.write ruleId met) := by
  have refs : (s.write ruleId met).rules.refs = s.rules.refs := Objects.refs_assign ..
  have length : (s.write ruleId met).rules.heap.length = s.rules.heap.length :=
    Objects.length_assign ..
  constructor
  · have same : (s.write ruleId met).sweep = s.sweep := by rw [State.sweep, refs]; rfl
    rw [same]
    exact covered.sound
  · intro r member
    rw [length]
    exact covered.known r member
  · intro r member
    exact (standing_write s ruleId met r).mpr (covered.standing r member)
  · exact covered.evaluated
  · exact covered.covered

/-- The rule at the index is visited; it is steady only if it is enabled, and then it is
evaluated. -/
theorem Covered.visit {s : State} (covered : Covered s) {r : Nat} {ahead : List Nat}
    (at_ : s.rules.refs.drop s.index = r :: ahead) :
    (¬(s.rules.get? r).any PriceRule.enabled = true → Covered (s.visit r)) ∧
      Covered ((s.visit r).evaluate r) := by
  have member : r ∈ s.rules.refs :=
    List.mem_of_mem_drop (by rw [at_]; exact List.mem_cons_self)
  have sound : (s.visit r).sweep.Sound := covered.sound.visit at_
  have known : ∀ x, x ∈ s.history.visited ++ [r] ∨ x ∈ s.history.missed →
      x < s.rules.heap.length := by
    intro x seen
    rcases seen with seen | gone
    · rcases List.mem_append.mp seen with before | now
      · exact covered.known x (.inl before)
      · rw [List.mem_singleton.mp now]
        exact s.rules.live r member
    · exact covered.known x (.inr gone)
  constructor
  · intro disabled
    refine ⟨sound, known, covered.standing, ?_, ?_⟩
    · exact covered.evaluated.trans (List.sublist_append_left _ _)
    · intro x steady seen
      rcases List.mem_append.mp seen with before | now
      · exact covered.covered x steady before
      · rw [List.mem_singleton.mp now] at steady
        exact absurd (covered.standing r steady).2 disabled
  · refine ⟨sound, known, covered.standing, ?_, ?_⟩
    · exact covered.evaluated.append (List.Sublist.refl [r])
    · intro x steady seen
      rcases List.mem_append.mp seen with before | now
      · exact List.mem_append_left _ (covered.covered x steady before)
      · exact List.mem_append_right _ now

/-- The pass has got to its next await, or to the end of the array. -/
structure Paused (s : State) : Prop where
  covered : Covered s
  finished : s.status = .finished → s.rules.refs.length ≤ s.index

theorem paused_loop (priceCents : Rat) {ahead : List Nat} : ∀ {s : State}, Covered s →
    s.rules.refs.drop s.index = ahead → Paused (loop priceCents ahead s) := by
  induction ahead with
  | nil =>
      intro s covered at_
      exact ⟨⟨covered.1, covered.2, covered.3, covered.4, covered.5⟩,
        fun _ => List.drop_eq_nil_iff.mp at_⟩
  | cons r ahead ih =>
      intro s covered at_
      have later : s.rules.refs.drop (s.index + 1) = ahead := by
        rw [← List.drop_drop, at_]
        rfl
      obtain ⟨passed, evaluated⟩ := covered.visit at_
      obtain ⟨rule, held⟩ := Objects.get?_of_mem
        (List.mem_of_mem_drop (by rw [at_]; exact List.mem_cons_self))
      have held' : (s.visit r).rules.get? r = some rule := held
      rw [loop]
      simp only [held']
      by_cases enabled : rule.enabled = true
      · rw [if_neg (by simp [enabled])]
        by_cases triggers : (conditionMet rule priceCents && !rule.lastTriggeredState) = true
        · rw [if_pos triggers]
          exact ⟨⟨evaluated.1, evaluated.2, evaluated.3, evaluated.4, evaluated.5⟩, nofun⟩
        · rw [if_neg triggers]
          refine ih (evaluated.write _ _) ?_
          rw [← later]
          exact congrArg (List.drop (s.index + 1)) (Objects.refs_assign ..)
      · rw [if_pos (by simpa using enabled)]
        exact ih (passed (by simpa [held] using enabled)) later

/-! ## Requests between the awaits -/

/-- What is left of the steady rules is standing; `s` has edited the rules of a covered
pass. -/
theorem settle_covered {s : State} (sound : s.sweep.Sound)
    (known : ∀ r, r ∈ s.history.visited ∨ r ∈ s.history.missed → r < s.rules.heap.length)
    (evaluated : s.history.evaluated.Sublist s.history.visited)
    (covered : ∀ r ∈ s.history.steady, r ∈ s.history.visited → r ∈ s.history.evaluated) :
    Covered s.settle where
  sound := sound
  known := known
  standing _ member := of_decide_eq_true (List.mem_filter.mp member).2
  evaluated := evaluated
  covered r member := covered r (List.mem_filter.mp member).1

/-- The rule with the id is edited in place, or a new one is put behind the others. -/
theorem Covered.post {s : State} (covered : Covered s) (rule : PriceRule) :
    Covered (s.post rule).settle := by
  unfold State.post
  cases s.rules.lookup PriceRule.id rule.id with
  | some _ =>
      refine settle_covered ?_ ?_ covered.evaluated covered.covered
      · have refs : (s.rules.assign PriceRule.id rule.id (editRule rule)).refs = s.rules.refs :=
          Objects.refs_assign ..
        rw [State.sweep, refs]
        exact covered.sound
      · intro x seen
        show x < (s.rules.assign PriceRule.id rule.id (editRule rule)).heap.length
        rw [Objects.length_assign]
        exact covered.known x seen
  | none =>
      have old : ∀ r, r ∈ s.history.visited ∨ r ∈ s.history.missed → r ≠ s.rules.heap.length :=
        fun _ seen => Nat.ne_of_lt (covered.known _ seen)
      have length : (s.rules.push rule).heap.length = s.rules.heap.length + 1 :=
        List.length_append
      refine settle_covered ?_ ?_ covered.evaluated covered.covered
      · refine covered.sound.push ?_ ?_ ?_
        · exact fun member => Nat.lt_irrefl _ (s.rules.live _ member)
        · exact fun seen => old _ (.inl seen) rfl
        · exact fun gone => old _ (.inr gone) rfl
      · intro r seen
        show r < (s.rules.push rule).heap.length
        rw [length]
        rcases seen with seen | gone
        · exact Nat.lt_succ_of_lt (covered.known r (.inl seen))
        · have gone : r ∈ if s.rules.refs.length < s.index then
              s.history.missed ++ [s.rules.heap.length] else s.history.missed := gone
          split at gone
          · rcases List.mem_append.mp gone with before | now
            · exact Nat.lt_succ_of_lt (covered.known r (.inr before))
            · rw [List.mem_singleton.mp now]
              exact Nat.lt_succ_self _
          · exact Nat.lt_succ_of_lt (covered.known r (.inr gone))

theorem Covered.delete {s : State} (covered : Covered s) (id : String) :
    Covered (s.delete id).settle := by
  refine settle_covered (covered.sound.keep (s.spared id)) ?_ covered.evaluated covered.covered
  intro r seen
  show r < s.rules.heap.length
  rcases seen with seen | gone
  · exact covered.known r (.inl seen)
  · rcases List.mem_append.mp gone with before | now
    · exact covered.known r (.inr before)
    · have front := (List.mem_filter.mp now).1
      exact s.rules.live r (List.mem_filter.mp (List.mem_of_mem_take front)).1

theorem evaluateRules_paused {rules : Objects PriceRule} {prices : List PriceBlock} {now : Nat}
    {s : State} (begun : evaluateRules rules prices now = some s) : Paused s := by
  obtain ⟨priceCents, -, rfl⟩ := Option.map_eq_some_iff.mp begun
  refine paused_loop priceCents ?_ rfl
  refine ⟨Sweep.sound_start rules.distinct, nofun, ?_, List.Sublist.refl [], nofun⟩
  intro r member
  exact of_decide_eq_true (List.mem_filter.mp member).2

theorem post_status (s : State) (rule : PriceRule) : (s.post rule).settle.status = s.status := by
  unfold State.post
  cases s.rules.lookup PriceRule.id rule.id <;> rfl

theorem paused_next {s t : State} {e : Event} (paused : Paused s) (step : next s e = some t) :
    Paused t := by
  obtain ⟨going, moves⟩ := next_moves step
  have covered := paused.covered
  cases moves with
  | acted priceCents r rule error awaited held after =>
      rw [after]
      refine paused_loop priceCents ((covered.report rule priceCents error).write _ _) ?_
      exact congrArg (List.drop s.index) (Objects.refs_assign ..)
  | refused req uuid after =>
      rw [after]
      exact paused
  | posted req uuid rule accepted after =>
      rw [after]
      refine ⟨covered.post rule, fun finished => ?_⟩
      exact absurd ((post_status s rule).symm.trans finished) going
  | deleted id after =>
      rw [after]
      exact ⟨covered.delete id, fun finished => absurd finished going⟩
  | written ruleId met after =>
      rw [after]
      exact ⟨covered.write ruleId met, fun finished => absurd finished going⟩

theorem paused : machine.Invariant Paused where
  base s start := by
    obtain ⟨rules, prices, now, begun⟩ := start
    exact evaluateRules_paused begun
  step _ _ _ paused step := paused_next paused step

/-! ## What a pass covers -/

/-- The loop changes neither the array nor what has been missed. -/
structure SameArray (s t : State) : Prop where
  refs : t.rules.refs = s.rules.refs
  length : t.rules.heap.length = s.rules.heap.length
  missed : t.history.missed = s.history.missed
  steady : t.history.steady = s.history.steady

theorem sameArray_write (s : State) (ruleId : String) (met : Bool) :
    SameArray s (s.write ruleId met) :=
  ⟨Objects.refs_assign .., Objects.length_assign .., rfl, rfl⟩

theorem SameArray.trans {s t u : State} (first : SameArray s t) (second : SameArray t u) :
    SameArray s u :=
  ⟨second.1.trans first.1, second.2.trans first.2, second.3.trans first.3, second.4.trans first.4⟩

theorem sameArray_loop (priceCents : Rat) (ahead : List Nat) : ∀ s,
    SameArray s (loop priceCents ahead s) := by
  induction ahead with
  | nil => exact fun s => ⟨rfl, rfl, rfl, rfl⟩
  | cons r ahead ih =>
      intro s
      have visited : SameArray s (s.visit r) := ⟨rfl, rfl, rfl, rfl⟩
      have evaluated : SameArray s ((s.visit r).evaluate r) := ⟨rfl, rfl, rfl, rfl⟩
      rw [loop]
      dsimp only
      cases (s.visit r).rules.get? r with
      | none => exact visited.trans (ih _)
      | some rule =>
          dsimp only
          split
          · exact visited.trans (ih _)
          · split
            · exact ⟨rfl, rfl, rfl, rfl⟩
            · exact (evaluated.trans (sameArray_write _ _ _)).trans (ih _)

theorem sameArray_acted (s : State) (priceCents : Rat) (rule : PriceRule) (error : Option String)
    (ahead : List Nat) : SameArray s
      (loop priceCents ahead ((s.report rule priceCents error).write rule.id true)) := by
  have reported : SameArray s (s.report rule priceCents error) := ⟨rfl, rfl, rfl, rfl⟩
  exact (reported.trans (sameArray_write _ _ _)).trans (sameArray_loop priceCents ahead _)

/-- A step leaves the array alone, or deletes from it, or posts to it. -/
theorem step_array {s t : State} {e : Event} (step : next s e = some t) :
    SameArray s t ∨ (∃ id, e = .deleteRule id ∧ t = (s.delete id).settle) ∨
      ∃ rule, t = (s.post rule).settle := by
  cases (next_moves step).2 with
  | acted priceCents r rule error awaited held after =>
      rw [after]
      exact .inl (sameArray_acted s _ _ _ _)
  | refused req uuid after =>
      rw [after]
      exact .inl ⟨rfl, rfl, rfl, rfl⟩
  | written ruleId met after =>
      rw [after]
      exact .inl (sameArray_write s _ _)
  | deleted id after => exact .inr (.inl ⟨id, rfl, after⟩)
  | posted req uuid rule accepted after => exact .inr (.inr ⟨rule, after⟩)

/-- A rule in the array was there before, or is new. -/
theorem step_refs {s t : State} {e : Event} (step : next s e = some t) :
    s.rules.heap.length ≤ t.rules.heap.length ∧
      ∀ r ∈ t.rules.refs, r ∈ s.rules.refs ∨ s.rules.heap.length ≤ r := by
  rcases step_array step with ⟨refs, length, -, -⟩ | ⟨id, -, rfl⟩ | ⟨rule, rfl⟩
  · rw [refs, length]
    exact ⟨Nat.le_refl _, fun r member => .inl member⟩
  · exact ⟨Nat.le_refl _, fun r member => .inl (List.mem_filter.mp member).1⟩
  · unfold State.post
    cases s.rules.lookup PriceRule.id rule.id with
    | some _ =>
        have refs : (s.rules.assign PriceRule.id rule.id (editRule rule)).refs = s.rules.refs :=
          Objects.refs_assign ..
        have length : (s.rules.assign PriceRule.id rule.id (editRule rule)).heap.length =
            s.rules.heap.length := Objects.length_assign ..
        exact ⟨Nat.le_of_eq length.symm, fun r member => .inl (refs ▸ member)⟩
    | none =>
        constructor
        · show s.rules.heap.length ≤ (s.rules.heap ++ [rule]).length
          rw [List.length_append]
          exact Nat.le_add_right _ _
        · intro r member
          rcases List.mem_append.mp member with before | new
          · exact .inl before
          · exact .inr (Nat.le_of_eq (List.mem_singleton.mp new).symm)

/-- A rule that is gone does not come back. -/
theorem stays_deleted {s t : State} {es : List Event} (run : machine.Run s es t) {r : Nat}
    (old : r < s.rules.heap.length) (gone : r ∉ s.rules.refs) : r ∉ t.rules.refs := by
  induction run with
  | nil => exact gone
  | cons step _ ih =>
      obtain ⟨grows, refs⟩ := step_refs step
      refine ih (Nat.lt_of_lt_of_le old grows) fun member => ?_
      rcases refs r member with before | new
      · exact gone before
      · omega

/-- No deletion moves a steady rule in front of the index. -/
def Undisturbed (s : State) : Event → Prop
  | .deleteRule id => ∀ r ∈ s.sweep.moved (s.spared id), r ∉ s.history.steady
  | _ => True

instance (s : State) (e : Event) : Decidable (Undisturbed s e) := by
  unfold Undisturbed
  cases e <;> infer_instance

/-- In an undisturbed pass no steady rule is missed. -/
theorem nothing_missed : (machine.restrict Undisturbed).Invariant fun s =>
    Paused s ∧ ∀ r ∈ s.history.steady, r ∉ s.history.missed where
  base s start := by
    obtain ⟨rules, prices, now, begun⟩ := start
    refine ⟨evaluateRules_paused begun, ?_⟩
    obtain ⟨priceCents, -, rfl⟩ := Option.map_eq_some_iff.mp begun
    intro r _
    rw [(sameArray_loop priceCents rules.refs _).missed]
    exact List.not_mem_nil
  step s e t := by
    rintro ⟨paused, missed⟩ ⟨undisturbed, step⟩
    refine ⟨paused_next paused step, ?_⟩
    rcases step_array step with ⟨-, -, sameMissed, steady⟩ | ⟨id, rfl, rfl⟩ | ⟨rule, rfl⟩
    · rw [sameMissed, steady]
      exact missed
    · intro r steady gone
      have steady : r ∈ s.history.steady := (List.mem_filter.mp steady).1
      rcases List.mem_append.mp gone with before | now
      · exact missed r steady before
      · exact undisturbed r now steady
    · unfold State.post
      cases s.rules.lookup PriceRule.id rule.id with
      | some _ =>
          intro r steady
          exact missed r (List.mem_filter.mp steady).1
      | none =>
          intro r steady gone
          have steady : r ∈ s.history.steady := (List.mem_filter.mp steady).1
          have old := s.rules.live r (paused.covered.standing r steady).1
          have gone : r ∈ if s.rules.refs.length < s.index then
              s.history.missed ++ [s.rules.heap.length] else s.history.missed := gone
          split at gone
          · rcases List.mem_append.mp gone with before | new
            · exact missed r steady before
            · rw [List.mem_singleton.mp new] at old
              exact Nat.lt_irrefl _ old
          · exact missed r steady gone

/-- **What one pass covers while rules are edited.**  It evaluates no rule twice; what it
writes at the end of an action puts no rule into the array, and a rule that is gone stays
gone.  When it is over, a rule that was there and enabled all the time has been evaluated
exactly if no deletion moved it in front of the iterator; so all such rules have, in every
run whose deletions move none of them. -/
theorem rule_pass (s : State) :
    (machine.Reachable s →
      s.history.evaluated.Nodup ∧
      (∀ error t, next s (.actionOver error) = some t → t.rules.refs = s.rules.refs) ∧
      (∀ es t, machine.Run s es t →
        ∀ r, r < s.rules.heap.length → r ∉ s.rules.refs → r ∉ t.rules.refs) ∧
      (s.status = .finished → ∀ r ∈ s.history.steady,
        (s.history.evaluated.count r = 1 ↔ r ∉ s.history.missed))) ∧
    ((machine.restrict Undisturbed).Reachable s → s.status = .finished →
      ∀ r ∈ s.history.steady, s.history.evaluated.count r = 1) := by
  have exactly : Paused s → s.status = .finished → ∀ r ∈ s.history.steady,
      (s.history.evaluated.count r = 1 ↔ r ∉ s.history.missed) := by
    intro paused finished r steady
    have covered := paused.covered
    have once : s.history.evaluated.Nodup := covered.sound.once.sublist covered.evaluated
    have visited := covered.sound.visited_iff (paused.finished finished)
      (covered.standing r steady).1
    rw [once.count]
    have same : r ∈ s.history.evaluated ↔ r ∈ s.history.visited :=
      ⟨fun member => covered.evaluated.subset member, covered.covered r steady⟩
    rw [← show r ∈ s.history.visited ↔ r ∉ s.history.missed from visited, ← same]
    by_cases member : r ∈ s.history.evaluated <;> simp [member]
  constructor
  · intro reached
    have now := paused.reachable reached
    refine ⟨now.covered.sound.once.sublist now.covered.evaluated, ?_, ?_, exactly now⟩
    · intro error t step
      cases (next_moves step).2 with
      | acted priceCents r rule error awaited held after =>
          rw [after]
          exact (sameArray_acted s _ _ _ _).refs
    · exact fun es t run r old gone => stays_deleted run old gone
  · intro reached finished r steady
    obtain ⟨now, missed⟩ := nothing_missed.reachable reached
    exact (exactly now finished r steady).mpr (missed r steady)

/-- Two rules that trigger at the price of 10 cents. -/
def twoRules : Objects PriceRule :=
  (Objects.empty.push ⟨"heat", "Heat", true, .below, 20, .routine "warm-up", false⟩).push
    ⟨"wash", "Wash", true, .below, 20, .routine "laundry", false⟩

/-- A pass over them that awaits the routine of the first. -/
def warmingUp : State :=
  loop 10 twoRules.refs
    ⟨twoRules, 0, .finished, [], [], ⟨[], [], [], twoRules.refs.filter fun r => Standing twoRules r⟩⟩

theorem warmingUp_begun : evaluateRules twoRules [⟨0, 100, 10⟩] 50 = some warmingUp := rfl

/-- The first is deleted meanwhile, and the second is never evaluated. -/
theorem rule_pass_skips : ¬∀ s, machine.Reachable s → s.status = .finished →
    ∀ r ∈ s.history.steady, s.history.evaluated.count r = 1 := by
  intro always
  obtain ⟨s, run, finished, steady, skipped⟩ : ∃ s, machine.Run warmingUp
      [.deleteRule "heat", .actionOver none] s ∧ s.status = .finished ∧ 1 ∈ s.history.steady ∧
        s.history.evaluated.count 1 ≠ 1 :=
    Machine.exists_run_of_exec (by decide +kernel)
  exact skipped (always s ⟨_, _, ⟨_, _, _, warmingUp_begun⟩, run⟩ finished 1 steady)

/-- The second is deleted and posted again, and the first is evaluated once. -/
theorem rule_pass_covers : ∃ s, machine.Reachable s ∧ s.status = .finished ∧
    s.history.steady = [0] ∧ s.history.evaluated.count 0 = 1 := by
  obtain ⟨s, run, finished, steady⟩ : ∃ s, (machine.restrict Undisturbed).Run warmingUp
      [.deleteRule "wash",
        .postRules ⟨some "wash", some "Wash", none, some .above, some 5, some (.routine "laundry")⟩ "",
        .actionOver none, .actionOver (some "routine not found")] s ∧
      s.status = .finished ∧ s.history.steady = [0] :=
    Machine.exists_run_of_exec_restrict (by decide +kernel)
  have reached : (machine.restrict Undisturbed).Reachable s :=
    ⟨_, _, ⟨_, _, _, warmingUp_begun⟩, run⟩
  refine ⟨s, reached.unrestrict, finished, steady, (rule_pass s).2 reached finished 0 ?_⟩
  rw [steady]
  exact List.mem_singleton_self 0

end IrHub.Backend.RulePass
