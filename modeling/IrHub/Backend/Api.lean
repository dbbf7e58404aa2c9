/-
# Backend.Api -- every request over one store, and what its ids name

`next` is one request, one MQTT message, one timer or one write of `evaluateRules`,
from the empty store on.  A request with an id writes over the record it finds and
otherwise adds one, so the ids of remotes, routines and rules stay distinct.  The
buttons of a remote are taken from the body as they come.

`Layouts` is a property that the button ids of every remote have.  None is empty,
whatever is posted (`allows_named`); they are distinct as long as those posted are, and
no longer (`ids_unique`).
-/
import IrHub.Backend.Records
import IrHub.Backend.Rules

namespace IrHub.Backend.Api

set_option autoImplicit false

open IrHub.Theory IrHub.Backend.Store IrHub.Backend.Records
open IrHub.Backend.Server (State initial required)

/-! ## The backend -/

inductive Event where
  | turn (e : Server.Event)
  | postRoutines (req : RoutineReq) (uuid : String)
  | deleteRoutine (id : String)
  | postRules (req : RuleReq) (uuid : String)
  | deleteRule (id : String)
  /-- An evaluation of a rule. -/
  | evaluated (ruleId : String) (met : Bool)

/-- The store after a request: a refused one changes nothing. -/
def answered {α : Type} (s : State) : Except ApiError (Db × α) → State
  | .ok (db, _) => { s with db }
  | .error _ => s

def next (s : State) : Event → Option State
  | .turn e => Server.next s e
  | .postRoutines req uuid => some (answered s (postRoutines s.db req uuid))
  | .deleteRoutine id => some { s with db := deleteRoutine s.db id }
  | .postRules req uuid => some (answered s (postRules s.db req uuid))
  | .deleteRule id => some { s with db := deleteRule s.db id }
  | .evaluated ruleId met => some { s with db := writeTriggered s.db ruleId met }

/-- Started on the empty store. -/
def machine : Machine State Event := Machine.ofStep (fun s => s = initial Db.defaults) next

/-! ## Rule evaluations -/

/-- Rules after some writes of `lastTriggeredState`. -/
def written (rules : List PriceRule) (writes : List (String × Bool)) : List PriceRule :=
  writes.foldl (fun rules write => Collection.assign PriceRule.id write.1
    (fun rule => { rule with lastTriggeredState := write.2 }) rules) rules

theorem evaluateFrom_written (priceCents : Rat) (n : Nat) : ∀ (i : Nat) (s : Rules.Evaluator),
    ∃ writes, (Rules.evaluateFrom priceCents n i s).rules = written s.rules writes := by
  induction n with
  | zero => exact fun _ _ => ⟨[], rfl⟩
  | succ n ih =>
      intro i s
      rw [Rules.evaluateFrom]
      cases s.rules[i]? with
      | none => exact ⟨[], rfl⟩
      | some rule =>
          dsimp only
          split
          · exact ih (i + 1) s
          · split
            · exact ⟨[], rfl⟩
            · obtain ⟨writes, after⟩ := ih (i + 1) (Rules.persist (Rules.record s i rule false) rule.id
                (Rules.conditionMet rule priceCents))
              exact ⟨(rule.id, Rules.conditionMet rule priceCents) :: writes, after⟩

/-- A step of `evaluateRules` does to the rules what some evaluations do. -/
theorem rules_written {s t : Rules.Evaluator} {e : Rules.Event} (step : Rules.next s e = some t) :
    ∃ writes, t.rules = written s.rules writes := by
  cases e with
  | time now =>
      simp only [Rules.next] at step
      split at step
      · cases step
        exact ⟨[], rfl⟩
      · cases step
  | refresh prices =>
      cases step
      exact ⟨[], rfl⟩
  | tick =>
      cases step
      unfold Rules.evaluateRules
      split
      · exact ⟨[], rfl⟩
      · exact evaluateFrom_written _ _ _ _
  | resume k error =>
      simp only [Rules.next, Rules.resume] at step
      split at step
      · cases step
      · rename_i pass _
        split at step
        · cases step
        · rename_i rule _
          cases step
          let u := Rules.persist { s with
            passes := s.passes.eraseIdx k
            broadcasts := s.broadcasts ++ [⟨rule.id, rule.name, pass.priceCents, error⟩] } rule.id true
          obtain ⟨writes, after⟩ := evaluateFrom_written pass.priceCents
            (u.rules.length - (pass.index + 1)) (pass.index + 1) u
          exact ⟨(rule.id, true) :: writes, after⟩

theorem run_written (writes : List (String × Bool)) : ∀ s : State, ∃ t,
    machine.Run s (writes.map fun write => .evaluated write.1 write.2) t ∧
      t.db = { s.db with priceRules := written s.db.priceRules writes } := by
  induction writes with
  | nil => exact fun s => ⟨s, .nil s, rfl⟩
  | cons write writes ih =>
      intro s
      obtain ⟨t, run, after⟩ := ih { s with db := writeTriggered s.db write.1 write.2 }
      exact ⟨t, .cons rfl run, after⟩

/-- What `evaluateRules` makes of the stored rules is what a run makes of them. -/
theorem evaluations_run {s : State} {before after : Rules.Evaluator} {e : Rules.Event}
    (stored : before.rules = s.db.priceRules) (step : Rules.next before e = some after) :
    ∃ es t, machine.Run s es t ∧ t.db = { s.db with priceRules := after.rules } := by
  obtain ⟨writes, rules⟩ := rules_written step
  obtain ⟨t, run, db⟩ := run_written writes s
  refine ⟨_, t, run, ?_⟩
  rw [db, rules, stored]

/-! ## Routines and rules -/

/-- The ids of routines and of rules are distinct. -/
structure Records (db : Db) : Prop where
  routines : (db.routines.map Routine.id).Nodup
  rules : (db.priceRules.map PriceRule.id).Nodup

theorem nodup_putRoutine {routines : List Routine} (distinct : (routines.map Routine.id).Nodup)
    (routine : Routine) : ((putRoutine routines routine).map Routine.id).Nodup := by
  unfold putRoutine
  cases found : Collection.find Routine.id routine.id routines with
  | none => exact Collection.nodup_push Routine.id distinct found
  | some old =>
      refine Collection.nodup_assign Routine.id distinct ?_
      intro _ _
      rfl

/-- The rule that is written over has the id of the one that is put. -/
theorem nodup_putRule {rules : List PriceRule} (distinct : (rules.map PriceRule.id).Nodup)
    (rule : PriceRule) : ((putRule rules rule).map PriceRule.id).Nodup := by
  unfold putRule
  cases found : Collection.find PriceRule.id rule.id rules with
  | none => exact Collection.nodup_push PriceRule.id distinct found
  | some old =>
      refine Collection.nodup_assign PriceRule.id distinct ?_
      exact fun _ same => same.symm

/-- What a turn of the server does to routines and rules: nothing. -/
theorem turn_records {s t : State} {e : Server.Event} (step : Server.next s e = some t) :
    t.db.routines = s.db.routines ∧ t.db.priceRules = s.db.priceRules := by
  rcases Server.next_db step with same | ⟨req, uuid, reply, -, handled⟩ | ⟨id, -, removed⟩ |
    ⟨_, session, signal, _, -, -, -, -, assigned⟩
  · rw [same]
    exact ⟨rfl, rfl⟩
  · obtain ⟨name, -, -, put, -⟩ := postRemotes_ok handled
    rw [put]
    unfold putRemote
    dsimp only
    split <;> exact ⟨rfl, rfl⟩
  · rw [removed]
    exact ⟨rfl, rfl⟩
  · rw [assigned]
    exact ⟨rfl, rfl⟩

theorem records_next {s t : State} {e : Event} (records : Records s.db)
    (step : next s e = some t) : Records t.db := by
  cases e with
  | turn e =>
      obtain ⟨routines, rules⟩ := turn_records step
      constructor
      · rw [routines]
        exact records.routines
      · rw [rules]
        exact records.rules
  | postRoutines req uuid =>
      cases step
      unfold postRoutines
      cases routineOf req uuid with
      | error e => exact records
      | ok routine => exact ⟨nodup_putRoutine records.routines routine, records.rules⟩
  | deleteRoutine id =>
      cases step
      exact ⟨Collection.nodup_remove Routine.id records.routines, records.rules⟩
  | postRules req uuid =>
      cases step
      unfold postRules
      cases ruleOf req uuid with
      | error e => exact records
      | ok rule => exact ⟨records.routines, nodup_putRule records.rules rule⟩
  | deleteRule id =>
      cases step
      exact ⟨records.routines, Collection.nodup_remove PriceRule.id records.rules⟩
  | evaluated ruleId met =>
      cases step
      refine ⟨records.routines, Collection.nodup_assign PriceRule.id records.rules ?_⟩
      intro _ _
      rfl

/-! ## Remotes and their buttons -/

theorem nodup_putRemote {db : Db} (distinct : (db.remotes.map Remote.id).Nodup)
    (remoteId name : String) (req : RemoteReq) (uuid : Nat → String) :
    ((putRemote db remoteId name req uuid).remotes.map Remote.id).Nodup := by
  unfold putRemote
  dsimp only
  cases found : findRemote db remoteId with
  | none => exact Collection.nodup_push Remote.id distinct found
  | some old =>
      refine Collection.nodup_assign Remote.id distinct ?_
      intro _ _
      rfl

/-- The button ids of a remote, in the order of its layout. -/
def buttonIds (remote : Remote) : List String := remote.buttons.map Button.id

/-- What a step can do to the remotes: nothing, put one, remove one, or write a
learned signal, which leaves all ids. -/
theorem remotes_next {s t : State} {e : Event} (step : next s e = some t) :
    t.db.remotes = s.db.remotes ∨
      (∃ req uuid name, e = .turn (.postRemotes req uuid) ∧ req.name = some name ∧ name ≠ "" ∧
        t.db = putRemote s.db (targetId req name) name req uuid) ∨
      (∃ id, t.db.remotes = Collection.remove Remote.id id s.db.remotes) ∨
      ∃ id learn, (∀ remote, (learn remote).id = remote.id ∧
          buttonIds (learn remote) = buttonIds remote) ∧
        t.db.remotes = Collection.assign Remote.id id learn s.db.remotes := by
  cases e with
  | turn e =>
      rcases Server.next_db step with same | ⟨req, uuid, reply, rfl, handled⟩ | ⟨id, -, removed⟩ |
        ⟨_, session, signal, _, -, -, -, -, assigned⟩
      · exact .inl (congrArg Db.remotes same)
      · obtain ⟨name, named, notEmpty, put, -⟩ := postRemotes_ok handled
        exact .inr (.inl ⟨req, uuid, name, rfl, named, notEmpty, put⟩)
      · exact .inr (.inr (.inl ⟨id, congrArg Db.remotes removed⟩))
      · refine .inr (.inr (.inr ⟨session.remoteId, _, ?_, congrArg Db.remotes assigned⟩))
        refine fun remote => ⟨rfl, ?_⟩
        refine Collection.map_key_assign Button.id _ _ ?_ remote.buttons
        intro _
        rfl
  | postRoutines req uuid =>
      cases step
      unfold postRoutines
      cases routineOf req uuid <;> exact .inl rfl
  | postRules req uuid =>
      cases step
      unfold postRules
      cases ruleOf req uuid <;> exact .inl rfl
  | deleteRoutine id =>
      cases step
      exact .inl rfl
  | deleteRule id =>
      cases step
      exact .inl rfl
  | evaluated ruleId met =>
      cases step
      exact .inl rfl

theorem remoteIds_next {s t : State} {e : Event} (distinct : (s.db.remotes.map Remote.id).Nodup)
    (step : next s e = some t) : (t.db.remotes.map Remote.id).Nodup := by
  rcases remotes_next step with same | ⟨req, uuid, name, -, -, -, put⟩ | ⟨id, removed⟩ |
    ⟨id, learn, keeps, assigned⟩
  · rw [same]
    exact distinct
  · rw [put]
    exact nodup_putRemote distinct _ name req uuid
  · rw [removed]
    exact Collection.nodup_remove Remote.id distinct
  · rw [assigned]
    exact Collection.nodup_assign Remote.id distinct fun remote _ => (keeps remote).1

/-- What holds of the button ids of every remote. -/
def Layouts (Q : List String → Prop) (db : Db) : Prop := ∀ remote ∈ db.remotes, Q (buttonIds remote)

/-- The button ids that a posted layout gives. -/
def postedIds (uuid : Nat → String) (buttons : List ButtonReq) : List String :=
  buttons.mapIdx fun i b => orElse b.id ("btn-" ++ uuid i)

/-- The request is accepted with a layout. -/
def Lays (req : RemoteReq) (buttons : List ButtonReq) : Prop :=
  (∃ name, req.name = some name ∧ name ≠ "") ∧ req.buttons = some buttons

/-- Posted layouts have ids that `Q` allows. -/
def Allows (Q : List String → Prop) : Event → Prop
  | .turn (.postRemotes req uuid) => ∀ buttons, Lays req buttons → Q (postedIds uuid buttons)
  | _ => True

theorem ids_normalizeButtons (existing : Option Remote) (uuid : Nat → String)
    (buttons : List ButtonReq) :
    (normalizeButtons existing uuid (some buttons)).map Button.id = postedIds uuid buttons := by
  refine List.ext_getElem? fun i => ?_
  simp only [normalizeButtons, postedIds, List.getElem?_map, List.getElem?_mapIdx, Option.map_map]
  rfl

/-- An accepted request writes one remote, with the id it is for. -/
theorem mem_putRemote {db : Db} {remoteId name : String} {req : RemoteReq} {uuid : Nat → String}
    {remote : Remote} (member : remote ∈ (putRemote db remoteId name req uuid).remotes) :
    remote ∈ db.remotes ∨ (remote.id = remoteId ∧
      remote.buttons = normalizeButtons (findRemote db remoteId) uuid req.buttons) := by
  unfold putRemote at member
  cases found : findRemote db remoteId with
  | none =>
      rw [found] at member
      rcases List.mem_append.mp member with old | new
      · exact .inl old
      · rw [List.mem_singleton.mp new]
        exact .inr ⟨rfl, rfl⟩
  | some existing =>
      rw [found] at member
      rcases Collection.mem_assign Remote.id member with old | ⟨_, -, same, made⟩
      · exact .inl old
      · rw [made]
        exact .inr ⟨same, rfl⟩

theorem layouts_next {Q : List String → Prop} {s t : State} {e : Event} (blank : Q [])
    (layouts : Layouts Q s.db) (allows : Allows Q e) (step : next s e = some t) :
    Layouts Q t.db := by
  rcases remotes_next step with same | ⟨req, uuid, name, rfl, named, notEmpty, put⟩ |
    ⟨id, removed⟩ | ⟨id, learn, keeps, assigned⟩
  · unfold Layouts
    rw [same]
    exact layouts
  · rw [put]
    intro remote member
    rcases mem_putRemote member with old | ⟨-, ids⟩
    · exact layouts remote old
    · rw [buttonIds, ids]
      cases posted : req.buttons with
      | some buttons =>
          rw [ids_normalizeButtons]
          exact allows buttons ⟨⟨name, named, notEmpty⟩, posted⟩
      | none =>
          cases found : findRemote s.db (targetId req name) with
          | none => exact blank
          | some existing => exact layouts existing (Collection.mem_of_find found)
  · intro remote member
    rw [removed] at member
    exact layouts remote (List.mem_filter.mp member).1
  · intro remote member
    rw [assigned] at member
    rcases Collection.mem_assign Remote.id member with old | ⟨before, inside, -, made⟩
    · exact layouts remote old
    · rw [made, (keeps before).2]
      exact layouts before inside

theorem layouts_reached {Q : List String → Prop} (blank : Q []) (allows : ∀ e, Allows Q e)
    {s : State} (reached : machine.Reachable s) : Layouts Q s.db := by
  have inv : machine.Invariant fun s => Layouts Q s.db := by
    constructor
    · rintro s rfl remote ⟨⟩
    · intro s e t layouts step
      exact layouts_next blank layouts (allows e) step
  exact inv.reachable reached

/-! ## Posted ids -/

/-- The ids that the elements of a layout bring. -/
def givenIds (buttons : List ButtonReq) : List String := buttons.filterMap fun b => required b.id

/-- The prefixes of uuids are new. -/
structure Fresh (uuid : Nat → String) (buttons : List ButtonReq) : Prop where
  apart : ∀ i j, i < buttons.length → j < buttons.length → uuid i = uuid j → i = j
  new : ∀ i, i < buttons.length → "btn-" ++ uuid i ∉ givenIds buttons

theorem orElse_eq (s : Option String) (other : String) : orElse s other = (required s).getD other := by
  unfold orElse required
  cases s with
  | none => rfl
  | some s =>
      dsimp only
      split <;> rfl

theorem postedIds_cons (uuid : Nat → String) (b : ButtonReq) (buttons : List ButtonReq) :
    postedIds uuid (b :: buttons) =
      (required b.id).getD ("btn-" ++ uuid 0) :: postedIds (fun i => uuid (i + 1)) buttons := by
  rw [postedIds, List.mapIdx_cons, orElse_eq]
  rfl

theorem required_ne {s : Option String} {v : String} (given : required s = some v) : v ≠ "" := by
  unfold required at given
  split at given
  · cases given
  · split at given
    · cases given
    · cases given
      assumption

/-- A posted id is one of those the elements bring, or generated. -/
theorem mem_postedIds {uuid : Nat → String} {buttons : List ButtonReq} {id : String} :
    id ∈ postedIds uuid buttons →
      id ∈ givenIds buttons ∨ ∃ i < buttons.length, id = "btn-" ++ uuid i := by
  intro member
  obtain ⟨i, inRange, rfl⟩ := List.mem_mapIdx.mp member
  rw [orElse_eq]
  cases given : required (buttons[i]).id with
  | none => exact .inr ⟨i, inRange, rfl⟩
  | some v => exact .inl (List.mem_filterMap.mpr ⟨buttons[i], List.getElem_mem inRange, given⟩)

theorem givenIds_subset (uuid : Nat → String) (buttons : List ButtonReq) :
    givenIds buttons ⊆ postedIds uuid buttons := by
  intro id member
  obtain ⟨b, inside, given⟩ := List.mem_filterMap.mp member
  obtain ⟨i, inRange, rfl⟩ := List.getElem_of_mem inside
  refine List.mem_mapIdx.mpr ⟨i, inRange, ?_⟩
  rw [orElse_eq, given]
  rfl

theorem not_empty_postedIds (uuid : Nat → String) (buttons : List ButtonReq) :
    "" ∉ postedIds uuid buttons := by
  intro member
  rcases mem_postedIds member with given | ⟨i, -, generated⟩
  · obtain ⟨b, -, given⟩ := List.mem_filterMap.mp given
    exact required_ne given rfl
  · simp at generated

/-- A button without an id is given one. -/
theorem allows_named (e : Event) : Allows (fun ids => "" ∉ ids) e := by
  cases e with
  | turn e =>
      cases e with
      | postRemotes req uuid => exact fun buttons _ => not_empty_postedIds uuid buttons
      | _ => exact trivial
  | _ => exact trivial

/-- The posted ids are distinct when those are that the elements bring. -/
theorem nodup_postedIds {uuid : Nat → String} {buttons : List ButtonReq}
    (fresh : Fresh uuid buttons) :
    (postedIds uuid buttons).Nodup ↔ (givenIds buttons).Nodup := by
  induction buttons generalizing uuid with
  | nil => exact Iff.rfl
  | cons b rest ih =>
      have later : Fresh (fun i => uuid (i + 1)) rest := by
        constructor
        · intro i j iRange jRange same
          have := fresh.apart (i + 1) (j + 1) (Nat.succ_lt_succ iRange) (Nat.succ_lt_succ jRange) same
          omega
        · intro i inRange member
          refine fresh.new (i + 1) (Nat.succ_lt_succ inRange) ?_
          obtain ⟨c, inside, given⟩ := List.mem_filterMap.mp member
          exact List.mem_filterMap.mpr ⟨c, List.mem_cons_of_mem _ inside, given⟩
      rw [postedIds_cons, List.nodup_cons, ih later]
      cases given : required b.id with
      | none =>
          have same : givenIds (b :: rest) = givenIds rest := List.filterMap_cons_none given
          rw [same]
          refine ⟨And.right, fun distinct => ⟨fun member => ?_, distinct⟩⟩
          rcases mem_postedIds member with brought | ⟨i, inRange, again⟩
          · exact fresh.new 0 (Nat.succ_pos _) (same ▸ brought)
          · have := fresh.apart 0 (i + 1) (Nat.succ_pos _) (Nat.succ_lt_succ inRange)
              (by simpa using again)
            omega
      | some v =>
          have same : givenIds (b :: rest) = v :: givenIds rest := List.filterMap_cons_some given
          rw [same, List.nodup_cons]
          refine and_congr_left fun _ => not_congr ⟨fun member => ?_, fun member => ?_⟩
          · rcases mem_postedIds member with brought | ⟨i, inRange, again⟩
            · exact brought
            · refine absurd ?_ (fresh.new (i + 1) (Nat.succ_lt_succ inRange))
              rw [same, ← again]
              exact List.mem_cons_self
          · exact givenIds_subset _ rest member

/-! ## What ids name -/

/-- Ids are distinct, and no button is without one. -/
structure Unique (db : Db) : Prop where
  remotes : (db.remotes.map Remote.id).Nodup
  routines : (db.routines.map Routine.id).Nodup
  rules : (db.priceRules.map PriceRule.id).Nodup
  buttons : ∀ remote ∈ db.remotes, (buttonIds remote).Nodup ∧ "" ∉ buttonIds remote

/-- A button that the two ids name. -/
def Names (db : Db) (remoteId buttonId : String) (button : Button) : Prop :=
  ∃ remote ∈ db.remotes, remote.id = remoteId ∧ button ∈ remote.buttons ∧ button.id = buttonId

theorem Unique.names {db : Db} (unique : Unique db) {remoteId buttonId : String} {x y : Button}
    (first : Names db remoteId buttonId x) (second : Names db remoteId buttonId y) : x = y := by
  obtain ⟨remote, inside, rfl, inX, named⟩ := first
  obtain ⟨other, inside', same, inY, named'⟩ := second
  obtain rfl := List.inj_on_of_nodup_map unique.remotes inside' inside same
  exact List.inj_on_of_nodup_map (unique.buttons other inside).1 inX inY (named.trans named'.symm)

/-- The uuids generated for an accepted layout are new. -/
def FreshIds : Event → Prop
  | .turn (.postRemotes req uuid) => ∀ buttons, Lays req buttons → Fresh uuid buttons
  | _ => True

/-- No two elements of an accepted layout bring the same id. -/
def DistinctIds : Event → Prop
  | .turn (.postRemotes req _) => ∀ buttons, Lays req buttons → (givenIds buttons).Nodup
  | _ => True

theorem allows_distinct {e : Event} (fresh : FreshIds e) (distinct : DistinctIds e) :
    Allows (fun ids => ids.Nodup ∧ "" ∉ ids) e := by
  cases e with
  | turn e =>
      cases e with
      | postRemotes req uuid =>
          intro buttons lays
          exact ⟨(nodup_postedIds (fresh buttons lays)).mpr (distinct buttons lays),
            not_empty_postedIds uuid buttons⟩
      | _ => exact trivial
  | _ => exact trivial

/-- The layout of an accepted request is that of a remote afterwards. -/
theorem layout_stored (db : Db) (remoteId name : String) {req : RemoteReq} (uuid : Nat → String)
    {buttons : List ButtonReq} (posted : req.buttons = some buttons) :
    ∃ remote ∈ (putRemote db remoteId name req uuid).remotes,
      buttonIds remote = postedIds uuid buttons := by
  unfold putRemote
  cases found : findRemote db remoteId with
  | none =>
      refine ⟨_, List.mem_append_right _ (List.mem_singleton_self _), ?_⟩
      rw [posted]
      exact ids_normalizeButtons none uuid buttons
  | some existing =>
      have assigned := Collection.find_assign_self Remote.id remoteId (fun remote =>
        { remote with
          name
          icon := req.icon.getD remote.icon
          buttons := normalizeButtons (some existing) uuid req.buttons }) (by intro; rfl) db.remotes
      rw [show Collection.find Remote.id remoteId db.remotes = some existing from found] at assigned
      refine ⟨_, Collection.mem_of_find assigned, ?_⟩
      rw [posted]
      exact ids_normalizeButtons (some existing) uuid buttons

/-- A request that breaks the rule leaves two buttons of one id. -/
theorem distinct_of_unique {s t : State} {e : Event} (fresh : FreshIds e) (step : next s e = some t)
    (unique : Unique t.db) : DistinctIds e := by
  cases e with
  | turn e =>
      cases e with
      | postRemotes req uuid =>
          rintro buttons ⟨⟨name, named, notEmpty⟩, posted⟩
          simp only [next, Server.next, postRemotes_named s.db req uuid named notEmpty] at step
          cases step
          obtain ⟨remote, inside, ids⟩ := layout_stored s.db (targetId req name) name uuid posted
          have distinct := (unique.buttons remote inside).1
          rw [ids, nodup_postedIds (fresh buttons ⟨⟨name, named, notEmpty⟩, posted⟩)] at distinct
          exact distinct
      | _ => exact trivial
  | _ => exact trivial

theorem unique_next {s t : State} {e : Event} (unique : Unique s.db) (fresh : FreshIds e)
    (distinct : DistinctIds e) (step : next s e = some t) : Unique t.db := by
  have records := records_next ⟨unique.routines, unique.rules⟩ step
  refine ⟨remoteIds_next unique.remotes step, records.routines, records.rules, ?_⟩
  refine layouts_next ⟨List.nodup_nil, List.not_mem_nil⟩ ?_ (allows_distinct fresh distinct) step
  exact unique.buttons

theorem unique_reached {s : State}
    (reached : (machine.restrict fun _ e => FreshIds e ∧ DistinctIds e).Reachable s) :
    Unique s.db := by
  have inv : (machine.restrict fun _ e => FreshIds e ∧ DistinctIds e).Invariant
      fun s => Unique s.db := by
    constructor
    · rintro s rfl
      exact ⟨List.nodup_nil, List.nodup_nil, List.nodup_nil, by rintro remote ⟨⟩⟩
    · rintro s e t unique ⟨⟨fresh, distinct⟩, step⟩
      exact unique_next unique fresh distinct step
  exact inv.reachable reached

/-- **Two ids name at most one button as long as no accepted layout brings an id twice**,
and no longer: the first that does leaves two buttons of one id. -/
theorem ids_unique {s : State}
    (reached : (machine.restrict fun _ e => FreshIds e ∧ DistinctIds e).Reachable s) :
    Unique s.db ∧
    (∀ remoteId buttonId x y, Names s.db remoteId buttonId x → Names s.db remoteId buttonId y →
      x = y) ∧
    ∀ e t, FreshIds e → next s e = some t → (Unique t.db ↔ DistinctIds e) := by
  have unique := unique_reached reached
  refine ⟨unique, fun _ _ _ _ first second => unique.names first second, ?_⟩
  intro e t fresh step
  exact ⟨distinct_of_unique fresh step, fun distinct => unique_next unique fresh distinct step⟩

/-! ## Twins -/

/-- A remote with two buttons, of these ids. -/
def twoButtons (first second : String) : RemoteReq :=
  ⟨some "tv", some "TV", none, some [⟨some first, some "On", none, none, none, none⟩,
    ⟨some second, some "Off", none, none, none, none⟩]⟩

def twoUuids (i : Nat) : String := if i = 0 then "1a2b3c4d" else "5e6f7a8b"

def postTwo (first second : String) : Event := .turn (.postRemotes (twoButtons first second) twoUuids)

theorem fresh_postTwo {first second : String}
    (new : ∀ i, "btn-" ++ twoUuids i ≠ first ∧ "btn-" ++ twoUuids i ≠ second) :
    FreshIds (postTwo first second) := by
  rintro _ ⟨-, ⟨⟩⟩
  constructor
  · intro i j iRange jRange same
    simp only [List.length_cons, List.length_nil] at iRange jRange
    have uuids : "1a2b3c4d" ≠ "5e6f7a8b" := by decide
    unfold twoUuids at same
    split at same
    · split at same
      · omega
      · exact absurd same uuids
    · split at same
      · exact absurd same.symm uuids
      · omega
  · intro i _ member
    obtain ⟨b, inside, given⟩ := List.mem_filterMap.mp member
    have brought : ∀ {s : String}, required (some s) = some ("btn-" ++ twoUuids i) →
        "btn-" ++ twoUuids i = s := by
      intro s given
      unfold required at given
      dsimp only at given
      split at given
      · cases given
      · exact (Option.some.inj given).symm
    rcases List.mem_cons.mp inside with rfl | inside
    · exact (new i).1 (brought given)
    · rw [List.mem_singleton.mp inside] at given
      exact (new i).2 (brought given)

theorem postTwo_accepted (first second : String) : ∃ t,
    next (initial Db.defaults) (postTwo first second) = some t := by
  have handled := postRemotes_named Db.defaults (twoButtons first second) twoUuids rfl (by decide)
  simp only [postTwo, next, Server.next, initial, handled]
  exact ⟨_, rfl⟩

theorem generated_ne (i : Nat) : "btn-" ++ twoUuids i ≠ "on" ∧ "btn-" ++ twoUuids i ≠ "off" := by
  unfold twoUuids
  split <;> decide

/-- The two buttons of a layout have one id. -/
theorem twins_posted : ∃ t, FreshIds (postTwo "on" "on") ∧
    next (initial Db.defaults) (postTwo "on" "on") = some t ∧ ¬Unique t.db := by
  have fresh : FreshIds (postTwo "on" "on") :=
    fresh_postTwo fun i => ⟨(generated_ne i).1, (generated_ne i).1⟩
  obtain ⟨t, step⟩ := postTwo_accepted "on" "on"
  refine ⟨t, fresh, step, fun unique => ?_⟩
  have distinct := distinct_of_unique fresh step unique _ ⟨⟨"TV", rfl, by decide⟩, rfl⟩
  exact absurd distinct (by decide)

theorem siblings_posted : ∃ t, next (initial Db.defaults) (postTwo "on" "off") = some t ∧
    Unique t.db := by
  obtain ⟨t, step⟩ := postTwo_accepted "on" "off"
  have fresh : FreshIds (postTwo "on" "off") := fresh_postTwo generated_ne
  have distinct : DistinctIds (postTwo "on" "off") := by
    rintro _ ⟨-, ⟨⟩⟩
    decide
  have reached : (machine.restrict fun _ e => FreshIds e ∧ DistinctIds e).Reachable t :=
    ⟨_, _, rfl, .single ⟨⟨fresh, distinct⟩, step⟩⟩
  exact ⟨t, step, (ids_unique reached).1⟩

end IrHub.Backend.Api
