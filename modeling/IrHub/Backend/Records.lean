/-
# Backend.Records -- the requests that edit routines and price rules

Each handler checks the body, makes a record of it and puts that in its collection: over
the record with its id, or else behind the others.  As in `Store`, a field of a request
is `none` where the body lacks it or has a value that the handler does not take.
-/
import IrHub.Backend.Server

namespace IrHub.Backend.Records

set_option autoImplicit false

open IrHub.Theory IrHub.Backend.Store
open IrHub.Backend.Server (required)

/-! ## `POST /api/routines` -/

/-- An element of `steps` in the body. -/
structure StepReq where
  remoteId : String
  buttonId : String
  delayMs : Option Int

structure RoutineReq where
  id : Option String
  name : Option String
  steps : Option (List StepReq)

/-- An element of `normalizedSteps`. -/
def normalizeStep (s : StepReq) : RoutineStep := ⟨s.remoteId, s.buttonId, s.delayMs.getD 0⟩

/-- What an accepted body says; `uuid` is what `uuidv4().slice(0, 8)` gives. -/
def routineOf (req : RoutineReq) (uuid : String) : Except ApiError Routine :=
  match required req.name, req.steps with
  | none, _ => .error ⟨400, "name is required"⟩
  | some _, none => .error ⟨400, "steps must be a non-empty array"⟩
  | some _, some [] => .error ⟨400, "steps must be a non-empty array"⟩
  | some name, some steps =>
      .ok ⟨orElse req.id ("routine-" ++ uuid), name, steps.map normalizeStep⟩

/-- `assign({ name, steps })` -/
def editRoutine (new old : Routine) : Routine := { old with name := new.name, steps := new.steps }

def putRoutine (routines : List Routine) (routine : Routine) : List Routine :=
  match Collection.find Routine.id routine.id routines with
  | some _ => Collection.assign Routine.id routine.id (editRoutine routine) routines
  | none => routines ++ [routine]

/-- `POST /api/routines` -/
def postRoutines (db : Db) (req : RoutineReq) (uuid : String) :
    Except ApiError (Db × Option Routine) :=
  match routineOf req uuid with
  | .error e => .error e
  | .ok routine =>
      let routines := putRoutine db.routines routine
      .ok ({ db with routines }, Collection.find Routine.id routine.id routines)

/-- `DELETE /api/routines/:id` -/
def deleteRoutine (db : Db) (id : String) : Db :=
  { db with routines := Collection.remove Routine.id id db.routines }

/-! ## `POST /api/rules` -/

structure RuleReq where
  id : Option String
  name : Option String
  enabled : Option Bool
  condition : Option Condition
  thresholdCents : Option Rat
  action : Option RuleAction

/-- What an accepted body says of a rule, but for what the rule remembers. -/
def ruleOf (req : RuleReq) (uuid : String) : Except ApiError PriceRule :=
  match required req.name with
  | none => .error ⟨400, "name is required"⟩
  | some name =>
      match req.condition with
      | none => .error ⟨400, "condition must be 'below' or 'above'"⟩
      | some condition =>
          match req.thresholdCents with
          | none => .error ⟨400, "thresholdCents must be a number"⟩
          | some thresholdCents =>
              match req.action with
              | none => .error ⟨400, "action.type must be 'button' or 'routine'"⟩
              | some action =>
                  .ok {
                    id := orElse req.id ("rule-" ++ uuid)
                    name
                    enabled := req.enabled != some false
                    condition
                    thresholdCents
                    action
                    lastTriggeredState := false }

/-- `assign(record)` keeps what the rule remembers. -/
def editRule (new old : PriceRule) : PriceRule :=
  { new with lastTriggeredState := old.lastTriggeredState }

def putRule (rules : List PriceRule) (rule : PriceRule) : List PriceRule :=
  match Collection.find PriceRule.id rule.id rules with
  | some _ => Collection.assign PriceRule.id rule.id (editRule rule) rules
  | none => rules ++ [rule]

/-- `POST /api/rules` -/
def postRules (db : Db) (req : RuleReq) (uuid : String) :
    Except ApiError (Db × Option PriceRule) :=
  match ruleOf req uuid with
  | .error e => .error e
  | .ok rule =>
      let priceRules := putRule db.priceRules rule
      .ok ({ db with priceRules }, Collection.find PriceRule.id rule.id priceRules)

/-- `DELETE /api/rules/:id` -/
def deleteRule (db : Db) (id : String) : Db :=
  { db with priceRules := Collection.remove PriceRule.id id db.priceRules }

/-- `evaluateRules` writes `lastTriggeredState` of a rule. -/
def writeTriggered (db : Db) (ruleId : String) (met : Bool) : Db :=
  { db with
    priceRules := Collection.assign PriceRule.id ruleId
      (fun rule => { rule with lastTriggeredState := met }) db.priceRules }

end IrHub.Backend.Records
