/-
# Backend.Persist -- `db.json`, and what a restart makes of it

lowdb keeps the store in memory.  A chain that ends in `.write()` changes it there and then
writes all of it into the file, two blanks for each level; the file is read once, when the
process starts.  `turn` is one turn of the backend with its write, and beside it there is a
restart: of the process nothing is left but the file.

The file does not keep an infinity, and a store that is nested too deep for the stack is not
written at all.  Apart from these (`Lasts`), it is always the text of the store
(`persistent_next`), so that a restart finds every remote, routine and rule as it was, with
every signal and with what the rules remember (`restart_keeps_store`).
-/
import IrHub.Theory.JsonText
import IrHub.Backend.Api
import IrHub.Backend.Learn

namespace IrHub.Backend.Persist

set_option autoImplicit false

open IrHub.Theory IrHub.Backend.Store IrHub.Backend.Records
open IrHub.Theory.Double (IsFinite IsDouble infinity finite_natCast)
open IrHub.Backend.Server (initial Stack learnedOn)

/-! ## The store as JSON -/

def text (s : String) : Json := .str s.toByteArray.data.toList

def buttonJson (b : Button) : Json :=
  .obj [(bytes "id", text b.id), (bytes "label", text b.label), (bytes "row", .num b.row),
    (bytes "col", .num b.col), (bytes "icon", (b.icon.map text).getD .null),
    (bytes "signal", b.signal)]

def remoteJson (remote : Remote) : Json :=
  .obj [(bytes "id", text remote.id), (bytes "name", text remote.name),
    (bytes "icon", text remote.icon), (bytes "buttons", .arr (remote.buttons.map buttonJson))]

def stepJson (step : RoutineStep) : Json :=
  .obj [(bytes "remoteId", text step.remoteId), (bytes "buttonId", text step.buttonId),
    (bytes "delayMs", .num step.delayMs)]

def routineJson (routine : Routine) : Json :=
  .obj [(bytes "id", text routine.id), (bytes "name", text routine.name),
    (bytes "steps", .arr (routine.steps.map stepJson))]

def actionJson : RuleAction → Json
  | .button remoteId buttonId =>
      .obj [(bytes "type", text "button"), (bytes "remoteId", text remoteId),
        (bytes "buttonId", text buttonId)]
  | .routine routineId =>
      .obj [(bytes "type", text "routine"), (bytes "routineId", text routineId)]

def conditionText : Condition → String
  | .below => "below"
  | .above => "above"

def ruleJson (rule : PriceRule) : Json :=
  .obj [(bytes "id", text rule.id), (bytes "name", text rule.name),
    (bytes "enabled", .bool rule.enabled),
    (bytes "condition", text (conditionText rule.condition)),
    (bytes "thresholdCents", .num rule.thresholdCents),
    (bytes "action", actionJson rule.action),
    (bytes "lastTriggeredState", .bool rule.lastTriggeredState)]

/-- `db.getState()` -/
def state (db : Db) : Json :=
  .obj [(bytes "remotes", .arr (db.remotes.map remoteJson)),
    (bytes "routines", .arr (db.routines.map routineJson)),
    (bytes "priceRules", .arr (db.priceRules.map ruleJson))]

/-! ## The file -/

/-- `serialize` -/
def serialize (v : Json) : List UInt8 := Json.render Json.indented 0 v

/-- The characters that `trim` takes off, in UTF-8. -/
def blanks : List (List UInt8) :=
  [[9], [10], [11], [12], [13], [32], [194, 160], [225, 154, 128]] ++
    (List.range 11).map (fun k => [226, 128, UInt8.ofNat (128 + k)]) ++
    [[226, 128, 168], [226, 128, 169], [226, 128, 175], [226, 129, 159], [227, 128, 128],
      [239, 187, 191]]

/-- Takes off what the text starts with, one character in each round. -/
def trimStart (characters : List (List UInt8)) : Nat → List UInt8 → List UInt8
  | 0, text => text
  | rounds + 1, text =>
      match characters.find? fun character => character.isPrefixOf text with
      | some character => trimStart characters rounds (text.drop character.length)
      | none => text

def trim (text : List UInt8) : List UInt8 :=
  let text := trimStart blanks text.length text
  (trimStart (blanks.map List.reverse) text.length text.reverse).reverse

/-- `adapter.read()`; `none` when it throws. -/
def read : Option (List UInt8) → Option Json
  | none => some (.obj [])
  | some data => if trim data = [] then some (.obj []) else Json.parse (trim data)

/-- `db.defaults({ remotes: [], routines: [], priceRules: [] })` -/
def defaults : Json → Json
  | .obj members =>
      .obj (members ++ ([bytes "remotes", bytes "routines", bytes "priceRules"].filter
        fun key => !members.any fun member => member.1 == key).map fun key => (key, .arr []))
  | v => v

/-! ## The backend and its file -/

structure State where
  backend : Server.State
  file : Option (List UInt8)

inductive Event where
  | turn (e : Api.Event)
  | restart

/-- The turn gets to a `.write()`. -/
def writes (s : Server.State) : Api.Event → Bool
  | .turn (.postRemotes req uuid) => (postRemotes s.db req uuid).isOk
  | .turn (.deleteRemote _) => true
  | .turn (.learned payload) =>
      match Json.parse payload, s.learnSession with
      | some signal, some session =>
          !Server.logThrows signal && (findButton s.db session.remoteId session.buttonId).isSome
      | _, _ => false
  | .turn _ => false
  | .postRoutines req uuid => (postRoutines s.db req uuid).isOk
  | .deleteRoutine _ => true
  | .postRules req uuid => (postRules s.db req uuid).isOk
  | .deleteRule _ => true
  | .evaluated _ _ => true

/-- A turn of the process, whose stack has an end. -/
def next (stack : Stack) (s : Server.State) : Api.Event → Option Server.State
  | .turn (.learned payload) => learnedOn stack s payload
  | e => Api.next s e

/-- A turn, with its write; what the stack is not deep enough for leaves the file as it was. -/
def turn (stack : Stack) (s : State) (e : Api.Event) : Option State :=
  (next stack s.backend e).map fun backend =>
    ⟨backend, if writes s.backend e && stack.writes backend.db then
      some (serialize (state backend.db)) else s.file⟩

/-- The process starts over a file: it reads the store, adds what is missing and writes it. -/
def Starts (stack : Stack) (file : Option (List UInt8)) (t : State) : Prop :=
  ∃ db, (read file).map defaults = some (state db) ∧ stack.writes db = true ∧
    t = ⟨initial db, some (serialize (state db))⟩

def machine (stack : Stack) : Machine State Event where
  init := Starts stack none
  step s e t := match e with
    | .turn e => turn stack s e = some t
    | .restart => Starts stack s.file t

theorem next_api {stack : Stack} {s t : Server.State} {e : Api.Event}
    (step : next stack s e = some t) : Api.next s e = some t := by
  unfold next at step
  split at step
  · exact Learn.learned_of_on step
  · exact step

/-! ## The JSON of a store tells it from any other -/

theorem text_inj {a b : String} (same : text a = text b) : a = b := by
  have bytes := Array.toList_inj.mp (Json.str.inj same)
  exact String.toByteArray_inj.mp (ByteArray.ext bytes)

theorem map_inj {α : Type} {f : α → Json} (inj : ∀ {a b}, f a = f b → a = b) {xs ys : List α}
    (same : Json.arr (xs.map f) = .arr (ys.map f)) : xs = ys :=
  List.map_injective_iff.mpr (fun _ _ => inj) (Json.arr.inj same)

theorem icon_inj {a b : Option String}
    (same : (a.map text).getD .null = (b.map text).getD .null) : a = b := by
  cases a with
  | none =>
      cases b with
      | none => rfl
      | some icon => cases same
  | some icon =>
      cases b with
      | none => cases same
      | some other => exact congrArg some (text_inj same)

theorem buttonJson_inj {a b : Button} (same : buttonJson a = buttonJson b) : a = b := by
  simp only [buttonJson, Json.obj.injEq, List.cons.injEq, Prod.mk.injEq, true_and, and_true,
    Json.num.injEq, Int.cast_inj] at same
  obtain ⟨id, label, row, col, icon, signal⟩ := same
  obtain ⟨_, _, _, _, _, _⟩ := a
  cases b
  obtain rfl := text_inj id
  obtain rfl := text_inj label
  obtain rfl := icon_inj icon
  cases row
  cases col
  cases signal
  rfl

theorem remoteJson_inj {a b : Remote} (same : remoteJson a = remoteJson b) : a = b := by
  simp only [remoteJson, Json.obj.injEq, List.cons.injEq, Prod.mk.injEq, true_and,
    and_true] at same
  obtain ⟨id, name, icon, buttons⟩ := same
  cases a
  cases b
  obtain rfl := text_inj id
  obtain rfl := text_inj name
  obtain rfl := text_inj icon
  obtain rfl := map_inj buttonJson_inj buttons
  rfl

theorem stepJson_inj {a b : RoutineStep} (same : stepJson a = stepJson b) : a = b := by
  simp only [stepJson, Json.obj.injEq, List.cons.injEq, Prod.mk.injEq, true_and, and_true,
    Json.num.injEq, Int.cast_inj] at same
  obtain ⟨remoteId, buttonId, delayMs⟩ := same
  cases a
  cases b
  obtain rfl := text_inj remoteId
  obtain rfl := text_inj buttonId
  cases delayMs
  rfl

theorem routineJson_inj {a b : Routine} (same : routineJson a = routineJson b) : a = b := by
  simp only [routineJson, Json.obj.injEq, List.cons.injEq, Prod.mk.injEq, true_and,
    and_true] at same
  obtain ⟨id, name, steps⟩ := same
  cases a
  cases b
  obtain rfl := text_inj id
  obtain rfl := text_inj name
  obtain rfl := map_inj stepJson_inj steps
  rfl

theorem actionJson_inj {a b : RuleAction} (same : actionJson a = actionJson b) : a = b := by
  cases a with
  | button remoteId buttonId =>
      cases b with
      | button remoteId' buttonId' =>
          simp only [actionJson, Json.obj.injEq, List.cons.injEq, Prod.mk.injEq, true_and,
            and_true] at same
          rw [text_inj same.1, text_inj same.2]
      | routine _ => simp [actionJson] at same
  | routine routineId =>
      cases b with
      | button _ _ => simp [actionJson] at same
      | routine routineId' =>
          simp only [actionJson, Json.obj.injEq, List.cons.injEq, Prod.mk.injEq, true_and,
            and_true] at same
          rw [text_inj same]

theorem ruleJson_inj {a b : PriceRule} (same : ruleJson a = ruleJson b) : a = b := by
  simp only [ruleJson, Json.obj.injEq, List.cons.injEq, Prod.mk.injEq, true_and, and_true,
    Json.num.injEq, Json.bool.injEq] at same
  obtain ⟨id, name, enabled, condition, threshold, action, last⟩ := same
  have condition : a.condition = b.condition := by
    have words := text_inj condition
    cases here : a.condition <;> cases there : b.condition <;> rw [here, there] at words <;>
      first | rfl | exact absurd words (by decide)
  cases a
  cases b
  obtain rfl := text_inj id
  obtain rfl := text_inj name
  obtain rfl := actionJson_inj action
  cases enabled
  cases condition
  cases threshold
  cases last
  rfl

theorem state_inj {a b : Db} (same : state a = state b) : a = b := by
  simp only [state, Json.obj.injEq, List.cons.injEq, Prod.mk.injEq, true_and, and_true] at same
  obtain ⟨remotes, routines, rules⟩ := same
  cases a
  cases b
  obtain rfl := map_inj remoteJson_inj remotes
  obtain rfl := map_inj routineJson_inj routines
  obtain rfl := map_inj ruleJson_inj rules
  rfl

/-! ## What can be printed -/

/-- A button whose JSON comes back as it is. -/
structure Lasting (b : Button) : Prop where
  row : IsFinite b.row
  col : IsFinite b.col
  signal : b.signal.WellFormed IsFinite

/-- No number of the store is infinite. -/
structure Printable (db : Db) : Prop where
  buttons : ∀ remote ∈ db.remotes, ∀ b ∈ remote.buttons, Lasting b
  delays : ∀ routine ∈ db.routines, ∀ step ∈ routine.steps, IsFinite step.delayMs
  thresholds : ∀ rule ∈ db.priceRules, IsFinite rule.thresholdCents

section WellFormed

variable {number : Rat → Prop}

theorem allWellFormed_map {α : Type} {f : α → Json} {xs : List α}
    (each : ∀ x ∈ xs, (f x).WellFormed number) : Json.AllWellFormed number (xs.map f) := by
  induction xs with
  | nil => trivial
  | cons x xs ih =>
      exact ⟨each x List.mem_cons_self, ih fun y member => each y (List.mem_cons_of_mem x member)⟩

/-- The names of a record are fixed, so that its values decide. -/
theorem wellFormed_record (names : List String) {members : List (List UInt8 × Json)}
    (named : members.map Prod.fst = names.map bytes)
    (ordered : (names.map bytes).Pairwise fun key other => Json.precedes key other = true)
    (values : Json.MembersWellFormed number members) : (Json.obj members).WellFormed number :=
  ⟨by rw [Json.Ordered, named]; exact ordered, values⟩

theorem wellFormed_button {b : Button} (row : number b.row) (col : number b.col)
    (signal : b.signal.WellFormed number) : (buttonJson b).WellFormed number := by
  have icon : ((b.icon.map text).getD .null).WellFormed number := by
    cases b.icon <;> trivial
  exact wellFormed_record ["id", "label", "row", "col", "icon", "signal"] rfl (by decide)
    ⟨trivial, trivial, row, col, icon, signal, trivial⟩

theorem wellFormed_remote {remote : Remote}
    (buttons : ∀ b ∈ remote.buttons, (buttonJson b).WellFormed number) :
    (remoteJson remote).WellFormed number :=
  wellFormed_record ["id", "name", "icon", "buttons"] rfl (by decide)
    ⟨trivial, trivial, trivial, allWellFormed_map buttons, trivial⟩

end WellFormed

theorem wellFormed_state {db : Db} (printable : Printable db) :
    (state db).WellFormed IsFinite := by
  have remotes : Json.AllWellFormed IsFinite (db.remotes.map remoteJson) := by
    refine allWellFormed_map fun remote member => wellFormed_remote fun b inside => ?_
    have lasting := printable.buttons remote member b inside
    exact wellFormed_button lasting.row lasting.col lasting.signal
  have routines : Json.AllWellFormed IsFinite (db.routines.map routineJson) := by
    refine allWellFormed_map fun routine member => ?_
    have steps : Json.AllWellFormed IsFinite (routine.steps.map stepJson) :=
      allWellFormed_map fun step inside =>
        wellFormed_record ["remoteId", "buttonId", "delayMs"] rfl (by decide)
          ⟨trivial, trivial, printable.delays routine member step inside, trivial⟩
    exact wellFormed_record ["id", "name", "steps"] rfl (by decide)
      ⟨trivial, trivial, steps, trivial⟩
  have rules : Json.AllWellFormed IsFinite (db.priceRules.map ruleJson) := by
    refine allWellFormed_map fun rule member => ?_
    have action : (actionJson rule.action).WellFormed IsFinite := by
      cases rule.action with
      | button _ _ =>
          exact wellFormed_record ["type", "remoteId", "buttonId"] rfl (by decide)
            ⟨trivial, trivial, trivial, trivial⟩
      | routine _ =>
          exact wellFormed_record ["type", "routineId"] rfl (by decide) ⟨trivial, trivial, trivial⟩
    exact wellFormed_record ["id", "name", "enabled", "condition", "thresholdCents", "action",
      "lastTriggeredState"] rfl (by decide) ⟨trivial, trivial, trivial, trivial,
        printable.thresholds rule member, action, trivial, trivial⟩
  exact wellFormed_record ["remotes", "routines", "priceRules"] rfl (by decide)
    ⟨remotes, routines, rules, trivial⟩

/-! ## What is read of a written store -/

theorem trimStart_solid {characters : List (List UInt8)} {b : UInt8}
    (solid : ∀ character ∈ characters, ∃ c rest, character = c :: rest ∧ c ≠ b) (rounds : Nat)
    (rest : List UInt8) : trimStart characters rounds (b :: rest) = b :: rest := by
  cases rounds with
  | zero => rfl
  | succ rounds =>
      have none : (characters.find? fun character => character.isPrefixOf (b :: rest)) = none := by
        refine List.find?_eq_none.mpr fun character member => ?_
        obtain ⟨c, more, rfl, other⟩ := solid character member
        simp [List.isPrefixOf, other]
      rw [trimStart, none]

/-- Text from one brace to another has nothing to take off. -/
theorem trim_braces (middle : List UInt8) :
    trim (123 :: (middle ++ [125])) = 123 :: (middle ++ [125]) := by
  have opens : ∀ character ∈ blanks, ∃ c rest, character = c :: rest ∧ c ≠ 123 := by
    have first : ∀ character ∈ blanks, character.head? ≠ none ∧ character.head? ≠ some 123 := by
      decide
    intro character member
    obtain ⟨some_, other⟩ := first character member
    cases character with
    | nil => exact absurd rfl some_
    | cons c rest => exact ⟨c, rest, rfl, fun same => other (congrArg some same)⟩
  have closes : ∀ character ∈ blanks.map List.reverse, ∃ c rest, character = c :: rest ∧
      c ≠ 125 := by
    have first : ∀ character ∈ blanks.map List.reverse, character.head? ≠ none ∧
        character.head? ≠ some 125 := by
      decide
    intro character member
    obtain ⟨some_, other⟩ := first character member
    cases character with
    | nil => exact absurd rfl some_
    | cons c rest => exact ⟨c, rest, rfl, fun same => other (congrArg some same)⟩
  have reversed : (123 :: (middle ++ [125])).reverse = 125 :: (123 :: middle).reverse := by
    rw [← List.cons_append, List.reverse_append]
    rfl
  rw [trim, trimStart_solid opens, reversed, trimStart_solid closes, ← reversed,
    List.reverse_reverse]

theorem serialize_braces (db : Db) : ∃ middle, serialize (state db) = 123 :: (middle ++ [125]) :=
  Json.render_object ..

theorem read_serialized {db : Db} (printable : Printable db) :
    read (some (serialize (state db))) = some (state db) := by
  obtain ⟨middle, braces⟩ := serialize_braces db
  have parsed := Json.parse_render Json.indented (wellFormed_state printable)
  have same : trim (serialize (state db)) = serialize (state db) := by
    rw [braces]
    exact trim_braces middle
  rw [read, same, if_neg (by rw [braces]; exact List.cons_ne_nil _ _)]
  exact parsed

theorem defaults_state (db : Db) : defaults (state db) = state db := by
  have all : ([bytes "remotes", bytes "routines", bytes "priceRules"].filter fun key =>
      !([(bytes "remotes", Json.arr (db.remotes.map remoteJson)),
        (bytes "routines", .arr (db.routines.map routineJson)),
        (bytes "priceRules", .arr (db.priceRules.map ruleJson))].any fun member =>
          member.1 == key)) = [] := by
    simp
  rw [state, defaults, all]
  rfl

/-- **The only state that a process starts in over a written store** has that store. -/
theorem starts_serialized {stack : Stack} {db : Db} (printable : Printable db)
    (fits : stack.writes db = true) (t : State) :
    Starts stack (some (serialize (state db))) t ↔
      t = ⟨initial db, some (serialize (state db))⟩ := by
  rw [Starts, read_serialized printable, Option.map_some, defaults_state]
  constructor
  · rintro ⟨other, same, -, rfl⟩
    rw [state_inj (Option.some.inj same)]
  · intro same
    exact ⟨db, rfl, fits, same⟩

theorem starts_none (stack : Stack) (t : State) :
    Starts stack none t ↔ stack.writes Db.defaults = true ∧
      t = ⟨initial Db.defaults, some (serialize (state Db.defaults))⟩ := by
  have blank : (read none).map defaults = some (state Db.defaults) := by
    simp [read, defaults, state, Db.defaults]
  rw [Starts, blank]
  constructor
  · rintro ⟨other, same, fits, rfl⟩
    rw [← state_inj (Option.some.inj same)] at fits ⊢
    exact ⟨fits, rfl⟩
  · rintro ⟨fits, same⟩
    exact ⟨Db.defaults, rfl, fits, same⟩

/-! ## Every change is written -/

/-- A turn without a write leaves the store. -/
theorem unwritten {s t : Server.State} {e : Api.Event} (step : Api.next s e = some t)
    (silent : writes s e = false) : t.db = s.db := by
  cases e with
  | turn e =>
      rcases Server.next_db step with same | ⟨req, uuid, reply, rfl, handled⟩ | ⟨id, rfl, -⟩ |
        ⟨payload, session, signal, button, rfl, armed, parsed, found, -⟩
      · exact same
      · rw [writes, handled] at silent
        cases silent
      · cases silent
      · simp only [writes, parsed, armed, found, Option.isSome_some, Bool.and_true,
          Bool.not_eq_false'] at silent
        simp only [Api.next, Server.next, Server.learned, parsed, silent, if_true] at step
        cases step
  | postRoutines req uuid =>
      cases step
      cases handled : postRoutines s.db req uuid with
      | error e => rfl
      | ok result =>
          rw [writes, handled] at silent
          cases silent
  | postRules req uuid =>
      cases step
      cases handled : postRules s.db req uuid with
      | error e => rfl
      | ok result =>
          rw [writes, handled] at silent
          cases silent
  | deleteRoutine id => cases silent
  | deleteRule id => cases silent
  | evaluated ruleId met => cases silent

/-- A value of a body or a message: it was parsed, and none of its numbers is infinite. -/
def Parsed (v : Json) : Prop := (∃ text, Json.parse text = some v) ∧ Json.revive v = v

theorem Parsed.wellFormed {v : Json} (parsed : Parsed v) : v.WellFormed IsFinite := by
  obtain ⟨⟨text, read⟩, same⟩ := parsed
  have wf := Json.wellFormed_revive (Json.wellFormed_parse read)
  rwa [same] at wf

theorem Parsed.finite {q : Rat} (parsed : Parsed (.num q)) : IsFinite q := parsed.wellFormed

/-- The JSON values in a request come from a body, as does the learned signal from its message. -/
def Posted : Api.Event → Prop
  | .turn (.postRemotes req _) => ∀ buttons, req.buttons = some buttons →
      buttons.length < 2 ^ 32 ∧ ∀ b ∈ buttons,
        (∀ row, b.row = some row → Parsed (.num row)) ∧
        (∀ col, b.col = some col → Parsed (.num col)) ∧
        ∀ signal, b.signal = some signal → Parsed signal
  | .turn (.learned payload) => ∀ signal, Json.parse payload = some signal → Parsed signal
  | .postRoutines req _ => ∀ steps, req.steps = some steps → ∀ step ∈ steps,
      ∀ delayMs, step.delayMs = some delayMs → Parsed (.num delayMs)
  | .postRules req _ => ∀ q, req.thresholdCents = some q → Parsed (.num q)
  | _ => True

/-- A default of a layout is an index, at most. -/
theorem finite_default {given : Option Int} {n : Nat}
    (posted : ∀ row, given = some row → Parsed (.num row)) (small : n < 2 ^ 32) :
    IsFinite (given.getD n) := by
  cases given with
  | none => exact_mod_cast finite_natCast (n := n) (by omega)
  | some row => exact (posted row rfl).finite

/-- A button of a layout has what was posted, or the signal that was stored, or no signal. -/
theorem lasting_normalized {existing : Option Remote} {uuid : Nat → String}
    {buttons : Option (List ButtonReq)}
    (posted : ∀ layout, buttons = some layout → layout.length < 2 ^ 32 ∧ ∀ b ∈ layout,
      (∀ row, b.row = some row → Parsed (.num row)) ∧
      (∀ col, b.col = some col → Parsed (.num col)) ∧
      ∀ signal, b.signal = some signal → Parsed signal)
    (stored : ∀ remote, existing = some remote → ∀ b ∈ remote.buttons, Lasting b) {b : Button}
    (member : b ∈ normalizeButtons existing uuid buttons) : Lasting b := by
  cases buttons with
  | none =>
      cases existing with
      | none => cases member
      | some remote => exact stored remote rfl b member
  | some layout =>
      obtain ⟨i, inside, rfl⟩ := List.mem_mapIdx.mp member
      obtain ⟨short, each⟩ := posted layout rfl
      obtain ⟨row, col, brings⟩ := each (layout[i]) (List.getElem_mem inside)
      refine ⟨finite_default row ?_, finite_default col ?_, ?_⟩
      · have := Nat.div_le_self i 3
        omega
      · have := Nat.mod_lt i (show 0 < 3 by decide)
        omega
      · show (normalizeButton existing (uuid i) i (layout[i])).signal.WellFormed IsFinite
        unfold normalizeButton
        dsimp only
        split
        · rename_i signal given
          exact (brings signal given).wellFormed
        · split
          · rename_i buttonId remote _
            cases found : Collection.find Button.id buttonId remote.buttons with
            | none => trivial
            | some old => exact (stored remote rfl old (Collection.mem_of_find found)).signal
          · trivial

theorem printable_turn {s t : Server.State} {e : Server.Event} (printable : Printable s.db)
    (posted : Posted (.turn e)) (step : Server.next s e = some t) : Printable t.db := by
  obtain ⟨routines, rules⟩ := Api.turn_records step
  refine ⟨?_, fun routine member => printable.delays routine (routines ▸ member),
    fun rule member => printable.thresholds rule (rules ▸ member)⟩
  rcases Server.next_db step with same | ⟨req, uuid, reply, rfl, handled⟩ | ⟨id, rfl, removed⟩ |
    ⟨payload, session, signal, button, rfl, -, parsed, -, assigned⟩
  · rw [same]
    exact printable.buttons
  · obtain ⟨name, -, -, put, -⟩ := postRemotes_ok handled
    rw [put]
    intro remote member b inside
    rcases Api.mem_putRemote member with old | ⟨-, layout⟩
    · exact printable.buttons remote old b inside
    · rw [layout] at inside
      exact lasting_normalized posted
        (fun existing found => printable.buttons existing (Collection.mem_of_find found)) inside
  · rw [removed]
    intro remote member
    exact printable.buttons remote (List.mem_filter.mp member).1
  · rw [assigned]
    intro remote member b inside
    rcases Collection.mem_assign Remote.id member with old | ⟨before, there, -, rfl⟩
    · exact printable.buttons remote old b inside
    · rcases Collection.mem_assign Button.id inside with old | ⟨button, here, -, rfl⟩
      · exact printable.buttons before there b old
      · have lasting := printable.buttons before there button here
        exact ⟨lasting.row, lasting.col, (posted signal parsed).wellFormed⟩

theorem delays_routineOf {req : RoutineReq} {uuid : String} {routine : Routine}
    (posted : ∀ steps, req.steps = some steps → ∀ step ∈ steps,
      ∀ delayMs, step.delayMs = some delayMs → Parsed (.num delayMs))
    (accepted : routineOf req uuid = .ok routine) :
    ∀ step ∈ routine.steps, IsFinite step.delayMs := by
  unfold routineOf at accepted
  split at accepted
  · cases accepted
  · cases accepted
  · cases accepted
  · rename_i name steps _ _ given
    cases accepted
    intro step member
    obtain ⟨request, inside, rfl⟩ := List.mem_map.mp member
    exact_mod_cast finite_default (n := 0) (posted steps given request inside) (by decide)

theorem delays_putRoutine {routines : List Routine}
    (delays : ∀ routine ∈ routines, ∀ step ∈ routine.steps, IsFinite step.delayMs) {new : Routine}
    (finite : ∀ step ∈ new.steps, IsFinite step.delayMs) :
    ∀ routine ∈ putRoutine routines new, ∀ step ∈ routine.steps, IsFinite step.delayMs := by
  intro routine member
  unfold putRoutine at member
  split at member
  · rcases Collection.mem_assign Routine.id member with old | ⟨before, -, -, rfl⟩
    · exact delays routine old
    · exact finite
  · rcases List.mem_append.mp member with old | pushed
    · exact delays routine old
    · rw [List.mem_singleton.mp pushed]
      exact finite

theorem threshold_ruleOf {req : RuleReq} {uuid : String} {rule : PriceRule}
    (accepted : ruleOf req uuid = .ok rule) : req.thresholdCents = some rule.thresholdCents := by
  unfold ruleOf at accepted
  cases name : Server.required req.name with
  | none => simp only [name, reduceCtorEq] at accepted
  | some name =>
      cases condition : req.condition with
      | none => simp only [name, condition, reduceCtorEq] at accepted
      | some condition =>
          cases threshold : req.thresholdCents with
          | none => simp only [name, condition, threshold, reduceCtorEq] at accepted
          | some q =>
              cases action : req.action with
              | none => simp only [name, condition, threshold, action, reduceCtorEq] at accepted
              | some action =>
                  simp only [name, condition, threshold, action, Except.ok.injEq] at accepted
                  rw [← accepted]

theorem thresholds_putRule {rules : List PriceRule}
    (thresholds : ∀ rule ∈ rules, IsFinite rule.thresholdCents) {new : PriceRule}
    (finite : IsFinite new.thresholdCents) :
    ∀ rule ∈ putRule rules new, IsFinite rule.thresholdCents := by
  intro rule member
  unfold putRule at member
  split at member
  · rcases Collection.mem_assign PriceRule.id member with old | ⟨before, -, -, rfl⟩
    · exact thresholds rule old
    · exact finite
  · rcases List.mem_append.mp member with old | pushed
    · exact thresholds rule old
    · rw [List.mem_singleton.mp pushed]
      exact finite

theorem printable_next {s t : Server.State} {e : Api.Event} (printable : Printable s.db)
    (posted : Posted e) (step : Api.next s e = some t) : Printable t.db := by
  cases e with
  | turn e => exact printable_turn printable posted step
  | postRoutines req uuid =>
      cases step
      cases accepted : routineOf req uuid with
      | error e =>
          simp only [postRoutines, accepted]
          exact printable
      | ok routine =>
          simp only [postRoutines, accepted]
          exact ⟨printable.buttons, delays_putRoutine printable.delays
            (delays_routineOf posted accepted), printable.thresholds⟩
  | deleteRoutine id =>
      cases step
      exact ⟨printable.buttons, fun routine member =>
        printable.delays routine (List.mem_filter.mp member).1, printable.thresholds⟩
  | postRules req uuid =>
      cases step
      cases accepted : ruleOf req uuid with
      | error e =>
          simp only [postRules, accepted]
          exact printable
      | ok rule =>
          simp only [postRules, accepted]
          have finite := (posted _ (threshold_ruleOf accepted)).finite
          exact ⟨printable.buttons, printable.delays,
            thresholds_putRule printable.thresholds finite⟩
  | deleteRule id =>
      cases step
      exact ⟨printable.buttons, printable.delays, fun rule member =>
        printable.thresholds rule (List.mem_filter.mp member).1⟩
  | evaluated ruleId met =>
      cases step
      refine ⟨printable.buttons, printable.delays, fun rule member => ?_⟩
      rcases Collection.mem_assign PriceRule.id member with old | ⟨before, there, -, rfl⟩
      · exact printable.thresholds rule old
      · exact printable.thresholds before there

/-! ## Restarts -/

/-- No number that comes in is infinite, and the stack is deep enough for every store that is
written. -/
def Lasts (stack : Stack) (s : State) : Event → Prop
  | .turn e => Posted e ∧
      ∀ t, next stack s.backend e = some t → writes s.backend e = true → stack.writes t.db = true
  | .restart => True

/-- The file is the text of the store. -/
structure Persistent (stack : Stack) (s : State) : Prop where
  printable : Printable s.backend.db
  fits : stack.writes s.backend.db = true
  file : s.file = some (serialize (state s.backend.db))

variable {stack : Stack}

theorem persistent_init {s : State} (start : (machine stack).init s) : Persistent stack s := by
  obtain ⟨fits, rfl⟩ := (starts_none stack s).mp start
  exact ⟨⟨nofun, nofun, nofun⟩, fits, rfl⟩

theorem persistent_next {s t : State} {e : Event} (persistent : Persistent stack s)
    (lasts : Lasts stack s e) (step : (machine stack).step s e t) : Persistent stack t := by
  obtain ⟨printable, fits, file⟩ := persistent
  cases e with
  | turn e =>
      obtain ⟨posted, written⟩ := lasts
      obtain ⟨backend, happens, rfl⟩ := Option.map_eq_some_iff.mp step
      have handled := next_api happens
      have printable' := printable_next printable posted handled
      cases writing : writes s.backend e with
      | true =>
          have fits' := written backend happens writing
          exact ⟨printable', fits', by simp [fits']⟩
      | false =>
          have same := unwritten handled writing
          exact ⟨printable', by rw [same]; exact fits, by simp [file, same]⟩
  | restart =>
      have starts : Starts stack s.file t := step
      rw [file] at starts
      obtain rfl := (starts_serialized printable fits t).mp starts
      exact ⟨printable, fits, rfl⟩

theorem persistent_invariant :
    ((machine stack).restrict (Lasts stack)).Invariant (Persistent stack) where
  base _ start := persistent_init start
  step _ _ _ persistent step := persistent_next persistent step.1 step.2

/-- **A restart keeps the store**, if no number in it is infinite and every write is within the
stack.  Wherever the process ends between two turns, the next one starts, and it has every
remote, routine and rule of the last one, with what the rules remember; only a learn session is
over.  The file stays as it is.  And what a client reads of the reply to `GET /api/remotes` is
the remotes of the store. -/
theorem restart_keeps_store {s : State}
    (reached : ((machine stack).restrict (Lasts stack)).Reachable s) :
    (∃ t, (machine stack).step s .restart t) ∧
    (∀ t, (machine stack).step s .restart t →
      t.backend = initial s.backend.db ∧ t.file = s.file) ∧
    Json.parse (Json.stringify (.arr (s.backend.db.remotes.map remoteJson))) =
      some (.arr (s.backend.db.remotes.map remoteJson)) := by
  obtain ⟨printable, fits, file⟩ := persistent_invariant.reachable reached
  have starts : ∀ t, (machine stack).step s .restart t ↔
      t = ⟨initial s.backend.db, some (serialize (state s.backend.db))⟩ := by
    intro t
    rw [← starts_serialized printable fits, ← file]
    rfl
  refine ⟨⟨_, (starts _).mpr rfl⟩, ?_, ?_⟩
  · intro t restart
    obtain rfl := (starts t).mp restart
    exact ⟨rfl, file.symm⟩
  · have remotes : Json.WellFormed IsFinite (.arr (s.backend.db.remotes.map remoteJson)) :=
      (wellFormed_state printable).2.1
    have read := Json.parse_render Json.compact remotes
    rwa [Json.render_compact] at read

/-- Below seven and a half cents the heating goes on. -/
def cheap : RuleReq :=
  ⟨none, some "Cheap", none, some .below, some (15 / 2), some (.button "heat" "on")⟩

theorem restart_keeps_store_cheap :
    ∃ s t, ((machine Stack.ample).restrict (Lasts Stack.ample)).Reachable s ∧
    s.backend.db.priceRules.map PriceRule.thresholdCents = [15 / 2] ∧
    (machine Stack.ample).step s .restart t ∧ t.backend = initial s.backend.db := by
  let start : State := ⟨initial Db.defaults, some (serialize (state Db.defaults))⟩
  have finite : IsFinite (15 / 2) := ⟨by decide +kernel, by decide +kernel⟩
  have parsed : Parsed (.num (15 / 2)) :=
    ⟨⟨_, Json.parse_render (v := .num (15 / 2)) Json.compact finite⟩, if_pos finite.bounded⟩
  have posted : Posted (.postRules cheap "1a2b") := by
    rintro _ ⟨⟩
    exact parsed
  have reached : ((machine Stack.ample).restrict (Lasts Stack.ample)).Reachable _ :=
    (Machine.Reachable.init ((starts_none _ start).mpr ⟨rfl, rfl⟩)).step
      (e := .turn (.postRules cheap "1a2b")) ⟨⟨posted, fun _ _ _ => rfl⟩, rfl⟩
  obtain ⟨⟨t, restart⟩, keeps, -⟩ := restart_keeps_store reached
  exact ⟨_, t, reached, rfl, restart, (keeps t restart).1⟩

end IrHub.Backend.Persist
