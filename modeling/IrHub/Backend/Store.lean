/-
# Backend.Store -- the JSON store of `server.js` and the requests that edit remotes

The three collections of `db.json`.  Ids, names, labels and icons are strings and
rows and columns integers, as the clients send them; a learned signal is whatever
JSON came with it.  A request field is `none` where the body lacks it (or has
`null`, or a value of another type where the handler checks the type).

`signalAt` is what the rest of the system sees of a button.  The frame lemmas say
which requests can change it: a posted layout that names the button with a signal
of its own, or one without the button.

A request without an id makes one from the name.  It creates a remote exactly when
that id is not empty and not taken (`creates_iff`).
-/
import IrHub.Theory.Collection
import IrHub.Theory.Json

namespace IrHub.Backend.Store

set_option autoImplicit false

open IrHub.Theory

structure Button where
  id : String
  label : String
  row : Int
  col : Int
  icon : Option String
  signal : Json

structure Remote where
  id : String
  name : String
  icon : String
  buttons : List Button

structure RoutineStep where
  remoteId : String
  buttonId : String
  delayMs : Int
  deriving DecidableEq, Repr

structure Routine where
  id : String
  name : String
  steps : List RoutineStep
  deriving DecidableEq, Repr

/-- `action` of a rule. -/
inductive RuleAction where
  | button (remoteId buttonId : String)
  | routine (routineId : String)
  deriving DecidableEq, Repr

/-- `condition` of a rule. -/
inductive Condition where
  | below
  | above
  deriving DecidableEq, Repr

structure PriceRule where
  id : String
  name : String
  enabled : Bool
  condition : Condition
  thresholdCents : Rat
  action : RuleAction
  lastTriggeredState : Bool
  deriving DecidableEq

/-- `db` -/
structure Db where
  remotes : List Remote
  routines : List Routine
  priceRules : List PriceRule

/-- `db.defaults({ remotes: [], routines: [], priceRules: [] })` -/
def Db.defaults : Db := ⟨[], [], []⟩

/-- `res.status(status).json({ error })` -/
structure ApiError where
  status : Nat
  error : String
  deriving DecidableEq, Repr

/-! ## Lookup -/

def findRemote (db : Db) (remoteId : String) : Option Remote :=
  Collection.find Remote.id remoteId db.remotes

/-- `remote && remote.buttons.find((b) => b.id === buttonId)` -/
def findButton (db : Db) (remoteId buttonId : String) : Option Button :=
  (findRemote db remoteId).bind fun remote => Collection.find Button.id buttonId remote.buttons

/-- The signal of a button, `none` without the button. -/
def signalAt (db : Db) (remoteId buttonId : String) : Option Json :=
  (findButton db remoteId buttonId).map Button.signal

/-- A learned signal goes to the first match of both ids. -/
def assignSignal (db : Db) (remoteId buttonId : String) (signal : Json) : Db :=
  { db with
    remotes := Collection.assign Remote.id remoteId (fun remote =>
      { remote with
        buttons := Collection.assign Button.id buttonId (fun button => { button with signal })
          remote.buttons }) db.remotes }

/-! ## `POST /api/remotes` -/

/-- An element of `buttons` in the body. -/
structure ButtonReq where
  id : Option String
  label : Option String
  row : Option Int
  col : Option Int
  icon : Option String
  signal : Option Json

structure RemoteReq where
  id : Option String
  name : Option String
  icon : Option String
  buttons : Option (List ButtonReq)

/-- `s || other` for a string -/
def orElse (s : Option String) (other : String) : String :=
  match s with
  | none => other
  | some s => if s = "" then other else s

/-- `toLowerCase` as far as `[a-z0-9]` can tell: the Kelvin sign and the dotted
capital I are the letters outside ASCII that lower to one inside. -/
def lowerChar (c : Char) : List Char :=
  if c.val = 0x212A then ['k']
  else if c.val = 0x130 then ['i', Char.ofNat 0x307]
  else [c.toLower]

/-- What `trim` takes off. -/
def isBlank (c : Char) : Bool :=
  (9 ≤ c.val && c.val ≤ 13) || c.val == 0x20 || c.val == 0xA0 || c.val == 0x1680 ||
    (0x2000 ≤ c.val && c.val ≤ 0x200A) || c.val == 0x2028 || c.val == 0x2029 ||
    c.val == 0x202F || c.val == 0x205F || c.val == 0x3000 || c.val == 0xFEFF

def trim (cs : List Char) : List Char :=
  ((cs.dropWhile isBlank).reverse.dropWhile isBlank).reverse

/-- `[a-z0-9]` -/
def isSlugChar (c : Char) : Bool :=
  (97 ≤ c.val && c.val ≤ 122) || (48 ≤ c.val && c.val ≤ 57)

/-- `replace(/[^a-z0-9]+/g, '-')`; the flag says that a run is going on. -/
def dashRuns : Bool → List Char → List Char
  | _, [] => []
  | inRun, c :: cs =>
      if isSlugChar c then c :: dashRuns false cs
      else if inRun then dashRuns true cs
      else '-' :: dashRuns true cs

/-- `replace(/(^-|-$)/g, '')` -/
def stripDashes (cs : List Char) : List Char :=
  let cs := if cs.head? = some '-' then cs.tail else cs
  if cs.getLast? = some '-' then cs.dropLast else cs

/-- The id made from a name. -/
def slug (name : String) : String :=
  String.ofList (stripDashes (dashRuns false (trim (name.toList.flatMap lowerChar))))

/-- `remoteId` of a request. -/
def targetId (req : RemoteReq) (name : String) : String := orElse req.id (slug name)

/-- An element of `normalizedButtons`; `uuid` is what `uuidv4().slice(0, 8)` gives. -/
def normalizeButton (existing : Option Remote) (uuid : String) (idx : Nat) (b : ButtonReq) :
    Button where
  id := orElse b.id ("btn-" ++ uuid)
  label := orElse b.label ("Button " ++ toString (idx + 1))
  row := b.row.getD (idx / 3 : Nat)
  col := b.col.getD (idx % 3 : Nat)
  icon := match b.icon with
    | some icon => if icon = "" then none else some icon
    | none => none
  signal := match b.signal with
    | some signal => signal
    | none =>
        -- an element without an id is found nowhere
        match b.id, existing with
        | some id, some remote =>
            ((Collection.find Button.id id remote.buttons).map Button.signal).getD .null
        | _, _ => .null

/-- `normalizedButtons` -/
def normalizeButtons (existing : Option Remote) (uuid : Nat → String)
    (buttons : Option (List ButtonReq)) : List Button :=
  match buttons with
  | some buttons => buttons.mapIdx fun idx b => normalizeButton existing (uuid idx) idx b
  | none => (existing.map Remote.buttons).getD []

/-- The store after an accepted request for `remoteId`. -/
def putRemote (db : Db) (remoteId name : String) (req : RemoteReq) (uuid : Nat → String) : Db :=
  let existing := findRemote db remoteId
  let buttons := normalizeButtons existing uuid req.buttons
  match existing with
  | some _ =>
      { db with
        remotes := Collection.assign Remote.id remoteId (fun remote =>
          { remote with name, icon := req.icon.getD remote.icon, buttons }) db.remotes }
  | none =>
      { db with
        remotes := db.remotes ++ [⟨remoteId, name, orElse req.icon "remote", buttons⟩] }

/-- `POST /api/remotes` -/
def postRemotes (db : Db) (req : RemoteReq) (uuid : Nat → String) :
    Except ApiError (Db × Option Remote) :=
  match req.name with
  | none => .error ⟨400, "name is required"⟩
  | some name =>
      if name = "" then .error ⟨400, "name is required"⟩
      else
        let db := putRemote db (targetId req name) name req uuid
        .ok (db, findRemote db (targetId req name))

/-- `DELETE /api/remotes/:id` -/
def deleteRemote (db : Db) (id : String) : Db :=
  { db with remotes := Collection.remove Remote.id id db.remotes }

/-! ## What a request leaves of a signal -/

theorem findRemote_assignSignal_self (db : Db) (remoteId buttonId : String) (signal : Json) :
    findRemote (assignSignal db remoteId buttonId signal) remoteId =
      (findRemote db remoteId).map fun remote =>
        { remote with
          buttons := Collection.assign Button.id buttonId (fun button => { button with signal })
            remote.buttons } :=
  Collection.find_assign_self Remote.id remoteId _ (by intro; rfl) db.remotes

theorem findRemote_assignSignal_ne (db : Db) {remoteId other : String} (buttonId : String)
    (signal : Json) (ne : other ≠ remoteId) :
    findRemote (assignSignal db remoteId buttonId signal) other = findRemote db other :=
  Collection.find_assign_ne Remote.id ne _ (by intro; rfl) db.remotes

/-- The armed button holds the signal afterwards. -/
theorem signalAt_assignSignal_self {db : Db} {remoteId buttonId : String} {button : Button}
    (signal : Json) (found : findButton db remoteId buttonId = some button) :
    signalAt (assignSignal db remoteId buttonId signal) remoteId buttonId = some signal := by
  obtain ⟨remote, foundRemote, foundButton⟩ := Option.bind_eq_some_iff.mp found
  have assigned := Collection.find_assign_self Button.id buttonId
    (fun button => { button with signal }) (by intro; rfl) remote.buttons
  simp [signalAt, findButton, findRemote_assignSignal_self, foundRemote, assigned, foundButton]

/-- No other button changes its signal. -/
theorem signalAt_assignSignal_ne (db : Db) {remoteId buttonId remoteId' buttonId' : String}
    (signal : Json) (ne : ¬(remoteId' = remoteId ∧ buttonId' = buttonId)) :
    signalAt (assignSignal db remoteId buttonId signal) remoteId' buttonId' =
      signalAt db remoteId' buttonId' := by
  unfold signalAt findButton
  by_cases sameRemote : remoteId' = remoteId
  · subst sameRemote
    have otherButton : buttonId' ≠ buttonId := fun same => ne ⟨rfl, same⟩
    rw [findRemote_assignSignal_self]
    cases findRemote db remoteId' with
    | none => rfl
    | some remote =>
        have kept := Collection.find_assign_ne Button.id otherButton
          (fun button => { button with signal }) (by intro; rfl) remote.buttons
        simp only [Option.map_some, Option.bind_some, kept]
  · rw [findRemote_assignSignal_ne db buttonId signal sameRemote]

theorem signalAt_deleteRemote_self (db : Db) (remoteId buttonId : String) :
    signalAt (deleteRemote db remoteId) remoteId buttonId = none := by
  have gone : findRemote (deleteRemote db remoteId) remoteId = none :=
    Collection.find_remove_self Remote.id remoteId db.remotes
  simp [signalAt, findButton, gone]

theorem signalAt_deleteRemote_ne (db : Db) {id remoteId : String} (buttonId : String)
    (ne : remoteId ≠ id) :
    signalAt (deleteRemote db id) remoteId buttonId = signalAt db remoteId buttonId := by
  have kept : findRemote (deleteRemote db id) remoteId = findRemote db remoteId :=
    Collection.find_remove_ne Remote.id ne db.remotes
  simp [signalAt, findButton, kept]

theorem findRemote_putRemote_ne (db : Db) {remoteId other : String} (name : String)
    (req : RemoteReq) (uuid : Nat → String) (ne : other ≠ remoteId) :
    findRemote (putRemote db remoteId name req uuid) other = findRemote db other := by
  unfold putRemote
  cases findRemote db remoteId with
  | some remote => exact Collection.find_assign_ne Remote.id ne _ (by intro; rfl) db.remotes
  | none =>
      unfold findRemote
      simp [Collection.find_push, ne.symm]

/-- The posted layout is what the store holds for the remote. -/
theorem findButton_putRemote_self (db : Db) (remoteId name : String) (req : RemoteReq)
    (uuid : Nat → String) (buttonId : String) :
    findButton (putRemote db remoteId name req uuid) remoteId buttonId =
      Collection.find Button.id buttonId
        (normalizeButtons (findRemote db remoteId) uuid req.buttons) := by
  unfold findButton putRemote
  cases existing : findRemote db remoteId with
  | some remote =>
      unfold findRemote at existing ⊢
      simp only
      rw [Collection.find_assign_self Remote.id remoteId _ (by intro; rfl), existing]
      rfl
  | none =>
      unfold findRemote at existing ⊢
      simp [Collection.find_push, existing]

/-- A button of the normalized layout comes from the first element that names it. -/
theorem find_normalizeButtons (existing : Option Remote) {uuid : Nat → String}
    (buttons : List ButtonReq) {buttonId : String} (named : buttonId ≠ "")
    (generated : ∀ i, "btn-" ++ uuid i ≠ buttonId) :
    (Collection.find Button.id buttonId
        (normalizeButtons existing uuid (some buttons))).map Button.signal =
      (buttons.find? fun b => b.id = some buttonId).map fun b =>
        b.signal.getD (((existing.bind fun remote =>
          Collection.find Button.id buttonId remote.buttons).map Button.signal).getD .null) := by
  have names : ∀ i b, (normalizeButton existing (uuid i) i b).id = buttonId ↔
      decide (b.id = some buttonId) = true := by
    intro i b
    rw [decide_eq_true_iff]
    cases posted : b.id with
    | none => simp [normalizeButton, orElse, posted, generated]
    | some id =>
        by_cases empty : id = ""
        · simp [normalizeButton, orElse, posted, empty, generated, named.symm]
        · simp [normalizeButton, orElse, posted, empty]
  obtain ⟨unnamed, absent⟩ | ⟨i, b, first, made⟩ := Collection.find_mapIdx Button.id buttonId _
    (fun i b => normalizeButton existing (uuid i) i b) names buttons
  · rw [normalizeButtons, unnamed, absent]
    rfl
  · have id : b.id = some buttonId := by simpa using List.find?_some first
    rw [normalizeButtons, first, made, Option.map_some, Option.map_some]
    simp only [normalizeButton, id]
    cases b.signal <;> cases existing <;> rfl

/-- What a posted layout leaves of a signal: what its first element for the button
brings, and the stored one where that brings none. -/
theorem signalAt_putRemote_layout (db : Db) (remoteId name : String) {req : RemoteReq}
    {uuid : Nat → String} {buttons : List ButtonReq} {buttonId : String}
    (layout : req.buttons = some buttons) (named : buttonId ≠ "")
    (generated : ∀ i, "btn-" ++ uuid i ≠ buttonId) :
    signalAt (putRemote db remoteId name req uuid) remoteId buttonId =
      (buttons.find? fun b => b.id = some buttonId).map fun b =>
        b.signal.getD ((signalAt db remoteId buttonId).getD .null) := by
  rw [signalAt, findButton_putRemote_self, layout, find_normalizeButtons _ _ named generated]
  rfl

/-- Without a layout the buttons stay. -/
theorem signalAt_putRemote_none (db : Db) (remoteId name : String) {req : RemoteReq}
    (uuid : Nat → String) (buttonId : String) (layout : req.buttons = none) :
    signalAt (putRemote db remoteId name req uuid) remoteId buttonId =
      signalAt db remoteId buttonId := by
  rw [signalAt, findButton_putRemote_self, layout, signalAt, findButton]
  cases findRemote db remoteId <;> rfl

theorem id_normalizeButton_ne (existing : Option Remote) (uuid : String) (idx : Nat)
    (b : ButtonReq) : (normalizeButton existing uuid idx b).id ≠ "" := by
  have generated : "btn-" ++ uuid ≠ "" := by simp
  unfold normalizeButton orElse
  split
  · exact generated
  · split
    · exact generated
    · assumption

/-- No posted button is without an id. -/
theorem findButton_putRemote_unnamed (db : Db) (remoteId name : String) {req : RemoteReq}
    (uuid : Nat → String) {buttons : List ButtonReq} (layout : req.buttons = some buttons) :
    findButton (putRemote db remoteId name req uuid) remoteId "" = none := by
  rw [findButton_putRemote_self, layout, Collection.find, List.find?_eq_none]
  intro button member
  obtain ⟨i, inRange, rfl⟩ := List.mem_mapIdx.mp member
  simpa using id_normalizeButton_ne _ _ _ _

/-- Another remote's buttons stay. -/
theorem signalAt_putRemote_ne (db : Db) {remoteId other : String} (name : String)
    (req : RemoteReq) (uuid : Nat → String) (buttonId : String) (ne : other ≠ remoteId) :
    signalAt (putRemote db remoteId name req uuid) other buttonId = signalAt db other buttonId := by
  simp only [signalAt, findButton, findRemote_putRemote_ne db name req uuid ne]

/-- The request does not edit the button: it is for another remote, or its layout
still names the button and brings no signal for it.  Generated ids are new. -/
def KeepsButton (remoteId buttonId : String) (req : RemoteReq) (uuid : Nat → String) : Prop :=
  ∀ name, req.name = some name → targetId req name = remoteId →
    ∀ buttons, req.buttons = some buttons →
      (∃ b ∈ buttons, b.id = some buttonId) ∧
      (∀ b ∈ buttons, b.id = some buttonId → b.signal = none) ∧
      ∀ i, "btn-" ++ uuid i ≠ buttonId

theorem signalAt_putRemote {db : Db} {remoteId buttonId target name : String} {req : RemoteReq}
    {uuid : Nat → String} {signal : Json} (named : buttonId ≠ "")
    (keeps : target = remoteId → ∀ buttons, req.buttons = some buttons →
      (∃ b ∈ buttons, b.id = some buttonId) ∧
      (∀ b ∈ buttons, b.id = some buttonId → b.signal = none) ∧
      ∀ i, "btn-" ++ uuid i ≠ buttonId)
    (stored : signalAt db remoteId buttonId = some signal) :
    signalAt (putRemote db target name req uuid) remoteId buttonId = some signal := by
  by_cases same : target = remoteId
  · subst same
    cases layout : req.buttons with
    | none => rw [signalAt_putRemote_none db target name uuid buttonId layout, stored]
    | some buttons =>
        obtain ⟨⟨posted, member, id⟩, silent, generated⟩ := keeps rfl buttons layout
        obtain ⟨b, first⟩ := Option.isSome_iff_exists.mp
          (List.find?_isSome (p := fun b => b.id = some buttonId).mpr ⟨posted, member, by simpa⟩)
        have quiet := silent b (List.mem_of_find?_eq_some first) (by simpa using List.find?_some first)
        rw [signalAt_putRemote_layout db target name layout named generated, first, stored,
          Option.map_some, quiet]
        rfl
  · rw [signalAt_putRemote_ne db name req uuid buttonId (Ne.symm same), stored]

/-- What an accepted request has done. -/
theorem postRemotes_ok {db after : Db} {reply : Option Remote} {req : RemoteReq}
    {uuid : Nat → String} (handled : postRemotes db req uuid = .ok (after, reply)) :
    ∃ name, req.name = some name ∧ name ≠ "" ∧
      after = putRemote db (targetId req name) name req uuid ∧
      reply = findRemote after (targetId req name) := by
  unfold postRemotes at handled
  split at handled
  · cases handled
  · rename_i name posted
    split at handled
    · cases handled
    · rename_i named
      obtain ⟨rfl, rfl⟩ := Prod.mk.inj (Except.ok.inj handled)
      exact ⟨name, posted, named, rfl, rfl⟩

/-- A request that does not edit the button leaves its signal. -/
theorem signalAt_postRemotes {db after : Db} {reply : Option Remote}
    {remoteId buttonId : String} {req : RemoteReq} {uuid : Nat → String} {signal : Json}
    (named : buttonId ≠ "") (keeps : KeepsButton remoteId buttonId req uuid)
    (stored : signalAt db remoteId buttonId = some signal)
    (handled : postRemotes db req uuid = .ok (after, reply)) :
    signalAt after remoteId buttonId = some signal := by
  obtain ⟨name, posted, -, rfl, -⟩ := postRemotes_ok handled
  exact signalAt_putRemote named (keeps name posted) stored

/-! ## Creating a remote -/

/-- There is one remote more, with an id of its own, and the others are as they were. -/
def CreatesOne (db after : Db) : Prop :=
  ∃ remote, after.remotes.Perm (db.remotes ++ [remote]) ∧ remote.id ≠ "" ∧
    ∀ r ∈ db.remotes, r.id ≠ remote.id

/-- A request with a name is accepted. -/
theorem postRemotes_named (db : Db) (req : RemoteReq) (uuid : Nat → String) {name : String}
    (named : req.name = some name) (notEmpty : name ≠ "") :
    postRemotes db req uuid = .ok (putRemote db (targetId req name) name req uuid,
      findRemote (putRemote db (targetId req name) name req uuid) (targetId req name)) := by
  simp only [postRemotes, named, if_neg notEmpty]

theorem putRemote_new {db : Db} {remoteId : String} (name : String) (req : RemoteReq)
    (uuid : Nat → String) (unused : findRemote db remoteId = none) :
    ∃ remote, remote.id = remoteId ∧
      (putRemote db remoteId name req uuid).remotes = db.remotes ++ [remote] := by
  simp only [putRemote, unused]
  exact ⟨_, rfl, rfl⟩

/-- An id that is taken adds nothing. -/
theorem putRemote_taken {db : Db} {remoteId : String} {existing : Remote} (name : String)
    (req : RemoteReq) (uuid : Nat → String) (taken : findRemote db remoteId = some existing) :
    (putRemote db remoteId name req uuid).remotes.length = db.remotes.length := by
  simp only [putRemote, taken]
  exact Collection.length_assign Remote.id remoteId _ db.remotes

/-- **A request without an id creates a remote, and leaves the others alone, exactly
when the slug of its name is not empty and no remote has it.** -/
theorem creates_iff {db after : Db} {reply : Option Remote} {req : RemoteReq}
    {uuid : Nat → String} {name : String} (noId : req.id = none) (named : req.name = some name)
    (handled : postRemotes db req uuid = .ok (after, reply)) :
    CreatesOne db after ↔ slug name ≠ "" ∧ ∀ r ∈ db.remotes, r.id ≠ slug name := by
  obtain ⟨posted, same, -, rfl, -⟩ := postRemotes_ok handled
  obtain rfl : posted = name := Option.some.inj (same.symm.trans named)
  have target : targetId req posted = slug posted := by rw [targetId, noId, orElse]
  rw [target]
  constructor
  · rintro ⟨remote, added, notEmpty, fresh⟩
    cases found : findRemote db (slug posted) with
    | some existing =>
        have more := added.length_eq
        rw [putRemote_taken posted req uuid found, List.length_append] at more
        simp at more
    | none =>
        obtain ⟨new, id, pushed⟩ := putRemote_new posted req uuid found
        rw [pushed, List.perm_append_left_iff, List.singleton_perm_singleton] at added
        rw [← id, added]
        exact ⟨notEmpty, fresh⟩
  · rintro ⟨notEmpty, fresh⟩
    obtain ⟨remote, id, pushed⟩ :=
      putRemote_new posted req uuid (Collection.find_eq_none_iff.mpr fresh)
    refine ⟨remote, .of_eq pushed, ?_, ?_⟩
    · rw [id]
      exact notEmpty
    · rw [id]
      exact fresh

/-- A hub with one remote, whose only button is learned. -/
def oneRemote : Db :=
  ⟨[⟨"tv", "TV", "remote", [⟨"power", "Power", 0, 0, none, .obj []⟩]⟩], [], []⟩

/-- What `addRemote` posts. -/
def addRemote (name : String) : RemoteReq := ⟨none, some name, none, some []⟩

theorem creates_iff_bedroom : ∃ after reply,
    postRemotes oneRemote (addRemote "Bedroom A/C") (fun _ => "1a2b3c4d") = .ok (after, reply) ∧
      CreatesOne oneRemote after := by
  have slugged : slug "Bedroom A/C" = "bedroom-a-c" := by decide +kernel
  have handled := postRemotes_named oneRemote (addRemote "Bedroom A/C") (fun _ => "1a2b3c4d")
    rfl (by decide)
  refine ⟨_, _, handled, (creates_iff rfl rfl handled).mpr ?_⟩
  rw [slugged]
  exact ⟨by decide, by simp [oneRemote]⟩

/-- A second remote of the same name replaces the first one's buttons, and a name
without a letter or digit of ASCII gives an empty id. -/
theorem create_overwrites :
    (∃ after reply,
      postRemotes oneRemote (addRemote "tv!") (fun _ => "1a2b3c4d") = .ok (after, reply) ∧
        ¬CreatesOne oneRemote after ∧ signalAt oneRemote "tv" "power" = some (.obj []) ∧
        signalAt after "tv" "power" = none) ∧
    ∃ after reply,
      postRemotes oneRemote (addRemote "空调") (fun _ => "1a2b3c4d") = .ok (after, reply) ∧
        ¬CreatesOne oneRemote after ∧ after.remotes.map Remote.id = ["tv", ""] := by
  have taken : targetId (addRemote "tv!") "tv!" = "tv" := by decide +kernel
  have empty : targetId (addRemote "空调") "空调" = "" := by decide +kernel
  have first := postRemotes_named oneRemote (addRemote "tv!") (fun _ => "1a2b3c4d") rfl
    (by decide)
  have second := postRemotes_named oneRemote (addRemote "空调") (fun _ => "1a2b3c4d") rfl
    (by decide)
  rw [taken] at first
  rw [empty] at second
  refine ⟨⟨_, _, first, ?_, rfl, rfl⟩, _, _, second, ?_, rfl⟩
  · rintro ⟨remote, added, -, -⟩
    have kept := putRemote_taken "tv!" (addRemote "tv!") (fun _ => "1a2b3c4d")
      (show findRemote oneRemote "tv" = some _ from rfl)
    have more := added.length_eq
    rw [kept, List.length_append] at more
    simp at more
  · rintro ⟨remote, added, notEmpty, -⟩
    have new := (List.perm_append_left_iff oneRemote.remotes).mp added
    rw [List.singleton_perm_singleton] at new
    exact notEmpty (new ▸ rfl)

end IrHub.Backend.Store
