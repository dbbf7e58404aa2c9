/-
# Backend.SendPaths -- the two paths that publish a command

`POST /api/send` and `fireButton` look up the same button and make the same checks
of it, so both publish what `Sendable` says and nothing else (`fireButton_iff`,
`postSend_iff`).  The request refuses empty ids first.  No button has one, but a remote
gets one from a name without a letter or digit of ASCII: its buttons are fired by
routines and rules and not by a request (`paths_agree`).
-/
import IrHub.Backend.Api

namespace IrHub.Backend.SendPaths

set_option autoImplicit false

open IrHub.Theory IrHub.Backend.Store IrHub.Backend.Api
open IrHub.Backend.Server (State initial required fireButton postSend publish commandPayload
  isTruncated)

/-! ## What a path publishes -/

/-- The ids name a button, and `signal` is what it has learned, whole. -/
def Sendable (db : Db) (remoteId buttonId : String) (signal : Json) : Prop :=
  ∃ button, findButton db remoteId buttonId = some button ∧ button.signal = signal ∧
    signal.truthy = true ∧ isTruncated signal = false

theorem fireButton_iff {s t : State} {remoteId buttonId : String} :
    fireButton s remoteId buttonId = .ok t ↔
      ∃ signal, Sendable s.db remoteId buttonId signal ∧ t = publish s (commandPayload signal) := by
  constructor
  · intro sent
    unfold fireButton at sent
    cases found : findButton s.db remoteId buttonId with
    | none =>
        rw [found] at sent
        cases sent
    | some button =>
        rw [found] at sent
        dsimp only at sent
        cases learnt : button.signal.truthy with
        | false =>
            rw [learnt] at sent
            cases sent
        | true =>
            cases clipped : isTruncated button.signal with
            | true =>
                rw [learnt, clipped] at sent
                cases sent
            | false =>
                rw [learnt, clipped] at sent
                cases sent
                exact ⟨button.signal, ⟨button, found, rfl, learnt, clipped⟩, rfl⟩
  · rintro ⟨signal, ⟨button, found, rfl, learnt, whole⟩, rfl⟩
    simp [fireButton, found, learnt, whole]

/-- The checks of a request are those of `fireButton`, but for empty ids. -/
theorem postSend_iff {s t : State} {remoteId buttonId : String} :
    postSend s (some remoteId) (some buttonId) = .ok t ↔
      (remoteId ≠ "" ∧ buttonId ≠ "") ∧ fireButton s remoteId buttonId = .ok t := by
  by_cases remoteNamed : remoteId = ""
  · simp [postSend, required, remoteNamed]
  · by_cases buttonNamed : buttonId = ""
    · simp [postSend, required, buttonNamed]
    · simp only [postSend, required, fireButton, if_neg remoteNamed, if_neg buttonNamed]
      refine Iff.trans ?_ (and_iff_right ⟨remoteNamed, buttonNamed⟩).symm
      cases findButton s.db remoteId buttonId with
      | none => simp
      | some button =>
          cases learnt : button.signal.truthy with
          | false => simp [learnt]
          | true => cases clipped : isTruncated button.signal <;> simp [learnt, clipped]

/-- The paths send the same command or none, and only what is learned and whole. -/
structure PathsAgree (s : State) (remoteId buttonId : String) : Prop where
  same : ∀ t, postSend s (some remoteId) (some buttonId) = .ok t ↔
    fireButton s remoteId buttonId = .ok t
  request : ∀ t, postSend s (some remoteId) (some buttonId) = .ok t →
    ∃ signal, Sendable s.db remoteId buttonId signal ∧ t = publish s (commandPayload signal)
  executor : ∀ t, fireButton s remoteId buttonId = .ok t →
    ∃ signal, Sendable s.db remoteId buttonId signal ∧ t = publish s (commandPayload signal)

theorem pathsAgree_of_same {s : State} {remoteId buttonId : String}
    (same : ∀ t, fireButton s remoteId buttonId = .ok t → remoteId ≠ "" ∧ buttonId ≠ "") :
    PathsAgree s remoteId buttonId := by
  refine ⟨fun t => ?_, fun t sent => ?_, fun t sent => fireButton_iff.mp sent⟩
  · rw [postSend_iff]
    exact and_iff_right_of_imp (same t)
  · exact fireButton_iff.mp (postSend_iff.mp sent).2

/-! ## Empty ids -/

/-- No button has an empty id, whatever is posted. -/
theorem findButton_empty {s : State} (reached : machine.Reachable s) (remoteId : String) :
    findButton s.db remoteId "" = none := by
  have layouts := layouts_reached List.not_mem_nil allows_named reached
  cases found : findButton s.db remoteId "" with
  | none => rfl
  | some button =>
      obtain ⟨remote, inside, held⟩ := Option.bind_eq_some_iff.mp found
      refine absurd ?_ (layouts remote (Collection.mem_of_find inside))
      rw [← Collection.key_of_find held]
      exact List.mem_map_of_mem (Collection.mem_of_find held)

/-- The accepted request is for an id that is not empty. -/
def Identifies : Event → Prop
  | .turn (.postRemotes req _) =>
      ∀ name, req.name = some name → name ≠ "" → targetId req name ≠ ""
  | _ => True

/-- No remote has an empty id. -/
def Identified (db : Db) : Prop := ∀ remote ∈ db.remotes, remote.id ≠ ""

theorem identified_next {s t : State} {e : Event} (identified : Identified s.db)
    (identifies : Identifies e) (step : next s e = some t) : Identified t.db := by
  rcases remotes_next step with same | ⟨req, uuid, name, rfl, named, notEmpty, put⟩ |
    ⟨id, removed⟩ | ⟨id, learn, keeps, assigned⟩
  · unfold Identified
    rw [same]
    exact identified
  · rw [put]
    intro remote member
    rcases mem_putRemote member with old | ⟨id, -⟩
    · exact identified remote old
    · rw [id]
      exact identifies name named notEmpty
  · intro remote member
    rw [removed] at member
    exact identified remote (List.mem_filter.mp member).1
  · intro remote member
    rw [assigned] at member
    rcases Collection.mem_assign Remote.id member with old | ⟨before, inside, -, made⟩
    · exact identified remote old
    · rw [made, (keeps before).1]
      exact identified before inside

theorem identified_reached {s : State}
    (reached : (machine.restrict fun _ e => Identifies e).Reachable s) : Identified s.db := by
  have inv : (machine.restrict fun _ e => Identifies e).Invariant fun s => Identified s.db := by
    constructor
    · rintro s rfl remote ⟨⟩
    · rintro s e t identified ⟨identifies, step⟩
      exact identified_next identified identifies step
  exact inv.reachable reached

theorem Identified.not_sendable {db : Db} (identified : Identified db) {buttonId : String}
    {signal : Json} : ¬Sendable db "" buttonId signal := by
  rintro ⟨button, found, -⟩
  obtain ⟨remote, inside, -⟩ := Option.bind_eq_some_iff.mp found
  exact identified remote (Collection.mem_of_find inside) (Collection.key_of_find inside)

/-! ## Agreement -/

/-- **The paths agree on every pair of ids but for the buttons of a remote with an
empty id**, and such a remote comes only from a request that is accepted for it. -/
theorem paths_agree {s : State} (reached : machine.Reachable s) :
    (∀ remoteId buttonId, PathsAgree s remoteId buttonId ↔
      remoteId ≠ "" ∨ ¬∃ signal, Sendable s.db "" buttonId signal) ∧
    ((machine.restrict fun _ e => Identifies e).Reachable s →
      ∀ remoteId buttonId, PathsAgree s remoteId buttonId) := by
  have agreement : ∀ remoteId buttonId, PathsAgree s remoteId buttonId ↔
      remoteId ≠ "" ∨ ¬∃ signal, Sendable s.db "" buttonId signal := by
    intro remoteId buttonId
    constructor
    · intro agree
      by_cases empty : remoteId = ""
      · subst empty
        refine .inr ?_
        rintro ⟨signal, sendable⟩
        have sent := (agree.same _).mpr (fireButton_iff.mpr ⟨signal, sendable, rfl⟩)
        exact (postSend_iff.mp sent).1.1 rfl
      · exact .inl empty
    · intro served
      refine pathsAgree_of_same fun t sent => ?_
      obtain ⟨signal, sendable, -⟩ := fireButton_iff.mp sent
      constructor
      · rintro rfl
        exact served.elim (· rfl) (· ⟨signal, sendable⟩)
      · rintro rfl
        obtain ⟨button, found, -⟩ := sendable
        rw [findButton_empty reached remoteId] at found
        cases found
  refine ⟨agreement, fun disciplined remoteId buttonId => (agreement remoteId buttonId).mpr (.inr ?_)⟩
  rintro ⟨signal, sendable⟩
  exact (identified_reached disciplined).not_sendable sendable

/-! ## A remote without an id -/

/-- A remote with one button that brings its signal. -/
def oneButton (id : Option String) (name : String) : RemoteReq :=
  ⟨id, some name, none, some [⟨some "power", some "Power", none, none, none, some (.obj [])⟩]⟩

def postOne (id : Option String) (name : String) : Event :=
  .turn (.postRemotes (oneButton id name) fun _ => "1a2b3c4d")

/-- The button can be sent afterwards, under the id that the request is for. -/
theorem postOne_sendable (id : Option String) {name : String} (notEmpty : name ≠ "") :
    ∃ t, next (initial Db.defaults) (postOne id name) = some t ∧
      Sendable t.db (targetId (oneButton id name) name) "power" (.obj []) := by
  have handled :=
    postRemotes_named Db.defaults (oneButton id name) (fun _ => "1a2b3c4d") rfl notEmpty
  simp only [postOne, next, Server.next, initial, handled]
  refine ⟨_, rfl, ?_⟩
  have stored : signalAt (putRemote Db.defaults (targetId (oneButton id name) name) name
      (oneButton id name) fun _ => "1a2b3c4d") (targetId (oneButton id name) name) "power" =
      some (.obj []) := by
    have layout : (oneButton id name).buttons = some _ := rfl
    refine signalAt_putRemote_layout Db.defaults _ name layout ?_ ?_
    · decide
    · intro _
      decide
  obtain ⟨button, found, learnt⟩ := Server.findButton_of_signalAt stored
  exact ⟨button, found, learnt, by decide, by decide⟩

/-- A routine sends the button of a remote without an id, and a request is refused. -/
theorem nameless_remote : ∃ s, machine.Reachable s ∧ (∃ t, fireButton s "" "power" = .ok t) ∧
    postSend s (some "") (some "power") = .error ⟨400, "remoteId and buttonId are required"⟩ ∧
    ¬PathsAgree s "" "power" := by
  have empty : targetId (oneButton none "空调") "空调" = "" := by decide +kernel
  obtain ⟨s, step, sendable⟩ := postOne_sendable none (show "空调" ≠ "" by decide)
  rw [empty] at sendable
  have fired := fireButton_iff.mpr ⟨_, sendable, rfl⟩
  refine ⟨s, (Machine.Reachable.init rfl).step step, ⟨_, fired⟩, rfl, fun agree => ?_⟩
  have sent := (agree.same _).mpr fired
  cases sent

theorem named_remote : ∃ s, machine.Reachable s ∧ Sendable s.db "ac" "power" (.obj []) ∧
    PathsAgree s "ac" "power" ∧ PathsAgree s "" "power" := by
  have target : targetId (oneButton (some "ac") "空调") "空调" = "ac" := rfl
  obtain ⟨s, step, sendable⟩ := postOne_sendable (some "ac") (show "空调" ≠ "" by decide)
  rw [target] at sendable
  have identifies : Identifies (postOne (some "ac") "空调") := by
    rintro _ ⟨⟩ -
    decide
  have reached : machine.Reachable s := (Machine.Reachable.init rfl).step step
  have disciplined : (machine.restrict fun _ e => Identifies e).Reachable s :=
    ⟨_, _, rfl, .single ⟨identifies, step⟩⟩
  obtain ⟨agree, always⟩ := paths_agree reached
  exact ⟨s, reached, sendable, (agree "ac" "power").mpr (.inl (by decide)),
    always disciplined "" "power"⟩

end IrHub.Backend.SendPaths
