/-
# Frontend.App -- a browser's copy of the remotes and the requests it makes of it

`app.js` loads the remotes once and from then on edits its own copy: every change
of a layout posts the whole local `buttons` array and assigns what comes back to
the remote object it started from.  That object is held across the `await`, so
objects have handles here and `state.remotes` is a list of them.

An action of the user is `act`; what the code after its `await` does is a
`Continuation`, resumed with the body of the reply.  The edit modal shows here as
the remote and the button that its actions name.
-/
import IrHub.Backend.Store

namespace IrHub.Frontend.App

set_option autoImplicit false

open IrHub.Theory IrHub.Backend.Store

/-- `objects` are the remotes this page ever built, `remotes` and `learning` those
fields of `state`. -/
structure Client where
  objects : List Remote
  remotes : List Nat
  learning : Bool

/-- A page that has loaded nothing yet. -/
def Client.blank : Client := ⟨[], [], false⟩

/-- A call of `api`. -/
inductive Call where
  | getRemotes
  | saveRemote (req : RemoteReq)
  | deleteRemote (id : String)
  | armLearn (remoteId buttonId : String)
  | cancelLearn

/-- What `api` resolves with; `failed` is a throw. -/
inductive Body where
  | remotes (remotes : List Remote)
  | remote (remote : Remote)
  | done
  | failed (error : String)

/-- The code after an `await`. -/
inductive Continuation where
  | loaded
  | pushed
  | assigned (remote : Nat) (closes : Bool)
  | removed (remote : Nat)
  | armed
  | cancelled

/-! ## Request bodies -/

/-- A button of the local copy, as `JSON.stringify` sends it. -/
def buttonReq (b : Button) : ButtonReq where
  id := some b.id
  label := some b.label
  row := some b.row
  col := some b.col
  icon := b.icon
  signal := match b.signal with
    | .null => none
    | signal => some signal

/-- `saveRemote({ id, name, icon, buttons })` for a remote of the local copy. -/
def layoutReq (remote : Remote) (name : String) (buttons : List ButtonReq) : RemoteReq :=
  ⟨some remote.id, some name, some remote.icon, some buttons⟩

/-- The element `addButton` puts after the existing ones. -/
def newButton (remote : Remote) (label : String) : ButtonReq :=
  let nextIndex := remote.buttons.length
  ⟨none, some label, some (nextIndex / 3 : Nat), some (nextIndex % 3 : Nat), none, none⟩

def relabel (buttonId newLabel : String) (b : Button) : Button :=
  if b.id = buttonId then { b with label := newLabel } else b

/-! ## Actions -/

inductive Action where
  | load
  | addRemote (name : String)
  | addButton (remote : Nat) (label : String)
  | renameRemote (remote : Nat) (value : String)
  | saveButton (remote : Nat) (buttonId newLabel : String)
  | deleteButton (remote : Nat) (buttonId : String)
  | removeRemote (remote : Nat)
  | learn (remote : Nat) (buttonId : String)
  | closeModal

/-- The request an action makes, if it makes one. -/
def request (c : Client) : Action → Option (Call × Continuation)
  | .load => some (.getRemotes, .loaded)
  | .addRemote name =>
      if name = "" then none else some (.saveRemote ⟨none, some name, none, some []⟩, .pushed)
  | .addButton i label =>
      if label = "" then none
      else c.objects[i]?.map fun remote =>
        (.saveRemote (layoutReq remote remote.name
          (remote.buttons.map buttonReq ++ [newButton remote label])), .assigned i false)
  | .renameRemote i value =>
      -- the name field is sent trimmed, but compared as it is
      c.objects[i]?.bind fun remote =>
        let newName := String.ofList (trim value.toList)
        if newName = "" ∨ value = remote.name then none
        else some (.saveRemote (layoutReq remote newName (remote.buttons.map buttonReq)),
          .assigned i false)
  | .saveButton i buttonId newLabel =>
      c.objects[i]?.map fun remote =>
        (.saveRemote (layoutReq remote remote.name
          ((remote.buttons.map (relabel buttonId newLabel)).map buttonReq)), .assigned i true)
  | .deleteButton i buttonId =>
      c.objects[i]?.map fun remote =>
        (.saveRemote (layoutReq remote remote.name
          ((Collection.remove Button.id buttonId remote.buttons).map buttonReq)), .assigned i true)
  | .removeRemote i => c.objects[i]?.map fun remote => (.deleteRemote remote.id, .removed i)
  | .learn i buttonId =>
      -- the same button cancels while a session of this page is armed
      if c.learning then some (.cancelLearn, .cancelled)
      else c.objects[i]?.map fun remote => (.armLearn remote.id buttonId, .armed)
  | .closeModal => none

/-- What an action changes at once. -/
def act (c : Client) : Action → Client
  | .closeModal => { c with learning := false }
  | _ => c

/-! ## Replies and pushed messages -/

/-- `r.id` of a handle -/
def idOf (c : Client) (i : Nat) : Option String := c.objects[i]?.map Remote.id

def resume (c : Client) : Continuation → Body → Client
  | .loaded, .remotes remotes =>
      { c with
        objects := c.objects ++ remotes
        remotes := List.range' c.objects.length remotes.length }
  | .pushed, .remote remote =>
      { c with objects := c.objects ++ [remote], remotes := c.remotes ++ [c.objects.length] }
  | .assigned i closes, .remote saved =>
      -- `Object.assign(remote, saved)`
      { c with objects := c.objects.set i saved, learning := c.learning && !closes }
  | .removed i, .done => { c with remotes := c.remotes.filter fun j => idOf c j ≠ idOf c i }
  | .armed, .done => { c with learning := true }
  | .cancelled, _ => { c with learning := false }
  | _, _ => c

/-- `onLearnResult` -/
def onLearnResult (c : Client) (remoteId buttonId : String) (result : Except String Json) :
    Client :=
  if !c.learning then c
  else
    let c := { c with learning := false }
    match result, c.remotes.find? fun i => idOf c i = some remoteId with
    | .ok signal, some i =>
        { c with
          objects := c.objects.modify i fun remote =>
            { remote with
              buttons := Collection.assign Button.id buttonId (fun button => { button with signal })
                remote.buttons } }
    | _, _ => c

/-! ## What a posted layout says of a button -/

/-- The first element for a button comes from the first button with the id. -/
theorem find_buttonReq (buttonId : String) (buttons : List Button) :
    (buttons.map buttonReq).find? (fun b => b.id = some buttonId) =
      (Collection.find Button.id buttonId buttons).map buttonReq := by
  rw [List.find?_map, Collection.find]
  congr 2
  funext b
  exact decide_eq_decide.mpr ⟨Option.some.inj, congrArg some⟩

theorem find_relabel (buttonId other newLabel : String) (buttons : List Button) :
    Collection.find Button.id buttonId (buttons.map (relabel other newLabel)) =
      (Collection.find Button.id buttonId buttons).map (relabel other newLabel) := by
  have keeps : ∀ b, (relabel other newLabel b).id = b.id := by
    intro b
    unfold relabel
    split <;> rfl
  rw [Collection.find, List.find?_map, Collection.find]
  congr 2
  funext b
  rw [Function.comp_apply, keeps]

theorem signal_relabel (other newLabel : String) (b : Button) :
    (buttonReq (relabel other newLabel b)).signal = (buttonReq b).signal := by
  unfold relabel
  split <;> rfl

/-- An element of a layout stands for the button of its id. -/
theorem held_of_find {buttons : List Button} {buttonId : String} {b : ButtonReq}
    (first : (buttons.map buttonReq).find? (fun b => b.id = some buttonId) = some b) :
    ∃ button, Collection.find Button.id buttonId buttons = some button ∧ buttonReq button = b := by
  rw [find_buttonReq] at first
  exact Option.map_eq_some_iff.mp first

/-- **A layout brings the signals of the copy it was made from.** -/
theorem request_signal {c : Client} {action : Action} {req : RemoteReq}
    {continuation : Continuation} {buttons : List ButtonReq} {buttonId : String} {b : ButtonReq}
    (made : request c action = some (.saveRemote req, continuation))
    (layout : req.buttons = some buttons)
    (first : buttons.find? (fun b => b.id = some buttonId) = some b) :
    ∃ remote ∈ c.objects, req.id = some remote.id ∧ ∃ button,
      Collection.find Button.id buttonId remote.buttons = some button ∧
        b.signal = (buttonReq button).signal := by
  cases action with
  | load => cases made
  | addRemote name =>
      simp only [request] at made
      split at made
      · cases made
      · cases made
        cases layout
        cases first
  | addButton i label =>
      simp only [request] at made
      split at made
      · cases made
      · obtain ⟨remote, found, same⟩ := Option.map_eq_some_iff.mp made
        cases same
        cases layout
        have other : [newButton remote label].find? (fun b => b.id = some buttonId) = none := rfl
        rw [List.find?_append, other, Option.or_none] at first
        obtain ⟨button, held, rfl⟩ := held_of_find first
        exact ⟨remote, List.mem_of_getElem? found, rfl, button, held, rfl⟩
  | renameRemote i value =>
      obtain ⟨remote, found, rest⟩ := Option.bind_eq_some_iff.mp made
      dsimp only at rest
      split at rest
      · cases rest
      · cases rest
        cases layout
        obtain ⟨button, held, rfl⟩ := held_of_find first
        exact ⟨remote, List.mem_of_getElem? found, rfl, button, held, rfl⟩
  | saveButton i other newLabel =>
      obtain ⟨remote, found, same⟩ := Option.map_eq_some_iff.mp made
      cases same
      cases layout
      obtain ⟨_, relabelled, rfl⟩ := held_of_find first
      rw [find_relabel] at relabelled
      obtain ⟨button, held, rfl⟩ := Option.map_eq_some_iff.mp relabelled
      exact ⟨remote, List.mem_of_getElem? found, rfl, button, held, signal_relabel _ _ _⟩
  | deleteButton i other =>
      obtain ⟨remote, found, same⟩ := Option.map_eq_some_iff.mp made
      cases same
      cases layout
      obtain ⟨button, held, rfl⟩ := held_of_find first
      have kept : buttonId ≠ other := by
        rintro rfl
        rw [Collection.find_remove_self] at held
        cases held
      rw [Collection.find_remove_ne Button.id kept] at held
      exact ⟨remote, List.mem_of_getElem? found, rfl, button, held, rfl⟩
  | removeRemote i =>
      obtain ⟨remote, -, same⟩ := Option.map_eq_some_iff.mp made
      cases same
  | learn i other =>
      simp only [request] at made
      split at made
      · cases made
      · obtain ⟨remote, -, same⟩ := Option.map_eq_some_iff.mp made
        cases same
  | closeModal => cases made

end IrHub.Frontend.App
