/-
# System.Provenance -- which button a signal was learned for

Signals are copied all the time: a page loads them with the remotes, posts them with the
next layout, and gets them back in the reply; a pushed result puts one in the page's copy.
Layouts overtake each other, come from pages that missed a result, and bring back remotes
that have been deleted.  `Edits` has all of this, and `State` adds the buttons that are
pressed and the record of what was ever learned, and for which button.

Wherever a signal is, it was learned for the button that it is found on: in the store, on
a page, in a reply or a request, and in what a press of the button publishes
(`signal_origin`).  It is as it was learned, or as JSON passes it on, which is the same but for
numbers that are too large for a double (`Learnt.Of`).  The layout of a remote with an empty id
goes to whichever remote its name makes the id of, but it brings no signals: nothing is learned
for such a remote.
-/
import IrHub.Backend.SendPaths
import IrHub.System.Edits

namespace IrHub.System.Provenance

set_option autoImplicit false

open IrHub.Theory IrHub.Backend IrHub.Backend.Store IrHub.Frontend.App
open IrHub.Backend.Server (Broadcast accepted postSend fireButton publish commandPayload
  isTruncated)
open IrHub.Backend.SendPaths (fireButton_iff postSend_iff)
open IrHub.Firmware.JsonHelper (messageText)

/-! ## The system with its buttons -/

/-- A signal and the ids of the remote and the button that it was learned for. -/
structure Learnt where
  remoteId : String
  buttonId : String
  signal : Json

/-- A signal is what was learned for the button, or what is left of that when it is printed and
read. -/
def Learnt.Of (learnt : Learnt) (remoteId buttonId : String) (signal : Json) : Prop :=
  learnt.remoteId = remoteId ∧ learnt.buttonId = buttonId ∧
    (signal = learnt.signal ∨ signal = Json.revive learnt.signal)

structure State where
  house : Edits.State
  /-- What was learned so far, each for its button. -/
  history : List Learnt

inductive Event where
  | edit (e : Edits.Event)
  | postSend (remoteId buttonId : Option String)
  /-- A routine or a price rule fires a button. -/
  | fireButton (remoteId buttonId : String)

/-- What a learned message adds to the history. -/
def learns (s : Edits.State) : Edits.Event → List Learnt
  | .learned payload =>
      ((Edits.storedBy s.server payload).map fun (remoteId, buttonId, signal) =>
        (⟨remoteId, buttonId, signal⟩ : Learnt)).toList
  | _ => []

def setServer (s : State) (server : Server.State) : State :=
  { s with house := { s.house with server } }

def next (s : State) : Event → Option State
  | .edit e => (Edits.next s.house e).map fun house => ⟨house, s.history ++ learns s.house e⟩
  | .postSend remoteId buttonId =>
      some (setServer s (accepted s.house.server (postSend s.house.server remoteId buttonId)))
  | .fireButton remoteId buttonId =>
      some (setServer s (accepted s.house.server (fireButton s.house.server remoteId buttonId)))

/-- From an empty store on. -/
def initial : State := ⟨Edits.initial Db.defaults, []⟩

def machine : Machine State Event := Machine.ofStep (fun s => s = initial) next

/-! ## Signals where they belong -/

section Genuine

variable (Known : String → String → Json → Prop)

/-- Every signal of the remote is known for its button. -/
def Genuine (remote : Remote) : Prop :=
  ∀ b ∈ remote.buttons, b.id ≠ "" ∧ (b.signal = .null ∨ Known remote.id b.id b.signal)

/-- Every signal of a layout that is posted is known for its element, which has an id, as the
remote has. -/
def Posted (req : RemoteReq) : Prop :=
  ∀ buttons, req.buttons = some buttons → ∀ b ∈ buttons, ∀ signal, b.signal = some signal →
    ∃ remoteId buttonId, req.id = some remoteId ∧ remoteId ≠ "" ∧
      b.id = some buttonId ∧ buttonId ≠ "" ∧ Known remoteId buttonId signal

/-- The remotes in the body of a reply. -/
def remotesOf : Body → List Remote
  | .remotes remotes => remotes
  | .remote remote => [remote]
  | _ => []

/-- What the backend has stored, pushed and published belongs where it is. -/
structure Kept (s : Server.State) : Prop where
  armed : ∀ session, s.learnSession = some session → session.remoteId ≠ ""
  stored : ∀ remote ∈ s.db.remotes, Genuine Known remote
  pushed : ∀ remoteId buttonId signal,
    .learnResult remoteId buttonId (.ok signal) ∈ s.broadcasts → Known remoteId buttonId signal
  published : ∀ payload ∈ s.published, ∃ remoteId buttonId signal,
    Known remoteId buttonId signal ∧ isTruncated signal = false ∧ payload = commandPayload signal

/-- Wherever a signal is, it belongs there. -/
structure Traced (s : Edits.State) : Prop where
  server : Kept Known s.server
  copied : ∀ client, ∀ remote ∈ (s.clients client).objects, Genuine Known remote
  replied : ∀ reply ∈ s.replies, ∀ remote ∈ remotesOf reply.body, Genuine Known remote
  requested : ∀ request ∈ s.requests, ∀ req, request.call = .saveRemote req → Posted Known req

end Genuine

variable {Known More : String → String → Json → Prop}

/-- What is known for a button stays so when it is printed and read. -/
def Passes (Known : String → String → Json → Prop) : Prop :=
  ∀ remoteId buttonId signal, Known remoteId buttonId signal →
    Known remoteId buttonId (Json.revive signal)

/-- A remote in the body of a reply. -/
theorem Genuine.printed (passes : Passes Known) {remote : Remote}
    (genuine : Genuine Known remote) : Genuine Known (Edits.printed remote) := by
  intro b member
  obtain ⟨button, inside, rfl⟩ := List.mem_map.mp member
  obtain ⟨named, null | known⟩ := genuine button inside
  · refine ⟨named, .inl ?_⟩
    show Json.revive button.signal = .null
    rw [null]
    rfl
  · exact ⟨named, .inr (passes _ _ _ known)⟩

theorem Genuine.mono {remote : Remote} (genuine : Genuine Known remote)
    (more : ∀ r b signal, Known r b signal → More r b signal) : Genuine More remote :=
  fun b member => ⟨(genuine b member).1, (genuine b member).2.imp_right (more _ _ _)⟩

theorem Posted.mono {req : RemoteReq} (posted : Posted Known req)
    (more : ∀ r b signal, Known r b signal → More r b signal) : Posted More req := by
  intro buttons layout b member signal brings
  obtain ⟨remoteId, buttonId, id, named, buttonIs, buttonNamed, known⟩ :=
    posted buttons layout b member signal brings
  exact ⟨remoteId, buttonId, id, named, buttonIs, buttonNamed, more _ _ _ known⟩

theorem Kept.mono {s : Server.State} (kept : Kept Known s)
    (more : ∀ r b signal, Known r b signal → More r b signal) : Kept More s where
  armed := kept.armed
  stored remote member := (kept.stored remote member).mono more
  pushed r b signal told := more r b signal (kept.pushed r b signal told)
  published payload sent := by
    obtain ⟨r, b, signal, known, rest⟩ := kept.published payload sent
    exact ⟨r, b, signal, more r b signal known, rest⟩

theorem Traced.mono {s : Edits.State} (traced : Traced Known s)
    (more : ∀ r b signal, Known r b signal → More r b signal) : Traced More s where
  server := traced.server.mono more
  copied client remote member := (traced.copied client remote member).mono more
  replied reply waiting remote member := (traced.replied reply waiting remote member).mono more
  requested request waiting req posted := (traced.requested request waiting req posted).mono more

/-! ## What a page makes of its copy -/

theorem known_of_buttonReq {remote : Remote} (genuine : Genuine Known remote) {b : Button}
    (member : b ∈ remote.buttons) {signal : Json} (brings : (buttonReq b).signal = some signal) :
    (buttonReq b).id = some b.id ∧ b.id ≠ "" ∧ Known remote.id b.id signal := by
  obtain ⟨named, null | known⟩ := genuine b member
  · rw [buttonReq, null] at brings
    cases brings
  · refine ⟨rfl, named, ?_⟩
    have same : b.signal = signal := by
      unfold buttonReq at brings
      dsimp only at brings
      split at brings
      · cases brings
      · exact Option.some.inj brings
    rwa [← same]

/-- A layout made of the buttons of a copy, some of them with another label. -/
theorem posted_layout (named : ∀ r b signal, Known r b signal → r ≠ "") {remote : Remote}
    (genuine : Genuine Known remote) (name : String) {buttons : List ButtonReq}
    (from_ : ∀ b ∈ buttons, b.signal = none ∨ ∃ button ∈ remote.buttons,
      b.id = (buttonReq button).id ∧ b.signal = (buttonReq button).signal) :
    Posted Known (layoutReq remote name buttons) := by
  rintro _ ⟨⟩ b member signal brings
  obtain none | ⟨button, held, id, same⟩ := from_ b member
  · rw [none] at brings
    cases brings
  · obtain ⟨buttonIs, buttonNamed, known⟩ :=
      known_of_buttonReq genuine held (same.symm.trans brings)
    exact ⟨remote.id, button.id, rfl, named _ _ _ known, id.trans buttonIs, buttonNamed, known⟩

/-- **A page posts the signals of its copy with the ids that they have there.** -/
theorem posted_request (named : ∀ r b signal, Known r b signal → r ≠ "") {c : Client}
    (copied : ∀ remote ∈ c.objects, Genuine Known remote) {action : Action} {req : RemoteReq}
    {continuation : Continuation}
    (made : request c action = some (.saveRemote req, continuation)) : Posted Known req := by
  have own : ∀ (remote : Remote) (b : ButtonReq), b ∈ remote.buttons.map buttonReq →
      b.signal = none ∨ ∃ button ∈ remote.buttons,
        b.id = (buttonReq button).id ∧ b.signal = (buttonReq button).signal := by
    intro remote b member
    obtain ⟨button, held, rfl⟩ := List.mem_map.mp member
    exact .inr ⟨button, held, rfl, rfl⟩
  cases action with
  | load => cases made
  | addRemote name =>
      simp only [request] at made
      split at made
      · cases made
      · cases made
        rintro _ ⟨⟩ b ⟨⟩
  | addButton i label =>
      simp only [request] at made
      split at made
      · cases made
      · obtain ⟨remote, found, same⟩ := Option.map_eq_some_iff.mp made
        cases same
        refine posted_layout named (copied remote (List.mem_of_getElem? found)) _ ?_
        intro b member
        rcases List.mem_append.mp member with old | new
        · exact own remote b old
        · rw [List.mem_singleton.mp new]
          exact .inl rfl
  | renameRemote i value =>
      obtain ⟨remote, found, rest⟩ := Option.bind_eq_some_iff.mp made
      dsimp only at rest
      split at rest
      · cases rest
      · cases rest
        exact posted_layout named (copied remote (List.mem_of_getElem? found)) _ (own remote)
  | saveButton i other newLabel =>
      obtain ⟨remote, found, same⟩ := Option.map_eq_some_iff.mp made
      cases same
      refine posted_layout named (copied remote (List.mem_of_getElem? found)) _ ?_
      intro b member
      obtain ⟨_, relabelled, rfl⟩ := List.mem_map.mp member
      obtain ⟨button, held, rfl⟩ := List.mem_map.mp relabelled
      refine .inr ⟨button, held, ?_, signal_relabel _ _ _⟩
      unfold relabel
      split <;> rfl
  | deleteButton i other =>
      obtain ⟨remote, found, same⟩ := Option.map_eq_some_iff.mp made
      cases same
      refine posted_layout named (copied remote (List.mem_of_getElem? found)) _ ?_
      intro b member
      obtain ⟨button, held, rfl⟩ := List.mem_map.mp member
      exact .inr ⟨button, (List.mem_filter.mp held).1, rfl, rfl⟩
  | removeRemote i =>
      obtain ⟨remote, -, same⟩ := Option.map_eq_some_iff.mp made
      cases same
  | learn i other =>
      simp only [request] at made
      split at made
      · cases made
      · obtain ⟨remote, -, same⟩ := Option.map_eq_some_iff.mp made
        cases same
  | closeModal => cases made

/-- What the body of a reply brings is all that is new on a page. -/
theorem resume_objects {c : Client} (continuation : Continuation) (body : Body) {remote : Remote}
    (member : remote ∈ (resume c continuation body).objects) :
    remote ∈ c.objects ∨ remote ∈ remotesOf body := by
  unfold resume at member
  split at member
  · exact List.mem_append.mp member
  · exact List.mem_append.mp member
  · rcases List.mem_or_eq_of_mem_set member with old | new
    · exact .inl old
    · exact .inr (List.mem_singleton.mpr new)
  · exact .inl member
  · exact .inl member
  · exact .inl member
  · exact .inl member

/-- A signal that was learned for a button, put on the button. -/
theorem genuine_assign {remote : Remote} (genuine : Genuine Known remote) {buttonId : String}
    {signal : Json} (known : Known remote.id buttonId signal) :
    Genuine Known { remote with
      buttons := Collection.assign Button.id buttonId (fun button => { button with signal })
        remote.buttons } := by
  intro b member
  rcases Collection.mem_assign Button.id member with old | ⟨before, inside, same, made⟩
  · exact genuine b old
  · rw [made]
    refine ⟨(genuine before inside).1, .inr ?_⟩
    show Known remote.id before.id signal
    rwa [same]

/-- A pushed result is put on the button that it names. -/
theorem genuine_pushed (passes : Passes Known) {c : Client}
    (copied : ∀ remote ∈ c.objects, Genuine Known remote)
    {message : Broadcast}
    (told : ∀ remoteId buttonId signal, message = .learnResult remoteId buttonId (.ok signal) →
      Known remoteId buttonId signal) {remote : Remote}
    (member : remote ∈ (Edits.pushed c message).objects) : Genuine Known remote := by
  unfold Edits.pushed at member
  split at member
  · rename_i remoteId buttonId result
    unfold onLearnResult at member
    split at member
    · exact copied remote member
    · dsimp only at member
      split at member
      · rename_i signal i brings found
        have told' : Known remoteId buttonId signal := by
          cases result with
          | error e => cases brings
          | ok sent =>
              obtain rfl := Except.ok.inj brings
              exact passes _ _ _ (told _ _ _ rfl)
        have named : idOf c i = some remoteId := by simpa [idOf] using List.find?_some found
        obtain ⟨held, there, rfl⟩ := Option.map_eq_some_iff.mp named
        obtain ⟨j, at_j⟩ := List.getElem?_of_mem member
        rw [List.getElem?_modify] at at_j
        obtain ⟨before, inside, made⟩ := Option.map_eq_some_iff.mp at_j
        have genuine := copied before (List.mem_of_getElem? inside)
        split at made
        · rename_i same
          subst same
          have same : held = before := Option.some.inj (there.symm.trans inside)
          rw [← made]
          exact genuine_assign genuine (same ▸ told')
        · rw [← made]
          exact genuine
      · exact copied remote member
  · exact copied remote member

/-! ## What the backend makes of a layout -/

/-- A button of a layout has the signal that it brings, or the one that was stored for its id. -/
theorem genuine_normalized {existing : Option Remote} {req : RemoteReq} (posted : Posted Known req)
    {name : String} (stored : ∀ remote, existing = some remote →
      Genuine Known remote ∧ remote.id = targetId req name) (uuid : Nat → String) {b : Button}
    (member : b ∈ normalizeButtons existing uuid req.buttons) :
    b.id ≠ "" ∧ (b.signal = .null ∨ Known (targetId req name) b.id b.signal) := by
  cases layout : req.buttons with
  | none =>
      rw [layout] at member
      cases old : existing with
      | none =>
          rw [old] at member
          cases member
      | some remote =>
          rw [old] at member
          obtain ⟨genuine, id⟩ := stored remote old
          rw [← id]
          exact genuine b member
  | some buttons =>
      rw [layout] at member
      obtain ⟨i, inside, rfl⟩ := List.mem_mapIdx.mp member
      refine ⟨id_normalizeButton_ne _ _ _ _, ?_⟩
      cases brings : (buttons[i]).signal with
      | some signal =>
          obtain ⟨remoteId, buttonId, id, named, buttonIs, buttonNamed, known⟩ :=
            posted buttons layout _ (List.getElem_mem inside) signal brings
          right
          have target : targetId req name = remoteId := by rw [targetId, id, orElse, if_neg named]
          simpa [normalizeButton, brings, buttonIs, orElse, buttonNamed, target] using known
      | none =>
          cases buttonIs : (buttons[i]).id with
          | none =>
              left
              simp [normalizeButton, brings, buttonIs]
          | some buttonId =>
              cases old : existing with
              | none =>
                  left
                  simp [normalizeButton, brings, buttonIs]
              | some remote =>
                  obtain ⟨genuine, id⟩ := stored remote old
                  cases found : Collection.find Button.id buttonId remote.buttons with
                  | none =>
                      left
                      simp [normalizeButton, brings, buttonIs, found]
                  | some button =>
                      have key := Collection.key_of_find found
                      have held := genuine button (Collection.mem_of_find found)
                      rw [key, id] at held
                      simpa [normalizeButton, brings, buttonIs, found, orElse, held.1]
                        using held.2

/-- The store after an accepted layout. -/
theorem genuine_putRemote {db : Db} (stored : ∀ remote ∈ db.remotes, Genuine Known remote)
    {req : RemoteReq} (posted : Posted Known req) (name : String) (uuid : Nat → String) :
    ∀ remote ∈ (putRemote db (targetId req name) name req uuid).remotes, Genuine Known remote := by
  intro remote member
  rcases Api.mem_putRemote member with old | ⟨id, buttons⟩
  · exact stored remote old
  · intro b inside
    rw [buttons] at inside
    rw [id]
    refine genuine_normalized posted ?_ uuid inside
    intro existing found
    exact ⟨stored existing (Collection.mem_of_find found), Collection.key_of_find found⟩

/-! ## What the backend keeps -/

theorem Kept.clear {s : Server.State} (kept : Kept Known s) :
    Kept Known (Server.clearLearnSession s) := by
  unfold Server.clearLearnSession
  split
  · exact kept
  · exact ⟨nofun, kept.stored, kept.pushed, kept.published⟩

/-- A message that is pushed; only one kind has a signal for a button. -/
theorem Kept.broadcast {s : Server.State} (kept : Kept Known s) {message : Broadcast}
    (known : ∀ remoteId buttonId signal, message = .learnResult remoteId buttonId (.ok signal) →
      Known remoteId buttonId signal) : Kept Known (Server.broadcast s message) := by
  refine ⟨kept.armed, kept.stored, ?_, kept.published⟩
  intro r b signal told
  rcases List.mem_append.mp told with old | new
  · exact kept.pushed r b signal old
  · exact known r b signal (List.mem_singleton.mp new).symm

theorem Kept.store {s : Server.State} (kept : Kept Known s) {db : Db}
    (stored : ∀ remote ∈ db.remotes, Genuine Known remote) : Kept Known { s with db } :=
  ⟨kept.armed, stored, kept.pushed, kept.published⟩

/-- A signal stored where it was learned. -/
theorem Kept.assign {s : Server.State} (kept : Kept Known s) {remoteId buttonId : String}
    {signal : Json} (known : Known remoteId buttonId signal) :
    Kept Known { s with db := assignSignal s.db remoteId buttonId signal } := by
  refine kept.store ?_
  intro remote member
  rcases Collection.mem_assign Remote.id member with old | ⟨before, inside, same, made⟩
  · exact kept.stored remote old
  · rw [made]
    exact genuine_assign (kept.stored before inside) (same ▸ known)

theorem genuine_nil : ∀ remote ∈ ([] : List Remote), Genuine Known remote :=
  fun _ member => absurd member List.not_mem_nil

/-- The backend with a session that has just been armed. -/
theorem kept_armed {s t : Server.State} (kept : Kept Known s) {remoteId buttonId : Option String}
    {timeoutMs : Option Nat} (armed : Server.postLearn s remoteId buttonId timeoutMs = .ok t) :
    Kept Known t := by
  obtain ⟨r, b, -, -, named, -, -, -, session⟩ := Server.postLearn_ok armed
  simp only [Server.postLearn] at armed
  cases hasRemote : Server.required remoteId with
  | none => simp only [hasRemote, reduceCtorEq] at armed
  | some r' =>
      cases hasButton : Server.required buttonId with
      | none => simp only [hasRemote, hasButton, reduceCtorEq] at armed
      | some b' =>
          cases found : findButton s.db r' b' with
          | none => simp only [hasRemote, hasButton, found, reduceCtorEq] at armed
          | some button =>
              simp only [hasRemote, hasButton, found, Except.ok.injEq] at armed
              subst armed
              refine Kept.broadcast ?_ (by rintro _ _ _ ⟨⟩)
              refine ⟨?_, kept.clear.stored, kept.clear.pushed, kept.clear.published⟩
              intro other same
              rw [← Option.some.inj (session.symm.trans same)]
              exact named

/-- The backend after a call, and the body of the reply. -/
theorem kept_serve (passes : Passes Known) {s : Server.State} (kept : Kept Known s)
    (uuid : Nat → String) {call : Call}
    (posted : ∀ req, call = .saveRemote req → Posted Known req) :
    Kept Known (Edits.serve s uuid call).1 ∧
      ∀ remote ∈ remotesOf (Edits.serve s uuid call).2, Genuine Known remote := by
  cases call with
  | getRemotes =>
      refine ⟨kept, fun other member => ?_⟩
      obtain ⟨remote, inside, rfl⟩ := List.mem_map.mp member
      exact (kept.stored remote inside).printed passes
  | saveRemote req =>
      simp only [Edits.serve]
      cases handled : Store.postRemotes s.db req uuid with
      | error e => exact ⟨kept, genuine_nil⟩
      | ok result =>
          obtain ⟨db, saved⟩ := result
          obtain ⟨name, -, -, rfl, found⟩ := postRemotes_ok handled
          have stored := genuine_putRemote kept.stored (posted req rfl) name uuid
          cases saved with
          | none => exact ⟨kept.store stored, genuine_nil⟩
          | some remote =>
              refine ⟨kept.store stored, ?_⟩
              intro other member
              obtain rfl := List.mem_singleton.mp member
              exact (stored remote (Collection.mem_of_find found.symm)).printed passes
  | deleteRemote id =>
      refine ⟨kept.store ?_, genuine_nil⟩
      intro remote member
      exact kept.stored remote (List.mem_filter.mp member).1
  | armLearn remoteId buttonId =>
      simp only [Edits.serve]
      cases armed : Server.postLearn s (some remoteId) (some buttonId) none with
      | error e => exact ⟨kept, genuine_nil⟩
      | ok t => exact ⟨kept_armed kept armed, genuine_nil⟩
  | cancelLearn => exact ⟨kept.clear, genuine_nil⟩

/-- The backend after a learned message. -/
theorem kept_learned {s t : Server.State} (kept : Kept Known s) {payload : List UInt8}
    (handled : Server.learned s payload = some t)
    (known : ∀ remoteId buttonId signal,
      Edits.storedBy s payload = some (remoteId, buttonId, signal) →
        Known remoteId buttonId signal) : Kept Known t := by
  unfold Server.learned at handled
  unfold Edits.storedBy at known
  cases parsed : Json.parse payload with
  | none =>
      rw [parsed] at handled
      cases handled
      exact kept
  | some signal =>
      simp only [parsed] at handled known
      split at handled
      · cases handled
      · split at handled
        · cases handled
          exact kept.broadcast nofun
        · rename_i session armed
          cases handled
          cases found : findButton s.db session.remoteId session.buttonId with
          | none =>
              refine (kept.broadcast ?_).clear
              rintro _ _ _ ⟨⟩
          | some button =>
              have learnt := known session.remoteId session.buttonId signal (by
                simp only [armed, found, Option.map_some])
              refine ((kept.assign learnt).broadcast ?_).clear
              rintro _ _ _ ⟨⟩
              exact learnt

theorem kept_timedOut {s t : Server.State} (kept : Kept Known s) {timer : Server.Timer}
    (step : Server.next s (.timedOut timer) = some t) : Kept Known t := by
  simp only [Server.next] at step
  split at step
  · cases step
    refine Kept.clear (Kept.broadcast
      (s := { s with timers := Server.clearTimeout timer.id s.timers })
      ⟨kept.armed, kept.stored, kept.pushed, kept.published⟩ ?_)
    rintro _ _ _ ⟨⟩
  · cases step

/-- What a button publishes was learned for it. -/
theorem kept_fireButton {s : Server.State} (kept : Kept Known s) (remoteId buttonId : String) :
    Kept Known (accepted s (fireButton s remoteId buttonId)) := by
  obtain refused | sent := Server.accepted_cases s (fireButton s remoteId buttonId)
  · rw [refused]
    exact kept
  · obtain ⟨signal, ⟨button, found, rfl, truthy, whole⟩, published⟩ := fireButton_iff.mp sent
    rw [published]
    refine ⟨kept.armed, kept.stored, kept.pushed, ?_⟩
    intro payload member
    rcases List.mem_append.mp member with old | new
    · exact kept.published payload old
    · obtain ⟨remote, foundRemote, held⟩ := Option.bind_eq_some_iff.mp found
      obtain ⟨-, null | known⟩ := kept.stored remote (Collection.mem_of_find foundRemote)
        button (Collection.mem_of_find held)
      · rw [null] at truthy
        cases truthy
      · exact ⟨_, _, _, known, whole, List.mem_singleton.mp new⟩

theorem kept_postSend {s : Server.State} (kept : Kept Known s) (remoteId buttonId : Option String) :
    Kept Known (accepted s (postSend s remoteId buttonId)) := by
  obtain refused | sent := Server.accepted_cases s (postSend s remoteId buttonId)
  · rw [refused]
    exact kept
  · -- a request that is accepted does what `fireButton` does
    cases remoteId with
    | none => cases sent
    | some remoteId =>
        cases buttonId with
        | none =>
            unfold postSend at sent
            split at sent
            · rename_i r b hasRemote hasButton
              cases hasButton
            · cases sent
        | some buttonId =>
            have fired := (postSend_iff.mp sent).2
            have after := kept_fireButton kept remoteId buttonId
            rwa [fired, accepted] at after

/-! ## One step -/

theorem traced_act (named : ∀ r b signal, Known r b signal → r ≠ "") {s t : Edits.State}
    (traced : Traced Known s) {client : Nat} {action : Action}
    (step : Edits.next s (.act client action) = some t) : Traced Known t := by
  cases step
  refine ⟨traced.server, ?_, traced.replied, ?_⟩
  · intro i remote member
    simp only [Edits.setClient] at member
    split at member
    · rename_i same
      subst same
      refine traced.copied i remote ?_
      unfold act at member
      split at member <;> exact member
    · exact traced.copied i remote member
  · intro request waiting req posted
    rcases List.mem_append.mp waiting with old | new
    · exact traced.requested request old req posted
    · obtain ⟨⟨call, continuation⟩, made, rfl⟩ := Option.map_eq_some_iff.mp (Option.mem_toList.mp new)
      cases posted
      exact posted_request named (traced.copied client) made

theorem traced_serve (passes : Passes Known) {s t : Edits.State} (traced : Traced Known s)
    {i : Nat} {uuid : Nat → String}
    (step : Edits.next s (.serve i uuid) = some t) : Traced Known t := by
  obtain ⟨request, waiting, rfl⟩ := Option.map_eq_some_iff.mp step
  have inside := List.mem_of_getElem? waiting
  obtain ⟨server, body⟩ := kept_serve passes traced.server uuid (traced.requested request inside)
  refine ⟨server, traced.copied, ?_, ?_⟩
  · intro reply waits remote member
    rcases List.mem_append.mp waits with old | new
    · exact traced.replied reply old remote member
    · rw [List.mem_singleton.mp new] at member
      exact body remote member
  · intro other waits
    exact traced.requested other (List.mem_of_mem_eraseIdx waits)

/-- The code of a page goes on with a body that brings nothing strange. -/
theorem traced_resume {s : Edits.State} (traced : Traced Known s) (client : Nat)
    (continuation : Continuation) {body : Body}
    (brings : ∀ remote ∈ remotesOf body, Genuine Known remote) :
    Traced Known (Edits.resumeWith s client continuation body) := by
  refine ⟨traced.server, ?_, traced.replied, traced.requested⟩
  intro i remote member
  simp only [Edits.resumeWith, Edits.setClient] at member
  split at member
  · rcases resume_objects continuation body member with old | new
    · exact traced.copied client remote old
    · exact brings remote new
  · exact traced.copied i remote member

theorem traced_push (passes : Passes Known) {s t : Edits.State} (traced : Traced Known s)
    {client : Nat}
    (step : Edits.next s (.push client) = some t) : Traced Known t := by
  obtain ⟨message, there, rfl⟩ := Option.map_eq_some_iff.mp step
  refine ⟨traced.server, ?_, traced.replied, traced.requested⟩
  intro i remote member
  simp only [Edits.setClient] at member
  split at member
  · refine genuine_pushed passes (traced.copied client) ?_ member
    rintro r b signal rfl
    exact traced.server.pushed r b signal (List.mem_of_getElem? there)
  · exact traced.copied i remote member

theorem traced_edit (named : ∀ r b signal, Known r b signal → r ≠ "")
    (passes : Passes Known) {s t : Edits.State}
    (traced : Traced Known s) {e : Edits.Event}
    (known : ∀ learnt ∈ learns s e, Known learnt.remoteId learnt.buttonId learnt.signal)
    (step : Edits.next s e = some t) : Traced Known t := by
  cases e with
  | act client action => exact traced_act named traced step
  | serve i uuid => exact traced_serve passes traced step
  | requestLost i =>
      obtain ⟨request, -, rfl⟩ := Option.map_eq_some_iff.mp step
      refine traced_resume ?_ request.client request.continuation nofun
      exact { traced with
        requested := fun other waits => traced.requested other (List.mem_of_mem_eraseIdx waits) }
  | receive i =>
      obtain ⟨reply, waiting, rfl⟩ := Option.map_eq_some_iff.mp step
      refine traced_resume ?_ reply.client reply.continuation
        (traced.replied reply (List.mem_of_getElem? waiting))
      exact { traced with
        replied := fun other waits => traced.replied other (List.mem_of_mem_eraseIdx waits) }
  | replyLost i =>
      obtain ⟨reply, -, rfl⟩ := Option.map_eq_some_iff.mp step
      refine traced_resume ?_ reply.client reply.continuation nofun
      exact { traced with
        replied := fun other waits => traced.replied other (List.mem_of_mem_eraseIdx waits) }
  | push client => exact traced_push passes traced step
  | miss client =>
      obtain ⟨message, -, rfl⟩ := Option.map_eq_some_iff.mp step
      exact { traced with }
  | learned payload =>
      obtain ⟨server, handled, rfl⟩ := Option.map_eq_some_iff.mp step
      refine { traced with server := kept_learned traced.server handled ?_ }
      intro r b signal stored
      refine known ⟨r, b, signal⟩ ?_
      rw [learns, stored]
      exact List.mem_singleton_self _
  | timedOut timer =>
      obtain ⟨server, expired, rfl⟩ := Option.map_eq_some_iff.mp step
      exact { traced with server := kept_timedOut traced.server expired }

/-! ## Every run -/

/-- The signal was learned for the button, which is of a remote with an id. -/
def Held (s : State) (remoteId buttonId : String) (signal : Json) : Prop :=
  remoteId ≠ "" ∧ ∃ learnt ∈ s.history, learnt.Of remoteId buttonId signal

theorem passes_held (s : State) : Passes (Held s) := by
  rintro remoteId buttonId signal ⟨named, learnt, known, remote, button, rfl | rfl⟩
  · exact ⟨named, learnt, known, remote, button, .inr rfl⟩
  · exact ⟨named, learnt, known, remote, button, .inr (Json.revive_revive _)⟩

/-- What is learned is for the button that is armed. -/
theorem learns_armed {s : Edits.State} {e : Edits.Event} {learnt : Learnt}
    (learned : learnt ∈ learns s e) :
    ∃ session, s.server.learnSession = some session ∧ learnt.remoteId = session.remoteId := by
  cases e with
  | learned payload =>
      rw [learns, Option.mem_toList] at learned
      obtain ⟨⟨r, b, signal⟩, stored, rfl⟩ := Option.map_eq_some_iff.mp learned
      unfold Edits.storedBy at stored
      split at stored
      · rename_i session _ armed
        obtain ⟨button, -, same⟩ := Option.map_eq_some_iff.mp stored
        cases same
        exact ⟨session, armed, rfl⟩
      · cases stored
  | _ => cases learned

theorem traced_next {s t : State} {e : Event} (traced : Traced (Held s) s.house)
    (step : next s e = some t) : Traced (Held t) t.house := by
  cases e with
  | edit e =>
      obtain ⟨house, moved, rfl⟩ := Option.map_eq_some_iff.mp step
      refine traced_edit (fun _ _ _ held => held.1) (passes_held _) (traced.mono ?_) ?_ moved
      · rintro r b signal ⟨named, learnt, known, of⟩
        exact ⟨named, learnt, List.mem_append_left _ known, of⟩
      · intro learnt learned
        obtain ⟨session, armed, same⟩ := learns_armed learned
        refine ⟨?_, learnt, List.mem_append_right _ learned, rfl, rfl, .inl rfl⟩
        rw [same]
        exact traced.server.armed session armed
  | postSend remoteId buttonId =>
      cases step
      exact { traced with server := kept_postSend traced.server remoteId buttonId }
  | fireButton remoteId buttonId =>
      cases step
      exact { traced with server := kept_fireButton traced.server remoteId buttonId }

theorem invariant : machine.Invariant fun s => Traced (Held s) s.house where
  base := by
    rintro s rfl
    exact ⟨⟨nofun, nofun, nofun, nofun⟩, nofun, nofun, nofun⟩
  step _ _ _ traced step := traced_next traced step

/-- **A signal is where it was learned.**  However requests overtake each other and fail, and
whatever a page has missed, every signal that the store or a page has for a button was once
learned for that button, and what a press of a button publishes is a whole signal that was
learned for it.  Only a number that no double holds may have become a `null` on the way. -/
theorem signal_origin {s : State} (reached : machine.Reachable s) :
    (∀ remoteId buttonId signal, signalAt s.house.server.db remoteId buttonId = some signal →
      signal = .null ∨ ∃ learnt ∈ s.history, learnt.Of remoteId buttonId signal) ∧
    (∀ client, ∀ remote ∈ (s.house.clients client).objects, ∀ b ∈ remote.buttons,
      b.signal = .null ∨ ∃ learnt ∈ s.history, learnt.Of remote.id b.id b.signal) ∧
    (∀ payload ∈ s.house.server.published, ∃ learnt ∈ s.history, ∃ signal,
      learnt.Of learnt.remoteId learnt.buttonId signal ∧ isTruncated signal = false ∧
      payload = commandPayload signal) ∧
    (∀ remoteId buttonId t, next s (.fireButton remoteId buttonId) = some t ∨
        next s (.postSend (some remoteId) (some buttonId)) = some t →
      t.house.server.published = s.house.server.published ∨
      ∃ learnt ∈ s.history, ∃ signal, learnt.Of remoteId buttonId signal ∧
        isTruncated signal = false ∧
        t.house.server.published = s.house.server.published ++ [commandPayload signal]) := by
  have traced := invariant.reachable reached
  have held : ∀ remoteId buttonId signal,
      signalAt s.house.server.db remoteId buttonId = some signal →
        signal = .null ∨ ∃ learnt ∈ s.history, learnt.Of remoteId buttonId signal := by
    intro remoteId buttonId signal stored
    obtain ⟨button, found, rfl⟩ := Server.findButton_of_signalAt stored
    obtain ⟨remote, foundRemote, inside⟩ := Option.bind_eq_some_iff.mp found
    have genuine := traced.server.stored remote (Collection.mem_of_find foundRemote) button
      (Collection.mem_of_find inside)
    rw [Collection.key_of_find foundRemote, Collection.key_of_find inside] at genuine
    exact genuine.2.imp_right And.right
  refine ⟨held, ?_, ?_, ?_⟩
  · intro client remote member b inside
    exact (traced.copied client remote member b inside).2.imp_right And.right
  · intro payload sent
    obtain ⟨r, b, signal, ⟨-, learnt, known, remote, button, of⟩, whole, same⟩ :=
      traced.server.published payload sent
    exact ⟨learnt, known, signal, ⟨rfl, rfl, of⟩, whole, same⟩
  · intro remoteId buttonId t step
    have sends : ∀ u, fireButton s.house.server remoteId buttonId = .ok u →
        ∃ learnt ∈ s.history, ∃ signal, learnt.Of remoteId buttonId signal ∧
          isTruncated signal = false ∧
          u.published = s.house.server.published ++ [commandPayload signal] := by
      intro u fired
      obtain ⟨signal, ⟨button, found, rfl, truthy, whole⟩, rfl⟩ := fireButton_iff.mp fired
      have origin := held remoteId buttonId button.signal (by rw [signalAt, found]; rfl)
      obtain ⟨learnt, known, of⟩ := origin.resolve_left (by
        intro null
        rw [null] at truthy
        cases truthy)
      exact ⟨learnt, known, button.signal, of, whole, rfl⟩
    rcases step with fired | posted
    · cases fired
      obtain refused | sent :=
        Server.accepted_cases s.house.server (fireButton s.house.server remoteId buttonId)
      · exact .inl (congrArg Server.State.published refused)
      · exact .inr (sends _ sent)
    · cases posted
      obtain refused | sent := Server.accepted_cases s.house.server
        (postSend s.house.server (some remoteId) (some buttonId))
      · exact .inl (congrArg Server.State.published refused)
      · exact .inr (sends _ (postSend_iff.mp sent).2)

/-- A page makes a remote and a button and learns it, and the button is pressed. -/
def firstButton : List Event :=
  let served := Event.edit (.serve 0 fun _ => "1a2b3c4d")
  let received := Event.edit (.receive 0)
  [.edit (.act 0 (.addRemote "TV")), served, received,
    .edit (.act 0 (.addButton 0 "Power")), served, received,
    .edit (.act 0 (.learn 0 "btn-1a2b3c4d")), served, received,
    .edit (.learned (messageText ⟨38000, 1, false, [600]⟩)),
    .fireButton "tv" "btn-1a2b3c4d"]

theorem signal_origin_tv : ∃ s, machine.Reachable s ∧
    s.house.server.published = [bytes "\x7b\"carrier_freq\":38000,\"pulses\":[600]\x7d"] ∧
    ∃ learnt ∈ s.history, ∃ signal, learnt.Of learnt.remoteId learnt.buttonId signal ∧
      isTruncated signal = false ∧
      bytes "\x7b\"carrier_freq\":38000,\"pulses\":[600]\x7d" = commandPayload signal := by
  obtain ⟨s, run, published⟩ : ∃ s, machine.Run initial firstButton s ∧
      s.house.server.published = [bytes "\x7b\"carrier_freq\":38000,\"pulses\":[600]\x7d"] :=
    Machine.exists_run_of_exec (by decide +kernel)
  have reached : machine.Reachable s := ⟨_, _, rfl, run⟩
  exact ⟨s, reached, published, (signal_origin reached).2.2.1 _ (published ▸ List.mem_singleton_self _)⟩

end IrHub.System.Provenance
