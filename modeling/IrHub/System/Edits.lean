/-
# System.Edits -- browsers edit layouts while the hub learns

Any number of pages, the backend, and the requests, replies and pushed messages
between them.  Every request in flight may be served next, fail on the way, or have
its reply lost; a page gets the pushed messages in order and may miss any of them.
What a page gets was printed and read on its way, so that its signals are those of the
backend with a `null` for every infinity; what it posts of them comes through as it is.

`learnt` records the signal last learned for a button, as long as the store has the
button, and `replaced` the signals that learned ones have ever taken the place of.  The
store should hold the first, and a request should put back none of the others.  So it is as
long as no posted layout is out of date (`learned_signal_kept`): a layout brings the signals
of the page's own copy along, and a copy made before the last learn session puts the old one
back (`stale_rename_reverts`), even after the button was deleted and made again.
-/
import IrHub.Backend.Persist
import IrHub.Frontend.App
import IrHub.System.LearnSend

namespace IrHub.System.Edits

set_option autoImplicit false

open IrHub.Theory IrHub.Backend IrHub.Backend.Store IrHub.Frontend.App
open IrHub.Backend.Persist (text buttonJson remoteJson wellFormed_button wellFormed_remote)
open IrHub.Backend.Server (Timer Broadcast postLearn clearLearnSession)
open IrHub.Firmware (IrMessage)
open IrHub.Firmware.JsonHelper (messageText)
open IrHub.System.LearnSend (learnedSignal parse_messageText logThrows_learnedSignal
  revive_learnedSignal)

structure Request where
  client : Nat
  call : Call
  continuation : Continuation

structure Reply where
  client : Nat
  continuation : Continuation
  body : Body

structure State where
  server : Server.State
  clients : Nat → Client
  /-- How many pushed messages each page has had. -/
  seen : Nat → Nat
  requests : List Request
  replies : List Reply
  learnt : String → String → Option Json
  replaced : String → String → List Json

inductive Event where
  | act (client : Nat) (action : Action)
  | serve (i : Nat) (uuid : Nat → String)
  | requestLost (i : Nat)
  | receive (i : Nat)
  | replyLost (i : Nat)
  | push (client : Nat)
  | miss (client : Nat)
  | learned (payload : List UInt8)
  | timedOut (timer : Timer)

/-! ## The server's side -/

/-- A remote in the body of a reply, as the page reads it. -/
def printed (remote : Remote) : Remote :=
  { remote with buttons := remote.buttons.map fun b => { b with signal := Json.revive b.signal } }

theorem revive_button {b : Button} (row : Double.IsFinite b.row) (col : Double.IsFinite b.col) :
    Json.revive (buttonJson b) = buttonJson { b with signal := Json.revive b.signal } := by
  have icon : Json.revive ((b.icon.map text).getD .null) = (b.icon.map text).getD .null := by
    cases b.icon <;> rfl
  have numbers : Json.revive (.num b.row) = .num b.row ∧ Json.revive (.num b.col) = .num b.col :=
    ⟨if_pos row.bounded, if_pos col.bounded⟩
  simp only [buttonJson, Json.revive, Json.reviveMembers] at numbers ⊢
  rw [icon, numbers.1, numbers.2]
  rfl

/-- **`printed` is what the page reads** of the text that `res.json` makes of a remote with
signals that were themselves read. -/
theorem parse_remoteJson {remote : Remote} (buttons : ∀ b ∈ remote.buttons,
      Double.IsFinite b.row ∧ Double.IsFinite b.col ∧ b.signal.WellFormed Double.IsDouble) :
    Json.parse (Json.stringify (remoteJson remote)) = some (remoteJson (printed remote)) := by
  have wf : (remoteJson remote).WellFormed Double.IsDouble :=
    wellFormed_remote fun b inside => wellFormed_button (buttons b inside).1.exact
      (buttons b inside).2.1.exact (buttons b inside).2.2
  rw [Json.parse_stringify wf]
  have same : Json.reviveItems (remote.buttons.map buttonJson) =
      (printed remote).buttons.map buttonJson := by
    rw [Json.reviveItems_eq_map, printed, List.map_map, List.map_map]
    exact List.map_congr_left fun b inside =>
      revive_button (buttons b inside).1 (buttons b inside).2.1
  simp only [remoteJson, Json.revive, Json.reviveMembers, same]
  rfl

/-- The handler of a call. -/
def serve (s : Server.State) (uuid : Nat → String) : Call → Server.State × Body
  | .getRemotes => (s, .remotes (s.db.remotes.map printed))
  | .saveRemote req =>
      match Store.postRemotes s.db req uuid with
      | .ok (db, some remote) => ({ s with db }, .remote (printed remote))
      | .ok (db, none) => ({ s with db }, .done)
      | .error e => (s, .failed e.error)
  | .deleteRemote id => ({ s with db := Store.deleteRemote s.db id }, .done)
  | .armLearn remoteId buttonId =>
      match postLearn s (some remoteId) (some buttonId) none with
      | .ok t => (t, .done)
      | .error e => (s, .failed e.error)
  | .cancelLearn => (clearLearnSession s, .done)

/-- The button and the signal a learned message stores. -/
def storedBy (s : Server.State) (payload : List UInt8) : Option (String × String × Json) :=
  match Json.parse payload, s.learnSession with
  | some signal, some session =>
      (findButton s.db session.remoteId session.buttonId).map fun _ =>
        (session.remoteId, session.buttonId, signal)
  | _, _ => none

/-- `learnt` after a learned message. -/
def record (learnt : String → String → Option Json) :
    Option (String × String × Json) → String → String → Option Json
  | none => learnt
  | some (remoteId, buttonId, signal) => fun r b =>
      if r = remoteId ∧ b = buttonId then some signal else learnt r b

/-- The signal of a button that has one. -/
def heldAt (db : Db) (remoteId buttonId : String) : Option Json :=
  match signalAt db remoteId buttonId with
  | some .null => none
  | signal => signal

/-- `replaced` after a learned message: the signal that the store had is one more. -/
def supersede (replaced : String → String → List Json) (db : Db) :
    Option (String × String × Json) → String → String → List Json
  | none => replaced
  | some (remoteId, buttonId, _) => fun r b =>
      if r = remoteId ∧ b = buttonId then (heldAt db r b).toList ++ replaced r b
      else replaced r b

/-- `learnt` after a request: a button that is gone is forgotten. -/
def forget (learnt : String → String → Option Json) (db : Db) : String → String → Option Json :=
  fun r b => (findButton db r b).bind fun _ => learnt r b

theorem record_isSome {learnt : String → String → Option Json} {remoteId buttonId r b : String}
    {signal : Json} (known : (record learnt (some (remoteId, buttonId, signal)) r b).isSome) :
    b = buttonId ∨ (learnt r b).isSome := by
  simp only [record] at known
  split at known
  · rename_i same
    exact .inl same.2
  · exact .inr known

theorem supersede_ne_nil {replaced : String → String → List Json} {db : Db}
    {remoteId buttonId r b : String} {signal : Json}
    (known : supersede replaced db (some (remoteId, buttonId, signal)) r b ≠ []) :
    b = buttonId ∨ replaced r b ≠ [] := by
  simp only [supersede] at known
  split at known
  · rename_i same
    exact .inl same.2
  · exact .inr known

theorem forget_isSome {learnt : String → String → Option Json} {db : Db} {r b : String}
    (known : (forget learnt db r b).isSome) : (learnt r b).isSome := by
  unfold forget at known
  cases found : findButton db r b with
  | none =>
      rw [found] at known
      cases known
  | some button =>
      rw [found] at known
      exact known

/-! ## The system -/

def setClient (s : State) (client : Nat) (c : Client) : State :=
  { s with clients := fun i => if i = client then c else s.clients i }

/-- The client's code goes on with what `api` gave it. -/
def resumeWith (s : State) (client : Nat) (continuation : Continuation) (body : Body) : State :=
  setClient s client (resume (s.clients client) continuation body)

/-- A pushed message; a page only acts on the result of a learn session. -/
def pushed (c : Client) : Broadcast → Client
  | .learnResult remoteId buttonId result =>
      onLearnResult c remoteId buttonId (result.map Json.revive)
  | _ => c

def next (s : State) : Event → Option State
  | .act client action =>
      let sent := (request (s.clients client) action).map fun (call, continuation) =>
        ({ client, call, continuation } : Request)
      some { setClient s client (act (s.clients client) action) with
        requests := s.requests ++ sent.toList }
  | .serve i uuid =>
      s.requests[i]?.map fun request =>
        let (server, body) := serve s.server uuid request.call
        { s with
          server
          requests := s.requests.eraseIdx i
          replies := s.replies ++ [⟨request.client, request.continuation, body⟩]
          learnt := forget s.learnt server.db }
  | .requestLost i =>
      s.requests[i]?.map fun request =>
        resumeWith { s with requests := s.requests.eraseIdx i } request.client
          request.continuation (.failed "Failed to fetch")
  | .receive i =>
      s.replies[i]?.map fun reply =>
        resumeWith { s with replies := s.replies.eraseIdx i } reply.client reply.continuation
          reply.body
  | .replyLost i =>
      s.replies[i]?.map fun reply =>
        resumeWith { s with replies := s.replies.eraseIdx i } reply.client reply.continuation
          (.failed "Failed to fetch")
  | .push client =>
      s.server.broadcasts[s.seen client]?.map fun message =>
        { setClient s client (pushed (s.clients client) message) with
          seen := fun i => if i = client then s.seen client + 1 else s.seen i }
  | .miss client =>
      s.server.broadcasts[s.seen client]?.map fun _ =>
        { s with seen := fun i => if i = client then s.seen client + 1 else s.seen i }
  | .learned payload =>
      (Server.learned s.server payload).map fun server =>
        { s with
          server
          learnt := record s.learnt (storedBy s.server payload)
          replaced := supersede s.replaced s.server.db (storedBy s.server payload) }
  | .timedOut timer =>
      (Server.next s.server (.timedOut timer)).map fun server => { s with server }

/-- Pages that are just being opened, over any store. -/
def initial (db : Db) : State :=
  ⟨Server.initial db, fun _ => .blank, fun _ => 0, [], [], fun _ _ => none, fun _ _ => []⟩

def machine : Machine State Event := Machine.ofStep (fun s => ∃ db, s = initial db) next

/-- A button with a learned signal, or one whose signal was replaced before. -/
def Known (s : State) (remoteId buttonId : String) : Prop :=
  (s.learnt remoteId buttonId).isSome ∨ s.replaced remoteId buttonId ≠ []

/-- The layout a request brings is not out of date: for a known button of its remote, the
element that names it brings no signal, or the stored one, or, if no learned signal is stored,
one that was never replaced; and no new button is given its id. -/
def Current (s : State) : Event → Prop
  | .serve i uuid =>
      ∀ request req name buttons, s.requests[i]? = some request →
        request.call = .saveRemote req → req.name = some name → req.buttons = some buttons →
        ∀ buttonId, Known s (targetId req name) buttonId →
          (∀ j, "btn-" ++ uuid j ≠ buttonId) ∧
          ∀ b signal, buttons.find? (fun b => b.id = some buttonId) = some b →
            b.signal = some signal →
              signalAt s.server.db (targetId req name) buttonId = some signal ∨
                (s.learnt (targetId req name) buttonId = none ∧
                  signal ∉ s.replaced (targetId req name) buttonId)
  | _ => True

/-! ## One turn of the server -/

/-- A call changes the store by a layout, by a deletion, or not at all. -/
theorem serve_db (s : Server.State) (uuid : Nat → String) (call : Call) :
    (serve s uuid call).1.db = s.db ∨
      (∃ req name, call = .saveRemote req ∧ req.name = some name ∧
        (serve s uuid call).1.db = putRemote s.db (targetId req name) name req uuid) ∨
      ∃ id, call = .deleteRemote id ∧ (serve s uuid call).1.db = Store.deleteRemote s.db id := by
  cases call with
  | getRemotes => exact .inl rfl
  | saveRemote req =>
      simp only [serve]
      cases handled : Store.postRemotes s.db req uuid with
      | error e => exact .inl rfl
      | ok result =>
          obtain ⟨after, reply⟩ := result
          obtain ⟨name, posted, -, rfl, -⟩ := postRemotes_ok handled
          refine .inr (.inl ⟨req, name, rfl, posted, ?_⟩)
          cases reply <;> rfl
  | deleteRemote id => exact .inr (.inr ⟨id, rfl, rfl⟩)
  | armLearn remoteId buttonId =>
      simp only [serve]
      cases armed : postLearn s (some remoteId) (some buttonId) none with
      | error e => exact .inl rfl
      | ok t =>
          obtain ⟨-, -, -, -, -, -, same, -⟩ := Server.postLearn_ok armed
          exact .inl same
  | cancelLearn => exact .inl (Server.clearLearnSession_db s)

/-- A layout in which the first element for a button has no signal, or the stored
one, keeps the signal of the button if it keeps the button. -/
theorem layout_keeps {db : Db} {remoteId name buttonId : String} {req : RemoteReq}
    {uuid : Nat → String} {buttons : List ButtonReq} {signal : Json}
    (layout : req.buttons = some buttons) (generated : ∀ j, "btn-" ++ uuid j ≠ buttonId)
    (current : ∀ b other, buttons.find? (fun b => b.id = some buttonId) = some b →
      b.signal = some other → other = signal)
    (stored : signalAt db remoteId buttonId = some signal)
    (there : (findButton (putRemote db remoteId name req uuid) remoteId buttonId).isSome) :
    signalAt (putRemote db remoteId name req uuid) remoteId buttonId = some signal := by
  by_cases named : buttonId = ""
  · rw [named, findButton_putRemote_unnamed db remoteId name uuid layout] at there
    cases there
  · have value := signalAt_putRemote_layout db remoteId name layout named generated
    rw [stored] at value
    cases first : buttons.find? (fun b => b.id = some buttonId) with
    | none =>
        -- the layout has dropped the button
        obtain ⟨button, found⟩ := Option.isSome_iff_exists.mp there
        rw [first, signalAt, found] at value
        cases value
    | some b =>
        rw [value, first, Option.map_some]
        cases brought : b.signal with
        | none => rfl
        | some other =>
            rw [current b other first brought]
            rfl

/-- **A layout that brings another signal puts it in the place of the stored one.** -/
theorem layout_reverts {db : Db} {remoteId name buttonId : String} {req : RemoteReq}
    {uuid : Nat → String} {buttons : List ButtonReq} {b : ButtonReq} {other : Json}
    (named : buttonId ≠ "") (layout : req.buttons = some buttons)
    (generated : ∀ j, "btn-" ++ uuid j ≠ buttonId)
    (first : buttons.find? (fun b => b.id = some buttonId) = some b)
    (brings : b.signal = some other) :
    signalAt (putRemote db remoteId name req uuid) remoteId buttonId = some other := by
  rw [signalAt_putRemote_layout db remoteId name layout named generated, first, Option.map_some,
    brings]
  rfl

/-- What a learned message does to the store. -/
theorem learned_stores {s t : Server.State} {payload : List UInt8}
    (handled : Server.learned s payload = some t) :
    (storedBy s payload = none ∧ t.db = s.db) ∨
      ∃ remoteId buttonId signal, storedBy s payload = some (remoteId, buttonId, signal) ∧
        (∃ button, findButton s.db remoteId buttonId = some button) ∧
        t.db = assignSignal s.db remoteId buttonId signal := by
  unfold Server.learned at handled
  unfold storedBy
  cases parsed : Json.parse payload with
  | none =>
      rw [parsed] at handled
      cases handled
      exact .inl ⟨rfl, rfl⟩
  | some signal =>
      simp only [parsed] at handled
      split at handled
      · cases handled
      · cases armed : s.learnSession with
        | none =>
            rw [armed] at handled
            cases handled
            exact .inl ⟨rfl, rfl⟩
        | some session =>
            rw [armed] at handled
            cases handled
            cases found : findButton s.db session.remoteId session.buttonId with
            | none =>
                refine .inl ⟨?_, Server.clearLearnSession_db _⟩
                simp only [found, Option.map_none]
            | some button =>
                refine .inr ⟨session.remoteId, session.buttonId, signal, ?_, ⟨button, found⟩,
                  Server.clearLearnSession_db _⟩
                simp only [found, Option.map_some]

/-! ## The store holds what was learned -/

/-- The store holds the signal last learned for every button it still has. -/
def HoldsLearnt (s : State) : Prop :=
  ∀ remoteId buttonId signal, s.learnt remoteId buttonId = some signal →
    signalAt s.server.db remoteId buttonId = some signal

/-- A request served in time. -/
theorem holdsLearnt_serve {s : State} {i : Nat} {uuid : Nat → String} {request : Request}
    (holds : HoldsLearnt s) (current : Current s (.serve i uuid))
    (waiting : s.requests[i]? = some request) {remoteId buttonId : String} {signal : Json}
    (learnt : forget s.learnt (serve s.server uuid request.call).1.db remoteId buttonId =
      some signal) :
    signalAt (serve s.server uuid request.call).1.db remoteId buttonId = some signal := by
  obtain ⟨button, found, before⟩ := Option.bind_eq_some_iff.mp learnt
  have stored := holds remoteId buttonId signal before
  obtain same | ⟨req, name, posted, named, put⟩ | ⟨id, -, removed⟩ :=
    serve_db s.server uuid request.call
  · rw [same]
    exact stored
  · rw [put] at found ⊢
    by_cases target : targetId req name = remoteId
    · subst target
      cases layout : req.buttons with
      | none =>
          rw [signalAt_putRemote_none s.server.db _ name uuid buttonId layout]
          exact stored
      | some buttons =>
          obtain ⟨generated, upToDate⟩ := current request req name buttons waiting posted named layout
            buttonId (.inl (by rw [before]; rfl))
          refine layout_keeps layout generated ?_ stored (by rw [found]; rfl)
          intro b other first brings
          rcases upToDate b other first brings with same | ⟨gone, -⟩
          · exact Option.some.inj (same.symm.trans stored)
          · rw [before] at gone
            cases gone
    · rw [signalAt_putRemote_ne s.server.db name req uuid buttonId (Ne.symm target)]
      exact stored
  · rw [removed] at found ⊢
    have other : remoteId ≠ id := by
      rintro rfl
      have gone := signalAt_deleteRemote_self s.server.db remoteId buttonId
      rw [signalAt, found] at gone
      cases gone
    rw [signalAt_deleteRemote_ne s.server.db buttonId other]
    exact stored

/-- A learned message stores what is recorded. -/
theorem holdsLearnt_learned {s : State} {t : Server.State} {payload : List UInt8}
    (holds : HoldsLearnt s) (handled : Server.learned s.server payload = some t)
    {remoteId buttonId : String} {signal : Json}
    (learnt : record s.learnt (storedBy s.server payload) remoteId buttonId = some signal) :
    signalAt t.db remoteId buttonId = some signal := by
  obtain ⟨nothing, same⟩ | ⟨r, b, value, stored, ⟨button, found⟩, assigned⟩ :=
    learned_stores handled
  · rw [nothing] at learnt
    rw [same]
    exact holds remoteId buttonId signal learnt
  · rw [stored] at learnt
    simp only [record] at learnt
    rw [assigned]
    split at learnt
    · rename_i target
      obtain ⟨rfl, rfl⟩ := target
      cases learnt
      exact signalAt_assignSignal_self _ found
    · rename_i other
      rw [signalAt_assignSignal_ne s.server.db value other]
      exact holds remoteId buttonId signal learnt

theorem holdsLearnt_next {s t : State} {e : Event} (holds : HoldsLearnt s) (current : Current s e)
    (step : next s e = some t) : HoldsLearnt t := by
  cases e with
  | act client action =>
      cases step
      exact holds
  | serve i uuid =>
      obtain ⟨request, waiting, rfl⟩ := Option.map_eq_some_iff.mp step
      intro remoteId buttonId signal learnt
      exact holdsLearnt_serve holds current waiting learnt
  | requestLost i =>
      obtain ⟨request, -, rfl⟩ := Option.map_eq_some_iff.mp step
      exact holds
  | receive i =>
      obtain ⟨reply, -, rfl⟩ := Option.map_eq_some_iff.mp step
      exact holds
  | replyLost i =>
      obtain ⟨reply, -, rfl⟩ := Option.map_eq_some_iff.mp step
      exact holds
  | push client =>
      obtain ⟨message, -, rfl⟩ := Option.map_eq_some_iff.mp step
      exact holds
  | miss client =>
      obtain ⟨message, -, rfl⟩ := Option.map_eq_some_iff.mp step
      exact holds
  | learned payload =>
      obtain ⟨server, handled, rfl⟩ := Option.map_eq_some_iff.mp step
      intro remoteId buttonId signal learnt
      exact holdsLearnt_learned holds handled learnt
  | timedOut timer =>
      obtain ⟨server, expired, rfl⟩ := Option.map_eq_some_iff.mp step
      intro remoteId buttonId signal learnt
      rw [Server.timedOut_db expired]
      exact holds remoteId buttonId signal learnt

/-! ## What was replaced stays replaced -/

theorem heldAt_ne_null {db : Db} {remoteId buttonId : String} {signal : Json}
    (held : heldAt db remoteId buttonId = some signal) : signal ≠ .null := by
  rintro rfl
  unfold heldAt at held
  split at held
  · cases held
  · rename_i other
    exact other held

/-- What was replaced are signals. -/
def Signals (s : State) : Prop :=
  ∀ remoteId buttonId, Json.null ∉ s.replaced remoteId buttonId

theorem signals_next {s t : State} {e : Event} (signals : Signals s)
    (step : next s e = some t) : Signals t := by
  cases e with
  | act client action =>
      cases step
      exact signals
  | learned payload =>
      obtain ⟨server, -, rfl⟩ := Option.map_eq_some_iff.mp step
      intro remoteId buttonId
      show Json.null ∉ supersede s.replaced s.server.db (storedBy s.server payload) _ _
      cases storedBy s.server payload with
      | none => exact signals remoteId buttonId
      | some target =>
          unfold supersede
          dsimp only
          split
          · intro member
            rcases List.mem_append.mp member with new | old
            · exact heldAt_ne_null (Option.mem_toList.mp new) rfl
            · exact signals remoteId buttonId old
          · exact signals remoteId buttonId
  | _ =>
      obtain ⟨_, -, rfl⟩ := Option.map_eq_some_iff.mp step
      exact signals

/-- A request served in time puts nothing back. -/
theorem kept_serve {s : State} {i : Nat} {uuid : Nat → String} {request : Request}
    (signals : Signals s) (current : Current s (.serve i uuid))
    (waiting : s.requests[i]? = some request) {remoteId buttonId : String} {old : Json}
    (replaced : old ∈ s.replaced remoteId buttonId)
    (after : signalAt (serve s.server uuid request.call).1.db remoteId buttonId = some old) :
    signalAt s.server.db remoteId buttonId = some old := by
  obtain same | ⟨req, name, posted, named, put⟩ | ⟨id, -, removed⟩ :=
    serve_db s.server uuid request.call
  · rwa [same] at after
  · rw [put] at after
    by_cases target : targetId req name = remoteId
    · subst target
      cases layout : req.buttons with
      | none => rwa [signalAt_putRemote_none s.server.db _ name uuid buttonId layout] at after
      | some buttons =>
          obtain ⟨generated, upToDate⟩ := current request req name buttons waiting posted named layout
            buttonId (.inr (List.ne_nil_of_mem replaced))
          by_cases unnamed : buttonId = ""
          · rw [unnamed, signalAt, findButton_putRemote_unnamed s.server.db _ name uuid layout]
              at after
            cases after
          · rw [signalAt_putRemote_layout s.server.db _ name layout unnamed generated] at after
            obtain ⟨b, first, brings⟩ := Option.map_eq_some_iff.mp after
            cases brought : b.signal with
            | none =>
                -- the stored signal is carried over
                rw [brought, Option.getD_none] at brings
                cases stored : signalAt s.server.db (targetId req name) buttonId with
                | none =>
                    rw [stored, Option.getD_none] at brings
                    rw [← brings] at replaced
                    exact absurd replaced (signals _ _)
                | some signal =>
                    rw [stored, Option.getD_some] at brings
                    rw [brings]
            | some signal =>
                rw [brought, Option.getD_some] at brings
                subst brings
                exact (upToDate b signal first brought).resolve_right fun other => other.2 replaced
    · rwa [signalAt_putRemote_ne s.server.db name req uuid buttonId (Ne.symm target)] at after
  · rw [removed] at after
    by_cases target : remoteId = id
    · rw [target, signalAt_deleteRemote_self s.server.db id buttonId] at after
      cases after
    · rwa [signalAt_deleteRemote_ne s.server.db buttonId target] at after

/-- No signal that was replaced is put back. -/
def PutsNothingBack (s t : State) : Prop :=
  ∀ remoteId buttonId, ∀ old ∈ s.replaced remoteId buttonId,
    signalAt t.server.db remoteId buttonId = some old →
      signalAt s.server.db remoteId buttonId = some old

theorem kept_next {s t : State} {e : Event} (signals : Signals s) (current : Current s e)
    (step : next s e = some t) (other : ∀ payload, e ≠ .learned payload) :
    PutsNothingBack s t := by
  cases e with
  | act client action =>
      cases step
      exact fun _ _ _ _ after => after
  | serve i uuid =>
      obtain ⟨request, waiting, rfl⟩ := Option.map_eq_some_iff.mp step
      exact fun _ _ _ replaced after => kept_serve signals current waiting replaced after
  | learned payload => exact absurd rfl (other payload)
  | timedOut timer =>
      obtain ⟨server, expired, rfl⟩ := Option.map_eq_some_iff.mp step
      intro remoteId buttonId old _ after
      rwa [Server.timedOut_db expired] at after
  | _ =>
      obtain ⟨_, -, rfl⟩ := Option.map_eq_some_iff.mp step
      exact fun _ _ _ _ after => after

/-- **A learned signal is kept, and none that was replaced is put back, as long as every
layout is current when it is served.** -/
theorem learned_signal_kept {s : State} (reached : (machine.restrict Current).Reachable s) :
    HoldsLearnt s ∧ ∀ e t, (machine.restrict Current).step s e t →
      (∀ payload, e ≠ .learned payload) → PutsNothingBack s t := by
  have inv : (machine.restrict Current).Invariant fun s => HoldsLearnt s ∧ Signals s := by
    constructor
    · rintro s ⟨db, rfl⟩
      constructor
      · rintro remoteId buttonId signal ⟨⟩
      · rintro remoteId buttonId ⟨⟩
    · rintro s e t ⟨holds, signals⟩ ⟨current, step⟩
      exact ⟨holdsLearnt_next holds current step, signals_next signals step⟩
  obtain ⟨holds, signals⟩ := inv.reachable reached
  exact ⟨holds, fun e t step other => kept_next signals step.1 step.2 other⟩

/-- A layout that is served although an element of it is out of date puts the signal of that
element in the place of a learned one, or puts it back. -/
theorem breaks_of_stale {s t : State} {i : Nat} {uuid : Nat → String} {request : Request}
    {req : RemoteReq} {name buttonId : String} {buttons : List ButtonReq} {b : ButtonReq}
    {other : Json} (holds : HoldsLearnt s) (step : next s (.serve i uuid) = some t)
    (waiting : s.requests[i]? = some request) (posted : request.call = .saveRemote req)
    (named : req.name = some name) (nonempty : name ≠ "") (layout : req.buttons = some buttons)
    (buttonNamed : buttonId ≠ "") (generated : ∀ j, "btn-" ++ uuid j ≠ buttonId)
    (first : buttons.find? (fun b => b.id = some buttonId) = some b)
    (brings : b.signal = some other)
    (new : signalAt s.server.db (targetId req name) buttonId ≠ some other)
    (stale : s.learnt (targetId req name) buttonId ≠ none ∨
      other ∈ s.replaced (targetId req name) buttonId) :
    ¬(HoldsLearnt t ∧ PutsNothingBack s t) := by
  have put : (serve s.server uuid request.call).1.db =
      putRemote s.server.db (targetId req name) name req uuid := by
    rw [posted, serve, postRemotes, named]
    simp only [if_neg nonempty]
    cases findRemote (putRemote s.server.db (targetId req name) name req uuid) (targetId req name) <;>
      rfl
  have reverted : signalAt (serve s.server uuid request.call).1.db (targetId req name) buttonId =
      some other := by
    rw [put]
    exact layout_reverts buttonNamed layout generated first brings
  obtain ⟨button, found, -⟩ := Server.findButton_of_signalAt reverted
  rw [next, waiting] at step
  cases step
  rintro ⟨holds', nothing⟩
  rcases stale with learnt | replaced
  · obtain ⟨signal, known⟩ := Option.ne_none_iff_exists'.mp learnt
    have kept := holds' (targetId req name) buttonId signal (by
      show forget _ _ _ _ = _
      rw [forget, found, Option.bind_some, known])
    have same := Option.some.inj (reverted.symm.trans kept)
    exact new ((holds _ _ _ known).trans (congrArg some same.symm))
  · exact new (nothing (targetId req name) buttonId other replaced reverted)

/-- A page whose copy agrees with the store makes current layouts. -/
theorem current_of_copy {s : State} {i : Nat} {uuid : Nat → String} {waiting : Request}
    (c : Client) (action : Action) (first : s.requests[i]? = some waiting)
    (made : request c action = some (waiting.call, waiting.continuation))
    (fresh : ∀ remoteId buttonId, Known s remoteId buttonId → ∀ j, "btn-" ++ uuid j ≠ buttonId)
    (named : ∀ remote ∈ c.objects, remote.id ≠ "")
    (agrees : ∀ remote ∈ c.objects, ∀ buttonId button, Known s remote.id buttonId →
      Collection.find Button.id buttonId remote.buttons = some button →
      signalAt s.server.db remote.id buttonId = some button.signal) :
    Current s (.serve i uuid) := by
  intro served req name buttons found posted _ layout buttonId known
  rw [first, Option.some.injEq] at found
  subst found
  rw [posted] at made
  refine ⟨fresh _ buttonId known, ?_⟩
  intro b signal leads brings
  obtain ⟨remote, member, id, button, held, same⟩ := request_signal made layout leads
  have target : targetId req name = remote.id := by
    rw [targetId, id, orElse, if_neg (named remote member)]
  rw [target] at known ⊢
  rw [same, buttonReq] at brings
  rw [agrees remote member buttonId button known held]
  split at brings
  · cases brings
  · exact .inl brings

/-! ## A stale copy -/

/-- A capture on the topic is stored for the armed button. -/
theorem next_learned (msg : IrMessage) {s : State} {session : Server.LearnSession}
    {button : Button} (armed : s.server.learnSession = some session)
    (found : findButton s.server.db session.remoteId session.buttonId = some button) :
    next s (.learned (messageText msg)) =
      some { s with
        server := clearLearnSession (Server.broadcast
          { s.server with
            db := assignSignal s.server.db session.remoteId session.buttonId
              (learnedSignal msg) }
          (.learnResult session.remoteId session.buttonId (.ok (learnedSignal msg))))
        learnt := record s.learnt
          (some (session.remoteId, session.buttonId, learnedSignal msg))
        replaced := supersede s.replaced s.server.db
          (some (session.remoteId, session.buttonId, learnedSignal msg)) } := by
  have stored : storedBy s.server (messageText msg) =
      some (session.remoteId, session.buttonId, learnedSignal msg) := by
    simp only [storedBy, parse_messageText, armed, found, Option.map_some]
  simp only [next, stored, Server.learned, parse_messageText,
    logThrows_learnedSignal, armed, found, Option.map_some, Bool.false_eq_true, if_false]

/-- The signal the button had, and the one learned instead. -/
def oldCapture : IrMessage := ⟨38000, 1, false, [9000, 4500, 560]⟩
def newCapture : IrMessage := ⟨38000, 1, false, [9000, 2250, 560]⟩

def tv (capture : IrMessage) : Remote :=
  ⟨"tv", "TV", "remote", [⟨"power", "Power", 0, 0, none, learnedSignal capture⟩]⟩

/-- Two pages load, and the second one learns the button again. -/
def relearn : List Event :=
  let uuid := fun _ => "00000000"
  [.act 0 .load, .serve 0 uuid, .receive 0, .act 1 .load, .serve 0 uuid, .receive 0,
    .act 1 (.learn 0 "power"), .serve 0 uuid, .receive 0, .learned (messageText newCapture),
    .push 0, .push 0, .push 1, .push 1]

/-- The signal of a capture is the same on a page. -/
theorem copied (capture : IrMessage) :
    (⟨[⟨"tv", "TV", "remote", [⟨"power", "Power", 0, 0, none,
      Json.revive (learnedSignal capture)⟩]⟩], [0], false⟩ : Client) = ⟨[tv capture], [0], false⟩ := by
  rw [revive_learnedSignal, tv]

/-- The first page ignores the result, the second one takes it. -/
theorem relearn_run :
    ∃ s, (machine.restrict Current).Run (initial ⟨[tv oldCapture], [], []⟩) relearn s ∧
    s.server.db.remotes = [tv newCapture] ∧ s.requests = [] ∧
    s.clients 0 = ⟨[tv oldCapture], [0], false⟩ ∧ s.clients 1 = ⟨[tv newCapture], [0], false⟩ ∧
    s.learnt "tv" "power" = some (learnedSignal newCapture) ∧
    ∀ remoteId buttonId, Known s remoteId buttonId → buttonId = "power" := by
  have other : ∀ {s : State} {i : Nat} {uuid : Nat → String} {waiting : Request},
      s.requests[i]? = some waiting → (∀ req, waiting.call ≠ .saveRemote req) →
      Current s (.serve i uuid) := by
    intro s i uuid waiting first isOther request req name buttons found posted
    rw [first, Option.some.injEq] at found
    subst found
    exact absurd posted (isOther req)
  refine ⟨_, .cons ⟨trivial, rfl⟩ (.cons ⟨other rfl nofun, rfl⟩ (.cons ⟨trivial, rfl⟩
    (.cons ⟨trivial, rfl⟩ (.cons ⟨other rfl nofun, rfl⟩ (.cons ⟨trivial, rfl⟩
    (.cons ⟨trivial, rfl⟩ (.cons ⟨other rfl nofun, rfl⟩ (.cons ⟨trivial, rfl⟩
    (.cons ⟨trivial, next_learned newCapture rfl rfl⟩
    (.cons ⟨trivial, rfl⟩ (.cons ⟨trivial, rfl⟩ (.cons ⟨trivial, rfl⟩ (.cons ⟨trivial, rfl⟩
    (.nil _)))))))))))))), rfl, rfl, copied oldCapture, copied newCapture, rfl, ?_⟩
  rintro remoteId buttonId (known | known)
  · exact (record_isSome known).resolve_right fun before =>
      nomatch forget_isSome (forget_isSome (forget_isSome before))
  · exact (@supersede_ne_nil _ _ _ _ _ _ (learnedSignal newCapture) known).resolve_right
      fun before => before rfl

/-- Then a page renames the remote. -/
def renameBy (client : Nat) : List Event :=
  [.act client (.renameRemote 0 "Telly"), .serve 0 fun _ => "00000000"]

def renameRequest (client : Nat) (capture : IrMessage) : Request :=
  ⟨client, .saveRemote (layoutReq (tv capture) "Telly" ((tv capture).buttons.map buttonReq)),
    .assigned 0 false⟩

theorem act_rename {s : State} {client : Nat} {capture : IrMessage} (quiet : s.requests = [])
    (copy : s.clients client = ⟨[tv capture], [0], false⟩) :
    ∃ t, next s (.act client (.renameRemote 0 "Telly")) = some t ∧ t.server = s.server ∧
      t.learnt = s.learnt ∧ t.replaced = s.replaced ∧
      t.requests = [renameRequest client capture] := by
  refine ⟨_, rfl, rfl, rfl, rfl, ?_⟩
  show s.requests ++ _ = _
  rw [quiet, copy]
  rfl

theorem serve_rename {s : State} {client : Nat} {capture : IrMessage}
    (waiting : s.requests = [renameRequest client capture])
    (held : s.server.db.remotes = [tv newCapture]) :
    ∃ t, next s (.serve 0 fun _ => "00000000") = some t ∧
      t.learnt "tv" "power" = s.learnt "tv" "power" ∧
      signalAt t.server.db "tv" "power" = some (learnedSignal capture) := by
  obtain ⟨⟨⟨remotes, routines, priceRules⟩, session, timers, nextTimer, published, broadcasts⟩,
    clients, seen, requests, replies, learnt⟩ := s
  cases waiting
  cases held
  exact ⟨_, rfl, rfl, rfl⟩

/-- **The rename of a page that missed the result puts the old signal back.** -/
theorem stale_rename_reverts :
    ∃ s, machine.Run (initial ⟨[tv oldCapture], [], []⟩) (relearn ++ renameBy 0) s ∧
      s.learnt "tv" "power" = some (learnedSignal newCapture) ∧
      signalAt s.server.db "tv" "power" = some (learnedSignal oldCapture) ∧ ¬HoldsLearnt s := by
  obtain ⟨s, run, held, quiet, copy, -, learnt, -⟩ := relearn_run
  obtain ⟨t, act, sameServer, sameLearnt, -, waiting⟩ := act_rename quiet copy
  obtain ⟨u, served, kept, reverted⟩ := serve_rename waiting (by rw [sameServer, held])
  rw [sameLearnt, learnt] at kept
  refine ⟨u, run.unrestrict.append (.cons act (.cons served (.nil u))), kept, reverted, ?_⟩
  intro holds
  have both := (holds "tv" "power" _ kept).symm.trans reverted
  simp [learnedSignal, LearnSend.pulseNumbers, oldCapture, newCapture] at both

theorem learned_signal_kept_telly :
    ∃ s, (machine.restrict Current).Run (initial ⟨[tv oldCapture], [], []⟩)
        (relearn ++ renameBy 1) s ∧
      signalAt s.server.db "tv" "power" = some (learnedSignal newCapture) := by
  obtain ⟨s, run, held, quiet, -, copy, learnt, only⟩ := relearn_run
  obtain ⟨t, act, sameServer, sameLearnt, sameReplaced, waiting⟩ := act_rename quiet copy
  obtain ⟨u, served, kept, -⟩ := serve_rename waiting (by rw [sameServer, held])
  rw [sameLearnt, learnt] at kept
  have power : ∀ remoteId buttonId, Known t remoteId buttonId → buttonId = "power" := by
    intro remoteId buttonId known
    rw [Known, sameLearnt, sameReplaced] at known
    exact only remoteId buttonId known
  have current : Current t (.serve 0 fun _ => "00000000") := by
    refine current_of_copy ⟨[tv newCapture], [0], false⟩ (.renameRemote 0 "Telly")
      (by rw [waiting]; rfl) rfl ?_ ?_ ?_
    · intro remoteId buttonId known j
      rw [power remoteId buttonId known]
      decide
    · intro remote member
      cases List.mem_singleton.mp member
      decide
    · intro remote member buttonId button known found
      cases List.mem_singleton.mp member
      cases power _ buttonId known
      cases found
      rw [sameServer, signalAt, findButton, findRemote, held]
      rfl
  have sent : (machine.restrict Current).step s (.act 1 (.renameRemote 0 "Telly")) t :=
    ⟨trivial, act⟩
  have whole := run.append (.cons sent (.cons ⟨current, served⟩ (.nil u)))
  exact ⟨u, whole, (learned_signal_kept ⟨_, _, ⟨_, rfl⟩, whole⟩).1 "tv" "power" _ kept⟩

end IrHub.System.Edits
