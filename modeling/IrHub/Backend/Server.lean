/-
# Backend.Server -- the learn session, the learned messages and the two send paths

`server.js` handles one event at a time: a request, an MQTT message or a timer.
`next` is one such turn.  A learn timer is live from `setTimeout` to its callback
or its `clearTimeout`; when it fires is up to the environment.

`published` lists the payloads handed to `mqttClient.publish` for `irhub/send`.
What the broker makes of them comes back in a callback that only answers the
request.
-/
import IrHub.Theory.Machine
import IrHub.Backend.Store

namespace IrHub.Backend.Server

set_option autoImplicit false

open IrHub.Theory IrHub.Backend.Store

/-- `learnSession` -/
structure LearnSession where
  remoteId : String
  buttonId : String
  timer : Nat
  deriving DecidableEq, Repr

/-- A pending `setTimeout` of `POST /api/learn`. -/
structure Timer where
  id : Nat
  remoteId : String
  buttonId : String
  deriving DecidableEq, Repr

/-- `broadcast(type, payload)` -/
inductive Broadcast where
  | learnArmed (remoteId buttonId : String) (timeoutMs : Nat)
  | learnResult (remoteId buttonId : String) (result : Except String Json)
  | rawSignal (signal : Json)

structure State where
  db : Db
  learnSession : Option LearnSession
  timers : List Timer
  nextTimer : Nat
  published : List (List UInt8)
  broadcasts : List Broadcast

/-- After start-up. -/
def initial (db : Db) : State := ⟨db, none, [], 0, [], []⟩

/-- Default of `LEARN_TIMEOUT_MS` -/
def learnTimeoutMs : Nat := 15000

/-- `broadcast`; what is too deep to be printed does not get here (`learnedOn`). -/
def broadcast (s : State) (message : Broadcast) : State :=
  { s with broadcasts := s.broadcasts ++ [message] }

/-- `clearTimeout` -/
def clearTimeout (timer : Nat) (timers : List Timer) : List Timer :=
  timers.filter fun t => t.id ≠ timer

def clearLearnSession (s : State) : State :=
  match s.learnSession with
  | none => s
  | some session =>
      { s with timers := clearTimeout session.timer s.timers, learnSession := none }

/-! ## Sending -/

/-- `JSON.stringify({ carrier_freq: .., pulses: .. })` leaves out what is undefined. -/
def commandPayload (signal : Json) : List UInt8 :=
  let member (key : String) : List (List UInt8 × Json) :=
    ((signal.field (bytes key)).map fun value => (bytes key, value)).toList
  Json.stringify (.obj (member "carrier_freq" ++ member "pulses"))

/-- `signal.truncated` as a condition. -/
def isTruncated (signal : Json) : Bool := ((signal.field (bytes "truncated")).map Json.truthy).getD false

def publish (s : State) (payload : List UInt8) : State :=
  { s with published := s.published ++ [payload] }

/-- `fireButton`, up to the publish. -/
def fireButton (s : State) (remoteId buttonId : String) : Except String State :=
  let name := "button " ++ remoteId ++ "/" ++ buttonId
  match findButton s.db remoteId buttonId with
  | none => .error (name ++ " not found")
  | some button =>
      if !button.signal.truthy then .error (name ++ " has no learned signal")
      else if isTruncated button.signal then
        .error (name ++ " has a truncated signal — re-learn it")
      else .ok (publish s (commandPayload button.signal))

/-- A required string of a body. -/
def required (s : Option String) : Option String :=
  match s with
  | none => none
  | some s => if s = "" then none else some s

/-- `POST /api/send`, up to the publish. -/
def postSend (s : State) (remoteId buttonId : Option String) : Except ApiError State :=
  match required remoteId, required buttonId with
  | some remoteId, some buttonId =>
      match findButton s.db remoteId buttonId with
      | none => .error ⟨404, "button not found"⟩
      | some button =>
          if !button.signal.truthy then .error ⟨409, "button has no learned signal yet"⟩
          else if isTruncated button.signal then
            .error ⟨409, "learned signal was truncated — re-learn this button"⟩
          else .ok (publish s (commandPayload button.signal))
  | _, _ => .error ⟨400, "remoteId and buttonId are required"⟩

/-! ## Learning -/

/-- `timeoutMs || LEARN_TIMEOUT_MS` -/
def learnTimeout (timeoutMs : Option Nat) : Nat :=
  match timeoutMs with
  | none => learnTimeoutMs
  | some ms => if ms = 0 then learnTimeoutMs else ms

/-- `POST /api/learn` -/
def postLearn (s : State) (remoteId buttonId : Option String) (timeoutMs : Option Nat) :
    Except ApiError State :=
  match required remoteId, required buttonId with
  | some remoteId, some buttonId =>
      match findButton s.db remoteId buttonId with
      | none => .error ⟨404, "remote or button not found"⟩
      | some _ =>
          let s := clearLearnSession s
          let s := { s with
            timers := s.timers ++ [⟨s.nextTimer, remoteId, buttonId⟩]
            learnSession := some ⟨remoteId, buttonId, s.nextTimer⟩
            nextTimer := s.nextTimer + 1 }
          .ok (broadcast s (.learnArmed remoteId buttonId (learnTimeout timeoutMs)))
  | _, _ => .error ⟨400, "remoteId and buttonId are required"⟩

/-- The callback of a learn timer; by then the timer itself is no longer pending. -/
def timedOut (s : State) (timer : Timer) : State :=
  let s := { s with timers := clearTimeout timer.id s.timers }
  clearLearnSession (broadcast s
    (.learnResult timer.remoteId timer.buttonId (.error "timed out waiting for signal")))

mutual

/-- Conversion to a string throws: an object with a property `toString` of its own
has no method left to call, and an array converts its elements. -/
def unprintable : Json → Bool
  | .arr items => unprintableItems items
  | .obj members => members.any fun member => member.1 == bytes "toString"
  | _ => false

def unprintableItems : List Json → Bool
  | [] => false
  | item :: items => unprintable item || unprintableItems items

end

/-- `signal.pulses?.length` when it is not a number already. -/
def pulsesLength (signal : Json) : Option Json :=
  match signal.field (bytes "pulses") with
  | some (.obj members) => (Json.obj members).field (bytes "length")
  | _ => none

/-- The console line throws: on `null`, and on what cannot be printed. -/
def logThrows : Json → Bool
  | .null => true
  | signal =>
      ((signal.field (bytes "frame_count")).map unprintable).getD false ||
        ((pulsesLength signal).map unprintable).getD false ||
        ((signal.field (bytes "carrier_freq")).map unprintable).getD false

/-- A message on `irhub/learned` that the stack is deep enough for; `none` when the handler
throws. -/
def learned (s : State) (payload : List UInt8) : Option State :=
  match Json.parse payload with
  | none => some s
  | some signal =>
      if logThrows signal then none
      else
        match s.learnSession with
        | none => some (broadcast s (.rawSignal signal))
        | some session =>
            let s := match findButton s.db session.remoteId session.buttonId with
              | some _ =>
                  broadcast { s with db := assignSignal s.db session.remoteId session.buttonId signal }
                    (.learnResult session.remoteId session.buttonId (.ok signal))
              | none =>
                  broadcast s (.learnResult session.remoteId session.buttonId
                    (.error "target button not found"))
            some (clearLearnSession s)

/-! ## The engine's stack -/

/-- What the stack of the JavaScript engine is deep enough for; on what is nested deeper it
throws a `RangeError`. -/
structure Stack where
  /-- The conversion to a string, which joins the elements of an array. -/
  converts : Json → Bool
  /-- `JSON.stringify` of a broadcast with the signal in it. -/
  broadcasts : Json → Bool
  /-- `JSON.stringify` of the store. -/
  writes : Db → Bool

/-- A stack without an end. -/
def Stack.ample : Stack := ⟨fun _ => true, fun _ => true, fun _ => true⟩

/-- The console line gets by with the stack. -/
def logFits (stack : Stack) (signal : Json) : Bool :=
  ((signal.field (bytes "frame_count")).map stack.converts).getD true &&
    ((pulsesLength signal).map stack.converts).getD true &&
    ((signal.field (bytes "carrier_freq")).map stack.converts).getD true

/-- So do the `.write()` of the store with the signal in it, and the broadcast of the signal. -/
def storeFits (stack : Stack) (s : State) (signal : Json) : Bool :=
  match s.learnSession with
  | none => stack.broadcasts signal
  | some session =>
      match findButton s.db session.remoteId session.buttonId with
      | some _ =>
          stack.writes (assignSignal s.db session.remoteId session.buttonId signal) &&
            stack.broadcasts signal
      | none => true

/-- `learned` on a stack that has an end: its `RangeError` leaves the handler as well. -/
def learnedOn (stack : Stack) (s : State) (payload : List UInt8) : Option State :=
  match Json.parse payload with
  | none => some s
  | some signal =>
      if logFits stack signal && storeFits stack s signal then learned s payload else none

/-! ## One turn -/

inductive Event where
  | postRemotes (req : RemoteReq) (uuid : Nat → String)
  | deleteRemote (id : String)
  | postSend (remoteId buttonId : Option String)
  /-- A routine or a price rule fires a button. -/
  | fireButton (remoteId buttonId : String)
  | postLearn (remoteId buttonId : Option String) (timeoutMs : Option Nat)
  | deleteLearn
  | learned (payload : List UInt8)
  | timedOut (timer : Timer)

/-- The state after a request: a refused one changes nothing. -/
def accepted {ε : Type} (s : State) : Except ε State → State
  | .ok t => t
  | .error _ => s

/-- One event; `none` when it cannot happen or the handler throws. -/
def next (s : State) : Event → Option State
  | .postRemotes req uuid =>
      match Store.postRemotes s.db req uuid with
      | .ok (db, _) => some { s with db }
      | .error _ => some s
  | .deleteRemote id => some { s with db := Store.deleteRemote s.db id }
  | .postSend remoteId buttonId => some (accepted s (postSend s remoteId buttonId))
  | .fireButton remoteId buttonId => some (accepted s (fireButton s remoteId buttonId))
  | .postLearn remoteId buttonId timeoutMs => some (accepted s (postLearn s remoteId buttonId timeoutMs))
  | .deleteLearn => some (clearLearnSession s)
  | .learned payload => learned s payload
  | .timedOut timer => if timer ∈ s.timers then some (timedOut s timer) else none

/-- The backend, started on any store. -/
def machine : Machine State Event := Machine.ofStep (fun s => ∃ db, s = initial db) next

/-! ## What a turn leaves of a signal -/

@[simp] theorem clearLearnSession_db (s : State) : (clearLearnSession s).db = s.db := by
  unfold clearLearnSession
  split <;> rfl

/-- An accepted send publishes, and that is all it does. -/
theorem postSend_ok {s t : State} {remoteId buttonId : Option String}
    (sent : postSend s remoteId buttonId = .ok t) : ∃ payload, t = publish s payload := by
  unfold postSend at sent
  split at sent
  · split at sent
    · cases sent
    · split at sent
      · cases sent
      · split at sent
        · cases sent
        · exact ⟨_, (Except.ok.inj sent).symm⟩
  · cases sent

theorem fireButton_ok {s t : State} {remoteId buttonId : String}
    (sent : fireButton s remoteId buttonId = .ok t) : ∃ payload, t = publish s payload := by
  unfold fireButton at sent
  split at sent
  · cases sent
  · split at sent
    · cases sent
    · split at sent
      · cases sent
      · exact ⟨_, (Except.ok.inj sent).symm⟩

theorem accepted_cases {ε : Type} (s : State) (result : Except ε State) :
    accepted s result = s ∨ result = .ok (accepted s result) := by
  cases result with
  | error e => exact .inl rfl
  | ok t => exact .inr rfl

/-- Arming names an existing button and starts a timer of its own. -/
theorem postLearn_ok {s t : State} {remoteId buttonId : Option String} {timeoutMs : Option Nat}
    (armed : postLearn s remoteId buttonId timeoutMs = .ok t) :
    ∃ r b, remoteId = some r ∧ buttonId = some b ∧ r ≠ "" ∧ b ≠ "" ∧ t.db = s.db ∧
      (∃ button, findButton s.db r b = some button) ∧
      t.learnSession = some ⟨r, b, (clearLearnSession s).nextTimer⟩ := by
  unfold postLearn at armed
  split at armed
  · rename_i r b hasRemote hasButton
    split at armed
    · cases armed
    · rename_i button found
      cases armed
      have known : ∀ {s : Option String} {v : String}, required s = some v → s = some v ∧ v ≠ "" := by
        intro s v present
        unfold required at present
        split at present
        · cases present
        · split at present
          · cases present
          · cases present
            exact ⟨rfl, by assumption⟩
      exact ⟨r, b, (known hasRemote).1, (known hasButton).1, (known hasRemote).2,
        (known hasButton).2, clearLearnSession_db s, ⟨button, found⟩, rfl⟩
  · cases armed

/-- A learned message stores its signal in the armed button and nowhere else. -/
theorem learned_db {s t : State} {payload : List UInt8} (handled : learned s payload = some t) :
    t.db = s.db ∨ ∃ session signal button, s.learnSession = some session ∧
      Json.parse payload = some signal ∧
      findButton s.db session.remoteId session.buttonId = some button ∧
      t.db = assignSignal s.db session.remoteId session.buttonId signal := by
  unfold learned at handled
  split at handled
  · cases handled
    exact .inl rfl
  · rename_i signal parsed
    split at handled
    · cases handled
    · split at handled
      · cases handled
        exact .inl rfl
      · rename_i session armed
        cases handled
        split
        · rename_i button found
          exact .inr ⟨session, signal, button, armed, parsed, found, clearLearnSession_db _⟩
        · exact .inl (clearLearnSession_db _)

theorem timedOut_db {s t : State} {timer : Timer} (step : next s (.timedOut timer) = some t) :
    t.db = s.db := by
  simp only [next] at step
  split at step
  · cases step
    exact clearLearnSession_db _
  · cases step

/-- The turns that change the store, and how. -/
theorem next_db {s t : State} {e : Event} (step : next s e = some t) :
    t.db = s.db ∨
      (∃ req uuid reply, e = .postRemotes req uuid ∧
        Store.postRemotes s.db req uuid = .ok (t.db, reply)) ∨
      (∃ id, e = .deleteRemote id ∧ t.db = Store.deleteRemote s.db id) ∨
      ∃ payload session signal button, e = .learned payload ∧ s.learnSession = some session ∧
        Json.parse payload = some signal ∧
        findButton s.db session.remoteId session.buttonId = some button ∧
        t.db = assignSignal s.db session.remoteId session.buttonId signal := by
  cases e with
  | postRemotes req uuid =>
      simp only [next] at step
      split at step
      · rename_i db reply handled
        cases step
        exact .inr (.inl ⟨req, uuid, reply, rfl, handled⟩)
      · cases step
        exact .inl rfl
  | deleteRemote id =>
      cases step
      exact .inr (.inr (.inl ⟨id, rfl, rfl⟩))
  | postSend r b =>
      cases step
      obtain refused | sent := accepted_cases s (postSend s r b)
      · rw [refused]
        exact .inl rfl
      · obtain ⟨payload, published⟩ := postSend_ok sent
        rw [published]
        exact .inl rfl
  | fireButton r b =>
      cases step
      obtain refused | sent := accepted_cases s (fireButton s r b)
      · rw [refused]
        exact .inl rfl
      · obtain ⟨payload, published⟩ := fireButton_ok sent
        rw [published]
        exact .inl rfl
  | postLearn r b timeoutMs =>
      cases step
      obtain refused | armed := accepted_cases s (postLearn s r b timeoutMs)
      · rw [refused]
        exact .inl rfl
      · obtain ⟨-, -, -, -, -, -, same, -⟩ := postLearn_ok armed
        exact .inl same
  | deleteLearn =>
      cases step
      exact .inl (clearLearnSession_db s)
  | learned payload =>
      obtain same | ⟨session, signal, button, assigned⟩ := learned_db step
      · exact .inl same
      · exact .inr (.inr (.inr ⟨payload, session, signal, button, rfl, assigned⟩))
  | timedOut timer => exact .inl (timedOut_db step)

/-- The event neither edits the button nor learns it again. -/
def Keeps (remoteId buttonId : String) (s : State) : Event → Prop
  | .postRemotes req uuid => KeepsButton remoteId buttonId req uuid
  | .deleteRemote id => id ≠ remoteId
  | .learned _ => ∀ session, s.learnSession = some session →
      ¬(session.remoteId = remoteId ∧ session.buttonId = buttonId)
  | _ => True

/-- One turn that leaves the button alone keeps its signal. -/
theorem signalAt_next {s t : State} {e : Event} {remoteId buttonId : String} {signal : Json}
    (named : buttonId ≠ "") (keeps : Keeps remoteId buttonId s e) (step : next s e = some t)
    (stored : signalAt s.db remoteId buttonId = some signal) :
    signalAt t.db remoteId buttonId = some signal := by
  obtain same | ⟨req, uuid, reply, rfl, handled⟩ | ⟨id, rfl, removed⟩ |
    ⟨payload, session, learnt, button, rfl, armed, -, -, assigned⟩ := next_db step
  · rw [same]
    exact stored
  · exact signalAt_postRemotes named keeps stored handled
  · rw [removed, signalAt_deleteRemote_ne s.db buttonId (Ne.symm keeps)]
    exact stored
  · have other := keeps session armed
    rw [assigned, signalAt_assignSignal_ne _ _ fun same => other ⟨same.1.symm, same.2.symm⟩]
    exact stored

/-- A run that leaves the button alone keeps its signal. -/
theorem signalAt_run {s t : State} {es : List Event} {remoteId buttonId : String} {signal : Json}
    (named : buttonId ≠ "") (run : (machine.restrict (Keeps remoteId buttonId)).Run s es t)
    (stored : signalAt s.db remoteId buttonId = some signal) :
    signalAt t.db remoteId buttonId = some signal := by
  refine Machine.run_preserves (P := fun u => signalAt u.db remoteId buttonId = some signal)
    ?_ stored run
  intro u e v held move
  exact signalAt_next named move.1 move.2 held

/-! ## The armed button -/

/-- The event does not end the learn session. -/
def KeepsSession : Event → Prop
  | .postLearn _ _ _ => False
  | .deleteLearn => False
  | .learned _ => False
  | .timedOut _ => False
  | _ => True

theorem learnSession_next {s t : State} {e : Event} (keeps : KeepsSession e)
    (step : next s e = some t) : t.learnSession = s.learnSession := by
  cases e with
  | postRemotes req uuid =>
      simp only [next] at step
      split at step <;> cases step <;> rfl
  | deleteRemote id =>
      cases step
      rfl
  | postSend r b =>
      cases step
      obtain refused | sent := accepted_cases s (postSend s r b)
      · rw [refused]
      · obtain ⟨payload, published⟩ := postSend_ok sent
        rw [published]
        rfl
  | fireButton r b =>
      cases step
      obtain refused | sent := accepted_cases s (fireButton s r b)
      · rw [refused]
      · obtain ⟨payload, published⟩ := fireButton_ok sent
        rw [published]
        rfl
  | postLearn r b timeoutMs => exact absurd keeps id
  | deleteLearn => exact absurd keeps id
  | learned payload => exact absurd keeps id
  | timedOut timer => exact absurd keeps id

/-- The next message stores what it carries in the armed button. -/
theorem learned_armed {s : State} {payload : List UInt8} {session : LearnSession} {signal : Json}
    {button : Button} (armed : s.learnSession = some session)
    (found : findButton s.db session.remoteId session.buttonId = some button)
    (parsed : Json.parse payload = some signal) (printable : logThrows signal = false) :
    ∃ t, learned s payload = some t ∧
      signalAt t.db session.remoteId session.buttonId = some signal := by
  simp only [learned, parsed, printable, armed, found]
  refine ⟨_, rfl, ?_⟩
  rw [clearLearnSession_db]
  exact signalAt_assignSignal_self signal found

/-! ## What a send makes of a stored signal -/

theorem findButton_of_signalAt {db : Db} {remoteId buttonId : String} {signal : Json}
    (stored : signalAt db remoteId buttonId = some signal) :
    ∃ button, findButton db remoteId buttonId = some button ∧ button.signal = signal :=
  Option.map_eq_some_iff.mp stored

/-- A truncated signal is refused by both paths. -/
theorem send_truncated {s : State} {remoteId buttonId : String} {signal : Json}
    (remoteNamed : remoteId ≠ "") (buttonNamed : buttonId ≠ "") (learnt : signal.truthy = true)
    (stored : signalAt s.db remoteId buttonId = some signal) (clipped : isTruncated signal = true) :
    (∃ e, postSend s (some remoteId) (some buttonId) = .error e) ∧
      ∃ e, fireButton s remoteId buttonId = .error e := by
  obtain ⟨button, found, rfl⟩ := findButton_of_signalAt stored
  constructor
  · refine ⟨⟨409, "learned signal was truncated — re-learn this button"⟩, ?_⟩
    simp [postSend, required, remoteNamed, buttonNamed, found, learnt, clipped]
  · refine ⟨"button " ++ remoteId ++ "/" ++ buttonId ++ " has a truncated signal — re-learn it", ?_⟩
    simp [fireButton, found, learnt, clipped]

/-- Any other signal is published by both paths, with one payload. -/
theorem send_whole {s : State} {remoteId buttonId : String} {signal : Json}
    (remoteNamed : remoteId ≠ "") (buttonNamed : buttonId ≠ "") (learnt : signal.truthy = true)
    (stored : signalAt s.db remoteId buttonId = some signal) (whole : isTruncated signal = false) :
    postSend s (some remoteId) (some buttonId) = .ok (publish s (commandPayload signal)) ∧
      fireButton s remoteId buttonId = .ok (publish s (commandPayload signal)) := by
  obtain ⟨button, found, rfl⟩ := findButton_of_signalAt stored
  constructor
  · simp [postSend, required, remoteNamed, buttonNamed, found, learnt, whole]
  · simp [fireButton, found, learnt, whole]

end IrHub.Backend.Server
