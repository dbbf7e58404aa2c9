/-
# Backend.Learn -- learn sessions: one timer, one target, one result

A session is known by its timer, whose number no other session gets.  `Move` is
what a turn of the server does to sessions, timers and learn-results; with it the
timers are exactly the one of the session (`Inv`), and a session that is over is
answered no more (`answered_open`, `answered_nodup`).

Between the turns of `Server` other handlers may put anything in the store (`edit`):
no session looks at it before its message comes.

A learned object is stored unless the console line in front of it throws, or the stack of
the engine is not deep enough for it (`learn_sessions`); either ends the process.
-/
import IrHub.Backend.Server

namespace IrHub.Backend.Learn

set_option autoImplicit false

open IrHub.Theory IrHub.Backend.Store IrHub.Backend.Server

inductive Event where
  | turn (e : Server.Event)
  | edit (db : Db)

def next (stack : Stack) (s : State) : Event → Option State
  | .turn (.learned payload) => learnedOn stack s payload
  | .turn e => Server.next s e
  | .edit db => some { s with db }

def machine (stack : Stack) : Machine State Event :=
  Machine.ofStep (fun s => ∃ db, s = initial db) (next stack)

theorem learned_of_on {stack : Stack} {s t : State} {payload : List UInt8}
    (handled : learnedOn stack s payload = some t) : learned s payload = some t := by
  unfold learnedOn at handled
  split at handled
  · rename_i text
    rw [learned, text]
    exact handled
  · split at handled
    · exact handled
    · cases handled

/-! ## Sessions, timers and results -/

/-- The `setTimeout` of a session. -/
def pending (session : LearnSession) : Timer := ⟨session.timer, session.remoteId, session.buttonId⟩

/-- The session a timer was started for. -/
def owner (timer : Timer) : LearnSession := ⟨timer.remoteId, timer.buttonId, timer.id⟩

/-- A learn-result: the button it names and what came of it. -/
abbrev Result := (String × String) × Except String Json

def learnResult : Broadcast → Option Result
  | .learnResult remoteId buttonId result => some ((remoteId, buttonId), result)
  | _ => none

/-- The learn-results broadcast so far. -/
def results (s : State) : List Result := s.broadcasts.filterMap learnResult

def target (session : LearnSession) : String × String := (session.remoteId, session.buttonId)

/-- The session for which the event broadcasts a learn-result. -/
def answers (s : State) : Event → Option LearnSession
  | .turn (.learned payload) =>
      match Json.parse payload with
      | none => none
      | some signal => if logThrows signal then none else s.learnSession
  | .turn (.timedOut timer) => some (owner timer)
  | _ => none

/-- The sessions answered by a run. -/
def answered (stack : Stack) : State → List Event → List LearnSession
  | _, [] => []
  | s, e :: es =>
      (answers s e).toList ++
        match next stack s e with
        | some t => answered stack t es
        | none => []

/-- The only timer is that of the session. -/
structure Inv (s : State) : Prop where
  timers : s.timers = (s.learnSession.map pending).toList
  numbered : ∀ session, s.learnSession = some session → session.timer < s.nextTimer

theorem inv_initial (db : Db) : Inv (initial db) := ⟨rfl, nofun⟩

/-! ## What a turn does to them -/

/-- A turn leaves the session alone, arms a new one, or ends the one there is, with
or without a result for it. -/
inductive Move (s t : State) (answer : Option LearnSession) : Prop
  | stays (timers : t.timers = s.timers) (session : t.learnSession = s.learnSession)
      (nextTimer : t.nextTimer = s.nextTimer) (results : results t = results s)
      (answer : answer = none)
  | arms (session : LearnSession) (timers : t.timers = [pending session])
      (armed : t.learnSession = some session) (number : session.timer = s.nextTimer)
      (nextTimer : t.nextTimer = s.nextTimer + 1) (results : results t = results s)
      (answer : answer = none)
  | ends (session : LearnSession) (was : s.learnSession = some session) (timers : t.timers = [])
      (closed : t.learnSession = none) (nextTimer : t.nextTimer = s.nextTimer)
      (result : (answer = none ∧ results t = results s) ∨
        (answer = some session ∧ ∃ result, results t = results s ++ [(target session, result)]))

theorem results_broadcast (s : State) (message : Broadcast) :
    results (broadcast s message) = results s ++ (learnResult message).toList := by
  unfold results broadcast
  rw [List.filterMap_append]
  cases learned : learnResult message <;> simp [learned]

/-- After its session nothing of it is left. -/
theorem clearLearnSession_eq {s : State} (inv : Inv s) :
    clearLearnSession s = { s with timers := [], learnSession := none } := by
  obtain ⟨timers, -⟩ := inv
  unfold clearLearnSession
  cases armed : s.learnSession with
  | none =>
      rw [armed] at timers
      cases s
      simp_all
  | some session =>
      rw [armed] at timers
      simp [timers, clearTimeout, pending]

theorem postLearn_eq {s t : State} {remoteId buttonId : Option String} {timeoutMs : Option Nat}
    (inv : Inv s) (armed : postLearn s remoteId buttonId timeoutMs = .ok t) :
    ∃ session, session.timer = s.nextTimer ∧
      t = broadcast { s with
        timers := [pending session]
        learnSession := some session
        nextTimer := s.nextTimer + 1 }
        (.learnArmed session.remoteId session.buttonId (learnTimeout timeoutMs)) := by
  unfold postLearn at armed
  split at armed
  · rename_i r b _ _
    split at armed
    · cases armed
    · cases armed
      rw [clearLearnSession_eq inv]
      exact ⟨⟨r, b, s.nextTimer⟩, rfl, rfl⟩
  · cases armed

/-- The end of a session, with what is broadcast for it. -/
theorem Move.answered {s u : State} {session : LearnSession} (inv : Inv s)
    (armed : s.learnSession = some session) (timers : u.timers = s.timers ∨ u.timers = [])
    (same : u.learnSession = s.learnSession) (nextTimer : u.nextTimer = s.nextTimer)
    {result : Except String Json} (broadcasts : results u = results s) :
    Move s (clearLearnSession
      (broadcast u (.learnResult session.remoteId session.buttonId result))) (some session) := by
  have mine : (broadcast u (.learnResult session.remoteId session.buttonId result)).learnSession =
      some session := same.trans armed
  have none_left : clearTimeout session.timer u.timers = [] := by
    rcases timers with live | gone
    · rw [live, inv.timers, armed]
      simp [clearTimeout, pending]
    · rw [gone]
      rfl
  have cleared : clearLearnSession
      (broadcast u (.learnResult session.remoteId session.buttonId result)) =
        { broadcast u (.learnResult session.remoteId session.buttonId result) with
          timers := [], learnSession := none } := by
    simp only [clearLearnSession, mine]
    exact congrArg (fun timers => { broadcast u _ with timers, learnSession := none }) none_left
  rw [cleared]
  refine .ends session armed rfl rfl nextTimer (.inr ⟨rfl, result, ?_⟩)
  show results (broadcast u _) = _
  rw [results_broadcast, broadcasts]
  rfl

theorem move_timedOut {s t : State} {timer : Timer} (inv : Inv s)
    (step : Server.next s (.timedOut timer) = some t) : Move s t (some (owner timer)) := by
  simp only [Server.next] at step
  split at step
  · rename_i live
    cases step
    rw [inv.timers] at live
    cases armed : s.learnSession with
    | none =>
        rw [armed] at live
        cases live
    | some session =>
        rw [armed] at live
        obtain rfl : timer = pending session := by simpa using live
        have gone : clearTimeout session.timer s.timers = [] := by
          rw [inv.timers, armed]
          simp [clearTimeout, pending]
        exact Move.answered (u := { s with timers := clearTimeout session.timer s.timers }) inv armed
          (.inr gone) rfl rfl rfl
  · cases step

theorem move_learned {s t : State} {payload : List UInt8} (inv : Inv s)
    (step : learned s payload = some t) : Move s t (answers s (.turn (.learned payload))) := by
  unfold learned at step
  cases parsed : Json.parse payload with
  | none =>
      simp only [parsed] at step
      cases step
      simp only [answers, parsed]
      exact .stays rfl rfl rfl rfl rfl
  | some signal =>
      simp only [parsed] at step
      simp only [answers, parsed]
      by_cases printable : logThrows signal = true
      · rw [if_pos printable] at step
        cases step
      · rw [if_neg printable] at step ⊢
        cases armed : s.learnSession with
        | none =>
            simp only [armed] at step
            cases step
            refine .stays rfl rfl rfl ?_ rfl
            rw [results_broadcast]
            exact List.append_nil _
        | some session =>
            simp only [armed] at step
            cases step
            split
            · exact Move.answered (u := { s with
                db := assignSignal s.db session.remoteId session.buttonId signal
                learnSession := some session }) inv armed (.inl rfl) armed.symm rfl rfl
            · exact Move.answered inv armed (.inl rfl) rfl rfl rfl

/-- **What a turn does to sessions, timers and learn-results.** -/
theorem move_next {stack : Stack} {s t : State} {e : Event} (inv : Inv s)
    (step : next stack s e = some t) : Move s t (answers s e) := by
  cases e with
  | edit db =>
      cases step
      exact .stays rfl rfl rfl rfl rfl
  | turn e =>
      cases e with
      | postRemotes req uuid =>
          simp only [next, Server.next] at step
          split at step
          · cases step
            exact .stays rfl rfl rfl rfl rfl
          · cases step
            exact .stays rfl rfl rfl rfl rfl
      | deleteRemote id =>
          cases step
          exact .stays rfl rfl rfl rfl rfl
      | postSend r b =>
          cases step
          obtain refused | sent := accepted_cases s (postSend s r b)
          · rw [refused]
            exact .stays rfl rfl rfl rfl rfl
          · obtain ⟨payload, published⟩ := postSend_ok sent
            rw [published]
            exact .stays rfl rfl rfl rfl rfl
      | fireButton r b =>
          cases step
          obtain refused | sent := accepted_cases s (fireButton s r b)
          · rw [refused]
            exact .stays rfl rfl rfl rfl rfl
          · obtain ⟨payload, published⟩ := fireButton_ok sent
            rw [published]
            exact .stays rfl rfl rfl rfl rfl
      | postLearn r b timeoutMs =>
          cases step
          obtain refused | armed := accepted_cases s (postLearn s r b timeoutMs)
          · rw [refused]
            exact .stays rfl rfl rfl rfl rfl
          · obtain ⟨session, number, after⟩ := postLearn_eq inv armed
            rw [after]
            refine .arms session rfl rfl number rfl ?_ rfl
            rw [results_broadcast]
            exact List.append_nil _
      | deleteLearn =>
          cases step
          rw [clearLearnSession_eq inv]
          cases armed : s.learnSession with
          | none =>
              refine .stays ?_ armed.symm rfl rfl rfl
              rw [inv.timers, armed]
              rfl
          | some session => exact .ends session armed rfl rfl rfl (.inl ⟨rfl, rfl⟩)
      | learned payload => exact move_learned inv (learned_of_on step)
      | timedOut timer => exact move_timedOut inv step

/-! ## Over a run -/

theorem inv_next {stack : Stack} {s t : State} {e : Event} (inv : Inv s)
    (step : next stack s e = some t) : Inv t := by
  cases move_next inv step with
  | stays timers session nextTimer _ _ =>
      constructor
      · rw [timers, session]
        exact inv.timers
      · rw [session, nextTimer]
        exact inv.numbered
  | arms session timers armed number nextTimer _ _ =>
      constructor
      · rw [timers, armed]
        rfl
      · intro other same
        obtain rfl : session = other := Option.some.inj (armed.symm.trans same)
        omega
  | ends session was timers closed nextTimer _ =>
      constructor
      · rw [timers, closed]
        rfl
      · rw [closed]
        exact nofun

theorem invariant (stack : Stack) : (machine stack).Invariant Inv where
  base s start := by
    obtain ⟨db, rfl⟩ := start
    exact inv_initial db
  step _ _ _ inv step := inv_next inv step

/-- A session that may still be answered: the armed one, or one armed later. -/
def Open (s : State) (n : Nat) : Prop :=
  s.learnSession.map LearnSession.timer = some n ∨ s.nextTimer ≤ n

/-- Who is answered was open, and is so no more. -/
theorem open_next {stack : Stack} {s t : State} {e : Event} (inv : Inv s)
    (step : next stack s e = some t) :
    (∀ n, Open t n → Open s n) ∧
      ∀ session, answers s e = some session → Open s session.timer ∧ ¬Open t session.timer := by
  unfold Open
  cases move_next inv step with
  | stays _ session nextTimer _ answer =>
      rw [session, nextTimer, answer]
      exact ⟨fun _ still => still, nofun⟩
  | arms session _ armed number nextTimer _ answer =>
      rw [armed, nextTimer, answer]
      refine ⟨?_, nofun⟩
      rintro n (new | later)
      · obtain rfl : session.timer = n := Option.some.inj new
        exact .inr (Nat.le_of_eq number.symm)
      · exact .inr (by omega)
  | ends session was _ closed nextTimer result =>
      have numbered := inv.numbered session was
      rw [closed, nextTimer, was]
      constructor
      · rintro n (none | later)
        · cases none
        · exact .inr later
      · rintro other answer
        rcases result with ⟨quiet, -⟩ | ⟨mine, -⟩
        · rw [quiet] at answer
          cases answer
        · obtain rfl : session = other := Option.some.inj (mine.symm.trans answer)
          refine ⟨.inl rfl, ?_⟩
          rintro (none | later)
          · cases none
          · omega

theorem answered_cons {stack : Stack} {s t : State} {e : Event} (es : List Event)
    (step : next stack s e = some t) :
    answered stack s (e :: es) = (answers s e).toList ++ answered stack t es := by
  simp only [answered, step]

/-- Only open sessions are answered. -/
theorem answered_open {stack : Stack} {s t : State} {es : List Event} (inv : Inv s)
    (run : (machine stack).Run s es t) :
    ∀ session ∈ answered stack s es, Open s session.timer := by
  induction run with
  | nil => exact nofun
  | cons step run ih =>
      rename_i s u _ e es
      obtain ⟨opens, closes⟩ := open_next inv step
      intro session member
      rw [answered_cons es step, List.mem_append, Option.mem_toList] at member
      rcases member with now | later
      · exact (closes session now).1
      · exact opens _ (ih (inv_next inv step) session later)

/-- No session is answered twice. -/
theorem answered_nodup {stack : Stack} {s t : State} {es : List Event} (inv : Inv s)
    (run : (machine stack).Run s es t) :
    ((answered stack s es).map LearnSession.timer).Nodup := by
  induction run with
  | nil => exact List.nodup_nil
  | cons step run ih =>
      rename_i s u _ e es
      have rest := ih (inv_next inv step)
      have open_ := answered_open (inv_next inv step) run
      rw [answered_cons es step]
      cases answer : answers s e with
      | none => exact rest
      | some session =>
          refine List.nodup_cons.mpr ⟨?_, rest⟩
          intro again
          obtain ⟨other, member, same⟩ := List.mem_map.mp again
          have still := open_ other member
          rw [same] at still
          exact ((open_next inv step).2 session answer).2 still

/-- Every learn-result of a run is for a session that it answers. -/
theorem results_run {stack : Stack} {s t : State} {es : List Event} (inv : Inv s)
    (run : (machine stack).Run s es t) :
    ∃ new, results t = results s ++ new ∧
      new.map Prod.fst = (answered stack s es).map target := by
  induction run with
  | nil s => exact ⟨[], (List.append_nil _).symm, rfl⟩
  | cons step run ih =>
      rename_i s u _ e es
      obtain ⟨later, after, names⟩ := ih (inv_next inv step)
      rw [answered_cons es step]
      have quiet : results u = results s → answers s e = none → _ := fun same none =>
        (⟨later, by rw [after, same], by rw [none]; exact names⟩ :
          ∃ new, results _ = results s ++ new ∧
            new.map Prod.fst = ((answers s e).toList ++ answered stack u es).map target)
      cases move_next inv step with
      | stays _ _ _ same none => exact quiet same none
      | arms _ _ _ _ _ same none => exact quiet same none
      | ends session _ _ _ _ result =>
          rcases result with ⟨none, same⟩ | ⟨mine, result, one⟩
          · exact quiet same none
          · refine ⟨(target session, result) :: later, ?_, ?_⟩
            · rw [after, one, List.append_assoc]
              rfl
            · rw [mine]
              exact congrArg (target session :: ·) names

/-! ## Learn sessions are exclusive and exact -/

/-- The store with the signal in the armed button, if there is one and it exists. -/
def stored (s : State) (signal : Json) : Db :=
  match s.learnSession with
  | none => s.db
  | some session =>
      match findButton s.db session.remoteId session.buttonId with
      | none => s.db
      | some _ => assignSignal s.db session.remoteId session.buttonId signal

theorem learned_stores {s : State} {payload : List UInt8} {signal : Json}
    (parsed : Json.parse payload = some signal) (printable : logThrows signal = false) :
    ∃ t, learned s payload = some t ∧ t.db = stored s signal := by
  simp only [learned, parsed, printable, stored]
  cases s.learnSession with
  | none => exact ⟨_, rfl, rfl⟩
  | some session =>
      refine ⟨_, rfl, ?_⟩
      rw [clearLearnSession_db]
      dsimp only
      cases findButton s.db session.remoteId session.buttonId <;> rfl

theorem learnedOn_stores {stack : Stack} {s : State} {payload : List UInt8} {signal : Json}
    (parsed : Json.parse payload = some signal) :
    (∃ t, learnedOn stack s payload = some t ∧ t.db = stored s signal) ↔
      logThrows signal = false ∧ logFits stack signal = true ∧
        storeFits stack s signal = true := by
  simp only [learnedOn, parsed]
  constructor
  · rintro ⟨t, handled, -⟩
    split at handled
    · rename_i fits
      refine ⟨?_, Bool.and_eq_true_iff.mp fits⟩
      by_contra throws
      rw [Bool.not_eq_false] at throws
      simp [learned, parsed, throws] at handled
    · cases handled
  · rintro ⟨printable, log, store⟩
    rw [log, store, Bool.and_self, if_pos rfl]
    exact learned_stores parsed printable

/-- **The one learn timer is that of the session; a learned object is stored in the
armed button, and nowhere else, exactly when the console line does not throw on it and the
stack is deep enough to print it, to broadcast it and to write the store with it; and each
arming is answered at most once, none after its session is over.** -/
theorem learn_sessions {stack : Stack} {s : State} (reached : (machine stack).Reachable s) :
    s.timers = (s.learnSession.map pending).toList ∧
    (∀ payload members, Json.parse payload = some (.obj members) →
      ((∃ t, next stack s (.turn (.learned payload)) = some t ∧ t.db = stored s (.obj members)) ↔
        logThrows (.obj members) = false ∧ logFits stack (.obj members) = true ∧
          storeFits stack s (.obj members) = true)) ∧
    (∀ remoteId buttonId timeoutMs t, postLearn s remoteId buttonId timeoutMs = .ok t →
      t.learnSession.map LearnSession.timer = some s.nextTimer ∧ t.nextTimer = s.nextTimer + 1) ∧
    ∀ es t, (machine stack).Run s es t →
      (∃ new, results t = results s ++ new ∧
        new.map Prod.fst = (answered stack s es).map target) ∧
      ((answered stack s es).map LearnSession.timer).Nodup ∧
      ∀ session ∈ answered stack s es, Open s session.timer := by
  have inv := (invariant stack).reachable reached
  refine ⟨inv.timers, fun payload members parsed => learnedOn_stores parsed, ?_, ?_⟩
  · intro remoteId buttonId timeoutMs t armed
    obtain ⟨session, number, after⟩ := postLearn_eq inv armed
    rw [after]
    exact ⟨congrArg some number, rfl⟩
  · intro es t run
    exact ⟨results_run inv run, answered_nodup inv run, answered_open inv run⟩

/-- `POST /api/learn` for the one button of `oneRemote`. -/
def armPower : Event := .turn (.postLearn (some "tv") (some "power") none)

theorem armed_power (stack : Stack) : ∃ s, (machine stack).Reachable s ∧ s.db = oneRemote ∧
    s.learnSession = some ⟨"tv", "power", 0⟩ := by
  have found : findButton oneRemote "tv" "power" =
      some ⟨"power", "Power", 0, 0, none, .obj []⟩ := rfl
  have step : next stack (initial oneRemote) armPower = some (broadcast { initial oneRemote with
      timers := [⟨0, "tv", "power"⟩]
      learnSession := some ⟨"tv", "power", 0⟩
      nextTimer := 1 } (.learnArmed "tv" "power" learnTimeoutMs)) := by
    simp [next, armPower, Server.next, accepted, postLearn, required, initial, found,
      clearLearnSession, learnTimeout]
  exact ⟨_, ⟨_, [armPower], ⟨oneRemote, rfl⟩, .single step⟩, rfl, rfl⟩

theorem learn_sessions_power : ∃ s, (machine .ample).Reachable s ∧
    s.learnSession = some ⟨"tv", "power", 0⟩ ∧ s.timers = [⟨0, "tv", "power"⟩] := by
  obtain ⟨s, reached, -, armed⟩ := armed_power .ample
  have timers := (learn_sessions reached).1
  rw [armed] at timers
  exact ⟨s, reached, armed, timers⟩

/-- An object whose `carrier_freq` has a property `toString` of its own. -/
def unprintablePayload : List UInt8 :=
  bytes "\x7b\"carrier_freq\":\x7b\"toString\":null\x7d\x7d"

theorem logThrows_unprintable : ∃ members,
    Json.parse unprintablePayload = some (.obj members) ∧ logThrows (.obj members) = true := by
  have computed : (Json.parse unprintablePayload).any (fun signal =>
      (signal.field (bytes "carrier_freq")).isSome && logThrows signal) = true := by
    decide +kernel
  obtain ⟨signal, parsed, both⟩ := (Option.any_eq_true _ _).mp computed
  obtain ⟨member, throws⟩ := Bool.and_eq_true_iff.mp both
  cases signal with
  | obj members => exact ⟨members, parsed, throws⟩
  | _ => cases member

/-- A session is armed for a button of the store, and an object comes that cannot be
printed: the handler throws before it looks at the session. -/
theorem learned_unprintable : ∃ s payload members, (machine .ample).Reachable s ∧
    Json.parse payload = some (.obj members) ∧
    (∃ session button, s.learnSession = some session ∧
      findButton s.db session.remoteId session.buttonId = some button) ∧
    ¬∃ t, next .ample s (.turn (.learned payload)) = some t ∧ t.db = stored s (.obj members) := by
  obtain ⟨s, reached, db, armed⟩ := armed_power .ample
  obtain ⟨members, parsed, throws⟩ := logThrows_unprintable
  have found : ∃ button, findButton s.db "tv" "power" = some button := by
    rw [db]
    exact ⟨_, rfl⟩
  refine ⟨s, unprintablePayload, members, reached, parsed, ?_, ?_⟩
  · obtain ⟨button, exists_⟩ := found
    exact ⟨_, button, armed, exists_⟩
  · generalize unprintablePayload = payload at parsed ⊢
    intro stores
    rw [((learnedOn_stores parsed).mp stores).1] at throws
    cases throws

end IrHub.Backend.Learn
