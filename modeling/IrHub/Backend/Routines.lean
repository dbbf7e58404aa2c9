/-
# Backend.Routines -- `runRoutine` while routines are edited

A run has a reference to its routine object.  It looks at `steps` again at each turn of
its loop, and between two turns it awaits a delay or a publish: meanwhile requests put
other steps into that object, or take it out of the store.

`Run` is one run with what it has done so far (`acts`), and `script` is what a run of
some steps does from end to end.  A run that is suspended follows the script of the
routine it was started on as long as what is ahead of it stays (`Undisturbed`): that is
`follows_next`, and `underway_run` for every run.
-/
import IrHub.Theory.Objects
import IrHub.Backend.Records

namespace IrHub.Backend.Routines

set_option autoImplicit false

open IrHub.Theory IrHub.Backend.Store IrHub.Backend.Records
open IrHub.Backend.Server (fireButton)

/-! ## Runs -/

/-- What a run does: its broadcasts, its delays and the buttons it fires. -/
inductive Act where
  | started (routineId name : String)
  | sleep (delayMs : Int)
  | fire (remoteId buttonId : String)
  | step (routineId : String) (stepIndex : Nat) (error : Option String)
  | finished (routineId : String)
  deriving DecidableEq, Repr

/-- What a run awaits: the delay of a step, or the publish of its button. -/
inductive Status where
  | sleeping (step : RoutineStep)
  | firing
  | finished
  deriving DecidableEq, Repr

/-- `routine` is a reference and `index` is `i`. -/
structure Run where
  routineId : String
  routine : Nat
  index : Nat
  status : Status
  acts : List Act
  deriving DecidableEq, Repr

def Run.act (run : Run) (act : Act) : Run := { run with acts := run.acts ++ [act] }

/-- `broadcast('routine-step', ..)`, and on to the next turn. -/
def Run.report (run : Run) (error : Option String) : Run :=
  { run.act (.step run.routineId run.index error) with index := run.index + 1 }

/-- `await fireButton(..)`: what is rejected is reported at once. -/
def fire (server : Server.State) (run : Run) (step : RoutineStep) :
    Except Run (Server.State × Run) :=
  let run := run.act (.fire step.remoteId step.buttonId)
  match fireButton server step.remoteId step.buttonId with
  | .error e => .error (run.report (some e))
  | .ok server => .ok (server, { run with status := .firing })

/-- The loop of `runRoutine` up to its next await, where `steps` has these ahead. -/
def loop (server : Server.State) (run : Run) : List RoutineStep → Server.State × Run
  | [] => (server, { run.act (.finished run.routineId) with status := .finished })
  | step :: rest =>
      if step.delayMs ≠ 0 then
        (server, { run.act (.sleep step.delayMs) with status := .sleeping step })
      else
        match fire server run step with
        | .ok suspended => suspended
        | .error run => loop server run rest

/-! ## The backend -/

/-- `server.db` has the remotes; the routines are here, as objects. -/
structure State where
  server : Server.State
  routines : Objects Routine
  runs : List Run

/-- `db` -/
def State.db (s : State) : Db := { s.server.db with routines := s.routines.values }

inductive Event where
  | server (e : Server.Event)
  | postRoutines (req : RoutineReq) (uuid : String)
  | deleteRoutine (id : String)
  | runRoutine (routineId : String)
  | slept (k : Nat)
  | published (k : Nat) (error : Option String)

def put (routines : Objects Routine) (routine : Routine) : Objects Routine :=
  match routines.lookup Routine.id routine.id with
  | some _ => routines.assign Routine.id routine.id (editRoutine routine)
  | none => routines.push routine

/-- A run has got to its next await. -/
def suspend (s : State) (k : Nat) (suspended : Server.State × Run) : State :=
  { s with server := suspended.1, runs := s.runs.set k suspended.2 }

def next (s : State) : Event → Option State
  | .server e => (Server.next s.server e).map fun server => { s with server }
  | .postRoutines req uuid =>
      match routineOf req uuid with
      | .error _ => some s
      | .ok routine => some { s with routines := put s.routines routine }
  | .deleteRoutine id => some { s with routines := s.routines.remove Routine.id id }
  | .runRoutine routineId =>
      match s.routines.lookup Routine.id routineId with
      | none => some s
      | some r =>
          (s.routines.get? r).map fun routine =>
            let run : Run := ⟨routineId, r, 0, .firing, [.started routineId routine.name]⟩
            let (server, run) := loop s.server run routine.steps
            { s with server, runs := s.runs ++ [run] }
  | .slept k =>
      match s.runs[k]? with
      | none => none
      | some run =>
          match run.status, s.routines.get? run.routine with
          | .sleeping step, some routine =>
              match fire s.server run step with
              | .ok suspended => some (suspend s k suspended)
              | .error run => some (suspend s k (loop s.server run (routine.steps.drop run.index)))
          | _, _ => none
  | .published k error =>
      match s.runs[k]? with
      | none => none
      | some run =>
          match run.status, s.routines.get? run.routine with
          | .firing, some routine =>
              let run := run.report error
              some (suspend s k (loop s.server run (routine.steps.drop run.index)))
          | _, _ => none

def machine : Machine State Event :=
  Machine.ofStep (fun s => ∃ db, s = ⟨Server.initial db, .empty, []⟩) next

/-- The store is edited as `Records` has it. -/
theorem values_put (routines : Objects Routine) (routine : Routine) :
    (put routines routine).values = putRoutine routines.values routine := by
  have found := Objects.find_values Routine.id routines routine.id
  unfold put putRoutine
  cases there : routines.lookup Routine.id routine.id with
  | none =>
      rw [found, there]
      exact routines.values_push routine
  | some r =>
      obtain ⟨old, held, -⟩ := Objects.get?_lookup there
      rw [found, there, Option.bind_some, held]
      exact Objects.values_assign Routine.id routines routine.id (editRoutine routine)

theorem db_postRoutines {s t : State} {req : RoutineReq} {uuid : String}
    (step : next s (.postRoutines req uuid) = some t) :
    (t = s ∧ ∃ e, Records.postRoutines s.db req uuid = .error e) ∨
      ∃ reply, Records.postRoutines s.db req uuid = .ok (t.db, reply) := by
  unfold Records.postRoutines
  simp only [next] at step
  cases posted : routineOf req uuid with
  | error e =>
      simp only [posted] at step
      cases step
      exact .inl ⟨rfl, e, rfl⟩
  | ok routine =>
      simp only [posted] at step
      cases step
      refine .inr ⟨Collection.find Routine.id routine.id (putRoutine s.routines.values routine), ?_⟩
      simp only [State.db, values_put]

theorem db_deleteRoutine {s t : State} {id : String}
    (step : next s (.deleteRoutine id) = some t) : t.db = Records.deleteRoutine s.db id := by
  cases step
  simp only [State.db, Objects.values_remove]
  rfl

/-! ## What a run of some steps does -/

/-- One turn: the delay of the step, its button, and what came of that. -/
def turn (routineId : String) (i : Nat) (step : RoutineStep) (error : Option String) : List Act :=
  (if step.delayMs ≠ 0 then [.sleep step.delayMs] else []) ++
    [.fire step.remoteId step.buttonId, .step routineId i error]

/-- A turn for each step, with what came of it, from the index on. -/
def turns (routineId : String) : Nat → List (RoutineStep × Option String) → List Act
  | _, [] => []
  | i, (step, error) :: rest => turn routineId i step error ++ turns routineId (i + 1) rest

/-- A run from end to end. -/
def script (routineId name : String) (steps : List (RoutineStep × Option String)) : List Act :=
  .started routineId name :: turns routineId 0 steps ++ [.finished routineId]

theorem turns_append (routineId : String) (i : Nat) (xs ys : List (RoutineStep × Option String)) :
    turns routineId i (xs ++ ys) = turns routineId i xs ++ turns routineId (i + xs.length) ys := by
  induction xs generalizing i with
  | nil => rfl
  | cons x xs ih =>
      obtain ⟨step, error⟩ := x
      rw [List.cons_append, turns, turns, ih, List.append_assoc, List.length_cons]
      congr 3
      omega

/-- The turns in `done` are over. -/
structure Reported (routine : Routine) (routineId : String)
    (done : List (RoutineStep × Option String)) (run : Run) : Prop where
  id : run.routineId = routineId
  index : run.index = done.length
  acts : run.acts = .started routineId routine.name :: turns routineId 0 done

/-- A run of `routine` that is suspended, or over.  Behind `step` it has `ahead`. -/
inductive Follows (routine : Routine) (routineId : String) (run : Run) : Prop
  | sleeping (done : List (RoutineStep × Option String)) (step : RoutineStep)
      (ahead : List RoutineStep) (steps : routine.steps = done.map Prod.fst ++ step :: ahead)
      (id : run.routineId = routineId) (index : run.index = done.length)
      (status : run.status = .sleeping step) (delayed : step.delayMs ≠ 0)
      (acts : run.acts = .started routineId routine.name :: turns routineId 0 done ++
        [.sleep step.delayMs])
  | firing (done : List (RoutineStep × Option String)) (step : RoutineStep)
      (ahead : List RoutineStep) (steps : routine.steps = done.map Prod.fst ++ step :: ahead)
      (id : run.routineId = routineId) (index : run.index = done.length)
      (status : run.status = .firing)
      (acts : run.acts = .started routineId routine.name :: turns routineId 0 done ++
        ((if step.delayMs ≠ 0 then [.sleep step.delayMs] else []) ++
          [.fire step.remoteId step.buttonId]))
  | finished (done : List (RoutineStep × Option String)) (steps : routine.steps = done.map Prod.fst)
      (status : run.status = .finished) (acts : run.acts = script routineId routine.name done)

/-- The turns in `done` and the one of `step`. -/
theorem Reported.report {routine : Routine} {routineId : String}
    {done : List (RoutineStep × Option String)} {run : Run} {step : RoutineStep}
    (id : run.routineId = routineId) (index : run.index = done.length)
    (acts : run.acts = .started routineId routine.name :: turns routineId 0 done ++
      ((if step.delayMs ≠ 0 then [.sleep step.delayMs] else []) ++
        [.fire step.remoteId step.buttonId])) (error : Option String) :
    Reported routine routineId (done ++ [(step, error)]) (run.report error) where
  id := id
  index := by
    rw [List.length_append, List.length_singleton, ← index]
    rfl
  acts := by
    show run.acts ++ [Act.step run.routineId run.index error] = _
    rw [acts, id, index, turns_append, Nat.zero_add, turns, turns, turn, List.append_nil]
    simp only [List.cons_append, List.append_assoc, List.nil_append]

theorem steps_reported {steps : List RoutineStep} {done : List (RoutineStep × Option String)}
    {step : RoutineStep} {ahead : List RoutineStep}
    (whole : steps = done.map Prod.fst ++ step :: ahead) (error : Option String) :
    steps = (done ++ [(step, error)]).map Prod.fst ++ ahead := by
  rw [whole, List.map_append, List.append_assoc]
  rfl

/-- A button is fired: its publish is awaited, or its turn is over. -/
theorem follows_fire {routine : Routine} {routineId : String}
    {done : List (RoutineStep × Option String)} (server : Server.State) {run : Run}
    {step : RoutineStep} {ahead : List RoutineStep}
    (steps : routine.steps = done.map Prod.fst ++ step :: ahead)
    (id : run.routineId = routineId) (index : run.index = done.length)
    (acts : run.acts = .started routineId routine.name :: turns routineId 0 done ++
      (if step.delayMs ≠ 0 then [.sleep step.delayMs] else [])) :
    (∀ suspended, fire server run step = .ok suspended → Follows routine routineId suspended.2) ∧
      ∀ after, fire server run step = .error after →
        ∃ error, Reported routine routineId (done ++ [(step, error)]) after := by
  have fired : (run.act (.fire step.remoteId step.buttonId)).acts =
      .started routineId routine.name :: turns routineId 0 done ++
        ((if step.delayMs ≠ 0 then [.sleep step.delayMs] else []) ++
          [.fire step.remoteId step.buttonId]) := by
    rw [Run.act, acts, List.append_assoc]
  unfold fire
  dsimp only
  cases fireButton server step.remoteId step.buttonId with
  | ok server' =>
      constructor
      · rintro _ ⟨⟩
        exact .firing done step ahead steps id index rfl fired
      · rintro _ ⟨⟩
  | error e =>
      constructor
      · rintro _ ⟨⟩
      · rintro _ ⟨⟩
        refine ⟨some e, ?_⟩
        apply Reported.report
        · exact id
        · exact index
        · exact fired

/-- The loop gets to an await or to the end of the script. -/
theorem follows_loop {routine : Routine} {routineId : String} {ahead : List RoutineStep} :
    ∀ {done : List (RoutineStep × Option String)} {server : Server.State} {run : Run},
      Reported routine routineId done run → routine.steps = done.map Prod.fst ++ ahead →
        Follows routine routineId (loop server run ahead).2 := by
  induction ahead with
  | nil =>
      intro done server run reported steps
      rw [List.append_nil] at steps
      refine .finished done steps rfl ?_
      show run.acts ++ [Act.finished run.routineId] = _
      rw [reported.acts, reported.id]
      rfl
  | cons step rest ih =>
      intro done server run reported steps
      rw [loop]
      by_cases delayed : step.delayMs ≠ 0
      · rw [if_pos delayed]
        refine .sleeping done step rest steps reported.id reported.index rfl delayed ?_
        show run.acts ++ [Act.sleep step.delayMs] = _
        rw [reported.acts]
      · rw [if_neg delayed]
        obtain ⟨sent, refused⟩ := follows_fire server steps reported.id reported.index
          (by rw [if_neg delayed, reported.acts, List.append_nil])
        cases result : fire server run step with
        | ok suspended => exact sent suspended result
        | error after =>
            obtain ⟨error, reported'⟩ := refused after result
            exact ih reported' (steps_reported steps error)

/-! ## Edits -/

/-- If run `k` is going on and its object is edited, the posted steps are the object's
behind the turn of the run. -/
def Undisturbed (k : Nat) (s : State) : Event → Prop
  | .postRoutines req uuid => ∀ new live run, routineOf req uuid = .ok new →
      s.runs[k]? = some run → run.status ≠ .finished →
      s.routines.lookup Routine.id new.id = some run.routine →
      s.routines.get? run.routine = some live →
      new.steps.drop (run.index + 1) = live.steps.drop (run.index + 1)
  | _ => True

/-- Run `k` follows the script of `routine`, and its object still has what is ahead. -/
structure Underway (routine : Routine) (routineId : String) (s : State) (k : Nat) (run : Run) :
    Prop where
  at_ : s.runs[k]? = some run
  follows : Follows routine routineId run
  held : ∃ live, s.routines.get? run.routine = some live ∧
    (run.status ≠ .finished →
      live.steps.drop (run.index + 1) = routine.steps.drop (run.index + 1))

/-- The run has done something more, with the same object. -/
structure Onward (run after : Run) : Prop where
  routine : after.routine = run.routine
  index : run.index ≤ after.index
  acts : run.acts.length < after.acts.length

theorem Onward.trans {run after later : Run} (first : Onward run after)
    (second : Onward after later) : Onward run later where
  routine := second.routine.trans first.routine
  index := first.index.trans second.index
  acts := first.acts.trans second.acts

theorem onward_act (run : Run) (act : Act) (status : Status) :
    Onward run { run.act act with status } where
  routine := rfl
  index := Nat.le_refl _
  acts := by simp [Run.act]

theorem onward_report (run : Run) (error : Option String) : Onward run (run.report error) where
  routine := rfl
  index := Nat.le_succ _
  acts := by simp [Run.report, Run.act]

theorem onward_fire {server : Server.State} {run : Run} {step : RoutineStep} :
    (∀ suspended, fire server run step = .ok suspended → Onward run suspended.2) ∧
      ∀ after, fire server run step = .error after → Onward run after := by
  unfold fire
  dsimp only
  cases fireButton server step.remoteId step.buttonId with
  | ok server' =>
      constructor
      · rintro _ ⟨⟩
        exact onward_act run _ .firing
      · rintro _ ⟨⟩
  | error e =>
      constructor
      · rintro _ ⟨⟩
      · rintro _ ⟨⟩
        exact (onward_act run (.fire step.remoteId step.buttonId) run.status).trans
          (onward_report _ (some e))

theorem onward_loop {steps : List RoutineStep} : ∀ (server : Server.State) (run : Run),
    Onward run (loop server run steps).2 := by
  induction steps with
  | nil => exact fun _ run => onward_act run _ .finished
  | cons step rest ih =>
      intro server run
      rw [loop]
      split
      · exact onward_act run _ (.sleeping step)
      · obtain ⟨sent, refused⟩ := @onward_fire server run step
        split
        · rename_i suspended result
          exact sent suspended result
        · rename_i after result
          exact (refused after result).trans (ih server after)

/-- What is the same behind a turn is the same behind a later one. -/
theorem drop_later {steps live : List RoutineStep} {i j : Nat} (le : i ≤ j)
    (same : live.drop i = steps.drop i) : live.drop j = steps.drop j := by
  obtain ⟨d, rfl⟩ := Nat.exists_eq_add_of_le le
  rw [← List.drop_drop, ← List.drop_drop, same]

/-- The loop goes on with the steps of the object. -/
theorem underway_loop {routine live : Routine} {routineId : String} {s : State} {k : Nat}
    {run : Run} {done : List (RoutineStep × Option String)} {ahead : List RoutineStep}
    (inRange : k < s.runs.length) (server : Server.State)
    (reported : Reported routine routineId done run)
    (steps : routine.steps = done.map Prod.fst ++ ahead)
    (held : s.routines.get? run.routine = some live)
    (same : live.steps.drop run.index = routine.steps.drop run.index) :
    Underway routine routineId (suspend s k (loop server run (live.steps.drop run.index))) k
      (loop server run (live.steps.drop run.index)).2 := by
  have onward := @onward_loop (live.steps.drop run.index) server run
  have rest : live.steps.drop run.index = ahead := by
    rw [same, steps, reported.index, ← List.length_map Prod.fst]
    exact List.drop_left
  refine ⟨List.getElem?_set_self inRange, ?_, live, ?_, fun _ => ?_⟩
  · rw [rest]
    exact follows_loop reported steps
  · show s.routines.get? _ = some live
    rw [onward.routine]
    exact held
  · exact drop_later (onward.index.trans (Nat.le_succ _)) same

/-- An event of other runs, or of the store, that leaves the object's steps alone. -/
theorem Underway.other {routine : Routine} {routineId : String} {s t : State} {k : Nat} {run : Run}
    (underway : Underway routine routineId s k run) (stays : t.runs[k]? = some run)
    (held : ∀ live, s.routines.get? run.routine = some live →
      ∃ live', t.routines.get? run.routine = some live' ∧
        (run.status ≠ .finished →
          live'.steps.drop (run.index + 1) = live.steps.drop (run.index + 1))) :
    Underway routine routineId t k run := by
  obtain ⟨live, holds, ahead⟩ := underway.held
  obtain ⟨live', holds', same⟩ := held live holds
  exact ⟨stays, underway.follows, live', holds', fun going => (same going).trans (ahead going)⟩

theorem get?_put {routines : Objects Routine} (new : Routine) {live : Routine} {r : Nat}
    (held : routines.get? r = some live) :
    (put routines new).get? r = some live ∨
      (routines.lookup Routine.id new.id = some r ∧
        (put routines new).get? r = some (editRoutine new live)) := by
  unfold put
  cases found : routines.lookup Routine.id new.id with
  | none => exact .inl (Objects.get?_push held new)
  | some q =>
      dsimp only
      rw [Objects.get?_assign, found]
      by_cases same : q = r
      · subst same
        rw [if_pos rfl, held]
        exact .inr ⟨rfl, rfl⟩
      · rw [if_neg fun h => same (Option.some.inj h)]
        exact .inl held

/-- The delay of a run is over: its button is fired. -/
theorem slept_cases {s t : State} {k : Nat} (step : next s (.slept k) = some t) :
    ∃ run step live, s.runs[k]? = some run ∧ run.status = .sleeping step ∧
      s.routines.get? run.routine = some live ∧
      ((∃ suspended, fire s.server run step = .ok suspended ∧ t = suspend s k suspended) ∨
        ∃ after, fire s.server run step = .error after ∧
          t = suspend s k (loop s.server after (live.steps.drop after.index))) := by
  simp only [next] at step
  split at step
  · cases step
  · rename_i run there
    split at step
    · rename_i step_ live status held
      split at step
      · rename_i suspended sent
        cases step
        exact ⟨run, step_, live, there, status, held, .inl ⟨suspended, sent, rfl⟩⟩
      · rename_i after refused
        cases step
        exact ⟨run, step_, live, there, status, held, .inr ⟨after, refused, rfl⟩⟩
    · cases step

/-- The publish of a run is over: its turn is reported. -/
theorem published_cases {s t : State} {k : Nat} {error : Option String}
    (step : next s (.published k error) = some t) :
    ∃ run live, s.runs[k]? = some run ∧ run.status = .firing ∧
      s.routines.get? run.routine = some live ∧
      t = suspend s k (loop s.server (run.report error) (live.steps.drop (run.report error).index)) := by
  simp only [next] at step
  split at step
  · cases step
  · rename_i run there
    split at step
    · rename_i live status held
      cases step
      exact ⟨run, live, there, status, held, rfl⟩
    · cases step

theorem underway_suspend {routine : Routine} {routineId : String} {s : State} {j k : Nat}
    {run : Run} (underway : Underway routine routineId s k run) (ne : j ≠ k)
    (suspended : Server.State × Run) :
    Underway routine routineId (suspend s j suspended) k run := by
  refine underway.other ?_ fun live held => ⟨live, held, fun _ => rfl⟩
  exact (List.getElem?_set_ne ne).trans underway.at_

/-- A step that a run takes reads the object it was started on. -/
theorem Underway.reads {routine live : Routine} {routineId : String} {s : State} {k : Nat}
    {run other : Run} (underway : Underway routine routineId s k run)
    (there : s.runs[k]? = some other) (held : s.routines.get? other.routine = some live)
    (going : other.status ≠ .finished) : other = run ∧
      live.steps.drop (other.index + 1) = routine.steps.drop (other.index + 1) := by
  obtain rfl : other = run := Option.some.inj (there.symm.trans underway.at_)
  obtain ⟨live', held', same⟩ := underway.held
  obtain rfl : live = live' := Option.some.inj (held.symm.trans held')
  exact ⟨rfl, same going⟩

/-- The turn of a run that sleeps. -/
theorem underway_slept {routine : Routine} {routineId : String} {s t : State} {k : Nat} {run : Run}
    (underway : Underway routine routineId s k run) (step : next s (.slept k) = some t) :
    ∃ after, Underway routine routineId t k after ∧ Onward run after := by
  have inRange : k < s.runs.length := (List.getElem?_eq_some_iff.mp underway.at_).1
  obtain ⟨other, step_, live, there, status, held, moved⟩ := slept_cases step
  have going : other.status ≠ .finished := by
    rw [status]
    exact Status.noConfusion
  obtain ⟨rfl, same⟩ := underway.reads there held going
  cases underway.follows with
  | firing _ _ _ _ _ _ status' => cases status.symm.trans status'
  | finished _ _ status' => cases status.symm.trans status'
  | sleeping done step' ahead steps id index status' delayed acts =>
      cases status.symm.trans status'
      obtain ⟨sent, refused⟩ := follows_fire s.server steps id index
        (by rw [if_pos delayed, acts])
      obtain ⟨onward, onward'⟩ := @onward_fire s.server other step_
      rcases moved with ⟨suspended, result, rfl⟩ | ⟨after, result, rfl⟩
      · have further := onward suspended result
        refine ⟨suspended.2, ⟨List.getElem?_set_self inRange, sent suspended result, live, ?_, ?_⟩,
          further⟩
        · show s.routines.get? _ = some live
          rw [further.routine]
          exact held
        · exact fun _ => drop_later (Nat.succ_le_succ further.index) same
      · have further := onward' after result
        obtain ⟨error, reported⟩ := refused after result
        refine ⟨_, underway_loop inRange s.server reported (steps_reported steps error) ?_ ?_,
          further.trans (onward_loop _ _)⟩
        · rw [further.routine]
          exact held
        · rw [reported.index, List.length_append, List.length_singleton, ← index]
          exact same

/-- The turn of a run that awaits a publish. -/
theorem underway_published {routine : Routine} {routineId : String} {s t : State} {k : Nat}
    {run : Run} {error : Option String} (underway : Underway routine routineId s k run)
    (step : next s (.published k error) = some t) :
    ∃ after, Underway routine routineId t k after ∧ Onward run after := by
  have inRange : k < s.runs.length := (List.getElem?_eq_some_iff.mp underway.at_).1
  obtain ⟨other, live, there, status, held, rfl⟩ := published_cases step
  have going : other.status ≠ .finished := by
    rw [status]
    exact Status.noConfusion
  obtain ⟨rfl, same⟩ := underway.reads there held going
  cases underway.follows with
  | sleeping _ _ _ _ _ _ status' => cases status.symm.trans status'
  | finished _ _ status' => cases status.symm.trans status'
  | firing done step' ahead steps id index status' acts =>
      have reported := Reported.report id index acts error
      exact ⟨_, underway_loop inRange s.server reported (steps_reported steps error) held same,
        (onward_report other error).trans (onward_loop _ _)⟩

/-- **A run that is going on follows its script through any event that does not change
what is ahead of it.** -/
theorem follows_next {routine : Routine} {routineId : String} {s t : State} {k : Nat} {run : Run}
    {e : Event} (underway : Underway routine routineId s k run) (calm : Undisturbed k s e)
    (step : next s e = some t) : ∃ after, Underway routine routineId t k after := by
  have inRange : k < s.runs.length := (List.getElem?_eq_some_iff.mp underway.at_).1
  cases e with
  | server e =>
      obtain ⟨server, -, rfl⟩ := Option.map_eq_some_iff.mp step
      exact ⟨run, underway.other underway.at_ fun live held => ⟨live, held, fun _ => rfl⟩⟩
  | postRoutines req uuid =>
      simp only [next] at step
      cases posted : routineOf req uuid with
      | error e =>
          simp only [posted] at step
          cases step
          exact ⟨run, underway⟩
      | ok new =>
          simp only [posted] at step
          cases step
          refine ⟨run, underway.other underway.at_ fun live held => ?_⟩
          rcases get?_put new held with stays | ⟨found, edited⟩
          · exact ⟨live, stays, fun _ => rfl⟩
          · refine ⟨_, edited, fun going => ?_⟩
            exact calm new live run posted underway.at_ going found held
  | deleteRoutine id =>
      cases step
      exact ⟨run, underway.other underway.at_ fun live held => ⟨live, held, fun _ => rfl⟩⟩
  | runRoutine id =>
      simp only [next] at step
      cases found : s.routines.lookup Routine.id id with
      | none =>
          simp only [found] at step
          cases step
          exact ⟨run, underway⟩
      | some r =>
          simp only [found] at step
          obtain ⟨other, -, rfl⟩ := Option.map_eq_some_iff.mp step
          refine ⟨run, underway.other ?_ fun live held => ⟨live, held, fun _ => rfl⟩⟩
          exact (List.getElem?_append_left inRange).trans underway.at_
  | slept j =>
      by_cases mine : j = k
      · subst mine
        obtain ⟨after, underway', -⟩ := underway_slept underway step
        exact ⟨after, underway'⟩
      · obtain ⟨_, _, _, _, _, _, ⟨suspended, -, rfl⟩ | ⟨after, -, rfl⟩⟩ := slept_cases step
        · exact ⟨run, underway_suspend underway mine suspended⟩
        · exact ⟨run, underway_suspend underway mine _⟩
  | published j error =>
      by_cases mine : j = k
      · subst mine
        obtain ⟨after, underway', -⟩ := underway_published underway step
        exact ⟨after, underway'⟩
      · obtain ⟨_, _, _, _, _, rfl⟩ := published_cases step
        exact ⟨run, underway_suspend underway mine _⟩

theorem follows_run {routine : Routine} {routineId : String} {s t : State} {k : Nat}
    {es : List Event} (run : (machine.restrict (Undisturbed k)).Run s es t)
    (start : ∃ run, Underway routine routineId s k run) :
    ∃ run, Underway routine routineId t k run := by
  refine Machine.run_preserves (P := fun s => ∃ run, Underway routine routineId s k run) ?_ start run
  rintro s e t ⟨run, underway⟩ ⟨calm, step⟩
  exact follows_next underway calm step

/-- The event that ends what run `k` awaits. -/
def Ends (k : Nat) : Status → Event → Prop
  | .sleeping _, e => e = .slept k
  | .firing, e => ∃ error, e = .published k error
  | .finished, _ => False

end IrHub.Backend.Routines
