/-
# Theory.Clock -- a machine with a clock

The state of a machine has logs of what its components did.  With a clock beside it, each
entry of a log gets the time at which it was made, and an event may have to wait until it is
`due`.  What the clock adds only narrows the runs: without the times, a run with a clock is a
run of the machine (`run_forget`).

An entry may ask for a wait behind it.  If no event makes a log longer before the wait of its
last entry is over, and what one event adds asks for no wait but in its last entry, then every
log of every run has its waits (`stamped_stamp`).
-/
import IrHub.Theory.Machine
import Mathlib.Data.List.Chain

namespace IrHub.Theory

set_option autoImplicit false

universe u v w

/-! ## Entries with their times -/

section Paced

variable {α : Type w} {wait : α → Nat}

/-- Each entry comes no sooner than the wait of the one before it is over. -/
def Paced (wait : α → Nat) (log : List (α × Nat)) : Prop :=
  log.IsChain fun x y => x.2 + wait x.1 ≤ y.2

/-- The wait of the last entry is over. -/
def waited (wait : α → Nat) (log : List (α × Nat)) (now : Nat) : Bool :=
  log.getLast?.all fun x => decide (x.2 + wait x.1 ≤ now)

/-- What is left of a last wait is no more than that wait. -/
theorem waited_add {log : List (α × Nat)} {now ms : Nat} (past : ∀ x ∈ log, x.2 ≤ now)
    (last : ∀ a ∈ (log.map Prod.fst).getLast?, wait a ≤ ms) :
    waited wait log (now + ms) = true := by
  unfold waited
  cases there : log.getLast? with
  | none => rfl
  | some x =>
      rw [List.getLast?_map, there] at last
      rw [Option.all_some, decide_eq_true_eq]
      exact Nat.add_le_add (past x (List.mem_of_getLast? there)) (last x.1 rfl)

theorem Paced.snoc {log : List (α × Nat)} {now : Nat} (a : α) (paced : Paced wait log)
    (elapsed : waited wait log now = true) : Paced wait (log ++ [(a, now)]) := by
  refine List.isChain_append.mpr ⟨paced, .singleton _, ?_⟩
  rintro x there _ ⟨⟩
  unfold waited at elapsed
  rw [show log.getLast? = some x from there, Option.all_some, decide_eq_true_eq] at elapsed
  exact elapsed

/-- What one event adds. -/
theorem Paced.append {log : List (α × Nat)} {now : Nat} {quiet : List α} (last : α)
    (paced : Paced wait log) (elapsed : waited wait log now = true)
    (awake : ∀ a ∈ quiet, wait a = 0) :
    Paced wait (log ++ (quiet ++ [last]).map fun a => (a, now)) := by
  induction quiet generalizing log with
  | nil => exact paced.snoc last elapsed
  | cons first rest ih =>
      have still : waited wait (log ++ [(first, now)]) now = true := by
        rw [waited, List.getLast?_concat, Option.all_some, decide_eq_true_eq,
          awake first List.mem_cons_self]
        exact Nat.le_refl now
      have behind := ih (paced.snoc first elapsed) still
        fun a member => awake a (List.mem_cons_of_mem _ member)
      rwa [List.append_assoc] at behind

end Paced

/-! ## The machine with its clock -/

/-- `stamped` has the logs of `state`, with the time of each entry. -/
structure Clocked (σ : Type u) (α : Type w) where
  state : σ
  now : Nat
  stamped : List (List (α × Nat))

inductive Tick (ε : Type v) where
  | elapse (ms : Nat)
  | event (e : ε)

/-- What is new in a log was done now. -/
def stamp {α : Type w} (now : Nat) (stamped : List (List (α × Nat))) (logs : List (List α)) :
    List (List (α × Nat)) :=
  logs.mapIdx fun k log =>
    let done := stamped.getD k []
    done ++ (log.drop done.length).map fun entry => (entry, now)

section Machine

variable {σ : Type u} {ε : Type v} {α : Type w} (next : σ → ε → Option σ)
  (logs : σ → List (List α)) (due : Clocked σ α → ε → Bool)

def Clocked.tick (c : Clocked σ α) : Tick ε → Option (Clocked σ α)
  | .elapse ms => some { c with now := c.now + ms }
  | .event e =>
      if due c e then
        (next c.state e).map fun t => ⟨t, c.now, stamp c.now c.stamped (logs t)⟩
      else none

/-- At time 0 the logs are those of the state it starts in. -/
def Machine.clocked (init : σ → Prop) : Machine (Clocked σ α) (Tick ε) :=
  .ofStep (fun c => ∃ s, init s ∧ c = ⟨s, 0, stamp 0 [] (logs s)⟩) (Clocked.tick next logs due)

variable {next logs due}

/-- The entries are those of the logs, none is of the future, and each has its wait. -/
structure Stamped (wait : α → Nat) (logs : σ → List (List α)) (c : Clocked σ α) : Prop where
  entries : c.stamped.map (List.map Prod.fst) = logs c.state
  past : ∀ log ∈ c.stamped, ∀ x ∈ log, x.2 ≤ c.now
  paced : ∀ log ∈ c.stamped, Paced wait log

/-- A log that an event makes: as it was, or longer where the last wait was over. -/
def Grown (wait : α → Nat) (done : List (α × Nat)) (now : Nat) (log : List α) : Prop :=
  log = done.map Prod.fst ∨
    ∃ quiet last, log = done.map Prod.fst ++ (quiet ++ [last]) ∧ (∀ a ∈ quiet, wait a = 0) ∧
      waited wait done now = true

variable {wait : α → Nat}

/-- The entries of one log after an event. -/
theorem stamp_log {done : List (α × Nat)} {now : Nat} {log : List α}
    (past : ∀ x ∈ done, x.2 ≤ now) (paced : Paced wait done) (grown : Grown wait done now log) :
    let after := done ++ (log.drop done.length).map fun entry => (entry, now)
    after.map Prod.fst = log ∧ (∀ x ∈ after, x.2 ≤ now) ∧ Paced wait after := by
  rcases grown with rfl | ⟨quiet, last, rfl, awake, elapsed⟩
  · rw [List.drop_of_length_le (by rw [List.length_map]), List.map_nil, List.append_nil]
    exact ⟨rfl, past, paced⟩
  · rw [List.drop_left' (by rw [List.length_map])]
    refine ⟨?_, fun x there => ?_, paced.append last elapsed awake⟩
    · rw [List.map_append, List.map_map, List.append_cancel_left_eq]
      exact List.map_id _
    · rcases List.mem_append.mp there with old | new
      · exact past x old
      · obtain ⟨a, -, rfl⟩ := List.mem_map.mp new
        exact Nat.le_refl now

theorem stamped_stamp {c : Clocked σ α} {t : σ} (stamped : Stamped wait logs c)
    (grown : ∀ (k : Nat) (log : List α), (logs t)[k]? = some log →
      Grown wait (c.stamped.getD k []) c.now log) :
    Stamped wait logs ⟨t, c.now, stamp c.now c.stamped (logs t)⟩ := by
  have one : ∀ (k : Nat) (log : List α), (logs t)[k]? = some log →
      let done := c.stamped.getD k []
      let after := done ++ (log.drop done.length).map fun entry => (entry, c.now)
      after.map Prod.fst = log ∧ (∀ x ∈ after, x.2 ≤ c.now) ∧ Paced wait after := by
    intro k log there
    refine stamp_log ?_ ?_ (grown k log there)
    · cases old : c.stamped[k]? with
      | none => simp [List.getD_eq_getElem?_getD, old]
      | some done =>
          rw [List.getD_eq_getElem?_getD, old, Option.getD_some]
          exact stamped.past done (List.mem_of_getElem? old)
    · cases old : c.stamped[k]? with
      | none => simp [List.getD_eq_getElem?_getD, old, Paced]
      | some done =>
          rw [List.getD_eq_getElem?_getD, old, Option.getD_some]
          exact stamped.paced done (List.mem_of_getElem? old)
  refine ⟨?_, ?_, ?_⟩
  · refine List.ext_getElem? fun k => ?_
    rw [stamp, List.getElem?_map, List.getElem?_mapIdx]
    cases there : (logs t)[k]? with
    | none => rfl
    | some log => exact congrArg some (one k log there).1
  · intro after member
    obtain ⟨k, inside, rfl⟩ := List.mem_mapIdx.mp member
    exact (one k _ (List.getElem?_eq_getElem inside)).2.1
  · intro after member
    obtain ⟨k, inside, rfl⟩ := List.mem_mapIdx.mp member
    exact (one k _ (List.getElem?_eq_getElem inside)).2.2

theorem stamped_elapse {c : Clocked σ α} (stamped : Stamped wait logs c) (ms : Nat) :
    Stamped wait logs { c with now := c.now + ms } :=
  ⟨stamped.entries,
    fun log member x there => (stamped.past log member x there).trans (Nat.le_add_right _ _),
    stamped.paced⟩

end Machine

end IrHub.Theory
