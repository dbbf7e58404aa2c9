/-
# Theory.Machine -- labelled transition systems, their runs and their invariants

A `Machine` is a set of initial states and a labelled step relation.  A property
of every reachable state is proved once per label: `Invariant` packages what the
initial states satisfy with what one step preserves, `Invariant.reachable` is the
induction over runs.

A property that only holds of disciplined runs is an invariant of `restrict`: the
machine whose steps also meet a condition on the state before the step and the
label.  `observed` keeps a value beside the states that every step may update.
`Simulation` carries a run over to another machine.  `answers_eq` compares two runs of a
machine that answers its labels.
-/
import Mathlib.Algebra.GroupWithZero.Nat
import Mathlib.Tactic.Common

namespace IrHub.Theory

set_option autoImplicit false

universe u v

/-- Initial states and labelled steps. -/
structure Machine (σ : Type u) (ε : Type v) where
  init : σ → Prop
  step : σ → ε → σ → Prop

namespace Machine

variable {σ : Type u} {ε : Type v}

/-- A run from one state to another, with the labels of its steps in order. -/
inductive Run (M : Machine σ ε) : σ → List ε → σ → Prop
  | nil (s : σ) : Run M s [] s
  | cons {s t u : σ} {e : ε} {es : List ε} : M.step s e t → Run M t es u → Run M s (e :: es) u

/-- The states some run from an initial state ends in. -/
def Reachable (M : Machine σ ε) (s : σ) : Prop :=
  ∃ s₀ es, M.init s₀ ∧ M.Run s₀ es s

/-- The runs of `M` whose every step meets `ok`. -/
def restrict (M : Machine σ ε) (ok : σ → ε → Prop) : Machine σ ε where
  init := M.init
  step s e t := ok s e ∧ M.step s e t

/-- The machine of a partial step function. -/
def ofStep (init : σ → Prop) (next : σ → ε → Option σ) : Machine σ ε where
  init := init
  step s e t := next s e = some t

variable {M : Machine σ ε}

theorem Run.append {s t u : σ} {es fs : List ε} (first : M.Run s es t) (second : M.Run t fs u) :
    M.Run s (es ++ fs) u := by
  induction first with
  | nil => exact second
  | cons step _ ih => exact .cons step (ih second)

theorem Run.single {s t : σ} {e : ε} (step : M.step s e t) : M.Run s [e] t :=
  .cons step (.nil t)

theorem Run.snoc {s t u : σ} {es : List ε} {e : ε} (run : M.Run s es t) (step : M.step t e u) :
    M.Run s (es ++ [e]) u :=
  run.append (.single step)

theorem Run.of_append {s u : σ} {es fs : List ε} (run : M.Run s (es ++ fs) u) :
    ∃ t, M.Run s es t ∧ M.Run t fs u := by
  induction es generalizing s with
  | nil => exact ⟨s, .nil s, run⟩
  | cons e es ih =>
      cases run with
      | cons step rest =>
          obtain ⟨t, front, back⟩ := ih rest
          exact ⟨t, .cons step front, back⟩

theorem Reachable.init {s : σ} (start : M.init s) : M.Reachable s :=
  ⟨s, [], start, .nil s⟩

theorem Reachable.step {s t : σ} {e : ε} (reached : M.Reachable s) (step : M.step s e t) :
    M.Reachable t := by
  obtain ⟨s₀, es, start, run⟩ := reached
  exact ⟨s₀, es ++ [e], start, run.snoc step⟩

theorem Reachable.run {s t : σ} {es : List ε} (reached : M.Reachable s) (run : M.Run s es t) :
    M.Reachable t := by
  induction run with
  | nil => exact reached
  | cons step _ ih => exact ih (reached.step step)

/-- A run of the restricted machine is a run of the machine. -/
theorem Run.unrestrict {ok : σ → ε → Prop} {s t : σ} {es : List ε}
    (run : (M.restrict ok).Run s es t) : M.Run s es t := by
  induction run with
  | nil => exact .nil _
  | cons step _ ih => exact .cons step.2 ih

/-- A run whose labels are never refused. -/
theorem Run.restrict {ok : σ → ε → Prop} {s t : σ} {es : List ε} (run : M.Run s es t)
    (allowed : ∀ e ∈ es, ∀ s, ok s e) : (M.restrict ok).Run s es t := by
  induction run with
  | nil => exact .nil _
  | cons step _ ih =>
      have rest := ih fun e member => allowed e (List.mem_cons_of_mem _ member)
      exact .cons ⟨allowed _ List.mem_cons_self _, step⟩ rest

theorem Reachable.unrestrict {ok : σ → ε → Prop} {s : σ}
    (reached : (M.restrict ok).Reachable s) : M.Reachable s := by
  obtain ⟨s₀, es, start, run⟩ := reached
  exact ⟨s₀, es, start, run.unrestrict⟩

/-- Where a partial step function gets to by some labels. -/
def exec (next : σ → ε → Option σ) : σ → List ε → Option σ
  | s, [] => some s
  | s, e :: es => (next s e).bind fun t => exec next t es

/-- The steps that also meet a condition. -/
def guarded (ok : σ → ε → Prop) [∀ s e, Decidable (ok s e)] (next : σ → ε → Option σ) :
    σ → ε → Option σ :=
  fun s e => if ok s e then next s e else none

theorem run_of_exec {init : σ → Prop} {next : σ → ε → Option σ} {s t : σ} {es : List ε}
    (done : exec next s es = some t) : (ofStep init next).Run s es t := by
  induction es generalizing s with
  | nil =>
      cases done
      exact .nil _
  | cons e es ih =>
      obtain ⟨u, step, rest⟩ := Option.bind_eq_some_iff.mp done
      exact .cons step (ih rest)

/-- The same, where the labels are also checked. -/
theorem run_of_exec_restrict {init : σ → Prop} {next : σ → ε → Option σ} {ok : σ → ε → Prop}
    [∀ s e, Decidable (ok s e)] {s t : σ} {es : List ε}
    (done : exec (guarded ok next) s es = some t) :
    ((ofStep init next).restrict ok).Run s es t := by
  induction es generalizing s with
  | nil =>
      cases done
      exact .nil _
  | cons e es ih =>
      obtain ⟨u, step, rest⟩ := Option.bind_eq_some_iff.mp done
      rw [guarded] at step
      split at step
      · rename_i allowed
        exact .cons ⟨allowed, step⟩ (ih rest)
      · cases step

/-- A state that is reached, found by computing it. -/
theorem exists_run_of_exec {init : σ → Prop} {next : σ → ε → Option σ} {P : σ → Prop}
    [DecidablePred P] {s : σ} {es : List ε}
    (done : (exec next s es).any (fun t => decide (P t)) = true) :
    ∃ t, (ofStep init next).Run s es t ∧ P t := by
  obtain ⟨t, last, holds⟩ := (Option.any_eq_true ..).mp done
  exact ⟨t, run_of_exec last, of_decide_eq_true holds⟩

theorem exists_run_of_exec_restrict {init : σ → Prop} {next : σ → ε → Option σ}
    {ok : σ → ε → Prop} [∀ s e, Decidable (ok s e)] {P : σ → Prop} [DecidablePred P] {s : σ}
    {es : List ε} (done : (exec (guarded ok next) s es).any (fun t => decide (P t)) = true) :
    ∃ t, ((ofStep init next).restrict ok).Run s es t ∧ P t := by
  obtain ⟨t, last, holds⟩ := (Option.any_eq_true ..).mp done
  exact ⟨t, run_of_exec_restrict last, of_decide_eq_true holds⟩

/-- What the initial states satisfy and every step preserves. -/
structure Invariant (M : Machine σ ε) (P : σ → Prop) : Prop where
  base : ∀ s, M.init s → P s
  step : ∀ s e t, P s → M.step s e t → P t

theorem run_preserves {P : σ → Prop} (step : ∀ s e t, P s → M.step s e t → P t) {s t : σ}
    {es : List ε} (start : P s) (run : M.Run s es t) : P t := by
  induction run with
  | nil => exact start
  | cons move _ ih => exact ih (step _ _ _ start move)

theorem Invariant.reachable {P : σ → Prop} (inv : M.Invariant P) {s : σ}
    (reached : M.Reachable s) : P s := by
  obtain ⟨s₀, es, start, run⟩ := reached
  exact run_preserves inv.step (inv.base s₀ start) run

/-- A step may rest on what is known of every reachable state. -/
theorem Reachable.preserves {P : σ → Prop} (base : ∀ s, M.init s → P s)
    (step : ∀ s e t, M.Reachable s → P s → M.step s e t → P t) {s : σ}
    (reached : M.Reachable s) : P s := by
  have inv : M.Invariant fun s => M.Reachable s ∧ P s := by
    refine ⟨fun s start => ⟨.init start, base s start⟩, ?_⟩
    rintro s e t ⟨reached, holds⟩ move
    exact ⟨reached.step move, step s e t reached holds move⟩
  exact (inv.reachable reached).2

theorem Run.mono {ok ok' : σ → ε → Prop} {s t : σ} {es : List ε}
    (run : (M.restrict ok).Run s es t) (weaker : ∀ s e, ok s e → ok' s e) :
    (M.restrict ok').Run s es t := by
  induction run with
  | nil => exact .nil _
  | cons step _ ih => exact .cons ⟨weaker _ _ step.1, step.2⟩ ih

/-- **A rank bounds what the labels of a run can pay**, up to what they are charged,
while there is something to do at its end. -/
theorem run_rank (I todo : σ → Prop) (rank : σ → Nat) (pay charge : ε → Nat)
    (keeps : ∀ s e t, I s → M.step s e t → I t)
    (back : ∀ s e t, I s → M.step s e t → todo t → todo s)
    (falls : ∀ s e t, I s → todo s → M.step s e t → rank t + pay e ≤ rank s + charge e)
    {s t : σ} {es : List ε} (run : M.Run s es t) (start : I s) (unfinished : todo t) :
    todo s ∧ rank t + (es.map pay).sum ≤ rank s + (es.map charge).sum := by
  induction run with
  | nil => exact ⟨unfinished, Nat.le_refl _⟩
  | cons step _ ih =>
      obtain ⟨after, bound⟩ := ih (keeps _ _ _ start step) unfinished
      have before := back _ _ _ start step after
      have fall := falls _ _ _ start before step
      refine ⟨before, ?_⟩
      simp only [List.map_cons, List.sum_cons]
      omega

/-- The machine with something kept beside the state that its steps do not look at. -/
def observed {γ : Type*} (M : Machine σ ε) (start : γ) (observe : σ → ε → σ → γ → γ) :
    Machine (σ × γ) ε where
  init o := M.init o.1 ∧ o.2 = start
  step o e t := M.step o.1 e t.1 ∧ t.2 = observe o.1 e t.1 o.2

theorem Run.observed {γ : Type*} {start : γ} (observe : σ → ε → σ → γ → γ) {s t : σ}
    {es : List ε} (run : M.Run s es t) (seen : γ) :
    ∃ seen', (M.observed start observe).Run (s, seen) es (t, seen') := by
  induction run generalizing seen with
  | nil s => exact ⟨seen, .nil _⟩
  | @cons s u t e es step _ ih =>
      obtain ⟨seen', rest⟩ := ih (observe s e u seen)
      exact ⟨seen', .cons ⟨step, rfl⟩ rest⟩

/-- **Every run is observed.** -/
theorem Reachable.observed {γ : Type*} (start : γ) (observe : σ → ε → σ → γ → γ) {s : σ}
    (reached : M.Reachable s) : ∃ seen, (M.observed start observe).Reachable (s, seen) := by
  obtain ⟨s₀, es, first, run⟩ := reached
  obtain ⟨seen, run⟩ := run.observed observe start
  exact ⟨seen, (s₀, start), es, ⟨first, rfl⟩, run⟩

/-- A partial step function with what is kept beside its states. -/
def watched {γ : Type*} (observe : σ → ε → σ → γ → γ) (next : σ → ε → Option σ) :
    σ × γ → ε → Option (σ × γ) :=
  fun o e => (next o.1 e).map fun t => (t, observe o.1 e t o.2)

theorem exists_run_of_exec_observed {γ : Type*} {init : σ → Prop} {next : σ → ε → Option σ}
    {start : γ} {observe : σ → ε → σ → γ → γ} {P : σ × γ → Prop} [DecidablePred P] {o : σ × γ}
    {es : List ε} (done : (exec (watched observe next) o es).any (fun t => decide (P t)) = true) :
    ∃ t, ((ofStep init next).observed start observe).Run o es t ∧ P t := by
  obtain ⟨t, last, holds⟩ := (Option.any_eq_true ..).mp done
  refine ⟨t, ?_, of_decide_eq_true holds⟩
  clear done holds
  induction es generalizing o with
  | nil =>
      cases last
      exact .nil _
  | cons e es ih =>
      obtain ⟨u, moved, rest⟩ := Option.bind_eq_some_iff.mp last
      obtain ⟨v, step, rfl⟩ := Option.map_eq_some_iff.mp moved
      have first : ((ofStep init next).observed start observe).step o e (v, observe o.1 e v o.2) :=
        ⟨step, rfl⟩
      exact .cons first (ih rest)

/-- What is answered to some labels in a row. -/
def answers {ω : Type*} (respond : σ → ε → σ × ω) : σ → List ε → List ω
  | _, [] => []
  | s, e :: es => (respond s e).2 :: answers respond (respond s e).1 es

/-- **States that no label tells apart give the same answers.** -/
theorem answers_eq {ω : Type*} {respond : σ → ε → σ × ω} {alike : σ → σ → Prop}
    (step : ∀ s t e, alike s t →
      (respond s e).2 = (respond t e).2 ∧ alike (respond s e).1 (respond t e).1)
    {s t : σ} (start : alike s t) (es : List ε) : answers respond s es = answers respond t es := by
  induction es generalizing s t with
  | nil => rfl
  | cons e es ih =>
      obtain ⟨same, after⟩ := step s t e start
      rw [answers, answers, same, ih after]

/-- `view` turns every step of `M` into a run of `N`, where `I` holds. -/
structure Simulation {τ : Type u} {φ : Type v} (M : Machine σ ε) (N : Machine τ φ) (I : σ → Prop)
    (view : σ → τ) : Prop where
  step : ∀ s e t, I s → M.step s e t → I t ∧ ∃ fs, N.Run (view s) fs (view t)

theorem Simulation.run {τ : Type u} {φ : Type v} {N : Machine τ φ} {I : σ → Prop} {view : σ → τ}
    (simulation : M.Simulation N I view) {s t : σ} {es : List ε} (start : I s)
    (run : M.Run s es t) : I t ∧ ∃ fs, N.Run (view s) fs (view t) := by
  induction run with
  | nil => exact ⟨start, [], .nil _⟩
  | cons move _ ih =>
      obtain ⟨holds, fs, before⟩ := simulation.step _ _ _ start move
      obtain ⟨holds, gs, after⟩ := ih holds
      exact ⟨holds, fs ++ gs, before.append after⟩

end Machine

end IrHub.Theory
