/-
# Theory.Mailbox -- commands through a slot and two notification bits

A client posts commands: to apply a value, or to forget.  A value goes into a slot
that has room for one, and each kind of command sets its bit.  The task wakes,
which moves the bits that are set to those it has noticed, and handles what it has
noticed one command at a time, a forget before an apply; it stops trying a value
when it notices a command.

Bits and slot say nothing about the order or the number of the commands.  `History`
records both.  Two disciplines on the client make up for what the bits lose:

* `InTime`: no value is posted between the moment its predecessor's bit is noticed
  and the moment the predecessor is taken.  Then the value of the last command is
  waiting, being tried, or done (`lastApply_step`).
* `InOrder`: also, no forget is posted while the bit of an apply is set.  Then the
  commands are handled in the order in which they were accepted, and the store is
  what handling them one by one makes of it (`settled`).

Two forgets noticed together are handled as one, so forgetting twice has to be the
same as forgetting once (`idempotent`).
-/
import IrHub.Theory.Machine

namespace IrHub.Theory.Mailbox

set_option autoImplicit false

universe u v w x

/-! ## Commands and their history -/

inductive Command (α : Type u) where
  | apply (value : α)
  | forget
  deriving DecidableEq

/-- The value that a command brings. -/
def Command.value {α : Type u} : Command α → Option α
  | .apply value => some value
  | .forget => none

/-- How the handling of a command ended: a value was tried with some result, or was
given up, or the store was cleared in some way. -/
inductive Outcome (ρ : Type v) (κ : Type w) where
  | done (result : ρ)
  | overtaken
  | forgotten (way : κ)
  deriving DecidableEq

/-- `unseen` commands have been accepted since the task last woke, `current` ones
are being handled. -/
structure History (α : Type u) (ρ : Type v) (κ : Type w) where
  accepted : List (Command α)
  unseen : List (Command α)
  seen : List (Command α)
  current : List (Command α)
  handled : List (Command α × Outcome ρ κ)

section

variable {α : Type u} {ρ : Type v} {κ : Type w} {σ : Type x}

def isForget : Command α → Bool
  | .forget => true
  | .apply _ => false

def isApply : Command α → Bool
  | .forget => false
  | .apply _ => true

namespace History

def empty : History α ρ κ := ⟨[], [], [], [], []⟩

def accept (h : History α ρ κ) (command : Command α) : History α ρ κ :=
  { h with accepted := h.accepted ++ [command], unseen := h.unseen ++ [command] }

def wake (h : History α ρ κ) : History α ρ κ :=
  { h with seen := h.seen ++ h.unseen, unseen := [] }

/-- The forgets noticed are handled as one. -/
def takeForgets (h : History α ρ κ) : History α ρ κ :=
  { h with current := h.seen.filter isForget, seen := h.seen.filter isApply }

/-- The applies not handled yet; only the last one's value is still there. -/
def waiting (h : History α ρ κ) : List (Command α) := (h.seen ++ h.unseen).filter isApply

/-- One value is taken and the ones before it are lost to it. -/
def takeApply (h : History α ρ κ) (value : α) : History α ρ κ :=
  { h with
    handled := h.handled ++ h.waiting.dropLast.map fun command => (command, .overtaken)
    current := [.apply value]
    seen := h.seen.filter isForget
    unseen := h.unseen.filter isForget }

def settle (h : History α ρ κ) (outcome : Outcome ρ κ) : History α ρ κ :=
  { h with
    handled := h.handled ++ h.current.map fun command => (command, outcome)
    current := [] }

end History

/-! ## The machine -/

structure Bits where
  apply : Bool
  forget : Bool
  deriving DecidableEq

def Bits.none : Bits := ⟨false, false⟩

theorem Bits.eq_none {b : Bits} (apply : b.apply = false) (forget : b.forget = false) :
    b = .none := by
  cases b
  cases apply
  cases forget
  rfl

/-- What the task is doing. -/
inductive Stage (α : Type u) where
  | free
  | trying (value : α)
  | forgetting

structure State (α : Type u) (ρ : Type v) (κ : Type w) (σ : Type x) where
  posted : Bits
  noticed : Bits
  slot : Option α
  stage : Stage α
  store : σ
  history : History α ρ κ

inductive Event (α : Type u) (ρ : Type v) (κ : Type w) where
  | accept (command : Command α)
  | wake
  | beginForget
  | endForget (way : κ)
  | take
  /-- The bit of an apply is noticed and there is no value. -/
  | miss
  | abandon
  | finish (result : ρ)

/-- What the handling of a command does to the store. -/
structure Effects (α : Type u) (ρ : Type v) (κ : Type w) (σ : Type x) where
  apply : α → ρ → σ → σ
  forget : κ → σ → σ

variable (E : Effects α ρ κ σ)

inductive Step : State α ρ κ σ → Event α ρ κ → State α ρ κ σ → Prop
  | apply (s : State α ρ κ σ) (value : α) :
      Step s (.accept (.apply value))
        { s with
          posted := { s.posted with apply := true }
          slot := some value
          history := s.history.accept (.apply value) }
  | forget (s : State α ρ κ σ) :
      Step s (.accept .forget)
        { s with
          posted := { s.posted with forget := true }
          history := s.history.accept .forget }
  | wake {s : State α ρ κ σ} : s.noticed = .none →
      Step s .wake { s with posted := .none, noticed := s.posted, history := s.history.wake }
  | beginForget {s : State α ρ κ σ} : s.stage = .free → s.noticed.forget = true →
      Step s .beginForget
        { s with
          noticed := { s.noticed with forget := false }
          stage := .forgetting
          history := s.history.takeForgets }
  | endForget {s : State α ρ κ σ} (way : κ) : s.stage = .forgetting →
      Step s (.endForget way)
        { s with
          stage := .free
          store := E.forget way s.store
          history := s.history.settle (.forgotten way) }
  | take {s : State α ρ κ σ} {value : α} : s.stage = .free → s.noticed = ⟨true, false⟩ →
      s.slot = some value →
      Step s .take
        { s with
          noticed := .none
          slot := none
          stage := .trying value
          history := s.history.takeApply value }
  | miss {s : State α ρ κ σ} : s.stage = .free → s.noticed = ⟨true, false⟩ → s.slot = none →
      Step s .miss { s with noticed := .none }
  | abandon {s : State α ρ κ σ} {value : α} : s.stage = .trying value → s.noticed ≠ .none →
      Step s .abandon { s with stage := .free, history := s.history.settle .overtaken }
  | finish {s : State α ρ κ σ} {value : α} (result : ρ) : s.stage = .trying value →
      Step s (.finish result)
        { s with
          stage := .free
          store := E.apply value result s.store
          history := s.history.settle (.done result) }

def initial (store : σ) : State α ρ κ σ := ⟨.none, .none, none, .free, store, .empty⟩

/-- The mailbox over one store. -/
def machine (store : σ) : Machine (State α ρ κ σ) (Event α ρ κ) where
  init s := s = initial store
  step := Step E

variable {E}

/-- What steps without a new command preserve. -/
theorem quiet_run {P : State α ρ κ σ → Prop}
    (step : ∀ s e t, (∀ command, e ≠ .accept command) → Step E s e t → P s → P t) {start : σ}
    {s t : State α ρ κ σ} {es : List (Event α ρ κ)} (quiet : ∀ command, .accept command ∉ es)
    (run : (machine E start).Run s es t) (holds : P s) : P t := by
  have allowed : ∀ e ∈ es, ∀ _ : State α ρ κ σ, ∀ command, e ≠ .accept command := by
    rintro e member _ command rfl
    exact quiet command member
  refine Machine.run_preserves ?_ holds (run.restrict allowed)
  rintro s e t holds ⟨quiet, move⟩
  exact step s e t quiet move holds

theorem accepted_step {s t : State α ρ κ σ} {e : Event α ρ κ}
    (quiet : ∀ command, e ≠ .accept command) (step : Step E s e t) :
    t.history.accepted = s.history.accepted := by
  cases step with
  | apply value => exact absurd rfl (quiet _)
  | forget => exact absurd rfl (quiet _)
  | _ => rfl

/-! ## No value is lost -/

/-- No value is posted while the previous one is noticed and not taken. -/
def InTime (s : State α ρ κ σ) : Event α ρ κ → Prop
  | .accept (.apply _) => s.slot = none ∨ s.posted.apply = true
  | _ => True

/-- A value in the slot has its bit set, posted or noticed. -/
structure Signalled (s : State α ρ κ σ) : Prop where
  slot : s.slot.isSome = (s.posted.apply || s.noticed.apply)
  once : s.posted.apply = true → s.noticed.apply = false

theorem signalled_initial (store : σ) : Signalled (initial store : State α ρ κ σ) := ⟨rfl, nofun⟩

theorem signalled_step {s t : State α ρ κ σ} {e : Event α ρ κ} (signalled : Signalled s)
    (inTime : InTime s e) (step : Step E s e t) : Signalled t := by
  obtain ⟨slot, once⟩ := signalled
  cases step with
  | apply value =>
      constructor
      · rfl
      · intro _
        rcases inTime with empty | posted
        · rw [empty] at slot
          exact (Bool.or_eq_false_iff.mp slot.symm).2
        · exact once posted
  | forget => exact ⟨slot, once⟩
  | wake none =>
      rw [none] at slot
      constructor
      · simpa [Bits.none] using slot
      · intro posted
        cases posted
  | beginForget _ _ => exact ⟨slot, once⟩
  | endForget way _ => exact ⟨slot, once⟩
  | take _ noticed _ =>
      have taken : s.posted.apply = false := by
        cases posted : s.posted.apply with
        | false => rfl
        | true =>
            have other := once posted
            rw [noticed] at other
            cases other
      constructor
      · simp [Bits.none, taken]
      · intro _
        rfl
  | miss _ noticed empty =>
      rw [noticed, empty] at slot
      simp at slot
  | abandon _ _ => exact ⟨slot, once⟩
  | finish result _ => exact ⟨slot, once⟩

/-! ## What holds of every value -/

/-- Values that wait or are tried satisfy `P`, and the store satisfies `Q`. -/
structure Holds (P : α → Prop) (Q : σ → Prop) (s : State α ρ κ σ) : Prop where
  slot : ∀ value, s.slot = some value → P value
  trying : ∀ value, s.stage = .trying value → P value
  store : Q s.store

theorem holds_initial {P : α → Prop} {Q : σ → Prop} {store : σ} (start : Q store) :
    Holds P Q (initial store : State α ρ κ σ) := ⟨nofun, nofun, start⟩

/-- It is enough that the values posted do, and that handling a command keeps `Q`. -/
theorem holds_step {P : α → Prop} {Q : σ → Prop}
    (apply : ∀ value result store, P value → Q store → Q (E.apply value result store))
    (forget : ∀ way store, Q store → Q (E.forget way store)) {s t : State α ρ κ σ}
    {e : Event α ρ κ} (holds : Holds P Q s) (posts : ∀ value, e = .accept (.apply value) → P value)
    (step : Step E s e t) : Holds P Q t := by
  obtain ⟨slot, trying, store⟩ := holds
  cases step with
  | apply value =>
      refine ⟨?_, trying, store⟩
      rintro _ ⟨⟩
      exact posts value rfl
  | forget => exact ⟨slot, trying, store⟩
  | wake _ => exact ⟨slot, trying, store⟩
  | beginForget _ _ => exact ⟨slot, nofun, store⟩
  | endForget way _ => exact ⟨slot, nofun, forget way _ store⟩
  | take _ _ waiting =>
      refine ⟨nofun, ?_, store⟩
      rintro _ ⟨⟩
      exact slot _ waiting
  | miss _ _ _ => exact ⟨slot, trying, store⟩
  | abandon _ _ => exact ⟨slot, nofun, store⟩
  | finish result here => exact ⟨slot, nofun, apply _ result _ (trying _ here) store⟩

/-! ## The command being handled -/

/-- The commands being handled. -/
structure Busy (s : State α ρ κ σ) : Prop where
  free : s.stage = .free → s.history.current = []
  trying : ∀ value, s.stage = .trying value → s.history.current = [.apply value]
  forgetting : s.stage = .forgetting → ∀ command ∈ s.history.current, command = .forget

theorem busy_initial (store : σ) : Busy (initial store : State α ρ κ σ) :=
  ⟨fun _ => rfl, nofun, nofun⟩

theorem eq_forget {command : Command α} (forgets : isForget command = true) :
    command = .forget := by
  cases command with
  | forget => rfl
  | apply value => cases forgets

theorem busy_step {s t : State α ρ κ σ} {e : Event α ρ κ} (busy : Busy s)
    (step : Step E s e t) : Busy t := by
  obtain ⟨free, trying, forgetting⟩ := busy
  cases step with
  | apply value => exact ⟨free, trying, forgetting⟩
  | forget => exact ⟨free, trying, forgetting⟩
  | wake none => exact ⟨free, trying, forgetting⟩
  | beginForget _ _ =>
      refine ⟨nofun, nofun, ?_⟩
      intro _ command member
      exact eq_forget (List.mem_filter.mp member).2
  | endForget way _ => exact ⟨fun _ => rfl, nofun, nofun⟩
  | take _ _ _ =>
      refine ⟨nofun, ?_, nofun⟩
      rintro _ ⟨⟩
      rfl
  | miss _ _ _ => exact ⟨free, trying, forgetting⟩
  | abandon _ _ => exact ⟨fun _ => rfl, nofun, nofun⟩
  | finish result _ => exact ⟨fun _ => rfl, nofun, nofun⟩

/-- Where the value of the last command is. -/
def LastApply (s : State α ρ κ σ) : Prop :=
  ∀ value, s.history.accepted.getLast? = some (.apply value) →
    (s.slot = some value ∧ (s.posted.apply = false → s.posted.forget = false)) ∨
    (s.slot = none ∧ s.posted.forget = false ∧ s.noticed.forget = false ∧
      (s.stage = .trying value ∨
        s.stage = .free ∧ ∃ result, s.history.handled.getLast? =
          some (.apply value, .done result)))

theorem lastApply_initial (store : σ) : LastApply (initial store : State α ρ κ σ) := nofun

/-- **The value of the last command waits, is tried, or is done.** -/
theorem lastApply_step {s t : State α ρ κ σ} {e : Event α ρ κ} (signalled : Signalled s)
    (busy : Busy s) (last : LastApply s) (step : Step E s e t) : LastApply t := by
  intro value newest
  cases step with
  | apply posted =>
      simp only [History.accept, List.getLast?_concat] at newest
      cases newest
      exact .inl ⟨rfl, nofun⟩
  | forget =>
      simp only [History.accept, List.getLast?_concat] at newest
      cases newest
  | wake none =>
      rcases last value newest with ⟨slot, -⟩ | ⟨slot, posted, -, place⟩
      · exact .inl ⟨slot, fun _ => rfl⟩
      · exact .inr ⟨slot, rfl, posted, place⟩
  | beginForget _ noticed =>
      rcases last value newest with waits | ⟨-, -, none, -⟩
      · exact .inl waits
      · rw [none] at noticed
        cases noticed
  | endForget way forgetting =>
      rcases last value newest with waits | ⟨-, -, -, trying | ⟨free, -⟩⟩
      · exact .inl waits
      · rw [forgetting] at trying
        cases trying
      · rw [forgetting] at free
        cases free
  | take _ noticed taken =>
      rcases last value newest with ⟨slot, later⟩ | ⟨slot, -⟩
      · rw [slot, Option.some.injEq] at taken
        subst taken
        refine .inr ⟨rfl, later ?_, rfl, .inl rfl⟩
        cases posted : s.posted.apply with
        | false => rfl
        | true =>
            have other := signalled.once posted
            rw [noticed] at other
            cases other
      · rw [slot] at taken
        cases taken
  | miss _ noticed empty =>
      have slot := signalled.slot
      rw [noticed, empty] at slot
      simp at slot
  | abandon trying some =>
      rcases last value newest with waits | ⟨slot, -, forget, -⟩
      · exact .inl waits
      · have none := signalled.slot
        rw [slot] at none
        have apply := (Bool.or_eq_false_iff.mp none.symm).2
        exact absurd (Bits.eq_none apply forget) some
  | finish result trying =>
      rcases last value newest with waits | ⟨slot, posted, noticed, tried | ⟨free, -⟩⟩
      · exact .inl waits
      · rw [trying] at tried
        cases tried
        refine .inr ⟨slot, posted, noticed, .inr ⟨rfl, result, ?_⟩⟩
        simp [History.settle, busy.trying value trying]
      · rw [trying] at free
        cases free

/-- A value waits, or is being tried with no command after it. -/
def Unanswered (s : State α ρ κ σ) : Prop :=
  s.slot.isSome = true ∨ (∃ value, s.stage = .trying value) ∧ s.posted = .none ∧ s.noticed = .none

/-- Only a client asks. -/
theorem unanswered_step {s t : State α ρ κ σ} {e : Event α ρ κ}
    (quiet : ∀ command, e ≠ .accept command) (step : Step E s e t) (asks : Unanswered t) :
    Unanswered s := by
  cases step with
  | apply value => exact absurd rfl (quiet _)
  | forget => exact absurd rfl (quiet _)
  | wake none =>
      rcases asks with waits | ⟨trying, -, calm⟩
      · exact .inl waits
      · exact .inr ⟨trying, calm, none⟩
  | beginForget _ _ =>
      rcases asks with waits | ⟨⟨value, trying⟩, -⟩
      · exact .inl waits
      · cases trying
  | take _ _ taken => exact .inl (by rw [taken]; rfl)
  | miss free _ empty =>
      rcases asks with waits | ⟨⟨value, trying⟩, -⟩
      · exact .inl waits
      · exact absurd (free.symm.trans trying) nofun
  | endForget way _ =>
      rcases asks with waits | ⟨⟨value, trying⟩, -⟩
      · exact .inl waits
      · cases trying
  | abandon _ _ =>
      rcases asks with waits | ⟨⟨value, trying⟩, -⟩
      · exact .inl waits
      · cases trying
  | finish result _ =>
      rcases asks with waits | ⟨⟨value, trying⟩, -⟩
      · exact .inl waits
      · cases trying

/-- The last apply is unanswered until it is done. -/
theorem answered {s : State α ρ κ σ} (signalled : Signalled s) (last : LastApply s)
    (silent : ¬Unanswered s) {value : α}
    (newest : s.history.accepted.getLast? = some (.apply value)) :
    ∃ result, s.history.handled.getLast? = some (.apply value, .done result) := by
  rcases last value newest with ⟨waits, -⟩ | ⟨empty, posted, noticed, trying | ⟨-, done⟩⟩
  · exact absurd (.inl (by rw [waits]; rfl)) silent
  · have bits := signalled.slot
    rw [empty] at bits
    obtain ⟨posted', noticed'⟩ := Bool.or_eq_false_iff.mp bits.symm
    exact absurd (.inr ⟨⟨value, trying⟩, Bits.eq_none posted' posted,
      Bits.eq_none noticed' noticed⟩) silent
  · exact done

/-! ## The commands are handled in order -/

/-- Nor is a forget posted while the bit of an apply is set. -/
def InOrder (s : State α ρ κ σ) (e : Event α ρ κ) : Prop :=
  InTime s e ∧ (e = .accept .forget → s.posted.apply = false)

/-- Forgets come before applies. -/
def Sorted (commands : List (Command α)) : Prop :=
  commands = commands.filter isForget ++ commands.filter isApply

/-- An outcome the command can have. -/
def Fits : Command α × Outcome ρ κ → Prop
  | (.apply _, .done _) => True
  | (.apply _, .overtaken) => True
  | (.forget, .forgotten _) => True
  | _ => False

/-- One command after the other. -/
def Effects.replay (E : Effects α ρ κ σ) (store : σ) : List (Command α × Outcome ρ κ) → σ
  | [] => store
  | (.apply value, .done result) :: rest => E.replay (E.apply value result store) rest
  | (.forget, .forgotten way) :: rest => E.replay (E.forget way store) rest
  | _ :: rest => E.replay store rest

theorem Effects.replay_append (store : σ) (first second : List (Command α × Outcome ρ κ)) :
    E.replay store (first ++ second) = E.replay (E.replay store first) second := by
  induction first generalizing store with
  | nil => rfl
  | cons entry rest ih =>
      obtain ⟨command, outcome⟩ := entry
      cases command <;> cases outcome <;> exact ih _

/-- Values given up do nothing. -/
theorem Effects.replay_overtaken (store : σ) (commands : List (Command α)) :
    E.replay store (commands.map fun command => (command, .overtaken)) = store := by
  induction commands with
  | nil => rfl
  | cons command rest ih => cases command <;> exact ih

/-- Forgets in a row are one. -/
theorem Effects.replay_forgets (idempotent : ∀ way store,
    E.forget way (E.forget way store) = E.forget way store) (way : κ) (store : σ)
    {commands : List (Command α)} (some : commands ≠ [])
    (forgets : ∀ command ∈ commands, command = .forget) :
    E.replay store (commands.map fun command => (command, .forgotten way)) =
      E.forget way store := by
  induction commands generalizing store with
  | nil => exact absurd rfl some
  | cons command rest ih =>
      cases forgets command (List.mem_cons_self ..)
      rw [List.map_cons, Effects.replay]
      cases rest with
      | nil => rfl
      | cons second rest =>
          rw [ih (E.forget way store) (List.cons_ne_nil _ _)
            fun command member => forgets command (List.mem_cons_of_mem _ member), idempotent]

theorem filter_forget {commands : List (Command α)} (none : commands.any isApply = false) :
    commands.filter isForget = commands := by
  refine List.filter_eq_self.mpr fun command member => ?_
  have other := List.any_eq_false.mp none command member
  cases command with
  | forget => rfl
  | apply value => exact absurd rfl other

theorem filter_apply {commands : List (Command α)} (none : commands.any isForget = false) :
    commands.filter isApply = commands := by
  refine List.filter_eq_self.mpr fun command member => ?_
  have other := List.any_eq_false.mp none command member
  cases command with
  | forget => exact absurd rfl other
  | apply value => rfl

theorem eq_nil {commands : List (Command α)} (noApply : commands.any isApply = false)
    (noForget : commands.any isForget = false) : commands = [] := by
  cases commands with
  | nil => rfl
  | cons command rest =>
      cases command with
      | apply value => cases noApply
      | forget => cases noForget

theorem sorted_apply {commands : List (Command α)} (sorted : Sorted commands) (value : α) :
    Sorted (commands ++ [.apply value]) := by
  show commands ++ [.apply value] = _
  rw [List.filter_append, List.filter_append, show [Command.apply value].filter isForget = [] from rfl,
    List.append_nil, ← List.append_assoc, ← sorted]
  rfl

theorem sorted_forget {commands : List (Command α)} (none : commands.any isApply = false) :
    Sorted (commands ++ [.forget]) := by
  have noApplies : commands.filter isApply = [] := by simpa using none
  rw [Sorted, List.filter_append, List.filter_append, filter_forget none, noApplies,
    List.nil_append, show [(.forget : Command α)].filter isApply = [] from rfl, List.append_nil]
  rfl

theorem any_forget_filter (commands : List (Command α)) :
    (commands.filter isApply).any isForget = false := by
  rw [List.any_eq_false]
  intro command member
  cases command with
  | apply value => exact nofun
  | forget => exact absurd (List.mem_filter.mp member).2 nofun

theorem sorted_filter (commands : List (Command α)) : Sorted (commands.filter isApply) := by
  have noForgets : (commands.filter isApply).filter isForget = [] :=
    List.filter_eq_nil_iff.mpr (List.any_eq_false.mp (any_forget_filter commands))
  rw [Sorted, noForgets, filter_apply (any_forget_filter commands), List.nil_append]

structure Ordered (E : Effects α ρ κ σ) (start : σ) (s : State α ρ κ σ) : Prop where
  signalled : Signalled s
  busy : Busy s
  forgetting : s.stage = .forgetting → s.history.current ≠ []
  accepted : s.history.accepted = s.history.handled.map Prod.fst ++ s.history.current ++
    (s.history.seen ++ s.history.unseen)
  seen : Sorted s.history.seen
  unseen : Sorted s.history.unseen
  posted : s.posted = ⟨s.history.unseen.any isApply, s.history.unseen.any isForget⟩
  noticed : s.noticed = ⟨s.history.seen.any isApply, s.history.seen.any isForget⟩
  slot : ∀ value, s.slot = some value → s.history.waiting.getLast? = some (.apply value)
  fits : ∀ entry ∈ s.history.handled, Fits entry
  overtaken : ∀ command, s.history.handled.getLast? = some (command, .overtaken) →
    s.history.current ++ (s.history.seen ++ s.history.unseen) ≠ []
  store : s.store = E.replay start s.history.handled

theorem ordered_apply {start : σ} {s : State α ρ κ σ} (ordered : Ordered E start s) (value : α)
    (signalled : Signalled { s with
      posted := { s.posted with apply := true }
      slot := some value
      history := s.history.accept (.apply value) }) :
    Ordered E start { s with
      posted := { s.posted with apply := true }
      slot := some value
      history := s.history.accept (.apply value) } where
  signalled
  busy := ⟨ordered.busy.free, ordered.busy.trying, ordered.busy.forgetting⟩
  forgetting := ordered.forgetting
  accepted := by
    simp only [History.accept, ordered.accepted, List.append_assoc]
  seen := ordered.seen
  unseen := sorted_apply ordered.unseen value
  posted := by
    simp [History.accept, ordered.posted, isApply, isForget]
  noticed := ordered.noticed
  slot := by
    rintro _ ⟨⟩
    simp [History.waiting, History.accept, isApply, ← List.append_assoc]
  fits := ordered.fits
  overtaken := by
    intro command _
    simp [History.accept]
  store := ordered.store

theorem ordered_forget {start : σ} {s : State α ρ κ σ} (ordered : Ordered E start s)
    (alone : s.posted.apply = false) :
    Ordered E start { s with
      posted := { s.posted with forget := true }
      history := s.history.accept .forget } where
  signalled := ⟨ordered.signalled.slot, ordered.signalled.once⟩
  busy := ⟨ordered.busy.free, ordered.busy.trying, ordered.busy.forgetting⟩
  forgetting := ordered.forgetting
  accepted := by
    simp only [History.accept, ordered.accepted, List.append_assoc]
  seen := ordered.seen
  unseen := by
    rw [ordered.posted] at alone
    exact sorted_forget alone
  posted := by
    simp [History.accept, ordered.posted, isApply, isForget]
  noticed := ordered.noticed
  slot := by
    intro value held
    have last := ordered.slot value held
    simpa [History.waiting, History.accept, isApply] using last
  fits := ordered.fits
  overtaken := by
    intro command _
    simp [History.accept]
  store := ordered.store

theorem ordered_wake {start : σ} {s : State α ρ κ σ} (ordered : Ordered E start s)
    (none : s.noticed = .none)
    (signalled : Signalled { s with
      posted := .none, noticed := s.posted, history := s.history.wake }) :
    Ordered E start { s with posted := .none, noticed := s.posted, history := s.history.wake } := by
  have seen : s.history.seen = [] := by
    have bits := ordered.noticed
    rw [none] at bits
    exact eq_nil (congrArg Bits.apply bits).symm (congrArg Bits.forget bits).symm
  exact {
    signalled
    busy := ⟨ordered.busy.free, ordered.busy.trying, ordered.busy.forgetting⟩
    forgetting := ordered.forgetting
    accepted := by simp only [History.wake, ordered.accepted, List.append_nil]
    seen := by simpa [History.wake, seen] using ordered.unseen
    unseen := rfl
    posted := rfl
    noticed := by simp [History.wake, seen, ordered.posted]
    slot := by simpa [History.waiting, History.wake] using ordered.slot
    fits := ordered.fits
    overtaken := by simpa [History.wake] using ordered.overtaken
    store := ordered.store }

theorem ordered_beginForget {start : σ} {s : State α ρ κ σ} (ordered : Ordered E start s)
    (free : s.stage = .free) (noticed : s.noticed.forget = true)
    (signalled : Signalled { s with
      noticed := { s.noticed with forget := false }
      stage := .forgetting
      history := s.history.takeForgets })
    (busy : Busy { s with
      noticed := { s.noticed with forget := false }
      stage := .forgetting
      history := s.history.takeForgets }) :
    Ordered E start { s with
      noticed := { s.noticed with forget := false }
      stage := .forgetting
      history := s.history.takeForgets } := by
  have idle := ordered.busy.free free
  have some : s.history.seen.filter isForget ≠ [] := by
    rw [ordered.noticed] at noticed
    obtain ⟨command, member, forgets⟩ := List.any_eq_true.mp noticed
    exact List.ne_nil_of_mem (List.mem_filter.mpr ⟨member, forgets⟩)
  exact {
    signalled
    busy
    forgetting := fun _ => some
    accepted := by
      have split := ordered.accepted
      rw [idle, List.append_nil, ordered.seen] at split
      simpa [History.takeForgets] using split
    seen := sorted_filter s.history.seen
    unseen := ordered.unseen
    posted := ordered.posted
    noticed := by
      have applies : (s.history.seen.filter isApply).any isApply = s.history.seen.any isApply := by
        simp only [List.any_filter, Bool.and_self]
      simp only [History.takeForgets, any_forget_filter, applies, ordered.noticed]
    slot := by
      intro value held
      have last := ordered.slot value held
      simpa [History.waiting, History.takeForgets] using last
    fits := ordered.fits
    overtaken := by
      intro command _
      simp only [History.takeForgets]
      exact List.append_ne_nil_of_left_ne_nil some _
    store := ordered.store }

/-- The commands being handled get their outcome. -/
theorem ordered_settle {start store : σ} {s : State α ρ κ σ} (ordered : Ordered E start s)
    {outcome : Outcome ρ κ} (some : s.history.current ≠ [])
    (fits : ∀ command ∈ s.history.current, Fits (command, outcome))
    (later : outcome = .overtaken → s.history.seen ++ s.history.unseen ≠ [])
    (effect : store = E.replay s.store (s.history.current.map fun command => (command, outcome))) :
    Ordered E start { s with stage := .free, store, history := s.history.settle outcome } where
  signalled := ⟨ordered.signalled.slot, ordered.signalled.once⟩
  busy := ⟨fun _ => rfl, nofun, nofun⟩
  forgetting := nofun
  accepted := by
    simp [History.settle, ordered.accepted, Function.comp_def]
  seen := ordered.seen
  unseen := ordered.unseen
  posted := ordered.posted
  noticed := ordered.noticed
  slot := ordered.slot
  fits := by
    intro entry member
    rcases List.mem_append.mp member with before | now
    · exact ordered.fits entry before
    · obtain ⟨command, handled, rfl⟩ := List.mem_map.mp now
      exact fits command handled
  overtaken := by
    intro command last
    obtain ⟨final, shape⟩ := Option.isSome_iff_exists.mp (List.getLast?_isSome.mpr some)
    rw [History.settle, List.getLast?_append, List.getLast?_map, shape] at last
    cases last
    simpa [History.settle] using later rfl
  store := by
    rw [effect, ordered.store, History.settle, Effects.replay_append]

theorem ordered_take {start : σ} {s : State α ρ κ σ} {value : α} (ordered : Ordered E start s)
    (free : s.stage = .free) (noticed : s.noticed = ⟨true, false⟩) (taken : s.slot = some value)
    (signalled : Signalled { s with
      noticed := .none
      slot := none
      stage := .trying value
      history := s.history.takeApply value }) :
    Ordered E start { s with
      noticed := .none
      slot := none
      stage := .trying value
      history := s.history.takeApply value } := by
  have idle := ordered.busy.free free
  have bits := noticed.symm.trans ordered.noticed
  have noForgets : s.history.seen.any isForget = false := (congrArg Bits.forget bits).symm
  -- the bit that is noticed is not set again, so all applies have been seen
  have noApplies : s.history.unseen.any isApply = false := by
    cases posted : s.posted.apply with
    | false =>
        rw [ordered.posted] at posted
        exact posted
    | true =>
        have other := ordered.signalled.once posted
        rw [noticed] at other
        cases other
  have seen : s.history.seen.filter isForget = [] :=
    List.filter_eq_nil_iff.mpr (List.any_eq_false.mp noForgets)
  have unseen : s.history.unseen.filter isApply = [] :=
    List.filter_eq_nil_iff.mpr (List.any_eq_false.mp noApplies)
  have waiting : s.history.waiting = s.history.seen := by
    rw [History.waiting, List.filter_append, unseen, filter_apply noForgets, List.append_nil]
  have last := ordered.slot value taken
  rw [waiting] at last
  obtain ⟨init, shape⟩ := List.getLast?_eq_some_iff.mp last
  exact {
    signalled
    busy := ⟨nofun, by rintro _ ⟨⟩; rfl, nofun⟩
    forgetting := nofun
    accepted := by
      have split := ordered.accepted
      have dropped : s.history.seen.dropLast = init := by rw [shape, List.dropLast_concat]
      rw [idle, List.append_nil, shape] at split
      simp only [History.takeApply, waiting, seen, dropped, split, filter_forget noApplies]
      simp [Function.comp_def]
    seen := by
      show Sorted (s.history.seen.filter isForget)
      rw [seen]
      rfl
    unseen := by
      simpa [History.takeApply, filter_forget noApplies] using ordered.unseen
    posted := by
      simp only [History.takeApply, filter_forget noApplies, ordered.posted]
    noticed := by simp [History.takeApply, seen, Bits.none]
    slot := nofun
    fits := by
      intro entry member
      rcases List.mem_append.mp member with before | now
      · exact ordered.fits entry before
      · obtain ⟨command, lost, rfl⟩ := List.mem_map.mp now
        have applies := List.dropLast_subset _ lost
        cases command with
        | apply value => trivial
        | forget => exact absurd (List.mem_filter.mp applies).2 nofun
    overtaken := by
      intro command _
      simp [History.takeApply]
    store := by
      rw [History.takeApply, Effects.replay_append, Effects.replay_overtaken, ordered.store] }

theorem ordered_step (idempotent : ∀ way store, E.forget way (E.forget way store) =
      E.forget way store) {start : σ} {s t : State α ρ κ σ} {e : Event α ρ κ}
    (ordered : Ordered E start s) (inOrder : InOrder s e) (step : Step E s e t) :
    Ordered E start t := by
  have signalled := signalled_step ordered.signalled inOrder.1 step
  have busy := busy_step ordered.busy step
  cases step with
  | apply value => exact ordered_apply ordered value signalled
  | forget => exact ordered_forget ordered (inOrder.2 rfl)
  | wake none => exact ordered_wake ordered none signalled
  | beginForget free noticed => exact ordered_beginForget ordered free noticed signalled busy
  | endForget way forgetting =>
      have forgets := ordered.busy.forgetting forgetting
      have some := ordered.forgetting forgetting
      refine ordered_settle ordered some ?_ nofun
        (Effects.replay_forgets idempotent way s.store some forgets).symm
      intro command member
      rw [forgets command member]
      trivial
  | take free noticed taken => exact ordered_take ordered free noticed taken signalled
  | miss _ noticed empty =>
      have slot := ordered.signalled.slot
      rw [noticed, empty] at slot
      simp at slot
  | @abandon value trying some =>
      have current := ordered.busy.trying value trying
      refine ordered_settle ordered (by simp [current]) (by simp [current, Fits]) ?_
        (by rw [current]; rfl)
      intro _ none
      rw [List.append_eq_nil_iff] at none
      apply some
      rw [ordered.noticed, none.1]
      rfl
  | @finish value result trying =>
      have current := ordered.busy.trying value trying
      exact ordered_settle ordered (by simp [current]) (by simp [current, Fits]) nofun
        (by rw [current]; rfl)

/-- Nothing is posted, noticed or being handled. -/
structure Settled (s : State α ρ κ σ) : Prop where
  posted : s.posted = .none
  noticed : s.noticed = .none
  stage : s.stage = .free

/-- **Once nothing is left to handle, every command was handled, in the order of
acceptance, the last one was not given up, and the store is what handling them one
by one makes of it.** -/
theorem settled {start : σ} {s : State α ρ κ σ} (ordered : Ordered E start s)
    (settled : Settled s) :
    s.history.handled.map Prod.fst = s.history.accepted ∧ s.slot = none ∧
      s.store = E.replay start s.history.handled ∧ (∀ entry ∈ s.history.handled, Fits entry) ∧
      ∀ command, s.history.handled.getLast? ≠ some (command, .overtaken) := by
  have bits := ordered.noticed
  rw [settled.noticed] at bits
  have seen : s.history.seen = [] :=
    eq_nil (congrArg Bits.apply bits).symm (congrArg Bits.forget bits).symm
  have set := ordered.posted
  rw [settled.posted] at set
  have unseen : s.history.unseen = [] :=
    eq_nil (congrArg Bits.apply set).symm (congrArg Bits.forget set).symm
  have idle := ordered.busy.free settled.stage
  refine ⟨?_, ?_, ordered.store, ordered.fits, ?_⟩
  · rw [ordered.accepted, idle, seen, unseen]
    simp
  · have slot := ordered.signalled.slot
    rw [settled.posted, settled.noticed] at slot
    simpa [Bits.none] using slot
  · intro command last
    exact ordered.overtaken command last (by simp [idle, seen, unseen])

end

end IrHub.Theory.Mailbox
