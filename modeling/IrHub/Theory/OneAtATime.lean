/-
# Theory.OneAtATime -- commands that were given up, and what they would have done

`Mailbox` gives a value up when a command comes after it, so the commands are not handled one
at a time, each to its end.  Had they been (`OneAtATime`), a value that was given up would
have been tried to an end, with a result nobody knows.

The store comes out the same whatever that result is, if what is handled next after the values
given up leaves nothing of the store before it (`Decisive`).  A client cannot see to that, but
the steps of a run can be asked for it (`InTurn`): then what was given up is always followed
by something decisive (`Shielded`), and once all commands are handled the store is that of
handling them one at a time (`oneAtATime`), up to what `same` does not look at.
-/
import IrHub.Theory.Mailbox

namespace IrHub.Theory.Mailbox

set_option autoImplicit false

universe u v w x

variable {α : Type u} {ρ : Type v} {κ : Type w} {σ : Type x} {E : Effects α ρ κ σ}
  {same : σ → σ → Prop}

/-! ## Other outcomes -/

/-- `others` are the same commands, each handled to an end: with its own outcome, or with any
if it was given up. -/
def OneAtATime (handled others : List (Command α × Outcome ρ κ)) : Prop :=
  List.Forall₂ (fun entry other => other.1 = entry.1 ∧ Fits other ∧ other.2 ≠ .overtaken ∧
    (entry.2 ≠ .overtaken → other = entry)) handled others

/-- Handling a command keeps like stores alike. -/
structure Congruent (E : Effects α ρ κ σ) (same : σ → σ → Prop) : Prop where
  refl : ∀ store, same store store
  apply : ∀ value result store other, same store other →
    same (E.apply value result store) (E.apply value result other)
  forget : ∀ way store other, same store other → same (E.forget way store) (E.forget way other)

/-- What the store was before does not matter after it. -/
def Decisive (E : Effects α ρ κ σ) (same : σ → σ → Prop) : Command α × Outcome ρ κ → Prop
  | (.apply value, .done result) =>
      ∀ store other, same (E.apply value result store) (E.apply value result other)
  | (.forget, .forgotten way) => ∀ store other, same (E.forget way store) (E.forget way other)
  | _ => False

/-- A value that was given up is followed by something decisive, or so far only by others that
were given up. -/
def Shielded (E : Effects α ρ κ σ) (same : σ → σ → Prop) :
    List (Command α × Outcome ρ κ) → Prop
  | [] => True
  | entry :: rest =>
      (entry.2 = .overtaken →
        (∃ later ∈ rest, Decisive E same later) ∨ ∀ later ∈ rest, later.2 = .overtaken) ∧
      Shielded E same rest

theorem shielded_overtaken {handled : List (Command α × Outcome ρ κ)}
    (shielded : Shielded E same handled) (commands : List (Command α)) :
    Shielded E same (handled ++ commands.map fun command => (command, .overtaken)) := by
  have given : ∀ later ∈ commands.map (fun command => (command, (.overtaken : Outcome ρ κ))),
      later.2 = .overtaken := by
    intro later member
    obtain ⟨command, -, rfl⟩ := List.mem_map.mp member
    rfl
  induction handled with
  | nil =>
      clear shielded
      induction commands with
      | nil => trivial
      | cons command rest ih =>
          refine ⟨fun _ => .inr fun later member => ?_, ih fun later member => ?_⟩
          · exact given later (List.mem_cons_of_mem _ member)
          · exact given later (List.mem_cons_of_mem _ member)
  | cons entry rest ih =>
      refine ⟨fun overtaken => ?_, ih shielded.2⟩
      rcases shielded.1 overtaken with ⟨later, member, decides⟩ | all
      · exact .inl ⟨later, List.mem_append_left _ member, decides⟩
      · refine .inr fun later member => ?_
        rcases List.mem_append.mp member with old | new
        · exact all later old
        · exact given later new

/-- What is handled to an end behind a value given up has to be decisive. -/
theorem shielded_settled {handled entries : List (Command α × Outcome ρ κ)}
    (shielded : Shielded E same handled) (settled : ∀ entry ∈ entries, entry.2 ≠ .overtaken)
    (decides : (∃ command, handled.getLast? = some (command, .overtaken)) →
      ∃ entry ∈ entries, Decisive E same entry) : Shielded E same (handled ++ entries) := by
  induction handled with
  | nil =>
      clear shielded decides
      induction entries with
      | nil => trivial
      | cons entry rest ih =>
          refine ⟨fun overtaken => absurd overtaken (settled entry List.mem_cons_self), ih ?_⟩
          exact fun later member => settled later (List.mem_cons_of_mem _ member)
  | cons entry rest ih =>
      obtain ⟨head, tail⟩ := shielded
      have decides' : (∃ command, rest.getLast? = some (command, .overtaken)) →
          ∃ entry ∈ entries, Decisive E same entry := by
        rintro ⟨command, last⟩
        refine decides ⟨command, ?_⟩
        rw [List.getLast?_cons, last]
        rfl
      refine ⟨fun overtaken => .inl ?_, ih tail decides'⟩
      rcases head overtaken with ⟨later, member, decisive⟩ | all
      · exact ⟨later, List.mem_append_left _ member, decisive⟩
      · -- nothing behind it was handled to an end, so the last one was given up too
        have last : ∃ command, (entry :: rest).getLast? = some (command, .overtaken) := by
          obtain ⟨⟨command, outcome⟩, last⟩ :=
            Option.isSome_iff_exists.mp (List.getLast?_isSome.mpr (List.cons_ne_nil entry rest))
          have given : outcome = .overtaken := by
            rcases List.mem_cons.mp (List.mem_of_getLast? last) with rfl | member
            · exact overtaken
            · exact all _ member
          exact ⟨command, given ▸ last⟩
        obtain ⟨later, member, decisive⟩ := decides last
        exact ⟨later, List.mem_append_right _ member, decisive⟩

/-- From like stores, or with something decisive ahead. -/
theorem replay_same (congruent : Congruent E same) {handled others : List (Command α × Outcome ρ κ)}
    (shielded : Shielded E same handled)
    (last : ∀ command, handled.getLast? ≠ some (command, .overtaken))
    (oneAtATime : OneAtATime handled others) {store other : σ}
    (alike : same store other ∨ ∃ entry ∈ handled, Decisive E same entry) :
    same (E.replay store handled) (E.replay other others) := by
  induction oneAtATime generalizing store other with
  | nil => exact alike.resolve_right fun ⟨_, member, _⟩ => nomatch member
  | @cons entry entry' rest rest' head tail ih =>
      obtain ⟨shields, shielded⟩ := shielded
      have last' : ∀ command, rest.getLast? ≠ some (command, .overtaken) := by
        intro command here
        refine last command ?_
        rw [List.getLast?_cons, here]
        rfl
      obtain ⟨sameCommand, fits, toEnd, own⟩ := head
      by_cases overtaken : entry.2 = .overtaken
      · have ahead : ∃ later ∈ rest, Decisive E same later := by
          refine (shields overtaken).resolve_right fun all => ?_
          cases final : rest.getLast? with
          | none =>
              rw [List.getLast?_eq_none_iff] at final
              subst final
              exact last entry.1 (congrArg some (Prod.ext rfl overtaken))
          | some later =>
              exact last' later.1 (final.trans (congrArg some
                (Prod.ext rfl (all later (List.mem_of_getLast? final)))))
        obtain ⟨command, outcome⟩ := entry
        obtain ⟨command', outcome'⟩ := entry'
        obtain rfl : outcome = .overtaken := overtaken
        have skip : E.replay store ((command, .overtaken) :: rest) = E.replay store rest := by
          cases command <;> rfl
        rw [skip]
        cases command' with
        | apply value =>
            cases outcome' with
            | done result => exact ih shielded last' (.inr ahead)
            | overtaken => exact absurd rfl toEnd
            | forgotten way => exact fits.elim
        | forget =>
            cases outcome' with
            | done result => exact fits.elim
            | overtaken => exact absurd rfl toEnd
            | forgotten way => exact ih shielded last' (.inr ahead)
      · obtain rfl := own overtaken
        obtain ⟨command, outcome⟩ := entry'
        have step : ∀ effect : σ → σ, (∀ s t, same s t → same (effect s) (effect t)) →
            (Decisive E same (command, outcome) → ∀ s t, same (effect s) (effect t)) →
            same (effect store) (effect other) ∨ ∃ later ∈ rest, Decisive E same later := by
          intro effect keeps decides
          rcases alike with alike | ⟨entry, member, decisive⟩
          · exact .inl (keeps store other alike)
          · rcases List.mem_cons.mp member with rfl | behind
            · exact .inl (decides decisive store other)
            · exact .inr ⟨entry, behind, decisive⟩
        cases command with
        | apply value =>
            cases outcome with
            | done result =>
                exact ih shielded last' (step (E.apply value result)
                  (congruent.apply value result) fun decisive => decisive)
            | overtaken => exact absurd rfl overtaken
            | forgotten way => exact fits.elim
        | forget =>
            cases outcome with
            | done result => exact fits.elim
            | overtaken => exact absurd rfl overtaken
            | forgotten way =>
                exact ih shielded last' (step (E.forget way) (congruent.forget way)
                  fun decisive => decisive)

/-! ## Steps that see to it -/

/-- The last command handled was given up. -/
def GaveUp (s : State α ρ κ σ) : Prop :=
  ∃ command, s.history.handled.getLast? = some (command, .overtaken)

/-- What is handled next after a value given up is decisive. -/
def Settles (E : Effects α ρ κ σ) (same : σ → σ → Prop) (s : State α ρ κ σ) :
    Event α ρ κ → Prop
  | .finish result => GaveUp s →
      ∀ value, s.stage = .trying value → Decisive E same (.apply value, .done result)
  | .endForget way => GaveUp s → Decisive E same (.forget, .forgotten way)
  | _ => True

/-- The commands come in order, and none is lost that was given up. -/
def InTurn (E : Effects α ρ κ σ) (same : σ → σ → Prop) (s : State α ρ κ σ)
    (e : Event α ρ κ) : Prop :=
  InOrder s e ∧ Settles E same s e

theorem shielded_step {start : σ} {s t : State α ρ κ σ} {e : Event α ρ κ}
    (ordered : Ordered E start s) (shielded : Shielded E same s.history.handled)
    (settles : Settles E same s e) (step : Step E s e t) :
    Shielded E same t.history.handled := by
  cases step with
  | apply value => exact shielded
  | forget => exact shielded
  | wake none => exact shielded
  | beginForget free noticed => exact shielded
  | take free noticed taken => exact shielded_overtaken shielded _
  | miss free noticed empty => exact shielded
  | abandon trying alarm => exact shielded_overtaken shielded _
  | endForget way forgetting =>
      refine shielded_settled shielded ?_ fun gaveUp => ?_
      · intro entry member
        obtain ⟨command, -, rfl⟩ := List.mem_map.mp member
        exact nofun
      · obtain ⟨command, member⟩ := List.exists_mem_of_ne_nil _ (ordered.forgetting forgetting)
        refine ⟨_, List.mem_map.mpr ⟨command, member, rfl⟩, ?_⟩
        rw [ordered.busy.forgetting forgetting command member]
        exact settles gaveUp
  | @finish value result trying =>
      have current := ordered.busy.trying value trying
      refine shielded_settled shielded ?_ fun gaveUp => ?_
      · intro entry member
        obtain ⟨command, -, rfl⟩ := List.mem_map.mp member
        exact nofun
      · refine ⟨(.apply value, .done result), ?_, settles gaveUp value trying⟩
        rw [current]
        exact List.mem_cons_self

/-- **Once nothing is left to handle, the store is that of handling the commands one at a
time**, whatever would have become of those that were given up. -/
theorem oneAtATime {start : σ} {s : State α ρ κ σ} (congruent : Congruent E same)
    (ordered : Ordered E start s) (shielded : Shielded E same s.history.handled)
    (idle : Settled s) {others : List (Command α × Outcome ρ κ)}
    (toEnd : OneAtATime s.history.handled others) : same s.store (E.replay start others) := by
  obtain ⟨-, -, store, -, last⟩ := settled ordered idle
  rw [store]
  exact replay_same congruent shielded last toEnd (.inl (congruent.refl start))

end IrHub.Theory.Mailbox
