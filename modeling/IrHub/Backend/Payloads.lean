/-
# Backend.Payloads -- what a message on `irhub/learned` can break

The handler gives up on a payload that is not JSON.  Whatever else it parses it takes
for a signal: it prints it, and a learn session ends with it.  A payload does no harm
exactly where the print succeeds, the stack of the engine is deep enough, and the payload is
a signal or nobody is learning (`harmless_iff`).
-/
import IrHub.Backend.Learn

namespace IrHub.Backend.Payloads

set_option autoImplicit false

open IrHub.Theory IrHub.Backend.Store IrHub.Backend.Server IrHub.Backend.Learn

/-- An object with a number as `carrier_freq` and an array of integers as `pulses`; an infinity
is a number, but no integer. -/
def IsSignal (signal : Json) : Prop :=
  (∃ members, signal = .obj members) ∧
    (∃ freq, signal.field (bytes "carrier_freq") = some (.num freq)) ∧
    ∃ items, signal.field (bytes "pulses") = some (.arr items) ∧
      ∀ item ∈ items, ∃ n : Int, item = .num n ∧ |(n : Rat)| < Double.infinity

/-- The payload of a signal. -/
def WellFormed (payload : List UInt8) : Prop :=
  ∃ signal, Json.parse payload = some signal ∧ IsSignal signal

/-- Store and learn session are as they were, and no learn-result is a success. -/
structure Spared (s t : State) : Prop where
  db : t.db = s.db
  learnSession : t.learnSession = s.learnSession
  timers : t.timers = s.timers
  broadcasts : ∃ new, t.broadcasts = s.broadcasts ++ new ∧
    ∀ remoteId buttonId signal, Broadcast.learnResult remoteId buttonId (.ok signal) ∉ new

/-- The handler returns, and what is not a signal leaves no trace. -/
structure Harmless (stack : Stack) (s : State) (payload : List UInt8) : Prop where
  returns : ∃ t, learnedOn stack s payload = some t
  spares : ¬WellFormed payload → ∀ t, learnedOn stack s payload = some t → Spared s t

theorem learnedOn_text {stack : Stack} {s : State} {payload : List UInt8}
    (text : Json.parse payload = none) : learnedOn stack s payload = some s := by
  simp only [learnedOn, text]

/-- Nobody is learning: the message is passed on. -/
theorem learned_raw {s : State} {payload : List UInt8} {signal : Json}
    (parsed : Json.parse payload = some signal) (printable : logThrows signal = false)
    (idle : s.learnSession = none) :
    learned s payload = some (broadcast s (.rawSignal signal)) := by
  simp [learned, parsed, printable, idle]

/-- A message ends the session. -/
theorem learned_ends {s t : State} {payload : List UInt8} {signal : Json}
    (parsed : Json.parse payload = some signal) {session : LearnSession}
    (armed : s.learnSession = some session) (handled : learned s payload = some t) :
    t.learnSession = none := by
  have cleared : ∀ u : State, (clearLearnSession u).learnSession = none := by
    intro u
    unfold clearLearnSession
    split
    · assumption
    · rfl
  simp only [learned, parsed, armed] at handled
  split at handled
  · cases handled
  · cases handled
    exact cleared _

/-- The handler returns when it can print the value and the stack is deep enough. -/
theorem returns_iff {stack : Stack} {s : State} {payload : List UInt8} {signal : Json}
    (parsed : Json.parse payload = some signal) :
    (∃ t, learnedOn stack s payload = some t) ↔ logThrows signal = false ∧
      logFits stack signal = true ∧ storeFits stack s signal = true := by
  rw [← learnedOn_stores parsed]
  constructor
  · rintro ⟨t, handled⟩
    have done := learned_of_on handled
    have printable : logThrows signal = false := by
      by_contra throws
      rw [Bool.not_eq_false] at throws
      simp [learned, parsed, throws] at done
    obtain ⟨u, same, stores⟩ := learned_stores (s := s) parsed printable
    obtain rfl : t = u := Option.some.inj (done.symm.trans same)
    exact ⟨t, handled, stores⟩
  · rintro ⟨t, handled, -⟩
    exact ⟨t, handled⟩

theorem spared_refl (s : State) : Spared s s :=
  ⟨rfl, rfl, rfl, [], (List.append_nil _).symm, by simp⟩

theorem spared_raw (s : State) (signal : Json) : Spared s (broadcast s (.rawSignal signal)) :=
  ⟨rfl, rfl, rfl, [.rawSignal signal], rfl, by simp⟩

/-- **A payload breaks nothing exactly when** it is not JSON, or the console line can print it,
the stack is deep enough for it, and it is a signal or nobody is learning. -/
theorem harmless_iff (stack : Stack) (s : State) (payload : List UInt8) :
    Harmless stack s payload ↔ ∀ signal, Json.parse payload = some signal →
      logThrows signal = false ∧ logFits stack signal = true ∧ storeFits stack s signal = true ∧
        (IsSignal signal ∨ s.learnSession = none) := by
  cases parsed : Json.parse payload with
  | none =>
      have same := @learnedOn_text stack s payload parsed
      constructor
      · rintro - signal ⟨⟩
      · intro
        refine ⟨⟨s, same⟩, fun _ t handled => ?_⟩
        obtain rfl : s = t := Option.some.inj (same.symm.trans handled)
        exact spared_refl s
  | some signal =>
      constructor
      · rintro ⟨⟨t, handled⟩, spares⟩ _ ⟨⟩
        obtain ⟨printable, log, store⟩ := (returns_iff parsed).mp ⟨t, handled⟩
        refine ⟨printable, log, store, ?_⟩
        by_contra bad
        rw [not_or] at bad
        obtain ⟨session, armed⟩ := Option.ne_none_iff_exists'.mp bad.2
        have malformed : ¬WellFormed payload := by
          rintro ⟨other, same, isSignal⟩
          obtain rfl : signal = other := Option.some.inj (parsed.symm.trans same)
          exact bad.1 isSignal
        have kept := (spares malformed t handled).learnSession
        rw [learned_ends parsed armed (learned_of_on handled), armed] at kept
        cases kept
      · intro fine
        obtain ⟨printable, log, store, fits⟩ := fine signal rfl
        refine ⟨(returns_iff parsed).mpr ⟨printable, log, store⟩, fun malformed u handled => ?_⟩
        have idle := fits.resolve_left fun isSignal => malformed ⟨signal, parsed, isSignal⟩
        have raw := learned_raw parsed printable idle
        obtain rfl := Option.some.inj (raw.symm.trans (learned_of_on handled))
        exact spared_raw s signal

/-- `null` is JSON, and has no properties to look at: the handler throws.  A string is
stored as the signal of the button that is being learned. -/
theorem payloads_break : ¬Harmless .ample (initial Db.defaults) (bytes "null") ∧
    ∃ s, (Learn.machine .ample).Reachable s ∧ ¬Harmless .ample s (bytes "\"on\"") := by
  constructor
  · intro harmless
    have computed : (Json.parse (bytes "null")).any logThrows = true := by decide +kernel
    obtain ⟨signal, parsed, throws⟩ := (Option.any_eq_true _ _).mp computed
    rw [((returns_iff parsed).mp harmless.returns).1] at throws
    cases throws
  · obtain ⟨s, reached, -, armed⟩ := armed_power .ample
    refine ⟨s, reached, fun harmless => ?_⟩
    have computed : (Json.parse (bytes "\"on\"")).any
        (fun signal => (signal.field (bytes "pulses")).isNone && !logThrows signal) = true := by
      decide +kernel
    obtain ⟨signal, parsed, both⟩ := (Option.any_eq_true _ _).mp computed
    obtain ⟨none, printable⟩ := Bool.and_eq_true_iff.mp both
    have malformed : ¬WellFormed (bytes "\"on\"") := by
      rintro ⟨other, same, -, -, items, pulses, -⟩
      obtain rfl : signal = other := Option.some.inj (parsed.symm.trans same)
      rw [pulses] at none
      cases none
    obtain ⟨t, handled⟩ := harmless.returns
    have kept := (harmless.spares malformed t handled).learnSession
    rw [learned_ends parsed armed (learned_of_on handled), armed] at kept
    cases kept

end IrHub.Backend.Payloads
