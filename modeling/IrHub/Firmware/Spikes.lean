/-
# Firmware.Spikes -- a narrow spike is not absorbed

`gpio_edge_isr` filters an edge by its distance to the last accepted edge and never
looks at the level.  A spike far from both its neighbours therefore keeps its first
edge: the interval it falls into is cut in two and every entry behind it is measured
at the other level.

Two captures whose edges differ in one spike are compared by what they deliver.  It is
the same only behind a full buffer (`Absorbed`), and the entries are marks and spaces
in turn exactly when no edge up to the last of them was filtered (`spike_effect`).
-/
import IrHub.Firmware.Segmentation

namespace IrHub.Firmware.Spikes

set_option autoImplicit false

open IrHub.Theory IrHub.Theory.Edges IrHub.Firmware.Segmentation
open IrHub.Firmware.Capture (Finishes)

/-! ## What is delivered -/

section Delivery

variable {N : Nat} [NeZero N]

/-- The messages an event hands over. -/
def handedOver (o t : Observed N) : List IrMessage :=
  t.system.history.finished.drop o.system.history.finished.length

/-- The accepted intervals of some edges. -/
def intervalsOf (edges : List Nat) : List Nat :=
  (spans (accepted irMinPulseUs edges)).map duration

/-- How many of them end a frame. -/
def frameGaps (edges : List Nat) : Nat := (intervalsOf edges).countP fun d => irFrameGapUs ≤ d

/-- The tick ends a capture. -/
structure Ends (o : Observed N) (now : Nat) (t : Observed N) : Prop where
  reached : (machine N).Reachable o
  step : (machine N).step o (.tick now) t
  finishes : Finishes o.system.capture now

omit [NeZero N] in
/-- A message is determined by the intervals it describes. -/
theorem describes_eq_iff {m m' : IrMessage} {ivs ivs' : List Nat} (describes : Describes m ivs)
    (describes' : Describes m' ivs') :
    m = m' ↔ ivs.take irMaxPulses = ivs'.take irMaxPulses ∧
      (irMaxPulses < ivs.length ↔ irMaxPulses < ivs'.length) ∧
      min 65535 (1 + ivs.countP fun d => irFrameGapUs ≤ d) =
        min 65535 (1 + ivs'.countP fun d => irFrameGapUs ≤ d) := by
  obtain ⟨pulses, truncated, frames, carrier⟩ := describes
  obtain ⟨pulses', truncated', frames', carrier'⟩ := describes'
  rw [← pulses, ← pulses', ← frames, ← frames']
  constructor
  · rintro rfl
    refine ⟨rfl, ?_, rfl⟩
    rw [truncated, decide_eq_decide] at truncated'
    exact truncated'
  · rintro ⟨same, clipped, counted⟩
    have entries : m.pulses = m'.pulses :=
      (List.map_inj_right fun _ _ => UInt16.toNat_inj.mp).mp same
    have flags : m.truncated = m'.truncated := by
      rw [truncated, truncated', decide_eq_decide]
      exact clipped
    have frameCounts : m.frameCount = m'.frameCount := UInt16.toNat_inj.mp counted
    cases m
    cases m'
    simp_all

/-- What is delivered is determined by the intervals, and nothing is for none. -/
theorem handedOver_eq_iff {o t o' t' : Observed N} {now now' : Nat} (ends : Ends o now t)
    (ends' : Ends o' now' t') :
    handedOver o t = handedOver o' t' ↔
      o.trace.intervals.take irMaxPulses = o'.trace.intervals.take irMaxPulses ∧
      (irMaxPulses < o.trace.intervals.length ↔ irMaxPulses < o'.trace.intervals.length) ∧
      min 65535 (1 + o.trace.intervals.countP fun d => irFrameGapUs ≤ d) =
        min 65535 (1 + o'.trace.intervals.countP fun d => irFrameGapUs ≤ d) := by
  obtain ⟨silent, sent⟩ := tick_delivers ends.reached ends.step ends.finishes
  obtain ⟨silent', sent'⟩ := tick_delivers ends'.reached ends'.step ends'.finishes
  have empty : ∀ ivs : List Nat, ivs.take irMaxPulses = [] ↔ ivs = [] := by
    intro ivs
    rw [List.take_eq_nil_iff]
    simp [irMaxPulses]
  unfold handedOver
  by_cases none : o.trace.intervals = []
  · by_cases none' : o'.trace.intervals = []
    · rw [(silent none).1, (silent' none').1, none, none']
      simp
    · obtain ⟨message, -, finished, -, -⟩ := sent' none'
      rw [(silent none).1, finished, none]
      simp only [List.drop_left, List.drop_length, List.take_nil]
      constructor
      · nofun
      · rintro ⟨same, -, -⟩
        exact absurd ((empty _).mp same.symm) none'
  · obtain ⟨message, describes, finished, -, -⟩ := sent none
    by_cases none' : o'.trace.intervals = []
    · rw [(silent' none').1, finished, none']
      simp only [List.drop_left, List.drop_length, List.take_nil]
      constructor
      · nofun
      · rintro ⟨same, -, -⟩
        exact absurd ((empty _).mp same) none
    · obtain ⟨message', describes', finished', -, -⟩ := sent' none'
      rw [finished, finished', List.drop_left, List.drop_left, List.singleton_inj]
      exact describes_eq_iff describes describes'

end Delivery

/-! ## A spike cuts an interval in two -/

def longGaps (intervals : List Nat) : Nat := intervals.countP fun d => irFrameGapUs ≤ d

/-- The spike comes behind a full buffer, in a capture that is clipped without it, and
cuts its interval into pieces that end as many frames, unless the frame count is at
its largest value either way. -/
structure Absorbed (before : List Nat) (a b : Nat) (after : List Nat) : Prop where
  full : irMaxPulses ≤ (intervalsOf before).length
  clipped : after ≠ [] ∨ irMaxPulses < (intervalsOf before).length
  framed : (∀ last, (accepted irMinPulseUs before).getLast? = some last →
      longGaps ((after.take 1).map (· - last)) =
        longGaps ((a - last) :: (after.take 1).map (· - a))) ∨
    (65534 ≤ frameGaps (before ++ after) ∧ 65534 ≤ frameGaps (before ++ a :: b :: after))

theorem intervalsOf_append {before : List Nat} {last : Nat}
    (known : (accepted irMinPulseUs before).getLast? = some last) (after : List Nat) :
    intervalsOf (before ++ after) =
      intervalsOf before ++ (spansAfter last (acceptedAfter irMinPulseUs last after)).map duration := by
  rw [intervalsOf, accepted_append irMinPulseUs known, spans_append known, List.map_append]
  rfl

/-- The intervals with the spike and without it: behind the next edge they agree. -/
theorem intervals_spike {before after : List Nat} {a b last : Nat}
    (spike : Spike irMinPulseUs before a b after)
    (known : (accepted irMinPulseUs before).getLast? = some last) :
    ∃ rest, (after = [] → rest = []) ∧
      intervalsOf (before ++ after) =
        intervalsOf before ++ ((after.take 1).map (· - last) ++ rest) ∧
      intervalsOf (before ++ a :: b :: after) =
        intervalsOf before ++ (a - last) :: ((after.take 1).map (· - a) ++ rest) := by
  have cut : intervalsOf (before ++ a :: b :: after) = intervalsOf before ++
      (a - last) :: (spansAfter a (acceptedAfter irMinPulseUs a after)).map duration := by
    rw [intervalsOf, accepted_spike irMinPulseUs spike known, spans_append known, List.map_append]
    rfl
  rw [intervalsOf_append known, cut]
  cases after with
  | nil => exact ⟨[], fun _ => rfl, rfl, rfl⟩
  | cons t ts =>
      obtain ⟨spiked, clean⟩ := acceptedAfter_spike irMinPulseUs spike known
      rw [spiked, clean]
      exact ⟨(spansAfter t (acceptedAfter irMinPulseUs t ts)).map duration, nofun, rfl, rfl⟩

/-- The first 800 intervals are the same only if they all lie before the spike. -/
theorem take_spike {before after rest : List Nat} {a b last : Nat}
    (spike : Spike irMinPulseUs before a b after) (tail : after = [] → rest = [])
    (known : (accepted irMinPulseUs before).getLast? = some last) (stored : List Nat) :
    (stored ++ ((after.take 1).map (· - last) ++ rest)).take irMaxPulses =
        (stored ++ (a - last) :: ((after.take 1).map (· - a) ++ rest)).take irMaxPulses ↔
      irMaxPulses ≤ stored.length := by
  constructor
  · intro same
    by_contra room
    rw [Nat.not_le] at room
    have entry : ∀ xs : List Nat, ((stored ++ xs).take irMaxPulses)[stored.length]? = xs.head? := by
      intro xs
      rw [List.getElem?_take_of_lt room, List.getElem?_append_right (Nat.le_refl _), Nat.sub_self,
        List.head?_eq_getElem?]
    have differ := congrArg (fun xs => xs[stored.length]?) same
    simp only [entry, List.head?_cons] at differ
    cases after with
    | nil =>
        rw [tail rfl] at differ
        cases differ
    | cons t ts =>
        have early := spike.steadyBefore last
          (mem_of_accepted irMinPulseUs (List.mem_of_getLast? known))
        have late := spike.steadyAfter t List.mem_cons_self
        have narrow := spike.narrow.1
        simp at differ
        omega
  · intro full
    rw [List.take_append_of_le_length full, List.take_append_of_le_length full]

/-- **A spike leaves what is delivered unchanged only where it is absorbed.** -/
theorem same_intervals_iff {before after : List Nat} {a b : Nat}
    (spike : Spike irMinPulseUs before a b after) :
    ((intervalsOf (before ++ after)).take irMaxPulses =
        (intervalsOf (before ++ a :: b :: after)).take irMaxPulses ∧
      (irMaxPulses < (intervalsOf (before ++ after)).length ↔
        irMaxPulses < (intervalsOf (before ++ a :: b :: after)).length) ∧
      min 65535 (1 + frameGaps (before ++ after)) =
        min 65535 (1 + frameGaps (before ++ a :: b :: after))) ↔
      Absorbed before a b after := by
  obtain ⟨t, ts, shape⟩ := List.exists_cons_of_ne_nil spike.follows
  obtain ⟨last, known⟩ : ∃ last, (accepted irMinPulseUs before).getLast? = some last := by
    rw [shape, accepted]
    exact ⟨_, List.getLast?_eq_some_getLast (List.cons_ne_nil _ _)⟩
  obtain ⟨rest, tail, clean, spiked⟩ := intervals_spike spike known
  have counts : ∀ xs ys : List Nat, longGaps (xs ++ ys) = longGaps xs + longGaps ys :=
    fun xs ys => List.countP_append
  have cleanGaps : frameGaps (before ++ after) = longGaps (intervalsOf before) +
      (longGaps ((after.take 1).map (· - last)) + longGaps rest) := by
    show longGaps (intervalsOf (before ++ after)) = _
    rw [clean, counts, counts]
  have spikedGaps : frameGaps (before ++ a :: b :: after) = longGaps (intervalsOf before) +
      (longGaps ((a - last) :: (after.take 1).map (· - a)) + longGaps rest) := by
    show longGaps (intervalsOf (before ++ a :: b :: after)) = _
    rw [spiked, counts, ← List.cons_append, counts]
  have more : (after.take 1).length = if after = [] then 0 else 1 := by
    cases after <;> simp
  rw [clean, spiked, take_spike spike tail known]
  simp only [List.length_append, List.length_cons, List.length_map, more]
  constructor
  · rintro ⟨full, clipped, frames⟩
    refine ⟨full, ?_, ?_⟩
    · by_cases done : after = []
      · rw [if_pos done, tail done] at clipped
        simp only [List.length_nil] at clipped
        exact .inr (by omega)
      · exact .inl done
    · rw [cleanGaps, spikedGaps]
      by_cases same : longGaps ((after.take 1).map (· - last)) =
          longGaps ((a - last) :: (after.take 1).map (· - a))
      · refine .inl ?_
        intro last' known'
        obtain rfl : last = last' := Option.some.inj (known.symm.trans known')
        exact same
      · refine .inr ?_
        rw [cleanGaps, spikedGaps] at frames
        omega
  · rintro ⟨full, clipped, framed⟩
    refine ⟨full, ?_, ?_⟩
    · rcases clipped with more | long
      · rw [if_neg more]
        omega
      · omega
    · rcases framed with same | ⟨most, most'⟩
      · rw [cleanGaps, spikedGaps, same last known]
      · omega

/-! ## What a spike does -/

/-- **Two captures that differ in one spike deliver the same exactly when it is
absorbed.**  The entries of a message are the first spans, and they are measured with
the line low and high in turn, beginning with low, exactly when the level changes up
to the end of the last of them are all `IR_MIN_PULSE_US` apart. -/
theorem spike_effect {N : Nat} [NeZero N] {o t o' t' : Observed N} {now now' a b : Nat}
    {before after : List Nat} (ends : Ends o now t) (ends' : Ends o' now' t')
    (clean : o.trace.edges = before ++ after)
    (spiked : o'.trace.edges = before ++ a :: b :: after)
    (spike : Spike irMinPulseUs before a b after)
    (changes : o'.trace.edges.Pairwise (· < ·)) :
    (handedOver o t = handedOver o' t' ↔ Absorbed before a b after) ∧
    (∀ u ∈ [(o, t), (o', t')],
      (∀ message ∈ handedOver u.1 u.2, message.pulses.map UInt16.toNat =
        ((spans u.1.trace.taken).take irMaxPulses).map duration) ∧
      (Marks u.1.trace.edges 0 ((spans u.1.trace.taken).take irMaxPulses) ↔
        Spaced irMinPulseUs
          (u.1.trace.edges.take (min irMaxPulses (spans u.1.trace.taken).length + 1)))) := by
  have entries : ∀ {o t : Observed N} {now : Nat}, Ends o now t →
      ∀ message ∈ handedOver o t, message.pulses.map UInt16.toNat =
        ((spans o.trace.taken).take irMaxPulses).map duration := by
    intro o t now ends message member
    obtain ⟨silent, sent⟩ := tick_delivers ends.reached ends.step ends.finishes
    unfold handedOver at member
    by_cases none : o.trace.intervals = []
    · rw [(silent none).1, List.drop_length] at member
      cases member
    · obtain ⟨only, describes, finished, -, -⟩ := sent none
      rw [finished, List.drop_left, List.mem_singleton] at member
      rw [member, describes.pulses, Trace.intervals, List.map_take]
  have changes' : o.trace.edges.Pairwise (· < ·) := by
    rw [spiked] at changes
    rw [clean]
    have fewer : (before ++ after).Sublist (before ++ a :: b :: after) :=
      (List.Sublist.refl before).append (((List.Sublist.refl after).cons b).cons a)
    exact changes.sublist fewer
  constructor
  · rw [handedOver_eq_iff ends ends', ← same_intervals_iff spike, ← clean, ← spiked]
    exact Iff.rfl
  · intro u member
    rcases List.mem_cons.mp member with rfl | member
    · exact ⟨entries ends, marks_iff irMinPulseUs changes' irMaxPulses⟩
    · obtain rfl := List.mem_singleton.mp member
      exact ⟨entries ends', marks_iff irMinPulseUs changes irMaxPulses⟩

/-! ## One pulse with a spike in its middle -/

/-- Ticks every 2 ms. -/
def ticks (first count : Nat) : List Capture.Event :=
  (List.range count).map fun i => .tick (first + 2000 * i)

/-- One mark of 9 ms and the silence after it. -/
def cleanRun : List Capture.Event :=
  [.edge 1000] ++ ticks 2000 5 ++ [.edge 10000] ++ ticks 12000 27

/-- The same with the line high for 30 us in the middle of the mark. -/
def spikedRun : List Capture.Event :=
  [.edge 1000] ++ ticks 2000 2 ++ [.edge 5000, .edge 5030] ++ ticks 6000 3 ++ [.edge 10000] ++
    ticks 12000 27

theorem ends_of_run {o : Observed 2} {es : List Capture.Event} {now : Nat}
    (run : (machine 2).Run (started 0) es o) (finishes : Finishes o.system.capture now)
    (timely : Timely o (.tick now)) (possible : (next o (.tick now)).isSome) :
    ∃ t, Ends o now t := by
  obtain ⟨t, moved⟩ := Option.isSome_iff_exists.mp possible
  exact ⟨t, ⟨_, es, ⟨0, rfl⟩, run⟩, ⟨timely, moved⟩, finishes⟩

theorem spike_effect_mark : ∃ (o t o' t' : Observed 2), Ends o 66000 t ∧ Ends o' 66000 t' ∧
    o.trace.edges = [1000, 10000] ∧ o'.trace.edges = [1000, 5000, 5030, 10000] ∧
    (handedOver o t = handedOver o' t' ↔ Absorbed [1000] 5000 5030 [10000]) := by
  have computed : (Machine.exec (Machine.guarded Timely next) (started 0 : Observed 2)
      cleanRun).any (fun o => decide (o.trace.edges = [1000, 10000] ∧
        Finishes o.system.capture 66000 ∧ Timely o (.tick 66000) ∧
        (next o (.tick 66000)).isSome)) = true := by decide +kernel
  have computed' : (Machine.exec (Machine.guarded Timely next) (started 0 : Observed 2)
      spikedRun).any (fun o => decide (o.trace.edges = [1000, 5000, 5030, 10000] ∧
        Finishes o.system.capture 66000 ∧ Timely o (.tick 66000) ∧
        (next o (.tick 66000)).isSome)) = true := by decide +kernel
  obtain ⟨o, run, edges, finishes, timely, possible⟩ :=
    Machine.exists_run_of_exec_restrict computed
  obtain ⟨o', run', edges', finishes', timely', possible'⟩ :=
    Machine.exists_run_of_exec_restrict computed'
  obtain ⟨t, ends⟩ := ends_of_run run finishes timely possible
  obtain ⟨t', ends'⟩ := ends_of_run run' finishes' timely' possible'
  have spike : Spike irMinPulseUs [1000] 5000 5030 [10000] :=
    ⟨by decide, by decide, by decide, by decide⟩
  exact ⟨o, t, o', t', ends, ends', edges, edges',
    (spike_effect ends ends' edges edges' spike (edges' ▸ by decide)).1⟩

/-- The spike cuts the mark in two, and the second half of it becomes a space. -/
theorem spike_splits_mark : ∃ t t' : Observed 2,
    (machine 2).Run (started 0) (cleanRun ++ [.tick 66000]) t ∧
    (machine 2).Run (started 0) (spikedRun ++ [.tick 66000]) t' ∧
    t.system.history.finished.map (fun m => m.pulses.map UInt16.toNat) = [[9000]] ∧
    t'.system.history.finished.map (fun m => m.pulses.map UInt16.toNat) = [[4000, 5000]] ∧
    spans t'.trace.taken = [(1000, 5000), (5000, 10000)] ∧
    lowAt t'.trace.edges 6000 := by
  have computed : (Machine.exec (Machine.guarded Timely next) (started 0 : Observed 2)
      (cleanRun ++ [.tick 66000])).any (fun t => decide (
        t.system.history.finished.map (fun m => m.pulses.map UInt16.toNat) = [[9000]])) =
      true := by decide +kernel
  have computed' : (Machine.exec (Machine.guarded Timely next) (started 0 : Observed 2)
      (spikedRun ++ [.tick 66000])).any (fun t => decide (
        t.system.history.finished.map (fun m => m.pulses.map UInt16.toNat) = [[4000, 5000]] ∧
        t.trace.edges = [1000, 5000, 5030, 10000])) = true := by decide +kernel
  obtain ⟨t, run, delivered⟩ := Machine.exists_run_of_exec_restrict computed
  obtain ⟨t', run', delivered', edges⟩ := Machine.exists_run_of_exec_restrict computed'
  refine ⟨t, t', run, run', delivered, delivered', ?_, ?_⟩
  · rw [Trace.taken, edges]
    decide
  · -- the line is low again behind the spike
    rw [lowAt, edges]
    decide

end IrHub.Firmware.Spikes
