/-
# Firmware.BackToBack -- transmissions that end before `IRCaptureTask` is scheduled

A transmission is a run of edges and ticks in which the accepted edges lie less than
`IR_MESSAGE_GAP_US` apart, there are between one interval and `IR_MAX_PULSES` of them,
and the last event is a tick that comes a message gap after the last edge.

* `transmission`: one that begins at rest takes a buffer, when one is free, and is handed
  over as its intervals; otherwise all of it is swallowed and counted once.
* `transmissions_law`: of some in a row the first are kept, as many as there are free
  buffers, and the others are dropped.
* `back_to_back`: three in a row are all delivered exactly when the ring has three
  buffers.  The configured one has two: the third is dropped, always.
-/
import IrHub.Firmware.Segmentation

namespace IrHub.Firmware.BackToBack

set_option autoImplicit false

open IrHub.Theory IrHub.Theory.Edges IrHub.Firmware.Capture IrHub.Firmware.Segmentation Function

variable {N : Nat}

instance : NeZero irCaptureBuffers := ⟨by decide⟩

/-! ## Transmissions -/

def edgeTime : Event → Option Nat
  | .edge now => some now
  | _ => none

/-- The accepted intervals of a train of edges. -/
def intervals (edges : List Nat) : List Nat :=
  (spans (accepted irMinPulseUs edges)).map duration

/-- The edges of one transmission, of at least one interval and none too many. -/
structure Transmission (edges : List Nat) : Prop where
  some_ : intervals edges ≠ []
  fits : (intervals edges).length ≤ irMaxPulses
  whole : ∀ d ∈ intervals edges, d < irMessageGapUs

/-- The edges come and then the message gap, and the task does not run. -/
def Transmitted [NeZero N] (s : System N) (edges : List Nat) (t : System N) : Prop :=
  Transmission edges ∧ ∃ es now, (Capture.machine N).Run s (es ++ [.tick now]) t ∧
    .task ∉ es ∧ es.filterMap edgeTime = edges ∧ ∀ e ∈ edges, e + irMessageGapUs ≤ now

/-- Some transmissions, one behind the other. -/
inductive Transmissions [NeZero N] : System N → List (List Nat) → System N → Prop
  | nil (s : System N) : Transmissions s [] s
  | cons {s u t : System N} {edges : List Nat} {rest : List (List Nat)} :
      Transmitted s edges u → Transmissions u rest t → Transmissions s (edges :: rest) t

/-- No transmission is coming in and no buffer is in flight. -/
def AtRest (s : System N) : Prop :=
  s.capture.state = .idle ∧ ∀ b, s.capture.busy b = false

/-! ## A free buffer is found -/

/-- Every other buffer is behind the start, less than a turn away. -/
theorem reaches [NeZero N] (start : Fin N) {b : Fin N} (other : b ≠ start) :
    ∃ i, i < N - 1 ∧ start + Fin.ofNat N (i + 1) = b := by
  have bound := b.isLt
  have startBound := start.isLt
  have apart : b.val ≠ start.val := fun same => other (Fin.ext same)
  by_cases behind : start.val < b.val
  · refine ⟨b.val - start.val - 1, by omega, Fin.ext ?_⟩
    rw [Fin.val_add, show b.val - start.val - 1 + 1 = b.val - start.val by omega, Fin.val_ofNat,
      Nat.mod_eq_of_lt (show b.val - start.val < N by omega),
      show start.val + (b.val - start.val) = b.val by omega, Nat.mod_eq_of_lt bound]
  · refine ⟨b.val + N - start.val - 1, by omega, Fin.ext ?_⟩
    rw [Fin.val_add, show b.val + N - start.val - 1 + 1 = b.val + N - start.val by omega,
      Fin.val_ofNat, Nat.mod_eq_of_lt (show b.val + N - start.val < N by omega),
      show start.val + (b.val + N - start.val) = b.val + N by omega, Nat.add_mod_right,
      Nat.mod_eq_of_lt bound]

/-- `find_free_buf` answers a busy one only when all are busy. -/
theorem findFreeBuf_busy [NeZero N] {busy : Fin N → Bool} {start : Fin N}
    (taken : busy (findFreeBuf busy start) = true) (b : Fin N) : busy b = true := by
  unfold findFreeBuf at taken
  by_cases first : busy start = false
  · rw [if_pos first, first] at taken
    cases taken
  · rw [if_neg first] at taken
    cases found : ((List.range (N - 1)).map fun i => start + Fin.ofNat N (i + 1)).find?
        fun cand => !busy cand with
    | some cand =>
        have free := List.find?_some found
        rw [found, Option.getD_some] at taken
        simp [taken] at free
    | none =>
        -- `b` is the start or one of the candidates behind it
        have others := List.find?_eq_none.mp found
        by_cases same : b = start
        · rw [same]
          simpa using first
        · obtain ⟨i, less, cand⟩ := reaches start same
          have member : b ∈ (List.range (N - 1)).map fun i => start + Fin.ofNat N (i + 1) :=
            List.mem_map.mpr ⟨i, List.mem_range.mpr less, cand⟩
          simpa using others b member

/-- A buffer is free exactly when the task does not own all of them. -/
theorem exists_free {s : System N} (inv : Inv s) :
    (∃ b, s.capture.busy b = false) ↔ (owned s.capture).length < N := by
  constructor
  · rintro ⟨b, free⟩
    refine queue_room (b := b) inv.distinct fun member => ?_
    rw [(inv.busy_iff b).mpr member] at free
    cases free
  · intro few
    by_contra none
    have all : ∀ b, b ∈ owned s.capture := by
      intro b
      refine (inv.busy_iff b).mp ?_
      by_contra free
      exact none ⟨b, by simpa using free⟩
    have many : Fintype.card (Fin N) ≤ (owned s.capture).length := by
      rw [← List.toFinset_card_of_nodup inv.distinct]
      exact Finset.card_le_card fun b _ => List.mem_toFinset.mpr (all b)
    rw [Fintype.card_fin] at many
    omega

/-! ## Intervals as the edges come in -/

theorem accepted_ne_nil {xs : List Nat} (some_ : xs ≠ []) :
    ∃ latest, (accepted irMinPulseUs xs).getLast? = some latest := by
  cases xs with
  | nil => exact absurd rfl some_
  | cons t ts =>
      have some_ : accepted irMinPulseUs (t :: ts) ≠ [] := by
        rw [accepted]
        exact List.cons_ne_nil _ _
      exact ⟨_, List.getLast?_eq_some_getLast some_⟩

theorem intervals_snoc {latest : Nat} {xs : List Nat}
    (known : (accepted irMinPulseUs xs).getLast? = some latest) (t : Nat) :
    intervals (xs ++ [t]) =
      if t - latest < irMinPulseUs then intervals xs else intervals xs ++ [t - latest] := by
  rw [intervals, accepted_snoc irMinPulseUs known]
  split
  · rfl
  · rw [spans_append known, List.map_append]
    rfl

/-- Later edges change no interval. -/
theorem intervals_prefix (xs ys : List Nat) : intervals xs <+: intervals (xs ++ ys) := by
  by_cases none : xs = []
  · rw [none]
    exact List.nil_prefix
  · obtain ⟨latest, known⟩ := accepted_ne_nil none
    rw [intervals, intervals, accepted_append irMinPulseUs known, spans_append known,
      List.map_append]
    exact List.prefix_append _ _

/-- An edge a message gap after the last accepted one is not of the same transmission. -/
theorem near_edge {latest now : Nat} {xs : List Nat}
    (known : (accepted irMinPulseUs xs).getLast? = some latest)
    (whole : ∀ d ∈ intervals (xs ++ [now]), d < irMessageGapUs) :
    now - latest < irMessageGapUs := by
  rw [intervals_snoc known] at whole
  split at whole
  · rename_i near
    exact Nat.lt_trans near (by decide)
  · exact whole _ (List.mem_append_right _ (List.mem_singleton_self _))

/-! ## One transmission -/

/-- Nothing has been handed over, and `lost` more are counted as dropped. -/
structure Untouched (s u : System N) (lost : UInt32) : Prop where
  task : u.capture.task = s.capture.task
  queue : u.capture.readyQueue = s.capture.readyQueue
  busy : u.capture.busy = s.capture.busy
  finished : u.history.finished = s.history.finished
  dropped : u.capture.dropped = s.capture.dropped + lost

/-- One message has been handed over. -/
structure Handed (s u : System N) (message : IrMessage) : Prop where
  task : u.capture.task = s.capture.task
  queue : u.capture.readyQueue.length = s.capture.readyQueue.length + 1
  finished : u.history.finished = s.history.finished ++ [message]
  dropped : u.capture.dropped = s.capture.dropped

/-- How far a transmission has come that began at `s`, with the edges `xs` so far. -/
inductive Phase (s u : System N) (xs : List Nat) : Prop
  | waiting (none : xs = []) (state : u.capture.state = .idle) (same : Untouched s u 0)
  | recording (state : u.capture.state = .capturing)
      (free : s.capture.busy u.capture.activeBuf = false)
      (latest : (accepted irMinPulseUs xs).getLast? = some u.capture.lastEdgeUs)
      (recorded : Recorded u.capture u.capture.activeBuf (intervals xs)) (same : Untouched s u 0)
  | delivered (state : u.capture.state = .idle) (b : Fin N) (free : s.capture.busy b = false)
      (last : Nat) (latest : (accepted irMinPulseUs xs).getLast? = some last)
      (over_ : last + irMessageGapUs ≤ u.now)
      (handed : intervals xs ≠ [] →
        ∃ message, Describes message (intervals xs) ∧ Handed s u message)
  | refusing (state : u.capture.state = .dropping) (full : ∀ b, s.capture.busy b = true)
      (latest : xs.getLast? = some u.capture.lastEdgeUs) (now : u.capture.lastEdgeUs ≤ u.now)
      (last : Nat) (known : (accepted irMinPulseUs xs).getLast? = some last)
      (order : last ≤ u.capture.lastEdgeUs) (same : Untouched s u 1)
  | refused (state : u.capture.state = .idle) (full : ∀ b, s.capture.busy b = true)
      (last : Nat) (latest : (accepted irMinPulseUs xs).getLast? = some last)
      (over_ : last + irMessageGapUs ≤ u.now) (same : Untouched s u 1)

variable [NeZero N]

/-- The first edge finds a buffer, or all of the transmission is refused. -/
theorem phase_first {s u : System N} {now : Nat} (state : u.capture.state = .idle)
    (same : Untouched s u 0) (history : History)
    (finished : history.finished = u.history.finished) :
    Phase s ⟨gpioEdgeIsr u.capture now, now, history⟩ [now] := by
  obtain ⟨task, queue, busy, kept, dropped⟩ := same
  by_cases taken : u.capture.busy (findFreeBuf u.capture.busy u.capture.activeBuf) = true
  · have shape : gpioEdgeIsr u.capture now = { u.capture with
        lastEdgeUs := now, state := .dropping, dropped := u.capture.dropped + 1 } := by
      simp [gpioEdgeIsr, state, taken]
    have full := findFreeBuf_busy taken
    rw [shape]
    refine .refusing rfl (busy ▸ full) rfl (Nat.le_refl now) now rfl (Nat.le_refl now) ?_
    refine ⟨task, queue, busy, finished.trans kept, ?_⟩
    show u.capture.dropped + 1 = s.capture.dropped + 1
    rw [dropped, UInt32.add_zero]
  · have shape : gpioEdgeIsr u.capture now =
        beginCapture u.capture now (findFreeBuf u.capture.busy u.capture.activeBuf) := by
      simp [gpioEdgeIsr, state, taken]
    rw [shape]
    refine .recording rfl ?_ rfl (recorded_begin _ now _)
      ⟨task, queue, busy, finished.trans kept, dropped⟩
    show s.capture.busy (findFreeBuf u.capture.busy u.capture.activeBuf) = false
    rw [← busy]
    simpa using taken

/-- A later edge is filtered or adds an interval. -/
theorem phase_recording {s u : System N} {xs : List Nat} {now : Nat}
    (state : u.capture.state = .capturing) (free : s.capture.busy u.capture.activeBuf = false)
    (latest : (accepted irMinPulseUs xs).getLast? = some u.capture.lastEdgeUs)
    (recorded : Recorded u.capture u.capture.activeBuf (intervals xs)) (same : Untouched s u 0)
    (whole : ∀ d ∈ intervals (xs ++ [now]), d < irMessageGapUs) (history : History)
    (finished : history.finished = u.history.finished) :
    Phase s ⟨gpioEdgeIsr u.capture now, now, history⟩ (xs ++ [now]) := by
  have soon := near_edge latest whole
  have snoc := intervals_snoc latest now
  have known := accepted_snoc irMinPulseUs latest now
  by_cases near : now - u.capture.lastEdgeUs < irMinPulseUs
  · have shape : gpioEdgeIsr u.capture now = u.capture := by
      simp only [gpioEdgeIsr, state, if_pos near]
    rw [if_pos near] at snoc known
    rw [shape]
    exact .recording state free (by rw [known]; exact latest) (by rw [snoc]; exact recorded)
      ⟨same.task, same.queue, same.busy, finished.trans same.finished, same.dropped⟩
  · have shape : gpioEdgeIsr u.capture now =
        recordInterval u.capture now (now - u.capture.lastEdgeUs) := by
      simp only [gpioEdgeIsr, state, if_neg near]
    have step := recordInterval_step now (now - u.capture.lastEdgeUs) state
      (by rw [same.busy]; exact free)
    have fits : now - u.capture.lastEdgeUs ≤ 0xFFFF := by
      have gap : irMessageGapUs = 55000 := rfl
      omega
    have more := recorded_interval now recorded fits
    have moved : (recordInterval u.capture now (now - u.capture.lastEdgeUs)).lastEdgeUs = now ∧
        (recordInterval u.capture now (now - u.capture.lastEdgeUs)).state = .capturing ∧
        (recordInterval u.capture now (now - u.capture.lastEdgeUs)).activeBuf =
          u.capture.activeBuf ∧
        (recordInterval u.capture now (now - u.capture.lastEdgeUs)).dropped =
          u.capture.dropped := by
      by_cases room : u.capture.count u.capture.activeBuf < irMaxPulses <;>
        simp [recordInterval, room, state]
    obtain ⟨last, capturing, active, dropped⟩ := moved
    rw [if_neg near] at snoc known
    rw [shape]
    refine .recording capturing ?_ ?_ ?_ ?_
    · show s.capture.busy (recordInterval u.capture now _).activeBuf = false
      rw [active]
      exact free
    · show _ = some (recordInterval u.capture now _).lastEdgeUs
      rw [known, last]
      exact List.getLast?_concat
    · show Recorded _ (recordInterval u.capture now _).activeBuf _
      rw [active, snoc]
      exact more
    · exact ⟨step.task.trans same.task, step.queue.trans same.queue, step.busy.trans same.busy,
        finished.trans same.finished, dropped.trans same.dropped⟩

theorem phase_edge {s u v : System N} {xs : List Nat} {now : Nat} (phase : Phase s u xs)
    (whole : ∀ d ∈ intervals (xs ++ [now]), d < irMessageGapUs)
    (step : Capture.next u (.edge now) = some v) : Phase s v (xs ++ [now]) := by
  simp only [Capture.next] at step
  split at step
  · rename_i order
    cases step
    cases phase with
    | waiting none state same =>
        rw [none]
        exact phase_first state same _ rfl
    | recording state free latest recorded same =>
        exact phase_recording state free latest recorded same whole _ rfl
    | delivered state b free last latest over_ handed =>
        have soon := near_edge latest whole
        omega
    | refusing state full latest now' last known before same =>
        have shape : gpioEdgeIsr u.capture now = { u.capture with lastEdgeUs := now } := by
          simp only [gpioEdgeIsr, state]
        have snoc := accepted_snoc irMinPulseUs known now
        rw [shape]
        refine .refusing state full List.getLast?_concat (Nat.le_refl now)
          (if now - last < irMinPulseUs then last else now) ?_ ?_
          ⟨same.task, same.queue, same.busy, same.finished, same.dropped⟩
        · rw [snoc]
          split
          · exact known
          · exact List.getLast?_concat
        · show (if now - last < irMinPulseUs then last else now) ≤ now
          split
          · omega
          · exact Nat.le_refl now
    | refused state full last latest over_ same =>
        have soon := near_edge latest whole
        omega
  · cases step

/-- The tick that ends a capture hands it over, when it has an interval. -/
theorem phase_finish {s u : System N} {xs : List Nat} {now : Nat} (inv : Capture.Inv s)
    (ends : Finishes u.capture now) (free : s.capture.busy u.capture.activeBuf = false)
    (latest : (accepted irMinPulseUs xs).getLast? = some u.capture.lastEdgeUs)
    (recorded : Recorded u.capture u.capture.activeBuf (intervals xs)) (same : Untouched s u 0)
    {v : System N} (step : Capture.next u (.tick now) = some v) : Phase s v xs := by
  simp only [Capture.next] at step
  split at step
  · rename_i order
    cases step
    have counted := recorded.count
    have late : u.capture.lastEdgeUs + irMessageGapUs ≤ now := by
      have gap := ends.2
      rw [show irMessageGapUs = 55000 from rfl] at gap ⊢
      omega
    refine .delivered ?_ _ free _ latest late ?_
    · show (idleTimeoutCb u.capture now).state = .idle
      rw [idleTimeoutCb_finishes ends]
      exact finish_state _
    · intro some_
      have long := List.length_pos_of_ne_nil some_
      have pulses : u.capture.count u.capture.activeBuf ≠ 0 := by
        rw [counted, show irMaxPulses = 800 from rfl]
        omega
      have few := (exists_free inv).mp ⟨_, free⟩
      have room : u.capture.readyQueue.length < N := by
        rw [same.queue]
        rw [owned, List.length_append] at few
        omega
      obtain ⟨task, queue, -, -, dropped, -⟩ := finish_handOver pulses room
      refine ⟨_, recorded.describes, ?_, ?_, ?_, ?_⟩
      · show (idleTimeoutCb u.capture now).task = s.capture.task
        rw [idleTimeoutCb_finishes ends, task, same.task]
      · show (idleTimeoutCb u.capture now).readyQueue.length = s.capture.readyQueue.length + 1
        rw [idleTimeoutCb_finishes ends, queue, same.queue, List.length_append,
          List.length_singleton]
      · rw [if_neg pulses, ← same.finished]
      · show (idleTimeoutCb u.capture now).dropped = s.capture.dropped
        rw [idleTimeoutCb_finishes ends, dropped, same.dropped, UInt32.add_zero]
  · cases step

/-- A tick before the message gap, or while nothing is coming in. -/
theorem tick_waits {u v : System N} {now : Nat} (step : Capture.next u (.tick now) = some v)
    (waits : u.capture.state = .idle ∨ now - u.capture.lastEdgeUs < irMessageGapUs) :
    v.capture = u.capture ∧ v.history = u.history ∧ u.now ≤ v.now := by
  simp only [Capture.next] at step
  split at step
  · rename_i order
    cases step
    have same : idleTimeoutCb u.capture now = u.capture := by
      unfold idleTimeoutCb
      cases state : u.capture.state with
      | idle => rfl
      | _ =>
          rcases waits with idle | early
          · rw [state] at idle
            cases idle
          · simp only [if_pos early]
    have goesOn : ¬Finishes u.capture now := by
      rintro ⟨capturing, late⟩
      rcases waits with idle | early
      · rw [capturing] at idle
        cases idle
      · omega
    exact ⟨same, if_neg goesOn, order⟩
  · cases step

omit [NeZero N] in
/-- What a tick leaves alone stays at its phase. -/
theorem Phase.keep {s u v : System N} {xs : List Nat} (phase : Phase s u xs)
    (capture : v.capture = u.capture) (history : v.history = u.history) (order : u.now ≤ v.now) :
    Phase s v xs := by
  have carry : ∀ {lost : UInt32}, Untouched s u lost → Untouched s v lost := by
    intro lost same
    obtain ⟨task, queue, busy, finished, dropped⟩ := same
    constructor
    · rw [capture, task]
    · rw [capture, queue]
    · rw [capture, busy]
    · rw [history, finished]
    · rw [capture, dropped]
  cases phase with
  | waiting none state same => exact .waiting none (by rw [capture, state]) (carry same)
  | recording state free latest recorded same =>
      refine .recording ?_ ?_ ?_ ?_ (carry same)
      · rw [capture, state]
      · rw [capture, free]
      · rw [capture, latest]
      · rw [capture]
        exact recorded
  | delivered state b free last latest over_ handed =>
      refine .delivered (by rw [capture, state]) b free last latest (Nat.le_trans over_ order) ?_
      intro some_
      obtain ⟨message, describes, task, queue, finished, dropped⟩ := handed some_
      refine ⟨message, describes, ?_, ?_, ?_, ?_⟩
      · rw [capture, task]
      · rw [capture, queue]
      · rw [history, finished]
      · rw [capture, dropped]
  | refusing state full latest now last known before same =>
      refine .refusing ?_ full ?_ ?_ last known ?_ (carry same)
      · rw [capture, state]
      · rw [capture, latest]
      · rw [capture]
        exact Nat.le_trans now order
      · rw [capture]
        exact before
  | refused state full last latest over_ same =>
      exact .refused (by rw [capture, state]) full last latest (Nat.le_trans over_ order) (carry same)

theorem phase_tick {s u v : System N} {xs : List Nat} {now : Nat} (inv : Capture.Inv s)
    (phase : Phase s u xs) (step : Capture.next u (.tick now) = some v) : Phase s v xs := by
  by_cases waits : u.capture.state = .idle ∨ now - u.capture.lastEdgeUs < irMessageGapUs
  · obtain ⟨capture, history, order⟩ := tick_waits step waits
    exact phase.keep capture history order
  · obtain ⟨busy, late⟩ := not_or.mp waits
    have late := Nat.le_of_not_lt late
    cases phase with
    | waiting none state same => exact absurd state busy
    | delivered state b free last latest over_ handed => exact absurd state busy
    | refused state full last latest over_ same => exact absurd state busy
    | recording state free latest recorded same =>
        exact phase_finish inv ⟨state, late⟩ free latest recorded same step
    | refusing state full latest now' last known before same =>
        simp only [Capture.next] at step
        split at step
        · cases step
          have shape : idleTimeoutCb u.capture now = { u.capture with state := .idle } := by
            simp only [idleTimeoutCb, state, if_neg (Nat.not_lt.mpr late)]
          have goesOn : ¬Finishes u.capture now := by
            rintro ⟨capturing, -⟩
            rw [state] at capturing
            cases capturing
          have gap : irMessageGapUs = 55000 := rfl
          rw [shape, if_neg goesOn]
          refine .refused rfl full last known ?_
            ⟨same.task, same.queue, same.busy, same.finished, same.dropped⟩
          show last + irMessageGapUs ≤ now
          omega
        · cases step

/-- The phase of a transmission whose edges so far are known, event by event. -/
theorem phase_run {s u v : System N} {es : List Event} (inv : Capture.Inv s)
    (run : (Capture.machine N).Run u es v) : ∀ {xs : List Nat}, Phase s u xs → .task ∉ es →
      (∀ d ∈ intervals (xs ++ es.filterMap edgeTime), d < irMessageGapUs) →
      Phase s v (xs ++ es.filterMap edgeTime) := by
  induction run with
  | nil =>
      intro xs phase _ _
      rw [List.filterMap_nil, List.append_nil]
      exact phase
  | @cons u w v e es step _ ih =>
      intro xs phase noTask whole
      have later : .task ∉ es := fun member => noTask (List.mem_cons_of_mem _ member)
      cases e with
      | task => exact absurd List.mem_cons_self noTask
      | tick now => exact ih (phase_tick inv phase step) later whole
      | edge now =>
          have same : xs ++ (Event.edge now :: es).filterMap edgeTime =
              xs ++ [now] ++ es.filterMap edgeTime := by
            rw [List.append_assoc]
            rfl
          rw [same] at whole ⊢
          have prefix_ := intervals_prefix (xs ++ [now]) (es.filterMap edgeTime)
          exact ih (phase_edge phase (fun d member => whole d (prefix_.subset member)) step) later
            whole

/-! ## What becomes of one transmission, and of some in a row -/

/-- The message has the pulses of the transmission, all of them. -/
structure Carries (message : IrMessage) (edges : List Nat) : Prop where
  pulses : message.pulses.map UInt16.toNat = intervals edges
  truncated : message.truncated = false
  frameCount : message.frameCount.toNat =
    min 65535 (1 + (intervals edges).countP fun d => irFrameGapUs ≤ d)

omit [NeZero N] in
theorem carries {message : IrMessage} {edges : List Nat}
    (fits : (intervals edges).length ≤ irMaxPulses)
    (describes : Describes message (intervals edges)) : Carries message edges where
  pulses := by rw [describes.pulses, List.take_of_length_le fits]
  truncated := by simpa [describes.truncated] using fits
  frameCount := describes.frameCount

/-- What becomes of a transmission: a message that carries it is handed over, or all of
it is dropped. -/
inductive Outcome (s t : System N) (edges : List Nat) : Prop
  | kept (room : (owned s.capture).length < N) (message : IrMessage)
      (carried : Carries message edges) (handed : Handed s t message)
  | dropped (full : ¬(owned s.capture).length < N) (same : Untouched s t 1)

/-- After a tick nothing goes on that was quiet for a message gap. -/
theorem tick_quiet {u v : System N} {now : Nat} (step : Capture.next u (.tick now) = some v) :
    v.capture.state = .idle ∨ now - v.capture.lastEdgeUs < irMessageGapUs := by
  by_cases waits : u.capture.state = .idle ∨ now - u.capture.lastEdgeUs < irMessageGapUs
  · rw [(tick_waits step waits).1]
    exact waits
  · obtain ⟨busy, late⟩ := not_or.mp waits
    simp only [Capture.next] at step
    split at step
    · cases step
      left
      show (idleTimeoutCb u.capture now).state = .idle
      unfold idleTimeoutCb
      cases state : u.capture.state with
      | idle => exact absurd state busy
      | dropping => simp only [if_neg late]
      | capturing =>
          simp only [if_neg late]
          exact finish_state _
    · cases step

/-- **One transmission takes a buffer, if one is free.** -/
theorem transmission {s t : System N} {edges : List Nat} (inv : Capture.Inv s)
    (idle : s.capture.state = .idle) (sent : Transmitted s edges t) :
    t.capture.state = .idle ∧ Outcome s t edges := by
  obtain ⟨⟨some_, fits, whole⟩, es, now, run, noTask, rfl, over_⟩ := sent
  obtain ⟨u, front, back⟩ := run.of_append
  have last : Capture.next u (.tick now) = some t := by
    cases back with
    | cons step rest =>
        cases rest
        exact step
  have start : Phase s s [] := .waiting rfl idle ⟨rfl, rfl, rfl, rfl, (UInt32.add_zero _).symm⟩
  have after := phase_tick inv (phase_run inv front start noTask whole) last
  rw [List.nil_append] at after
  have quiet := tick_quiet last
  cases after with
  | waiting none state same =>
      rw [none] at some_
      exact absurd rfl some_
  | recording state free latest recorded same =>
      have late := over_ _ (mem_of_accepted _ (List.mem_of_getLast? latest))
      rw [state] at quiet
      rcases quiet with idle | early
      · cases idle
      · omega
  | refusing state full latest now' first known before same =>
      have late := over_ _ (List.mem_of_getLast? latest)
      rw [state] at quiet
      rcases quiet with idle | early
      · cases idle
      · omega
  | delivered state b free first latest passed handed =>
      obtain ⟨message, describes, handed⟩ := handed some_
      exact ⟨state, .kept ((exists_free inv).mp ⟨b, free⟩) message (carries fits describes) handed⟩
  | refused state full first latest passed same =>
      refine ⟨state, .dropped ?_ same⟩
      intro room
      obtain ⟨b, free⟩ := (exists_free inv).mpr room
      rw [full b] at free
      cases free

/-- **Of transmissions in a row the first are kept, one for each free buffer, and the
others are dropped.** -/
theorem transmissions_law {s t : System N} {sent : List (List Nat)}
    (run : Transmissions s sent t) : (Capture.machine N).Reachable s →
      s.capture.state = .idle →
      (Capture.machine N).Reachable t ∧ t.capture.task = s.capture.task ∧
      t.capture.dropped = s.capture.dropped +
        UInt32.ofNat (sent.length - (N - (owned s.capture).length)) ∧
      ∃ messages, t.history.finished = s.history.finished ++ messages ∧
        List.Forall₂ Carries messages (sent.take (N - (owned s.capture).length)) := by
  induction run with
  | nil s =>
      intro reached idle
      refine ⟨reached, rfl, ?_, [], (List.append_nil _).symm, ?_⟩
      · simp
      · simp
  | @cons s u t edges rest first _ ih =>
      intro reached idle
      obtain ⟨-, es, now, moves, -, -, -⟩ := id first
      have inv := Capture.invariant.reachable reached
      obtain ⟨idle', outcome⟩ := transmission inv idle first
      obtain ⟨reached', task, dropped, messages, finished, carried⟩ :=
        ih (reached.run moves) idle'
      cases outcome with
      | kept room message carried' handed =>
          have more : (owned u.capture).length = (owned s.capture).length + 1 := by
            rw [owned, owned, handed.task, List.length_append, List.length_append, handed.queue]
            omega
          have places : N - (owned s.capture).length = N - (owned u.capture).length + 1 := by
            rw [more]
            omega
          refine ⟨reached', task.trans handed.task, ?_, message :: messages, ?_, ?_⟩
          · rw [dropped, handed.dropped, places, List.length_cons, Nat.add_sub_add_right]
          · rw [finished, handed.finished, List.append_assoc]
            rfl
          · rw [places, List.take_succ_cons]
            exact .cons carried' carried
      | dropped full same =>
          have as_before : (owned u.capture).length = (owned s.capture).length := by
            rw [owned, owned, same.task, same.queue]
          have none : N - (owned s.capture).length = 0 := by omega
          rw [as_before, none] at dropped carried
          rw [none]
          refine ⟨reached', task.trans same.task, ?_, messages, ?_, carried⟩
          · rw [dropped, same.dropped, List.length_cons, Nat.sub_zero, Nat.sub_zero,
              UInt32.ofNat_add, UInt32.add_assoc, UInt32.add_comm 1]
            rfl
          · rw [finished, same.finished]

/-! ## The task when it is scheduled -/

/-- How many steps the task needs for the buffer that it has. -/
def remaining (s : Capture N) : TaskPc N → Nat
  | .receive => 0
  | .readCount idx => s.count idx + 4
  | .readFrames _ n => n + 3
  | .readTrunc _ n _ => n + 2
  | .copy _ n _ _ copied => n - copied.length + 1

/-- How many steps the task needs until it waits. -/
def work (s : Capture N) : Nat :=
  remaining s s.task + (s.readyQueue.map fun b => s.count b + 5).sum

omit [NeZero N] in
theorem taskStep_work {s t : Capture N} {message : Option IrMessage}
    (step : taskStep s = some (t, message)) : work t < work s := by
  unfold taskStep at step
  cases task : s.task with
  | receive =>
      rw [task] at step
      cases queue : s.readyQueue with
      | nil =>
          rw [queue] at step
          cases step
      | cons idx rest =>
          rw [queue] at step
          cases step
          simp only [work, remaining, task, queue, List.map_cons, List.sum_cons]
          omega
  | readCount idx =>
      rw [task] at step
      cases step
      simp [work, remaining, task]
  | readFrames idx n =>
      rw [task] at step
      cases step
      simp [work, remaining, task]
  | readTrunc idx n frames =>
      rw [task] at step
      cases step
      simp [work, remaining, task]
  | copy idx n frames trunc copied =>
      rw [task] at step
      by_cases more : copied.length < n
      · simp only [if_pos more] at step
        cases step
        simp only [work, remaining, task, List.length_append, List.length_singleton]
        omega
      · simp only [if_neg more] at step
        cases step
        simp [work, remaining, task]

omit [NeZero N] in
/-- The task waits only for an empty queue. -/
theorem taskStep_waits {s : Capture N} (waits : taskStep s = none) : owned s = [] := by
  unfold taskStep at waits
  cases task : s.task with
  | receive =>
      rw [task] at waits
      cases queue : s.readyQueue with
      | nil => rw [owned, task, queue]; rfl
      | cons idx rest =>
          rw [queue] at waits
          cases waits
  | copy idx n frames trunc copied =>
      rw [task] at waits
      by_cases more : copied.length < n
      · simp only [if_pos more] at waits
        cases waits
      · simp only [if_neg more] at waits
        cases waits
  | _ =>
      rw [task] at waits
      cases waits

/-- The task comes to wait for the queue, and then owns no buffer. -/
theorem task_drains (s : System N) : ∃ n u,
    (Capture.machine N).Run s (List.replicate n .task) u ∧ Capture.next u .task = none ∧
      owned u.capture = [] ∧ u.history.finished = s.history.finished := by
  induction left : work s.capture using Nat.strongRecOn generalizing s with
  | ind left_ ih =>
      cases moved : taskStep s.capture with
      | none =>
          refine ⟨0, s, .nil s, ?_, ?_, rfl⟩
          · rw [Capture.next, moved]
            rfl
          · exact taskStep_waits moved
      | some after =>
          obtain ⟨capture, message⟩ := after
          have less := taskStep_work moved
          obtain ⟨n, u, run, waits, none, finished⟩ := ih (work capture) (by omega)
            ⟨capture, s.now,
              { s.history with assembled := s.history.assembled ++ message.toList }⟩ rfl
          have step : Capture.next s .task = some ⟨capture, s.now,
              { s.history with assembled := s.history.assembled ++ message.toList }⟩ := by
            rw [Capture.next, moved]
            rfl
          exact ⟨n + 1, u, .cons step run, waits, none, finished⟩

/-- Scheduled at `t`, the task assembles one message for each of the transmissions, in
order, and then waits. -/
def Delivers (s t : System N) (sent : List (List Nat)) : Prop :=
  ∃ n u messages, (Capture.machine N).Run t (List.replicate n .task) u ∧
    Capture.next u .task = none ∧ u.history.assembled = s.history.assembled ++ messages ∧
    List.Forall₂ Carries messages sent

/-- As many are delivered as the ring has buffers. -/
theorem transmissions_delivered {s t : System N} {sent : List (List Nat)}
    (reached : (Capture.machine N).Reachable s) (rest : AtRest s)
    (run : Transmissions s sent t) :
    t.capture.dropped = s.capture.dropped + UInt32.ofNat (sent.length - N) ∧
      Delivers s t (sent.take N) := by
  have inv := Capture.invariant.reachable reached
  have none : owned s.capture = [] := by
    refine List.eq_nil_iff_forall_not_mem.mpr fun b member => ?_
    have busy := (inv.busy_iff b).mpr member
    rw [rest.2 b] at busy
    cases busy
  obtain ⟨reached', -, dropped, messages, finished, carried⟩ := transmissions_law run reached rest.1
  rw [none, List.length_nil, Nat.sub_zero] at dropped carried
  obtain ⟨n, u, drains, waits, empty, same⟩ := task_drains t
  have before := inv.handedOver
  have after := (Capture.invariant.reachable (reached'.run drains)).handedOver
  rw [none, List.map_nil, List.append_nil] at before
  rw [empty, List.map_nil, List.append_nil] at after
  exact ⟨dropped, n, u, messages, drains, waits, by rw [← after, same, finished, before], carried⟩

/-- **Three transmissions before the task is scheduled survive exactly in a ring of three
buffers.**  In the configured one the third is counted as dropped, whatever the three
are, and the task delivers the first two. -/
theorem back_to_back {s t : System N} {a b c : List Nat}
    (reached : (Capture.machine N).Reachable s) (rest : AtRest s)
    (run : Transmissions s [a, b, c] t) :
    (t.capture.dropped = s.capture.dropped ∧ Delivers s t [a, b, c] ↔ 3 ≤ N) ∧
    (N = irCaptureBuffers →
      t.capture.dropped = s.capture.dropped + 1 ∧ Delivers s t [a, b]) := by
  obtain ⟨dropped, delivers⟩ := transmissions_delivered reached rest run
  have ring : N ≠ 0 := NeZero.ne N
  constructor
  · constructor
    · rintro ⟨same, -⟩
      by_contra few
      rw [same] at dropped
      have lost := congrArg UInt32.toNat dropped
      rw [UInt32.toNat_add, UInt32.toNat_ofNat'] at lost
      have bound := s.capture.dropped.toNat_lt
      simp only [List.length_cons, List.length_nil] at lost
      omega
    · intro enough
      have all : [a, b, c].take N = [a, b, c] := List.take_of_length_le enough
      have kept : [a, b, c].length - N = 0 := Nat.sub_eq_zero_of_le enough
      rw [all] at delivers
      rw [kept] at dropped
      exact ⟨dropped.trans (UInt32.add_zero _), delivers⟩
  · rintro rfl
    exact ⟨dropped, delivers⟩

/-- A transmission of one interval. -/
theorem oneInterval {s t : System N} {a b : Nat} (now : Nat) (wide : irMinPulseUs ≤ b - a)
    (near : b - a < irMessageGapUs) (over_ : a + irMessageGapUs ≤ now ∧ b + irMessageGapUs ≤ now)
    (run : (Capture.machine N).Run s [.edge a, .edge b, .tick now] t) : Transmitted s [a, b] t := by
  have one : intervals [a, b] = [b - a] := by
    simp [intervals, accepted, acceptedAfter, Nat.not_lt.mpr wide, spans, spansAfter, duration]
  refine ⟨⟨?_, ?_, ?_⟩, [.edge a, .edge b], now, run, by simp, rfl, ?_⟩
  · rw [one]
    exact List.cons_ne_nil _ _
  · rw [one]
    exact Nat.le_of_ble_eq_true rfl
  · rw [one]
    simpa using near
  · simpa using over_

/-- Just started. -/
def started (N : Nat) [NeZero N] : System N := ⟨init 0, 0, ⟨0, 0, [], []⟩⟩

theorem started_rests : (Capture.machine N).Reachable (started N) ∧ AtRest (started N) :=
  ⟨.init ⟨0, rfl⟩, rfl, fun _ => rfl⟩

/-- Three transmissions of one interval each. -/
theorem three_sent (N : Nat) [NeZero N] : ∃ t,
    Transmissions (started N) [[0, 1000], [100000, 102000], [200000, 203000]] t :=
  ⟨_, .cons (oneInterval 60000 (by decide) (by decide) (by decide)
      (.cons rfl (.cons rfl (.cons rfl (.nil _)))))
    (.cons (oneInterval 160000 (by decide) (by decide) (by decide)
      (.cons rfl (.cons rfl (.cons rfl (.nil _)))))
    (.cons (oneInterval 260000 (by decide) (by decide) (by decide)
      (.cons rfl (.cons rfl (.cons rfl (.nil _))))) (.nil _)))⟩

/-- The configured ring loses the third of them. -/
theorem back_to_back_lost : ¬∀ (s t : System irCaptureBuffers) (a b c : List Nat),
    (Capture.machine irCaptureBuffers).Reachable s → AtRest s → Transmissions s [a, b, c] t →
      t.capture.dropped = s.capture.dropped ∧ Delivers s t [a, b, c] := by
  intro always
  obtain ⟨t, run⟩ := three_sent irCaptureBuffers
  obtain ⟨reached, rest⟩ := started_rests (N := irCaptureBuffers)
  have lost := (transmissions_delivered reached rest run).1
  rw [(always _ t _ _ _ reached rest run).1] at lost
  exact absurd lost (by decide)

/-- A ring of three keeps them. -/
theorem back_to_back_kept : ∃ t, t.capture.dropped = (started 3).capture.dropped ∧
    Delivers (started 3) t [[0, 1000], [100000, 102000], [200000, 203000]] := by
  obtain ⟨t, run⟩ := three_sent 3
  obtain ⟨reached, rest⟩ := started_rests (N := 3)
  exact ⟨t, (back_to_back reached rest run).1.mpr (Nat.le_refl 3)⟩

end IrHub.Firmware.BackToBack
