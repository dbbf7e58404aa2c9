/-
# Firmware.Segmentation -- which edges make a capture, and what is delivered for it

`Trace` watches the interrupts from outside: the edges of the latest capture, the
last edge that was accepted or swallowed, the last tick.  Which of a capture's edges
are accepted is left to `Theory.Edges`.  The idle timer ticks at most 2000 us apart
(`Timely`).

`Segmented` is the invariant: an open capture's buffer holds the intervals of its
accepted edges, and nothing is open once 55 ms have passed without one.  From it
`capture_segmentation` says where captures begin and end and what they deliver.
-/
import IrHub.Firmware.Capture
import IrHub.Theory.Edges

namespace IrHub.Firmware.Segmentation

set_option autoImplicit false

open IrHub.Theory IrHub.Theory.Edges IrHub.Firmware.Capture Function

variable {N : Nat}

/-! ## What is seen from outside -/

structure Trace where
  lastTick : Nat
  /-- The edges of the capture in progress, or of the last one. -/
  edges : List Nat
  /-- The last edge that was accepted or swallowed. -/
  lastSeen : Option Nat

/-- The first edge and then each at least `IR_MIN_PULSE_US` after the one accepted
before it. -/
def Trace.taken (trace : Trace) : List Nat := accepted irMinPulseUs trace.edges

/-- The accepted intervals. -/
def Trace.intervals (trace : Trace) : List Nat := (spans trace.taken).map duration

structure Observed (N : Nat) where
  system : System N
  trace : Trace

/-- What an event adds, from the capture before it to the one after it. -/
def observe (s t : Capture N) (trace : Trace) : Event → Trace
  | .edge now =>
      match s.state with
      | .idle =>
          { trace with
            edges := if t.state = .capturing then [now] else trace.edges
            lastSeen := some now }
      | .capturing =>
          { trace with
            edges := trace.edges ++ [now]
            lastSeen := (accepted irMinPulseUs (trace.edges ++ [now])).getLast? }
      | .dropping => { trace with lastSeen := some now }
  | .tick now => { trace with lastTick := now }
  | .task => trace

def next [NeZero N] (o : Observed N) (e : Event) : Option (Observed N) :=
  (Capture.next o.system e).map fun system =>
    ⟨system, observe o.system.capture system.capture o.trace e⟩

/-- The next tick is not overdue. -/
def Timely (o : Observed N) : Event → Prop
  | .edge now => now ≤ o.trace.lastTick + 2000
  | .tick now => now ≤ o.trace.lastTick + 2000
  | .task => True

instance (o : Observed N) (e : Event) : Decidable (Timely o e) := by
  unfold Timely
  cases e <;> infer_instance

def started [NeZero N] (now : Nat) : Observed N :=
  ⟨⟨init now, now, ⟨0, 0, [], []⟩⟩, ⟨now, [], none⟩⟩

/-- Any interleaving of edges, timely ticks and steps of the task. -/
def machine (N : Nat) [NeZero N] : Machine (Observed N) Event :=
  (Machine.ofStep (fun o => ∃ now, o = started now) next).restrict Timely

/-! ## What a buffer records -/

/-- The buffer holds the intervals: the first of them, how many frames they make, and
whether there were more. -/
structure Recorded (s : Capture N) (b : Fin N) (intervals : List Nat) : Prop where
  count : s.count b = min intervals.length irMaxPulses
  pulses : ((List.range (s.count b)).map (s.buf b)).map UInt16.toNat = intervals.take irMaxPulses
  frames : (s.frames b).toNat = min 65535 (1 + intervals.countP fun d => irFrameGapUs ≤ d)
  trunc : s.trunc b = decide (irMaxPulses < intervals.length)

theorem Recorded.same {s t : Capture N} {b : Fin N} {intervals : List Nat}
    (recorded : Recorded s b intervals) (same : SameBuffer s t b) : Recorded t b intervals := by
  obtain ⟨buf, count, frames, trunc⟩ := same
  obtain ⟨counted, pulses, framed, truncated⟩ := recorded
  exact ⟨by rw [count, counted], by rw [count, buf, pulses], by rw [frames, framed],
    by rw [trunc, truncated]⟩

theorem recorded_begin (s : Capture N) (now : Nat) (b : Fin N) :
    Recorded (beginCapture s now b) b [] := by
  constructor <;> simp [beginCapture]

/-- The pulses of a buffer with one more entry. -/
theorem range_map_update (buf : Nat → UInt16) (n : Nat) (pulse : UInt16) :
    (List.range (n + 1)).map (update buf n pulse) = (List.range n).map buf ++ [pulse] := by
  have before : (List.range n).map (update buf n pulse) = (List.range n).map buf := by
    refine List.map_congr_left ?_
    intro i member
    have less := List.mem_range.mp member
    rw [update_of_ne (by omega)]
  rw [List.range_succ, List.map_append, before, List.map_singleton, update_self]

/-- The frame count, which stops at its largest value. -/
theorem recordInterval_frames (s : Capture N) (now delta : Nat) :
    ((recordInterval s now delta).frames s.activeBuf).toNat =
      min 65535 ((s.frames s.activeBuf).toNat + if irFrameGapUs ≤ delta then 1 else 0) := by
  have shape : (recordInterval s now delta).frames s.activeBuf =
      if irFrameGapUs ≤ delta ∧ s.frames s.activeBuf < 0xFFFF then s.frames s.activeBuf + 1
      else s.frames s.activeBuf := by
    by_cases gap : irFrameGapUs ≤ delta ∧ s.frames s.activeBuf < 0xFFFF
    · by_cases room : s.count s.activeBuf < irMaxPulses <;> simp [recordInterval, gap, room]
    · by_cases room : s.count s.activeBuf < irMaxPulses <;> simp [recordInterval, gap, room]
  have bound := (s.frames s.activeBuf).toNat_lt
  rw [shape]
  by_cases gap : irFrameGapUs ≤ delta
  · by_cases more : s.frames s.activeBuf < 0xFFFF
    · have less : (s.frames s.activeBuf).toNat < 65535 := UInt16.lt_iff_toNat_lt.mp more
      rw [if_pos ⟨gap, more⟩, if_pos gap, UInt16.toNat_add]
      simp
      omega
    · have most : 65535 ≤ (s.frames s.activeBuf).toNat :=
        Nat.le_of_not_lt fun less => more (UInt16.lt_iff_toNat_lt.mpr less)
      rw [if_neg fun both => more both.2, if_pos gap]
      omega
  · rw [if_neg fun both => gap both.1, if_neg gap]
    omega

/-- An accepted interval that fits in an entry is added as it is. -/
theorem recorded_interval {s : Capture N} {intervals : List Nat} (now : Nat) {delta : Nat}
    (recorded : Recorded s s.activeBuf intervals) (fits : delta ≤ 0xFFFF) :
    Recorded (recordInterval s now delta) s.activeBuf (intervals ++ [delta]) := by
  obtain ⟨count, pulses, frames, trunc⟩ := recorded
  have frames' : ((recordInterval s now delta).frames s.activeBuf).toNat =
      min 65535 (1 + (intervals ++ [delta]).countP fun d => irFrameGapUs ≤ d) := by
    rw [recordInterval_frames, frames, List.countP_append, List.countP_singleton]
    by_cases gap : irFrameGapUs ≤ delta
    · simp only [gap, decide_true, if_true]
      omega
    · simp only [gap, decide_false, if_false, Bool.false_eq_true]
      omega
  by_cases room : s.count s.activeBuf < irMaxPulses
  · have short : intervals.length < irMaxPulses := by omega
    have counted : s.count s.activeBuf = intervals.length := by omega
    have entry : (if 0xFFFF < delta then 0xFFFF else UInt16.ofNat delta).toNat = delta := by
      rw [if_neg (Nat.not_lt.mpr fits), UInt16.toNat_ofNat']
      omega
    have count' : (recordInterval s now delta).count s.activeBuf = s.count s.activeBuf + 1 := by
      simp [recordInterval, room]
    have buf' : (recordInterval s now delta).buf s.activeBuf =
        update (s.buf s.activeBuf) (s.count s.activeBuf)
          (if 0xFFFF < delta then 0xFFFF else UInt16.ofNat delta) := by
      simp [recordInterval, room]
    have trunc' : (recordInterval s now delta).trunc = s.trunc := by simp [recordInterval, room]
    have whole : intervals.take irMaxPulses = intervals := List.take_of_length_le (by omega)
    refine ⟨?_, ?_, frames', ?_⟩
    · rw [count', counted, List.length_append, List.length_singleton]
      omega
    · rw [count', buf', range_map_update, List.map_append, pulses, whole, List.map_singleton, entry,
        List.take_of_length_le]
      rw [List.length_append, List.length_singleton]
      omega
    · rw [trunc', trunc, List.length_append, List.length_singleton]
      have before : ¬irMaxPulses < intervals.length := by omega
      have after : ¬irMaxPulses < intervals.length + 1 := by omega
      simp only [before, after]
  · have long : irMaxPulses ≤ intervals.length := by omega
    have count' : (recordInterval s now delta).count = s.count := by simp [recordInterval, room]
    have buf' : (recordInterval s now delta).buf = s.buf := by simp [recordInterval, room]
    have trunc' : (recordInterval s now delta).trunc s.activeBuf = true := by
      simp [recordInterval, room]
    refine ⟨?_, ?_, frames', ?_⟩
    · rw [count', count, List.length_append, List.length_singleton]
      omega
    · rw [count', buf', pulses, List.take_append_of_le_length long]
    · rw [trunc', List.length_append, List.length_singleton]
      exact (decide_eq_true (Nat.lt_succ_of_le long)).symm

/-! ## The invariant -/

/-- An open capture's buffer holds the intervals of its accepted edges, and no tick has
come 55 ms after the last of them; once none is open, 55 ms have passed. -/
structure Segmented (o : Observed N) : Prop where
  ticked : o.trace.lastTick ≤ o.system.now
  timely : o.system.now ≤ o.trace.lastTick + 2000
  recording : o.system.capture.state = .capturing →
    o.trace.taken.getLast? = some o.system.capture.lastEdgeUs ∧
      o.trace.lastTick < o.system.capture.lastEdgeUs + irMessageGapUs ∧
      Recorded o.system.capture o.system.capture.activeBuf o.trace.intervals
  seen : o.system.capture.state ≠ .idle →
    o.trace.lastSeen = some o.system.capture.lastEdgeUs ∧
      o.system.capture.lastEdgeUs ≤ o.system.now
  quiet : o.system.capture.state = .idle →
    ∀ last, o.trace.lastSeen = some last → last + irMessageGapUs ≤ o.system.now
  over_ : o.system.capture.state ≠ .capturing →
    ∀ last, o.trace.taken.getLast? = some last → last + irMessageGapUs ≤ o.system.now

variable [NeZero N]

theorem segmented_started (now : Nat) : Segmented (started (N := N) now) where
  ticked := Nat.le_refl now
  timely := Nat.le_add_right now 2000
  recording := nofun
  seen idle := absurd rfl idle
  quiet _ := nofun
  over_ _ := nofun

omit [NeZero N] in
theorem taken_snoc {trace : Trace} {last : Nat} (latest : trace.taken.getLast? = some last)
    (now : Nat) : accepted irMinPulseUs (trace.edges ++ [now]) =
      if now - last < irMinPulseUs then trace.taken else trace.taken ++ [now] :=
  accepted_snoc irMinPulseUs latest now

omit [NeZero N] in
/-- An edge that the filter drops. -/
theorem segmented_filtered {o : Observed N} {now : Nat} (segmented : Segmented o)
    (order : o.system.now ≤ now) (timely : now ≤ o.trace.lastTick + 2000)
    (capturing : o.system.capture.state = .capturing)
    (near : now - o.system.capture.lastEdgeUs < irMinPulseUs) (history : History) :
    Segmented ⟨⟨o.system.capture, now, history⟩,
      { o.trace with
        edges := o.trace.edges ++ [now]
        lastSeen := (accepted irMinPulseUs (o.trace.edges ++ [now])).getLast? }⟩ := by
  obtain ⟨latest, untimed, recorded⟩ := segmented.recording capturing
  have same : accepted irMinPulseUs (o.trace.edges ++ [now]) = o.trace.taken := by
    rw [taken_snoc latest, if_pos near]
  have notIdle : o.system.capture.state ≠ .idle := by
    rw [capturing]
    decide
  constructor
  · exact Nat.le_trans segmented.ticked order
  · exact timely
  · intro _
    simp only [Trace.taken, Trace.intervals, same]
    exact ⟨latest, untimed, recorded⟩
  · intro _
    simp only [same]
    exact ⟨latest, Nat.le_trans (segmented.seen notIdle).2 order⟩
  · intro idle
    exact absurd idle notIdle
  · intro closed
    exact absurd capturing closed

omit [NeZero N] in
/-- An edge that is accepted: its interval is short enough for an entry, because a tick
55 ms after the last edge would have ended the capture. -/
theorem segmented_accepted {o : Observed N} {now : Nat} (segmented : Segmented o)
    (order : o.system.now ≤ now) (timely : now ≤ o.trace.lastTick + 2000)
    (capturing : o.system.capture.state = .capturing)
    (far : ¬now - o.system.capture.lastEdgeUs < irMinPulseUs) (history : History) :
    Segmented ⟨⟨recordInterval o.system.capture now (now - o.system.capture.lastEdgeUs), now,
        history⟩,
      { o.trace with
        edges := o.trace.edges ++ [now]
        lastSeen := (accepted irMinPulseUs (o.trace.edges ++ [now])).getLast? }⟩ := by
  obtain ⟨latest, untimed, recorded⟩ := segmented.recording capturing
  have ticked := segmented.ticked
  have added : accepted irMinPulseUs (o.trace.edges ++ [now]) =
      accepted irMinPulseUs o.trace.edges ++ [now] :=
    (taken_snoc latest now).trans (if_neg far)
  have fits : now - o.system.capture.lastEdgeUs ≤ 0xFFFF := by
    rw [show irMessageGapUs = 55000 from rfl] at untimed
    omega
  have intervals : (spans (accepted irMinPulseUs o.trace.edges ++ [now])).map duration =
      o.trace.intervals ++ [now - o.system.capture.lastEdgeUs] := by
    have latest : (accepted irMinPulseUs o.trace.edges).getLast? = some _ := latest
    rw [spans_append latest, List.map_append]
    rfl
  have step : ∀ s : Capture N, ∀ delta, (recordInterval s now delta).lastEdgeUs = now ∧
      (recordInterval s now delta).state = s.state ∧
      (recordInterval s now delta).activeBuf = s.activeBuf := by
    intro s delta
    by_cases room : s.count s.activeBuf < irMaxPulses <;> simp [recordInterval, room]
  obtain ⟨last, state, active⟩ := step o.system.capture (now - o.system.capture.lastEdgeUs)
  constructor
  · exact Nat.le_trans ticked order
  · exact timely
  · intro _
    simp only [Trace.taken, Trace.intervals, added, intervals, last, active]
    refine ⟨List.getLast?_concat, ?_, recorded_interval now recorded fits⟩
    rw [show irMessageGapUs = 55000 from rfl]
    omega
  · intro _
    simp only [added, last]
    exact ⟨List.getLast?_concat, Nat.le_refl now⟩
  · intro idle
    rw [state, capturing] at idle
    cases idle
  · intro closed
    rw [state] at closed
    exact absurd capturing closed

theorem segmented_edge {o t : Observed N} {now : Nat} (segmented : Segmented o)
    (timely : now ≤ o.trace.lastTick + 2000) (step : next o (.edge now) = some t) :
    Segmented t := by
  simp only [next, Capture.next, Option.map_eq_some_iff] at step
  obtain ⟨system, moved, rfl⟩ := step
  split at moved
  · rename_i order
    cases moved
    cases state : o.system.capture.state with
    | capturing =>
        by_cases near : now - o.system.capture.lastEdgeUs < irMinPulseUs
        · simp only [gpioEdgeIsr, observe, state, if_pos near]
          exact segmented_filtered segmented order timely state near _
        · simp only [gpioEdgeIsr, observe, state, if_neg near]
          exact segmented_accepted segmented order timely state near _
    | dropping =>
        have closed : o.system.capture.state ≠ .capturing := by
          rw [state]
          decide
        simp only [gpioEdgeIsr, observe, state]
        constructor
        · exact Nat.le_trans segmented.ticked order
        · exact timely
        · rintro ⟨⟩
        · exact fun _ => ⟨rfl, Nat.le_refl now⟩
        · rintro ⟨⟩
        · intro _ last latest
          exact Nat.le_trans (segmented.over_ closed last latest) order
    | idle =>
        have closed : o.system.capture.state ≠ .capturing := by
          rw [state]
          decide
        simp only [gpioEdgeIsr, observe, state]
        split
        · constructor
          · exact Nat.le_trans segmented.ticked order
          · exact timely
          · rintro ⟨⟩
          · exact fun _ => ⟨rfl, Nat.le_refl now⟩
          · rintro ⟨⟩
          · intro _ last latest
            exact Nat.le_trans (segmented.over_ closed last latest) order
        · constructor
          · exact Nat.le_trans segmented.ticked order
          · exact timely
          · intro _
            refine ⟨rfl, ?_, recorded_begin _ _ _⟩
            have ticked := segmented.ticked
            show o.trace.lastTick < now + irMessageGapUs
            rw [show irMessageGapUs = 55000 from rfl]
            omega
          · exact fun _ => ⟨rfl, Nat.le_refl now⟩
          · rintro ⟨⟩
          · intro open_
            exact absurd rfl open_
  · cases moved

omit [NeZero N] in
/-- A tick after which nothing is open. -/
theorem segmented_closed {o : Observed N} {now : Nat} {capture : Capture N}
    (idle : capture.state = .idle)
    (passed : ∀ last, o.trace.lastSeen = some last → last + irMessageGapUs ≤ now)
    (ended : ∀ last, o.trace.taken.getLast? = some last → last + irMessageGapUs ≤ now)
    (history : History) :
    Segmented ⟨⟨capture, now, history⟩, { o.trace with lastTick := now }⟩ := by
  constructor
  · exact Nat.le_refl now
  · exact Nat.le_add_right now 2000
  · intro capturing
    rw [idle] at capturing
    cases capturing
  · intro busy
    exact absurd idle busy
  · exact fun _ => passed
  · exact fun _ => ended

omit [NeZero N] in
/-- A tick that comes too early to end anything. -/
theorem segmented_waits {o : Observed N} {now : Nat} (segmented : Segmented o)
    (order : o.system.now ≤ now)
    (early : o.system.capture.state = .capturing →
      now < o.system.capture.lastEdgeUs + irMessageGapUs) (history : History) :
    Segmented ⟨⟨o.system.capture, now, history⟩, { o.trace with lastTick := now }⟩ := by
  constructor
  · exact Nat.le_refl now
  · exact Nat.le_add_right now 2000
  · intro capturing
    obtain ⟨latest, -, recorded⟩ := segmented.recording capturing
    exact ⟨latest, early capturing, recorded⟩
  · intro busy
    obtain ⟨seen, before⟩ := segmented.seen busy
    exact ⟨seen, Nat.le_trans before order⟩
  · intro idle last latest
    exact Nat.le_trans (segmented.quiet idle last latest) order
  · intro closed last latest
    exact Nat.le_trans (segmented.over_ closed last latest) order

theorem finish_state (s : Capture N) : (finish s).state = .idle := by
  unfold finish
  dsimp only
  split
  · rfl
  · split <;> rfl

theorem segmented_tick {o t : Observed N} {now : Nat} (segmented : Segmented o)
    (step : next o (.tick now) = some t) : Segmented t := by
  simp only [next, Capture.next, Option.map_eq_some_iff] at step
  obtain ⟨system, moved, rfl⟩ := step
  split at moved
  · rename_i order
    cases moved
    have gap : irMessageGapUs = 55000 := rfl
    by_cases early : now - o.system.capture.lastEdgeUs < irMessageGapUs
    · have same : idleTimeoutCb o.system.capture now = o.system.capture := by
        unfold idleTimeoutCb
        cases state : o.system.capture.state <;> simp only [if_pos early]
      rw [same]
      refine segmented_waits segmented order ?_ _
      intro capturing
      omega
    · by_cases idle : o.system.capture.state = .idle
      · have same : idleTimeoutCb o.system.capture now = o.system.capture := by
          simp only [idleTimeoutCb, idle]
        rw [same]
        refine segmented_waits segmented order ?_ _
        intro capturing
        rw [idle] at capturing
        cases capturing
      · obtain ⟨seen, before⟩ := segmented.seen idle
        refine segmented_closed ?_ ?_ ?_ _
        · unfold idleTimeoutCb
          cases state : o.system.capture.state with
          | idle => exact absurd state idle
          | dropping => simp only [if_neg early]
          | capturing =>
              simp only [if_neg early]
              exact finish_state _
        · intro last latest
          obtain rfl : o.system.capture.lastEdgeUs = last := Option.some.inj (seen.symm.trans latest)
          omega
        · intro last latest
          by_cases capturing : o.system.capture.state = .capturing
          · have known := (segmented.recording capturing).1
            obtain rfl : o.system.capture.lastEdgeUs = last :=
              Option.some.inj (known.symm.trans latest)
            omega
          · exact Nat.le_trans (segmented.over_ capturing last latest) order
  · cases moved

omit [NeZero N] in
/-- The task leaves to the interrupts what is theirs. -/
theorem taskStep_spares {s t : Capture N} {message : Option IrMessage}
    (step : taskStep s = some (t, message)) :
    (∀ b, SameBuffer s t b) ∧ t.state = s.state ∧ t.lastEdgeUs = s.lastEdgeUs ∧
      t.activeBuf = s.activeBuf := by
  unfold taskStep at step
  split at step
  · split at step
    · cases step
    · cases step
      exact ⟨.refl s, rfl, rfl, rfl⟩
  · cases step
    exact ⟨.refl s, rfl, rfl, rfl⟩
  · cases step
    exact ⟨.refl s, rfl, rfl, rfl⟩
  · cases step
    exact ⟨.refl s, rfl, rfl, rfl⟩
  · split at step
    · cases step
      exact ⟨.refl s, rfl, rfl, rfl⟩
    · cases step
      exact ⟨.refl s, rfl, rfl, rfl⟩

theorem segmented_task {o t : Observed N} (segmented : Segmented o)
    (step : next o .task = some t) : Segmented t := by
  simp only [next, Capture.next, Option.map_eq_some_iff, observe] at step
  obtain ⟨system, ⟨⟨capture, message⟩, moved, rfl⟩, rfl⟩ := step
  obtain ⟨same, state, last, active⟩ := taskStep_spares moved
  constructor
  · exact segmented.ticked
  · exact segmented.timely
  · intro capturing
    obtain ⟨latest, untimed, recorded⟩ := segmented.recording (state.symm.trans capturing)
    simp only [last, active]
    exact ⟨latest, untimed, recorded.same (same _)⟩
  · intro busy
    simp only [state, last] at busy ⊢
    exact segmented.seen busy
  · intro idle
    exact segmented.quiet (state.symm.trans idle)
  · intro closed
    simp only [state] at closed
    exact segmented.over_ closed

theorem segmented_step {o t : Observed N} {e : Event} (segmented : Segmented o)
    (step : (machine N).step o e t) : Segmented t := by
  obtain ⟨timely, moved⟩ := step
  cases e with
  | edge now => exact segmented_edge segmented timely moved
  | tick now => exact segmented_tick segmented moved
  | task => exact segmented_task segmented moved

theorem invariant : (machine N).Invariant Segmented where
  base o start := by
    obtain ⟨now, rfl⟩ := start
    exact segmented_started now
  step _ _ _ segmented step := segmented_step segmented step

/-- What is seen from outside changes nothing of the capture's own runs. -/
theorem reachable_system {o : Observed N} (reached : (machine N).Reachable o) :
    (Capture.machine N).Reachable o.system := by
  have runs : ∀ {o t : Observed N} {es : List Event}, (machine N).Run o es t →
      (Capture.machine N).Run o.system es t.system := by
    intro o t es run
    induction run with
    | nil => exact .nil _
    | cons step _ ih =>
        obtain ⟨system, moved, rfl⟩ := Option.map_eq_some_iff.mp step.2
        exact .cons moved ih
  obtain ⟨o₀, es, ⟨now, rfl⟩, run⟩ := reached
  exact ⟨_, es, ⟨now, rfl⟩, runs run⟩

/-! ## Segmentation and content -/

/-- The message says what the intervals are: the first of them exactly, whether there
were more, and how many frames they make. -/
structure Describes (message : IrMessage) (intervals : List Nat) : Prop where
  pulses : message.pulses.map UInt16.toNat = intervals.take irMaxPulses
  truncated : message.truncated = decide (irMaxPulses < intervals.length)
  frameCount : message.frameCount.toNat =
    min 65535 (1 + intervals.countP fun d => irFrameGapUs ≤ d)
  carrierFreq : message.carrierFreq = irCarrierHz

omit [NeZero N] in
theorem Recorded.describes {s : Capture N} {b : Fin N} {intervals : List Nat}
    (recorded : Recorded s b intervals) : Describes (snapshot s b) intervals :=
  ⟨recorded.pulses, recorded.trunc, recorded.frames, rfl⟩

/-- Where an edge goes that comes at `now`, the latest accepted edge being at `last`. -/
theorem edge_segment {o t : Observed N} {now last : Nat} (segmented : Segmented o)
    (step : (machine N).step o (.edge now) t) (latest : o.trace.taken.getLast? = some last) :
    (now < last + irMessageGapUs →
      o.system.capture.state = .capturing ∧ t.system.capture.state = .capturing ∧
        t.trace.edges = o.trace.edges ++ [now] ∧
        t.trace.taken =
          if now - last < irMinPulseUs then o.trace.taken else o.trace.taken ++ [now]) ∧
    (last + irMessageGapUs + 2000 ≤ now → o.system.capture.state ≠ .capturing) := by
  have onTime : now ≤ o.trace.lastTick + 2000 := step.1
  have moved : next o (.edge now) = some t := step.2
  simp only [next, Capture.next, Option.map_eq_some_iff] at moved
  obtain ⟨system, moved, rfl⟩ := moved
  split at moved
  · rename_i order
    cases moved
    constructor
    · intro soon
      have capturing : o.system.capture.state = .capturing := by
        by_contra closed
        have passed := segmented.over_ closed last latest
        omega
      have taken := taken_snoc latest now
      refine ⟨capturing, ?_, ?_, ?_⟩
      · show (gpioEdgeIsr o.system.capture now).state = .capturing
        unfold gpioEdgeIsr
        simp only [capturing]
        split
        · exact capturing
        · unfold recordInterval
          dsimp only
          split <;> exact capturing
      · simp only [observe, capturing]
      · simp only [observe, capturing]
        exact taken
    · intro late capturing
      obtain ⟨known, untimed, -⟩ := segmented.recording capturing
      obtain rfl : o.system.capture.lastEdgeUs = last := Option.some.inj (known.symm.trans latest)
      omega
  · cases moved

/-- What the tick that ends a capture hands over. -/
theorem tick_delivers {o t : Observed N} {now : Nat} (reached : (machine N).Reachable o)
    (step : (machine N).step o (.tick now) t) (ends : Finishes o.system.capture now) :
    (o.trace.intervals = [] → t.system.history.finished = o.system.history.finished ∧
      t.system.capture.readyQueue = o.system.capture.readyQueue) ∧
    (o.trace.intervals ≠ [] → ∃ message, Describes message o.trace.intervals ∧
      t.system.history.finished = o.system.history.finished ++ [message] ∧
      t.system.capture.readyQueue =
        o.system.capture.readyQueue ++ [o.system.capture.activeBuf] ∧
      snapshot t.system.capture o.system.capture.activeBuf = message) := by
  obtain ⟨-, -, recorded⟩ := (invariant.reachable reached).recording ends.1
  have room := (Capture.invariant.reachable (reachable_system reached)).room ends
  have moved : next o (.tick now) = some t := step.2
  simp only [next, Capture.next, Option.map_eq_some_iff] at moved
  obtain ⟨system, moved, rfl⟩ := moved
  split at moved
  · cases moved
    rw [idleTimeoutCb_finishes ends]
    dsimp only
    have counted := recorded.count
    rw [show irMaxPulses = 800 from rfl] at counted
    constructor
    · intro none
      have empty : o.system.capture.count o.system.capture.activeBuf = 0 := by
        rw [counted, none]
        rfl
      rw [if_pos empty, finish_empty empty]
      exact ⟨rfl, rfl⟩
    · intro some
      have pulses : o.system.capture.count o.system.capture.activeBuf ≠ 0 := by
        have long := List.length_pos_of_ne_nil some
        omega
      have handOver := finish_handOver pulses room
      rw [if_neg pulses]
      exact ⟨_, recorded.describes, rfl, handOver.queue, (handOver.spares _).snapshot⟩
  · cases moved

/-- Where a capture begins, and what becomes of an edge while a transmission is
refused. -/
theorem edge_begins {o t : Observed N} {now : Nat} (segmented : Segmented o)
    (step : (machine N).step o (.edge now) t) :
    (o.system.capture.state ≠ .capturing → t.system.capture.state = .capturing →
      t.trace.edges = [now] ∧
        ∀ last, o.trace.lastSeen = some last → last + irMessageGapUs ≤ now) ∧
    (o.system.capture.state = .dropping →
      t.system.capture.state = .dropping ∧ t.trace.lastSeen = some now ∧
        t.system.history.finished = o.system.history.finished) := by
  have moved : next o (.edge now) = some t := step.2
  simp only [next, Capture.next, Option.map_eq_some_iff] at moved
  obtain ⟨system, moved, rfl⟩ := moved
  split at moved
  · rename_i order
    cases moved
    constructor
    · intro closed begins
      cases state : o.system.capture.state with
      | capturing => exact absurd state closed
      | dropping =>
          simp only [gpioEdgeIsr, state] at begins
          cases begins
      | idle =>
          refine ⟨?_, ?_⟩
          · simp only [observe, state]
            exact if_pos begins
          · intro last latest
            exact Nat.le_trans (segmented.quiet state last latest) order
    · intro dropping
      simp only [gpioEdgeIsr, observe, dropping]
      exact ⟨trivial, trivial, trivial⟩
  · cases moved

/-- **Where captures begin and end, and what they deliver.**  An edge less than 55 ms
after the latest accepted one is filtered or belongs to its capture; one 57 ms after
it or later never does.  A capture that ends delivers a message that describes its
intervals, and nothing when it has none.  A capture begins no sooner than 55 ms after
the last edge that was accepted or swallowed, and while a transmission is refused its
edges are swallowed. -/
theorem capture_segmentation {o : Observed N} (reached : (machine N).Reachable o) :
    (∀ now t, (machine N).step o (.edge now) t →
      ∀ last, o.trace.taken.getLast? = some last →
        (now < last + irMessageGapUs →
          o.system.capture.state = .capturing ∧ t.system.capture.state = .capturing ∧
            t.trace.edges = o.trace.edges ++ [now] ∧
            t.trace.taken =
              if now - last < irMinPulseUs then o.trace.taken else o.trace.taken ++ [now]) ∧
        (last + irMessageGapUs + 2000 ≤ now → o.system.capture.state ≠ .capturing)) ∧
    (∀ now t, (machine N).step o (.tick now) t → Finishes o.system.capture now →
      (o.trace.intervals = [] → t.system.history.finished = o.system.history.finished ∧
        t.system.capture.readyQueue = o.system.capture.readyQueue) ∧
      (o.trace.intervals ≠ [] → ∃ message, Describes message o.trace.intervals ∧
        t.system.history.finished = o.system.history.finished ++ [message] ∧
        t.system.capture.readyQueue =
          o.system.capture.readyQueue ++ [o.system.capture.activeBuf] ∧
        snapshot t.system.capture o.system.capture.activeBuf = message)) ∧
    (∀ now t, (machine N).step o (.edge now) t →
      (o.system.capture.state ≠ .capturing → t.system.capture.state = .capturing →
        t.trace.edges = [now] ∧
          ∀ last, o.trace.lastSeen = some last → last + irMessageGapUs ≤ now) ∧
      (o.system.capture.state = .dropping →
        t.system.capture.state = .dropping ∧ t.trace.lastSeen = some now ∧
          t.system.history.finished = o.system.history.finished)) := by
  have segmented := invariant.reachable reached
  exact ⟨fun now t step last latest => edge_segment segmented step latest,
    fun now t step ends => tick_delivers reached step ends,
    fun now t step => edge_begins segmented step⟩

/-- An edge 560 us after the first one. -/
theorem capture_segmentation_edge : ∃ o t : Observed 2, (machine 2).Reachable o ∧
    (machine 2).step o (.edge 1560) t ∧ t.trace.taken = [1000, 1560] := by
  obtain ⟨o, begun, first, now, tick⟩ : ∃ o : Observed 2,
      next (started 0) (.edge 1000) = some o ∧ o.trace.taken = [1000] ∧ o.system.now = 1000 ∧
        o.trace.lastTick = 0 := ⟨_, rfl, rfl, rfl, rfl⟩
  obtain ⟨t, further⟩ : ∃ t, next o (.edge 1560) = some t := by simp [next, Capture.next, now]
  have reached : (machine 2).Reachable o := ⟨_, [.edge 1000], ⟨0, rfl⟩, .single ⟨by decide, begun⟩⟩
  have step : (machine 2).step o (.edge 1560) t := by
    refine ⟨?_, further⟩
    show 1560 ≤ o.trace.lastTick + 2000
    rw [tick]
    decide
  have latest : o.trace.taken.getLast? = some 1000 := by rw [first, List.getLast?_singleton]
  obtain ⟨-, -, -, taken⟩ :=
    ((capture_segmentation reached).1 1560 t step 1000 latest).1 (by decide)
  rw [first] at taken
  exact ⟨o, t, reached, step, taken⟩

end IrHub.Firmware.Segmentation
