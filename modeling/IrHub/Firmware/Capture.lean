/-
# Firmware.Capture -- `ir_capture.cpp`: capture buffers between an ISR, a timer and a task

`gpioEdgeIsr` and `idleTimeoutCb` run to completion; `IRCaptureTask` is preempted
between any two of its reads, so it advances one access at a time (`taskStep`).
The number `N` of buffers is a parameter, and times are microseconds on a clock
that does not go back.

A buffer belongs to the task from its hand-over to the moment the task clears its
busy flag: it is in the ready queue or the task holds it (`owned`).  `Inv` says
that exactly these are busy and that the interrupts write to none of them, so what
the task copies is the capture as it was handed over.  `History` counts and
records; no source function reads it.
-/
import IrHub.Firmware.Config
import IrHub.Theory.Machine
import Mathlib.Data.Fintype.Card
import Mathlib.Data.Fintype.EquivFin
import Mathlib.Logic.Function.Basic

namespace IrHub.Firmware.Capture

set_option autoImplicit false
set_option linter.dupNamespace false

open IrHub.Theory Function

/-- `ST_IDLE`, `ST_CAPTURING`, `ST_DROPPING` -/
inductive CaptureState where
  | idle
  | capturing
  | dropping
  deriving DecidableEq, Repr

/-- What `IRCaptureTask` does next, with what it has put into `s_msg` so far. -/
inductive TaskPc (N : Nat) where
  | receive
  | readCount (idx : Fin N)
  | readFrames (idx : Fin N) (n : Nat)
  | readTrunc (idx : Fin N) (n : Nat) (frames : UInt16)
  | copy (idx : Fin N) (n : Nat) (frames : UInt16) (trunc : Bool) (copied : List UInt16)

structure Capture (N : Nat) where
  buf : Fin N → Nat → UInt16
  count : Fin N → Nat
  frames : Fin N → UInt16
  trunc : Fin N → Bool
  busy : Fin N → Bool
  activeBuf : Fin N
  lastEdgeUs : Nat
  state : CaptureState
  dropped : UInt32
  readyQueue : List (Fin N)
  task : TaskPc N

variable {N : Nat}

/-- After `init` at time `now`. -/
def init [NeZero N] (now : Nat) : Capture N where
  buf _ _ := 0
  count _ := 0
  frames _ := 1
  trunc _ := false
  busy _ := false
  activeBuf := 0
  lastEdgeUs := now
  state := .idle
  dropped := 0
  readyQueue := []
  task := .receive

/-! ## The interrupts -/

/-- `find_free_buf` -/
def findFreeBuf [NeZero N] (busy : Fin N → Bool) (start : Fin N) : Fin N :=
  if busy start = false then start
  else
    (((List.range (N - 1)).map fun i => start + Fin.ofNat N (i + 1)).find?
      fun cand => !busy cand).getD start

/-- The first edge of a transmission, with a buffer for it. -/
def beginCapture (s : Capture N) (now : Nat) (b : Fin N) : Capture N :=
  { s with
    lastEdgeUs := now
    activeBuf := b
    state := .capturing
    count := update s.count b 0
    frames := update s.frames b 1
    trunc := update s.trunc b false }

/-- An accepted edge of a capture. -/
def recordInterval (s : Capture N) (now delta : Nat) : Capture N :=
  let b := s.activeBuf
  let s := { s with
    lastEdgeUs := now
    frames := if irFrameGapUs ≤ delta ∧ s.frames b < 0xFFFF then update s.frames b (s.frames b + 1)
      else s.frames }
  if s.count b < irMaxPulses then
    { s with
      buf := update s.buf b (update (s.buf b) (s.count b)
        (if 0xFFFF < delta then 0xFFFF else UInt16.ofNat delta))
      count := update s.count b (s.count b + 1) }
  else { s with trunc := update s.trunc b true }

/-- `gpio_edge_isr` on the receiver pin -/
def gpioEdgeIsr [NeZero N] (s : Capture N) (now : Nat) : Capture N :=
  let delta := now - s.lastEdgeUs
  match s.state with
  | .dropping => { s with lastEdgeUs := now }
  | .idle =>
      let b := findFreeBuf s.busy s.activeBuf
      if s.busy b then
        { s with lastEdgeUs := now, state := .dropping, dropped := s.dropped + 1 }
      else beginCapture s now b
  | .capturing => if delta < irMinPulseUs then s else recordInterval s now delta

/-- The end of a capture: the hand-over to the task, unless it is empty. -/
def finish [NeZero N] (s : Capture N) : Capture N :=
  let finished := s.activeBuf
  let s := { s with state := .idle }
  if s.count finished = 0 then s
  else
    let s := { s with busy := update s.busy finished true }
    if s.readyQueue.length < N then
      { s with
        readyQueue := s.readyQueue ++ [finished]
        activeBuf := findFreeBuf s.busy finished }
    else { s with busy := update s.busy finished false, dropped := s.dropped + 1 }

/-- `idle_timeout_cb` -/
def idleTimeoutCb [NeZero N] (s : Capture N) (now : Nat) : Capture N :=
  match s.state with
  | .idle => s
  | .dropping =>
      if now - s.lastEdgeUs < irMessageGapUs then s else { s with state := .idle }
  | .capturing => if now - s.lastEdgeUs < irMessageGapUs then s else finish s

/-! ## The task -/

/-- One access of `ir_capture::task`, with the message it completes; `none` while
it waits for the queue. -/
def taskStep (s : Capture N) : Option (Capture N × Option IrMessage) :=
  match s.task with
  | .receive =>
      match s.readyQueue with
      | [] => none
      | idx :: rest => some ({ s with readyQueue := rest, task := .readCount idx }, none)
  | .readCount idx => some ({ s with task := .readFrames idx (s.count idx) }, none)
  | .readFrames idx n => some ({ s with task := .readTrunc idx n (s.frames idx) }, none)
  | .readTrunc idx n frames => some ({ s with task := .copy idx n frames (s.trunc idx) [] }, none)
  | .copy idx n frames trunc copied =>
      if copied.length < n then
        some ({ s with
          task := .copy idx n frames trunc (copied ++ [s.buf idx copied.length]) }, none)
      else
        some ({ s with busy := update s.busy idx false, task := .receive },
          some ⟨irCarrierHz, frames, trunc, copied⟩)

/-! ## Runs -/

/-- The capture in a buffer as it stands. -/
def snapshot (s : Capture N) (b : Fin N) : IrMessage :=
  ⟨irCarrierHz, s.frames b, s.trunc b, (List.range (s.count b)).map (s.buf b)⟩

/-- Transmissions begun, captures ended without a pulse, captures ended with
pulses, as they stood then, and messages assembled. -/
structure History where
  started : Nat
  discarded : Nat
  finished : List IrMessage
  assembled : List IrMessage

structure System (N : Nat) where
  capture : Capture N
  now : Nat
  history : History

inductive Event where
  | edge (now : Nat)
  | tick (now : Nat)
  | task
  deriving DecidableEq, Repr

/-- The tick ends a capture. -/
def Finishes (s : Capture N) (now : Nat) : Prop :=
  s.state = .capturing ∧ irMessageGapUs ≤ now - s.lastEdgeUs

instance (s : Capture N) (now : Nat) : Decidable (Finishes s now) :=
  inferInstanceAs (Decidable (_ ∧ _))

def next [NeZero N] (s : System N) : Event → Option (System N)
  | .edge now =>
      if s.now ≤ now then
        some ⟨gpioEdgeIsr s.capture now, now,
          { s.history with
            started := s.history.started + if s.capture.state = .idle then 1 else 0 }⟩
      else none
  | .tick now =>
      if s.now ≤ now then
        let last := snapshot s.capture s.capture.activeBuf
        some ⟨idleTimeoutCb s.capture now, now,
          if Finishes s.capture now then
            if s.capture.count s.capture.activeBuf = 0 then
              { s.history with discarded := s.history.discarded + 1 }
            else { s.history with finished := s.history.finished ++ [last] }
          else s.history⟩
      else none
  | .task =>
      (taskStep s.capture).map fun (capture, message) =>
        ⟨capture, s.now,
          { s.history with assembled := s.history.assembled ++ message.toList }⟩

/-- The three of them, interleaved in any way. -/
def machine (N : Nat) [NeZero N] : Machine (System N) Event :=
  Machine.ofStep (fun s => ∃ now, s = ⟨init now, now, ⟨0, 0, [], []⟩⟩) next

/-! ## Ownership -/

/-- The buffer the task has received and not yet freed. -/
def held : TaskPc N → List (Fin N)
  | .receive => []
  | .readCount idx => [idx]
  | .readFrames idx _ => [idx]
  | .readTrunc idx _ _ => [idx]
  | .copy idx _ _ _ _ => [idx]

/-- The buffers on the task's side, the oldest capture first. -/
def owned (s : Capture N) : List (Fin N) := held s.task ++ s.readyQueue

/-- What the task has read so far is what its buffer holds. -/
def ReadSoFar (s : Capture N) : TaskPc N → Prop
  | .receive => True
  | .readCount _ => True
  | .readFrames idx n => n = s.count idx
  | .readTrunc idx n frames => n = s.count idx ∧ frames = s.frames idx
  | .copy idx n frames trunc copied =>
      n = s.count idx ∧ frames = s.frames idx ∧ trunc = s.trunc idx ∧
        copied = (List.range copied.length).map (s.buf idx) ∧ copied.length ≤ n

/-- A capture is being recorded. -/
def inProgress (s : Capture N) : Nat := if s.state = .capturing then 1 else 0

/-- The invariant: who owns which buffer, what the task makes of its own, and
where every transmission went. -/
structure Inv (s : System N) : Prop where
  distinct : (owned s.capture).Nodup
  busy_iff : ∀ b, s.capture.busy b = true ↔ b ∈ owned s.capture
  free : s.capture.state = .capturing → s.capture.busy s.capture.activeBuf = false
  read : ReadSoFar s.capture s.capture.task
  handedOver : s.history.finished =
    s.history.assembled ++ (owned s.capture).map (snapshot s.capture)
  counted : s.history.started % 2 ^ 32 =
    (s.history.assembled.length + (owned s.capture).length + s.capture.dropped.toNat +
      s.history.discarded + inProgress s.capture) % 2 ^ 32

/-- The buffer holds the same capture in both states. -/
def SameBuffer (s t : Capture N) (b : Fin N) : Prop :=
  t.buf b = s.buf b ∧ t.count b = s.count b ∧ t.frames b = s.frames b ∧ t.trunc b = s.trunc b

theorem SameBuffer.refl (s : Capture N) (b : Fin N) : SameBuffer s s b := ⟨rfl, rfl, rfl, rfl⟩

theorem SameBuffer.snapshot {s t : Capture N} {b : Fin N} (same : SameBuffer s t b) :
    snapshot t b = snapshot s b := by
  obtain ⟨buf, count, frames, trunc⟩ := same
  rw [Capture.snapshot, Capture.snapshot, buf, count, frames, trunc]

/-- The task's reads stay right while its buffer is left alone. -/
theorem ReadSoFar.spared {s t : Capture N} {pc : TaskPc N} (read : ReadSoFar s pc)
    (spares : ∀ b ∈ held pc, SameBuffer s t b) : ReadSoFar t pc := by
  cases pc with
  | receive => trivial
  | readCount idx => trivial
  | readFrames idx n =>
      obtain ⟨-, count, -, -⟩ := spares idx (List.mem_singleton_self idx)
      exact read.trans count.symm
  | readTrunc idx n frames =>
      obtain ⟨-, count, sameFrames, -⟩ := spares idx (List.mem_singleton_self idx)
      exact ⟨read.1.trans count.symm, read.2.trans sameFrames.symm⟩
  | copy idx n frames trunc copied =>
      obtain ⟨buf, count, sameFrames, sameTrunc⟩ := spares idx (List.mem_singleton_self idx)
      obtain ⟨readCount, readFrames, readTrunc, readPulses, bound⟩ := read
      exact ⟨readCount.trans count.symm, readFrames.trans sameFrames.symm,
        readTrunc.trans sameTrunc.symm, by rw [buf]; exact readPulses, bound⟩

/-! ## The edge interrupt -/

/-- How an edge moves the capture state. -/
inductive EdgeMove (s t : Capture N) : Prop
  | refused (from_idle : s.state = .idle) (state : t.state = .dropping)
      (dropped : t.dropped = s.dropped + 1)
  | began (from_idle : s.state = .idle) (state : t.state = .capturing)
      (free : s.busy t.activeBuf = false) (dropped : t.dropped = s.dropped)
  | went_on (busy_with : s.state ≠ .idle) (state : t.state = s.state)
      (active : t.activeBuf = s.activeBuf) (dropped : t.dropped = s.dropped)

/-- What an edge does: it writes to no busy buffer and hands nothing over. -/
structure EdgeStep (s t : Capture N) : Prop where
  task : t.task = s.task
  queue : t.readyQueue = s.readyQueue
  busy : t.busy = s.busy
  spares : ∀ b, s.busy b = true → SameBuffer s t b
  move : EdgeMove s t

theorem beginCapture_step {s : Capture N} {b : Fin N} (now : Nat) (idle : s.state = .idle)
    (free : s.busy b = false) : EdgeStep s (beginCapture s now b) where
  task := rfl
  queue := rfl
  busy := rfl
  spares c busy := by
    have other : c ≠ b := by
      rintro rfl
      rw [free] at busy
      cases busy
    exact ⟨rfl, update_of_ne other _ _, update_of_ne other _ _, update_of_ne other _ _⟩
  move := .began idle rfl free rfl

theorem recordInterval_step {s : Capture N} (now delta : Nat) (capturing : s.state = .capturing)
    (free : s.busy s.activeBuf = false) : EdgeStep s (recordInterval s now delta) := by
  have notIdle : s.state ≠ .idle := by
    rw [capturing]
    decide
  have spares : ∀ c, s.busy c = true → SameBuffer s (recordInterval s now delta) c := by
    intro c busy
    have other : c ≠ s.activeBuf := by
      rintro rfl
      rw [free] at busy
      cases busy
    unfold recordInterval SameBuffer
    by_cases room : s.count s.activeBuf < irMaxPulses
    · by_cases gap : irFrameGapUs ≤ delta ∧ s.frames s.activeBuf < 0xFFFF
      · simp [room, gap, update_of_ne other]
      · simp [room, gap, update_of_ne other]
    · by_cases gap : irFrameGapUs ≤ delta ∧ s.frames s.activeBuf < 0xFFFF
      · simp [room, gap, update_of_ne other]
      · simp [room, gap, update_of_ne other]
  by_cases room : s.count s.activeBuf < irMaxPulses
  · refine ⟨?_, ?_, ?_, spares, .went_on notIdle ?_ ?_ ?_⟩ <;> simp [recordInterval, room]
  · refine ⟨?_, ?_, ?_, spares, .went_on notIdle ?_ ?_ ?_⟩ <;> simp [recordInterval, room]

theorem gpioEdgeIsr_step [NeZero N] {s : Capture N} (now : Nat)
    (free : s.state = .capturing → s.busy s.activeBuf = false) : EdgeStep s (gpioEdgeIsr s now) := by
  unfold gpioEdgeIsr
  cases state : s.state with
  | idle =>
      simp only
      split
      · exact ⟨rfl, rfl, rfl, fun b _ => .refl s b, .refused state rfl rfl⟩
      · rename_i notBusy
        exact beginCapture_step now state (by simpa using notBusy)
  | capturing =>
      simp only
      split
      · exact ⟨rfl, rfl, rfl, fun b _ => .refl s b,
          .went_on (by rw [state]; decide) rfl rfl rfl⟩
      · exact recordInterval_step now _ state (free state)
  | dropping =>
      exact ⟨rfl, rfl, rfl, fun b _ => .refl s b,
        .went_on (by rw [state]; decide) state.symm rfl rfl⟩

/-! ## The idle timer -/

/-- What a tick does to a capture that goes on waiting, or had nothing to hand over. -/
structure TickIdle (s t : Capture N) : Prop where
  task : t.task = s.task
  queue : t.readyQueue = s.readyQueue
  busy : t.busy = s.busy
  spares : ∀ b, SameBuffer s t b
  dropped : t.dropped = s.dropped

/-- A tick that hands the active buffer over. -/
structure HandOver (s t : Capture N) : Prop where
  task : t.task = s.task
  queue : t.readyQueue = s.readyQueue ++ [s.activeBuf]
  busy : t.busy = update s.busy s.activeBuf true
  spares : ∀ b, SameBuffer s t b
  dropped : t.dropped = s.dropped
  state : t.state = .idle

/-- The queue has room for a buffer the task does not own. -/
theorem queue_room {s : Capture N} {b : Fin N} (distinct : (owned s).Nodup) (foreign : b ∉ owned s) :
    (owned s).length < N := by
  have all : (b :: owned s).length ≤ Fintype.card (Fin N) :=
    (List.nodup_cons.mpr ⟨foreign, distinct⟩).length_le_card
  rw [List.length_cons, Fintype.card_fin] at all
  omega

theorem finish_handOver [NeZero N] {s : Capture N} (pulses : s.count s.activeBuf ≠ 0)
    (room : s.readyQueue.length < N) : HandOver s (finish s) := by
  have shape : finish s =
      { s with
        state := .idle
        busy := update s.busy s.activeBuf true
        readyQueue := s.readyQueue ++ [s.activeBuf]
        activeBuf := findFreeBuf (update s.busy s.activeBuf true) s.activeBuf } := by
    simp [finish, pulses, room]
  rw [shape]
  exact ⟨rfl, rfl, rfl, fun b => .refl s b, rfl, rfl⟩

theorem finish_empty [NeZero N] {s : Capture N} (empty : s.count s.activeBuf = 0) :
    finish s = { s with state := .idle } := by
  simp [finish, empty]

theorem idleTimeoutCb_waits [NeZero N] {s : Capture N} {now : Nat} (waits : ¬Finishes s now) :
    TickIdle s (idleTimeoutCb s now) ∧
      ((idleTimeoutCb s now).state = .capturing ↔ s.state = .capturing) ∧
      (idleTimeoutCb s now).activeBuf = s.activeBuf := by
  unfold idleTimeoutCb
  cases state : s.state with
  | idle => exact ⟨⟨rfl, rfl, rfl, fun b => .refl s b, rfl⟩, by rw [state], rfl⟩
  | dropping =>
      simp only
      split
      · exact ⟨⟨rfl, rfl, rfl, fun b => .refl s b, rfl⟩, by rw [state], rfl⟩
      · exact ⟨⟨rfl, rfl, rfl, fun b => .refl s b, rfl⟩, by simp, rfl⟩
  | capturing =>
      have early : now - s.lastEdgeUs < irMessageGapUs := by
        by_contra late
        exact waits ⟨state, Nat.le_of_not_lt late⟩
      simp only [if_pos early]
      exact ⟨⟨rfl, rfl, rfl, fun b => .refl s b, rfl⟩, by simp [state], trivial⟩

theorem idleTimeoutCb_finishes [NeZero N] {s : Capture N} {now : Nat} (ends : Finishes s now) :
    idleTimeoutCb s now = finish s := by
  obtain ⟨capturing, late⟩ := ends
  simp [idleTimeoutCb, capturing, Nat.not_lt.mpr late]

/-! ## The invariant, event by event -/

theorem snapshots_spared {s t : Capture N} {bs : List (Fin N)}
    (spares : ∀ b ∈ bs, SameBuffer s t b) : bs.map (snapshot t) = bs.map (snapshot s) :=
  List.map_congr_left fun b member => (spares b member).snapshot

theorem owned_eq {s t : Capture N} (task : t.task = s.task) (queue : t.readyQueue = s.readyQueue) :
    owned t = owned s := by
  rw [owned, owned, task, queue]

theorem held_owned {s : Capture N} {b : Fin N} (member : b ∈ held s.task) : b ∈ owned s :=
  List.mem_append_left _ member

variable [NeZero N]

theorem inv_init (now : Nat) : Inv ⟨init (N := N) now, now, ⟨0, 0, [], []⟩⟩ where
  distinct := List.nodup_nil
  busy_iff b := by simp [init, owned, held]
  free capturing := by cases capturing
  read := trivial
  handedOver := rfl
  counted := rfl

omit [NeZero N] in
/-- A step that touches no owned buffer and hands nothing over keeps the invariant,
as far as it keeps the active buffer free and the count right. -/
theorem Inv.carry {s t : System N} (inv : Inv s) (task : t.capture.task = s.capture.task)
    (queue : t.capture.readyQueue = s.capture.readyQueue) (busy : t.capture.busy = s.capture.busy)
    (spares : ∀ b, s.capture.busy b = true → SameBuffer s.capture t.capture b)
    (finished : t.history.finished = s.history.finished)
    (assembled : t.history.assembled = s.history.assembled)
    (free : t.capture.state = .capturing → s.capture.busy t.capture.activeBuf = false)
    (counted : t.history.started % 2 ^ 32 =
      (s.history.assembled.length + (owned s.capture).length + t.capture.dropped.toNat +
        t.history.discarded + inProgress t.capture) % 2 ^ 32) : Inv t := by
  have same := owned_eq task queue
  have mine : ∀ b ∈ owned s.capture, SameBuffer s.capture t.capture b :=
    fun b member => spares b ((inv.busy_iff b).mpr member)
  constructor
  · rw [same]
    exact inv.distinct
  · intro b
    rw [same, busy]
    exact inv.busy_iff b
  · rw [busy]
    exact free
  · rw [task]
    exact inv.read.spared fun b member => mine b (held_owned member)
  · rw [finished, assembled, same, snapshots_spared mine]
    exact inv.handedOver
  · rw [assembled, same]
    exact counted

theorem inv_edge {s t : System N} {now : Nat} (inv : Inv s) (step : next s (.edge now) = some t) :
    Inv t := by
  rw [next] at step
  split at step
  · cases step
    obtain ⟨task, queue, busy, spares, move⟩ := gpioEdgeIsr_step now inv.free
    have before := inv.counted
    refine inv.carry task queue busy spares rfl rfl ?_ ?_
    · intro capturing
      cases move with
      | refused _ state _ => exact absurd (state.symm.trans capturing) (by decide)
      | began _ _ free _ => exact free
      | went_on _ state active _ =>
          show s.capture.busy (gpioEdgeIsr s.capture now).activeBuf = false
          rw [active]
          exact inv.free (state.symm.trans capturing)
    · show (s.history.started + if s.capture.state = .idle then 1 else 0) % 2 ^ 32 =
        (s.history.assembled.length + (owned s.capture).length +
          (gpioEdgeIsr s.capture now).dropped.toNat + s.history.discarded +
          inProgress (gpioEdgeIsr s.capture now)) % 2 ^ 32
      cases move with
      | refused idle state dropped =>
          rw [dropped, UInt32.toNat_add]
          simp [inProgress, idle, state] at before ⊢
          omega
      | began idle state _ dropped =>
          rw [dropped]
          simp [inProgress, idle, state] at before ⊢
          omega
      | went_on busyWith state _ dropped =>
          rw [dropped, if_neg busyWith]
          simp only [inProgress, state] at before ⊢
          omega
  · cases step

/-- The end of a capture with pulses: its buffer becomes the task's. -/
theorem inv_handOver {s : System N} {now : Nat} (inv : Inv s)
    (capturing : s.capture.state = .capturing)
    (pulses : s.capture.count s.capture.activeBuf ≠ 0) :
    Inv ⟨finish s.capture, now,
      { s.history with
        finished := s.history.finished ++ [snapshot s.capture s.capture.activeBuf] }⟩ := by
  have free := inv.free capturing
  have foreign : s.capture.activeBuf ∉ owned s.capture := by
    intro member
    rw [(inv.busy_iff _).mpr member] at free
    cases free
  have room : s.capture.readyQueue.length < N := by
    have all := queue_room inv.distinct foreign
    rw [owned, List.length_append] at all
    omega
  obtain ⟨task, queue, busy, spares, dropped, state⟩ := finish_handOver pulses room
  have more : owned (finish s.capture) = owned s.capture ++ [s.capture.activeBuf] := by
    rw [owned, owned, task, queue, List.append_assoc]
  constructor
  · show (owned (finish s.capture)).Nodup
    rw [more]
    exact List.nodup_append.mpr ⟨inv.distinct, List.nodup_singleton _, by
      intro b member c last
      rw [List.mem_singleton] at last
      rintro rfl
      exact foreign (last ▸ member)⟩
  · intro b
    show (finish s.capture).busy b = true ↔ b ∈ owned (finish s.capture)
    rw [more, busy, List.mem_append, List.mem_singleton]
    by_cases active : b = s.capture.activeBuf
    · simp [active]
    · rw [update_of_ne active]
      simp [active, inv.busy_iff b]
  · intro still
    exact absurd (state.symm.trans still) (by decide)
  · show ReadSoFar (finish s.capture) (finish s.capture).task
    rw [task]
    exact inv.read.spared fun b _ => spares b
  · show s.history.finished ++ [snapshot s.capture s.capture.activeBuf] =
      s.history.assembled ++ (owned (finish s.capture)).map _
    rw [more, snapshots_spared fun b _ => spares b, List.map_append, ← List.append_assoc,
      ← inv.handedOver]
    rfl
  · have before := inv.counted
    show s.history.started % 2 ^ 32 =
      (s.history.assembled.length + (owned (finish s.capture)).length +
        (finish s.capture).dropped.toNat + s.history.discarded +
        inProgress (finish s.capture)) % 2 ^ 32
    rw [more, dropped]
    simp [inProgress, capturing, state] at before ⊢
    omega

theorem inv_tick {s t : System N} {now : Nat} (inv : Inv s) (step : next s (.tick now) = some t) :
    Inv t := by
  have before := inv.counted
  rw [next] at step
  split at step
  · cases step
    by_cases ends : Finishes s.capture now
    · rw [idleTimeoutCb_finishes ends, if_pos ends]
      by_cases empty : s.capture.count s.capture.activeBuf = 0
      · rw [if_pos empty, finish_empty empty]
        refine inv.carry rfl rfl rfl (fun b _ => .refl _ b) rfl rfl nofun ?_
        simp [inProgress, ends.1] at before ⊢
        omega
      · rw [if_neg empty]
        exact inv_handOver inv ends.1 empty
    · rw [if_neg ends]
      obtain ⟨⟨task, queue, busy, spares, dropped⟩, state, active⟩ := idleTimeoutCb_waits ends
      refine inv.carry task queue busy (fun b _ => spares b) rfl rfl ?_ ?_
      · intro capturing
        show s.capture.busy (idleTimeoutCb s.capture now).activeBuf = false
        rw [active]
        exact inv.free (state.mp capturing)
      · simp only [inProgress, state, dropped]
        exact before
  · cases step

omit [NeZero N] in
/-- A read of the task: its program counter moves, the buffers stay whose they are. -/
theorem Inv.advance {s : System N} (inv : Inv s) {queue : List (Fin N)} {pc : TaskPc N}
    (same : held pc ++ queue = owned s.capture) (read : ReadSoFar s.capture pc) :
    Inv ⟨{ s.capture with readyQueue := queue, task := pc }, s.now,
      { s.history with assembled := s.history.assembled ++ [] }⟩ := by
  have untouched : ∀ b, SameBuffer s.capture { s.capture with readyQueue := queue, task := pc } b :=
    fun b => .refl s.capture b
  constructor
  · show (held pc ++ queue).Nodup
    rw [same]
    exact inv.distinct
  · intro b
    show s.capture.busy b = true ↔ b ∈ held pc ++ queue
    rw [same]
    exact inv.busy_iff b
  · exact inv.free
  · exact read.spared fun b _ => untouched b
  · show s.history.finished = (s.history.assembled ++ []) ++ (held pc ++ queue).map _
    rw [same, List.append_nil]
    exact inv.handedOver
  · show s.history.started % 2 ^ 32 = ((s.history.assembled ++ []).length +
      (held pc ++ queue).length + _ + _ + _) % 2 ^ 32
    rw [same, List.append_nil]
    exact inv.counted

omit [NeZero N] in
/-- The last read: the message is the capture, and its buffer is free again. -/
theorem inv_assembled {s : System N} (inv : Inv s) {idx : Fin N} {n : Nat} {frames : UInt16}
    {trunc : Bool} {copied : List UInt16} (task : s.capture.task = .copy idx n frames trunc copied)
    (whole : ¬copied.length < n) :
    Inv ⟨{ s.capture with busy := update s.capture.busy idx false, task := .receive }, s.now,
      { s.history with
        assembled := s.history.assembled ++ [⟨irCarrierHz, frames, trunc, copied⟩] }⟩ := by
  have mine : owned s.capture = idx :: s.capture.readyQueue := by
    rw [owned, task]
    rfl
  have read := inv.read
  have distinct := inv.distinct
  have handedOver := inv.handedOver
  have before := inv.counted
  rw [task] at read
  rw [mine] at distinct handedOver before
  obtain ⟨readCount, readFrames, readTrunc, readPulses, bound⟩ := read
  obtain ⟨gone, rest⟩ := List.nodup_cons.mp distinct
  have message : (⟨irCarrierHz, frames, trunc, copied⟩ : IrMessage) = snapshot s.capture idx := by
    have length : copied.length = s.capture.count idx := by omega
    rw [snapshot, ← readFrames, ← readTrunc, ← length, ← readPulses]
  constructor
  · exact rest
  · intro b
    show update s.capture.busy idx false b = true ↔ b ∈ s.capture.readyQueue
    by_cases freed : b = idx
    · subst freed
      simpa using gone
    · rw [update_of_ne freed, inv.busy_iff b, mine]
      simp [freed]
  · intro capturing
    show update s.capture.busy idx false s.capture.activeBuf = false
    by_cases freed : s.capture.activeBuf = idx
    · rw [freed, update_self]
    · rw [update_of_ne freed]
      exact inv.free capturing
  · trivial
  · show s.history.finished = (s.history.assembled ++ [_]) ++
      s.capture.readyQueue.map (snapshot s.capture)
    rw [handedOver, message]
    simp
  · show s.history.started % 2 ^ 32 = ((s.history.assembled ++ [_]).length +
      s.capture.readyQueue.length + s.capture.dropped.toNat + s.history.discarded +
      inProgress s.capture) % 2 ^ 32
    rw [List.length_cons] at before
    rw [List.length_append, List.length_singleton]
    omega

theorem inv_task {s t : System N} (inv : Inv s) (step : next s .task = some t) : Inv t := by
  have read := inv.read
  have mine : owned s.capture = held s.capture.task ++ s.capture.readyQueue := rfl
  rw [next, taskStep] at step
  cases task : s.capture.task with
  | receive =>
      rw [task] at step mine
      cases queue : s.capture.readyQueue with
      | nil =>
          rw [queue] at step
          cases step
      | cons idx rest =>
          rw [queue] at step mine
          cases step
          exact inv.advance mine.symm trivial
  | readCount idx =>
      rw [task] at step mine
      cases step
      exact inv.advance mine.symm rfl
  | readFrames idx n =>
      rw [task] at step mine read
      cases step
      exact inv.advance mine.symm ⟨read, rfl⟩
  | readTrunc idx n frames =>
      rw [task] at step mine read
      cases step
      obtain ⟨readCount, readFrames⟩ := read
      exact inv.advance mine.symm ⟨readCount, readFrames, rfl, rfl, Nat.zero_le n⟩
  | copy idx n frames trunc copied =>
      rw [task] at step mine read
      by_cases more : copied.length < n
      · simp only [if_pos more] at step
        cases step
        obtain ⟨readCount, readFrames, readTrunc, readPulses, bound⟩ := read
        refine inv.advance mine.symm ⟨readCount, readFrames, readTrunc, ?_, ?_⟩
        · rw [List.length_append, List.length_singleton, List.range_succ, List.map_append,
            ← readPulses]
          rfl
        · rw [List.length_append, List.length_singleton]
          exact more
      · simp only [if_neg more] at step
        cases step
        exact inv_assembled inv task more

/-- The invariant holds initially and every event keeps it. -/
theorem invariant : (machine N).Invariant Inv where
  base s start := by
    obtain ⟨now, rfl⟩ := start
    exact inv_init now
  step s e t inv step := by
    cases e with
    | edge now => exact inv_edge inv step
    | tick now => exact inv_tick inv step
    | task => exact inv_task inv step

omit [NeZero N] in
/-- A hand-over finds room: the buffer it hands over is none of those queued. -/
theorem Inv.room {s : System N} (inv : Inv s) {now : Nat} (ends : Finishes s.capture now) :
    s.capture.readyQueue.length < N := by
  have foreign : s.capture.activeBuf ∉ owned s.capture := by
    intro member
    have busy := (inv.busy_iff _).mpr member
    rw [inv.free ends.1] at busy
    cases busy
  have room := queue_room inv.distinct foreign
  rw [owned, List.length_append] at room
  omega

/-- **Buffer ownership and exactly-once hand-over.**  In every reachable state the
busy buffers are the distinct ones queued for or held by the task, a capture is
never recorded into one of them, and a hand-over finds room in the queue.  The
captures finished so far are the messages assembled, in order and as they stood
when they were finished, followed by those in the held and the queued buffers; and
every transmission is accounted for. -/
theorem capture_ownership {s : System N} (reached : (machine N).Reachable s) :
    (held s.capture.task ++ s.capture.readyQueue).Nodup ∧
    (∀ b, s.capture.busy b = true ↔ b ∈ held s.capture.task ∨ b ∈ s.capture.readyQueue) ∧
    (s.capture.state = .capturing → s.capture.busy s.capture.activeBuf = false) ∧
    (∀ now, Finishes s.capture now → s.capture.readyQueue.length < N) ∧
    s.history.finished = s.history.assembled ++
      (held s.capture.task ++ s.capture.readyQueue).map (snapshot s.capture) ∧
    s.history.started % 2 ^ 32 =
      (s.history.assembled.length + s.capture.readyQueue.length + (held s.capture.task).length +
        s.capture.dropped.toNat + s.history.discarded +
        if s.capture.state = .capturing then 1 else 0) % 2 ^ 32 := by
  have inv := invariant.reachable reached
  refine ⟨inv.distinct, ?_, inv.free, ?_, inv.handedOver, ?_⟩
  · intro b
    rw [inv.busy_iff b, owned, List.mem_append]
  · exact fun now ends => inv.room ends
  · have counted := inv.counted
    rw [owned, List.length_append] at counted
    rw [counted, inProgress]
    congr 1
    omega

/-- One capture of one pulse, waiting in the queue. -/
theorem capture_ownership_one :
    ∃ s : System 2, s.history.finished = [⟨38000, 1, false, [9000]⟩] ∧
      s.history.finished = s.history.assembled ++
        (held s.capture.task ++ s.capture.readyQueue).map (snapshot s.capture) := by
  have reached : (machine 2).Reachable _ :=
    ⟨_, [.edge 0, .edge 9000, .tick 70000], ⟨0, rfl⟩,
      .cons rfl (.cons rfl (.cons rfl (.nil _)))⟩
  obtain ⟨-, -, -, -, handedOver, -⟩ := capture_ownership reached
  exact ⟨_, rfl, handedOver⟩

end IrHub.Firmware.Capture
