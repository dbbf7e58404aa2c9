/-
# Firmware.CaptureQueue -- the push into `g_captureToMqttQueue`, which drops its oldest

`ir_capture::task` pushes each message it has assembled in three calls: a send that
waits 100 ms, and when that fails a receive into `s_discard` and a send that does not
wait.  NetworkTask has the higher priority and receives between any two of them.  `Hub`
is the capture system with the push and the queue, `Ledger` what has left the queue.

Always (`Inv`): every push ends with its message in the queue, and what was assembled
is what was received or discarded, in this order, then what is queued, then what is
being pushed.  But the discard does not look whether the queue is still full: it takes
a message from a queue with room exactly when NetworkTask has received some but not
all of them since the send that failed (`capture_queue_drops`).
-/
import IrHub.Firmware.Capture
import IrHub.Theory.Queue

namespace IrHub.Firmware.CaptureQueue

set_option autoImplicit false

open IrHub.Theory IrHub.Firmware.Capture

/-! ## The push -/

/-- The length of `g_captureToMqttQueue`. -/
def queueLength : Nat := 4

/-- What is next in the push of a message. -/
inductive Push where
  | idle
  | send (message : IrMessage)
  | discard (message : IrMessage)
  | retry (message : IrMessage)
  deriving DecidableEq, Repr

/-- What became of a message, for a discarded one with how many were queued then. -/
inductive Fate where
  | received
  | discarded (queued : Nat)
  deriving DecidableEq, Repr

/-- A push that is over. -/
structure Ended where
  message : IrMessage
  discards : Nat
  enqueued : Bool
  deriving DecidableEq, Repr

/-- The pushes that are over, the messages discarded in this one, and those received
since the last send that failed. -/
structure Log where
  ended : List Ended
  discards : Nat
  received : Nat

structure Hub (N : Nat) where
  system : System N
  push : Push
  queue : Ledger IrMessage Fate
  log : Log

inductive Event where
  | capture (e : Capture.Event)
  | sent
  | timedOut
  | discard
  | retry
  | receive
  deriving DecidableEq, Repr

variable {N : Nat}

/-- How many messages are queued. -/
def Hub.queued (h : Hub N) : Nat := h.queue.waiting.length

/-- The end of a push, by a send that does not wait. -/
def Hub.finish (h : Hub N) (message : IrMessage) : Hub N :=
  let room := decide (h.queued < queueLength)
  { h with
    push := .idle
    queue := if room then h.queue.enter message else h.queue
    log := { h.log with
      ended := h.log.ended ++ [⟨message, h.log.discards, room⟩]
      discards := 0 } }

def next [NeZero N] (h : Hub N) : Event → Option (Hub N)
  | .capture e =>
      match e, h.push with
      | .task, .idle =>
          (Capture.next h.system .task).map fun system =>
            let message := (taskStep h.system.capture).bind Prod.snd
            { h with system, push := message.elim .idle .send }
      | .task, _ => none
      | e, _ => (Capture.next h.system e).map fun system => { h with system }
  | .sent =>
      match h.push with
      | .send message => if h.queued < queueLength then some (h.finish message) else none
      | _ => none
  | .timedOut =>
      match h.push with
      | .send message =>
          if h.queued < queueLength then none
          else some { h with push := .discard message, log := { h.log with received := 0 } }
      | _ => none
  | .discard =>
      match h.push with
      | .discard message =>
          some { h with
            push := .retry message
            queue := h.queue.leave (.discarded h.queued)
            log := { h.log with discards := h.log.discards + min 1 h.queued } }
      | _ => none
  | .retry =>
      match h.push with
      | .retry message => some (h.finish message)
      | _ => none
  | .receive =>
      if h.queued = 0 then none
      else some { h with
        queue := h.queue.leave .received
        log := { h.log with received := h.log.received + 1 } }

/-- IRCaptureTask and its interrupts with NetworkTask, interleaved in any way. -/
def machine (N : Nat) [NeZero N] : Machine (Hub N) Event :=
  Machine.ofStep
    (fun h => ∃ now, h = ⟨⟨init now, now, ⟨0, 0, [], []⟩⟩, .idle, .empty, ⟨[], 0, 0⟩⟩) next

/-! ## The invariant -/

/-- The message that is being pushed. -/
def pending : Push → List IrMessage
  | .idle => []
  | .send message => [message]
  | .discard message => [message]
  | .retry message => [message]

/-- How far the push has come. -/
def PushedSoFar (h : Hub N) : Push → Prop
  | .idle => h.log.discards = 0
  | .send _ => h.log.discards = 0
  | .discard _ => h.log.discards = 0 ∧ h.queued + h.log.received = queueLength
  | .retry _ => h.log.discards ≤ 1 ∧ h.queued < queueLength

/-- Every message assembled is on its way, and every push that is over has enqueued
its own. -/
structure Inv (h : Hub N) : Prop where
  bound : h.queued ≤ queueLength
  order : h.system.history.assembled = h.queue.entered ++ pending h.push
  pushes : h.system.history.assembled = h.log.ended.map Ended.message ++ pending h.push
  ended : ∀ e ∈ h.log.ended, e.enqueued = true ∧ e.discards ≤ 1
  soFar : PushedSoFar h h.push

theorem leave_length (h : Hub N) (fate : Fate) :
    (h.queue.leave fate).waiting.length = h.queued - 1 :=
  List.length_drop

theorem inv_finish {h : Hub N} {message : IrMessage} (inv : Inv h)
    (mine : pending h.push = [message]) (room : h.queued < queueLength)
    (few : h.log.discards ≤ 1) : Inv (h.finish message) := by
  have order := inv.order
  have pushes := inv.pushes
  rw [mine] at order pushes
  have shape : h.finish message = { h with
      push := .idle
      queue := h.queue.enter message
      log := { h.log with
        ended := h.log.ended ++ [⟨message, h.log.discards, true⟩]
        discards := 0 } } := by
    simp [Hub.finish, room]
  rw [shape]
  constructor
  · show (h.queue.waiting ++ [message]).length ≤ queueLength
    rw [List.length_append, List.length_singleton]
    exact room
  · show h.system.history.assembled = (h.queue.enter message).entered ++ []
    rw [Ledger.entered_enter, List.append_nil, order]
  · show h.system.history.assembled = (h.log.ended ++ [_]).map Ended.message ++ []
    rw [List.map_append, List.append_nil, pushes]
    rfl
  · intro e member
    rcases List.mem_append.mp member with before | last
    · exact inv.ended e before
    · obtain rfl := List.mem_singleton.mp last
      exact ⟨rfl, few⟩
  · exact rfl

/-! ## Event by event -/

variable [NeZero N]

theorem inv_start (now : Nat) :
    Inv (⟨⟨init now, now, ⟨0, 0, [], []⟩⟩, .idle, .empty, ⟨[], 0, 0⟩⟩ : Hub N) where
  bound := Nat.zero_le _
  order := rfl
  pushes := rfl
  ended := nofun
  soFar := rfl

/-- The interrupts assemble nothing. -/
theorem interrupt_assembles {s t : System N} {e : Capture.Event} (step : Capture.next s e = some t)
    (other : e ≠ .task) : t.history.assembled = s.history.assembled := by
  cases e with
  | task => exact absurd rfl other
  | edge now =>
      simp only [Capture.next] at step
      split at step
      · cases step
        rfl
      · cases step
  | tick now =>
      simp only [Capture.next] at step
      split at step
      · cases step
        show (if _ then _ else s.history).assembled = _
        split
        · split <;> rfl
        · rfl
      · cases step

theorem task_assembles {s t : System N} (step : Capture.next s .task = some t) :
    t.history.assembled =
      s.history.assembled ++ ((taskStep s.capture).bind Prod.snd).toList := by
  simp only [Capture.next, Option.map_eq_some_iff] at step
  obtain ⟨⟨capture, message⟩, moved, rfl⟩ := step
  rw [moved]
  rfl

theorem pending_elim (message : Option IrMessage) :
    pending (message.elim .idle .send) = message.toList := by
  cases message <;> rfl

/-- A step of the capture system leaves the queue alone, and only an assembled message
begins a push. -/
theorem capture_step {h h' : Hub N} {e : Capture.Event} (step : next h (.capture e) = some h') :
    Capture.next h.system e = some h'.system ∧ h'.queue = h.queue ∧ h'.log = h.log ∧
      ((e ≠ .task ∧ h'.push = h.push) ∨
        (e = .task ∧ h.push = .idle ∧
          h'.push = ((taskStep h.system.capture).bind Prod.snd).elim .idle .send)) := by
  by_cases task : e = .task
  · subst task
    cases push : h.push with
    | idle =>
        simp only [next, push, Option.map_eq_some_iff] at step
        obtain ⟨system, moved, rfl⟩ := step
        exact ⟨moved, rfl, rfl, .inr ⟨rfl, rfl, rfl⟩⟩
    | _ =>
        simp only [next, push] at step
        cases step
  · have plain : (Capture.next h.system e).map (fun system => { h with system }) = some h' := by
      cases e with
      | task => exact absurd rfl task
      | edge now => exact step
      | tick now => exact step
    obtain ⟨system, moved, rfl⟩ := Option.map_eq_some_iff.mp plain
    exact ⟨moved, rfl, rfl, .inl ⟨task, rfl⟩⟩

/-- What each event does, and when it can come. -/
inductive Moves (h : Hub N) : Event → Hub N → Prop
  | captured (e : Capture.Event) (h' : Hub N) (step : next h (.capture e) = some h') :
      Moves h (.capture e) h'
  | sent (message : IrMessage) (push : h.push = .send message) (room : h.queued < queueLength) :
      Moves h .sent (h.finish message)
  | timedOut (message : IrMessage) (push : h.push = .send message)
      (full : ¬h.queued < queueLength) :
      Moves h .timedOut { h with push := .discard message, log := { h.log with received := 0 } }
  | discarded (message : IrMessage) (push : h.push = .discard message) :
      Moves h .discard { h with
        push := .retry message
        queue := h.queue.leave (.discarded h.queued)
        log := { h.log with discards := h.log.discards + min 1 h.queued } }
  | retried (message : IrMessage) (push : h.push = .retry message) :
      Moves h .retry (h.finish message)
  | received (some_ : h.queued ≠ 0) :
      Moves h .receive { h with
        queue := h.queue.leave .received
        log := { h.log with received := h.log.received + 1 } }

theorem next_moves {h h' : Hub N} {e : Event} (step : next h e = some h') : Moves h e h' := by
  cases e with
  | capture e => exact .captured e h' step
  | receive =>
      simp only [next] at step
      split at step
      · cases step
      · rename_i some_
        cases step
        exact .received some_
  | discard =>
      cases push : h.push with
      | discard message =>
          simp only [next, push] at step
          cases step
          exact .discarded message push
      | _ =>
          simp only [next, push] at step
          cases step
  | sent =>
      cases push : h.push with
      | send message =>
          simp only [next, push] at step
          split at step
          · rename_i room
            cases step
            exact .sent message push room
          · cases step
      | _ =>
          simp only [next, push] at step
          cases step
  | timedOut =>
      cases push : h.push with
      | send message =>
          simp only [next, push] at step
          split at step
          · cases step
          · rename_i full
            cases step
            exact .timedOut message push full
      | _ =>
          simp only [next, push] at step
          cases step
  | retry =>
      cases push : h.push with
      | retry message =>
          simp only [next, push] at step
          cases step
          exact .retried message push
      | _ =>
          simp only [next, push] at step
          cases step

theorem inv_capture {h h' : Hub N} {e : Capture.Event} (inv : Inv h)
    (step : next h (.capture e) = some h') : Inv h' := by
  obtain ⟨moved, queue, log, push⟩ := capture_step step
  have order := inv.order
  have pushes := inv.pushes
  have soFar := inv.soFar
  have bound : h'.queued ≤ queueLength := by
    rw [Hub.queued, queue]
    exact inv.bound
  have ended : ∀ e ∈ h'.log.ended, e.enqueued = true ∧ e.discards ≤ 1 := by
    rw [log]
    exact inv.ended
  have same : ∀ pc, PushedSoFar h pc → PushedSoFar h' pc := by
    intro pc soFar
    cases pc <;> simpa only [PushedSoFar, Hub.queued, queue, log] using soFar
  rcases push with ⟨other, push⟩ | ⟨rfl, idle, push⟩
  · have assembled := interrupt_assembles moved other
    refine ⟨bound, ?_, ?_, ended, ?_⟩
    · rw [assembled, queue, push, order]
    · rw [assembled, log, push, pushes]
    · rw [push]
      exact same _ soFar
  · have assembled := task_assembles moved
    rw [idle] at order pushes soFar
    simp only [pending, List.append_nil] at order pushes
    refine ⟨bound, ?_, ?_, ended, ?_⟩
    · rw [assembled, queue, push, pending_elim, order]
    · rw [assembled, log, push, pending_elim, pushes]
    · rw [push]
      refine same _ ?_
      cases (taskStep h.system.capture).bind Prod.snd with
      | none => exact soFar
      | some message => exact soFar

omit [NeZero N] in
/-- A message that leaves the queue keeps the order. -/
theorem entered_receive {h : Hub N} (inv : Inv h) (fate : Fate) :
    h.system.history.assembled = (h.queue.leave fate).entered ++ pending h.push := by
  rw [Ledger.entered_leave]
  exact inv.order

omit [NeZero N] in
theorem inv_receive {h : Hub N} (inv : Inv h) (some_ : h.queued ≠ 0) :
    Inv { h with
      queue := h.queue.leave .received
      log := { h.log with received := h.log.received + 1 } } := by
  have length := leave_length h .received
  have bound := inv.bound
  have soFar := inv.soFar
  refine ⟨?_, entered_receive inv _, inv.pushes, inv.ended, ?_⟩
  · show (h.queue.leave .received).waiting.length ≤ queueLength
    omega
  · show PushedSoFar _ h.push
    cases push : h.push with
    | idle => rwa [push] at soFar
    | send message => rwa [push] at soFar
    | discard message =>
        rw [push] at soFar
        refine ⟨soFar.1, ?_⟩
        have sum := soFar.2
        show (h.queue.leave .received).waiting.length + (h.log.received + 1) = queueLength
        omega
    | retry message =>
        rw [push] at soFar
        refine ⟨soFar.1, ?_⟩
        have room := soFar.2
        show (h.queue.leave .received).waiting.length < queueLength
        omega

omit [NeZero N] in
theorem inv_discard {h : Hub N} {message : IrMessage} (inv : Inv h)
    (push : h.push = .discard message) :
    Inv { h with
      push := .retry message
      queue := h.queue.leave (.discarded h.queued)
      log := { h.log with discards := h.log.discards + min 1 h.queued } } := by
  have order := entered_receive inv (.discarded h.queued)
  have pushes := inv.pushes
  have soFar := inv.soFar
  rw [push] at order pushes soFar
  obtain ⟨none, sum⟩ := soFar
  have length := leave_length h (.discarded h.queued)
  have bound := inv.bound
  have four : queueLength = 4 := rfl
  refine ⟨?_, order, pushes, inv.ended, ?_, ?_⟩
  · show (h.queue.leave (.discarded h.queued)).waiting.length ≤ queueLength
    omega
  · show h.log.discards + min 1 h.queued ≤ 1
    omega
  · show (h.queue.leave (.discarded h.queued)).waiting.length < queueLength
    omega

omit [NeZero N] in
theorem inv_timedOut {h : Hub N} {message : IrMessage} (inv : Inv h)
    (push : h.push = .send message) (full : ¬h.queued < queueLength) :
    Inv { h with push := .discard message, log := { h.log with received := 0 } } := by
  have order := inv.order
  have pushes := inv.pushes
  have soFar := inv.soFar
  have bound := inv.bound
  rw [push] at order pushes soFar
  refine ⟨bound, order, pushes, inv.ended, soFar, ?_⟩
  show h.queued + 0 = queueLength
  omega

theorem inv_step {h h' : Hub N} {e : Event} (inv : Inv h) (step : next h e = some h') : Inv h' := by
  have soFar := inv.soFar
  cases next_moves step with
  | captured e h' step => exact inv_capture inv step
  | received some_ => exact inv_receive inv some_
  | discarded message push => exact inv_discard inv push
  | timedOut message push full => exact inv_timedOut inv push full
  | sent message push room =>
      rw [push] at soFar
      have none : h.log.discards = 0 := soFar
      exact inv_finish inv (by rw [push]; rfl) room (by omega)
  | retried message push =>
      rw [push] at soFar
      exact inv_finish inv (by rw [push]; rfl) soFar.2 soFar.1

theorem invariant : (machine N).Invariant Inv where
  base h start := by
    obtain ⟨now, rfl⟩ := start
    exact inv_start now
  step _ _ _ inv step := inv_step inv step

/-- The capture system runs as it does alone. -/
theorem reachable_system {h : Hub N} (reached : (machine N).Reachable h) :
    (Capture.machine N).Reachable h.system := by
  have simulates : (machine N).Simulation (Capture.machine N) (fun _ => True) Hub.system := by
    refine ⟨fun h e h' _ step => ⟨trivial, ?_⟩⟩
    have step : next h e = some h' := step
    cases next_moves step with
    | captured e h' step => exact ⟨[e], .single (capture_step step).1⟩
    | received => exact ⟨[], .nil _⟩
    | discarded => exact ⟨[], .nil _⟩
    | timedOut => exact ⟨[], .nil _⟩
    | sent => exact ⟨[], .nil _⟩
    | retried => exact ⟨[], .nil _⟩
  obtain ⟨h₀, es, ⟨now, rfl⟩, run⟩ := reached
  obtain ⟨-, fs, run⟩ := simulates.run trivial run
  exact ⟨_, fs, ⟨now, rfl⟩, run⟩

/-! ## What is discarded -/

/-- Since the send that failed, NetworkTask has received nothing, or all that was queued. -/
def Undisturbed (h : Hub N) : Event → Prop
  | .discard => h.log.received = 0 ∨ h.log.received = queueLength
  | _ => True

instance (h : Hub N) (e : Event) : Decidable (Undisturbed h e) := by
  unfold Undisturbed
  cases e <;> infer_instance

/-- The messages that NetworkTask has received. -/
def Hub.received (h : Hub N) : List IrMessage := h.queue.fated .received

/-- A message has been discarded from a queue of `queued`. -/
def Discarded (h : Hub N) (message : IrMessage) (queued : Nat) : Prop :=
  (message, .discarded queued) ∈ h.queue.left

instance (h : Hub N) (message : IrMessage) (queued : Nat) :
    Decidable (Discarded h message queued) :=
  inferInstanceAs (Decidable (_ ∈ _))

/-- A discard takes the oldest, if there is one. -/
theorem discard_left {h h' : Hub N} (step : next h .discard = some h') :
    h'.queue.left =
      h.queue.left ++ (h.queue.waiting.take 1).map fun m => (m, .discarded h.queued) := by
  cases next_moves step with
  | discarded message push => rfl

/-- **A discard finds a queue that has room and is not empty, when NetworkTask has come
between.** -/
theorem discard_disturbed {h h' : Hub N} (inv : Inv h) (step : next h .discard = some h') :
    (0 < h.queued ∧ h.queued < queueLength) ↔ ¬Undisturbed h .discard := by
  have soFar := inv.soFar
  have four : queueLength = 4 := rfl
  cases next_moves step with
  | discarded message push =>
      rw [push] at soFar
      obtain ⟨-, sum⟩ := soFar
      simp only [Undisturbed]
      omega

omit [NeZero N] in
theorem finish_left (h : Hub N) (message : IrMessage) :
    (h.finish message).queue.left = h.queue.left := by
  unfold Hub.finish
  dsimp only
  split <;> rfl

/-- No other step discards. -/
theorem step_left {h h' : Hub N} {e : Event} (step : next h e = some h') (other : e ≠ .discard)
    {message : IrMessage} {queued : Nat} (gone : Discarded h' message queued) :
    Discarded h message queued := by
  unfold Discarded at gone ⊢
  cases next_moves step with
  | discarded => exact absurd rfl other
  | captured e h' step => rwa [(capture_step step).2.1] at gone
  | received =>
      rcases List.mem_append.mp gone with before | now
      · exact before
      · obtain ⟨m, -, same⟩ := List.mem_map.mp now
        cases same
  | timedOut => exact gone
  | sent => rwa [finish_left] at gone
  | retried => rwa [finish_left] at gone

/-- In an undisturbed run a discard finds the queue full. -/
theorem discards_full : ((machine N).restrict Undisturbed).Invariant
    fun h => Inv h ∧ ∀ message queued, Discarded h message queued → queued = queueLength where
  base h start := by
    obtain ⟨now, rfl⟩ := start
    exact ⟨inv_start now, nofun⟩
  step h e h' := by
    rintro ⟨inv, full⟩ ⟨undisturbed, step⟩
    refine ⟨inv_step inv step, ?_⟩
    intro message queued gone
    by_cases discard : e = .discard
    · subst discard
      rw [Discarded, discard_left step] at gone
      rcases List.mem_append.mp gone with before | now
      · exact full message queued before
      · obtain ⟨oldest, member, same⟩ := List.mem_map.mp now
        cases same
        have some_ : 0 < h.queued := List.length_pos_of_mem (List.mem_of_mem_take member)
        have room : ¬h.queued < queueLength := fun room =>
          (discard_disturbed inv step).mp ⟨some_, room⟩ undisturbed
        have bound := inv.bound
        omega
    · exact full message queued (step_left step discard gone)

/-- **Slow networking loses only the oldest captures, except for the race with the
discard.**  In every reachable state each push that is over has enqueued its message and
discarded at most one; what was assembled is what was received or discarded, in this
order, then what is queued, then what is being pushed; and what NetworkTask has received
and what is queued follow each other as they were captured.  A discard takes the oldest.
In a run where NetworkTask has received none or all of the queue whenever a discard comes,
every discard finds the queue full; and any other discard finds it with room. -/
theorem capture_queue_drops (N : Nat) [NeZero N] :
    (∀ h, (machine N).Reachable h →
      (∀ e ∈ h.log.ended, e.enqueued = true ∧ e.discards ≤ 1) ∧
      h.system.history.assembled = h.log.ended.map Ended.message ++ pending h.push ∧
      h.system.history.assembled =
        h.queue.left.map Prod.fst ++ h.queue.waiting ++ pending h.push ∧
      (h.received ++ h.queue.waiting).Sublist h.system.history.finished ∧
      ∀ h', next h .discard = some h' →
        h'.queue.left =
            h.queue.left ++ (h.queue.waiting.take 1).map (fun m => (m, .discarded h.queued)) ∧
          ((0 < h.queued ∧ h.queued < queueLength) ↔ ¬Undisturbed h .discard)) ∧
    (∀ h, ((machine N).restrict Undisturbed).Reachable h →
      ∀ message queued, Discarded h message queued → queued = queueLength) := by
  refine ⟨?_, fun h reached => (discards_full.reachable reached).2⟩
  intro h reached
  have inv := invariant.reachable reached
  refine ⟨inv.ended, inv.pushes, inv.order, ?_, ?_⟩
  · have handedOver := (Capture.invariant.reachable (reachable_system reached)).handedOver
    have entered : h.queue.entered.Sublist h.system.history.finished := by
      rw [handedOver, inv.order, List.append_assoc]
      exact List.sublist_append_left _ _
    exact (h.queue.fated_sublist .received).trans entered
  · intro h' step
    exact ⟨discard_left step, discard_disturbed inv step⟩

/-- A capture of one pulse, recorded and assembled from time `t` on. -/
def onePulse (t : Nat) : List Event :=
  [.edge t, .edge (t + 1000), .tick (t + 60000), .task, .task, .task, .task, .task, .task].map
    .capture

/-- Four messages that are queued, and a fifth whose send has failed. -/
def fifthFails : List Event :=
  [0, 100000, 200000, 300000].flatMap (fun t => onePulse t ++ [.sent]) ++
    onePulse 400000 ++ [.timedOut]

/-- NetworkTask receives the first of them, and the discard takes the second from a queue
with room. -/
theorem capture_queue_drops_race :
    ¬∀ h, (machine 2).Reachable h →
      ∀ message queued, Discarded h message queued → queued = queueLength := by
  intro always
  obtain ⟨h, run, gone⟩ : ∃ h, (machine 2).Run _ (fifthFails ++ [.receive, .discard]) h ∧
      Discarded h ⟨38000, 1, false, [1000]⟩ 3 :=
    Machine.exists_run_of_exec
      (s := ⟨⟨init 0, 0, ⟨0, 0, [], []⟩⟩, .idle, .empty, ⟨[], 0, 0⟩⟩) (by decide +kernel)
  exact absurd (always h ⟨_, _, ⟨0, rfl⟩, run⟩ _ _ gone) (by decide)

/-- NetworkTask receives nothing, and the discard takes the first from a full queue. -/
theorem capture_queue_drops_full : ∃ h, ((machine 2).restrict Undisturbed).Reachable h ∧
    ∃ message queued, Discarded h message queued ∧ queued = queueLength := by
  obtain ⟨h, run, gone⟩ : ∃ h,
      ((machine 2).restrict Undisturbed).Run _ (fifthFails ++ [.discard]) h ∧
      Discarded h ⟨38000, 1, false, [1000]⟩ 4 :=
    Machine.exists_run_of_exec_restrict
      (s := ⟨⟨init 0, 0, ⟨0, 0, [], []⟩⟩, .idle, .empty, ⟨[], 0, 0⟩⟩) (by decide +kernel)
  have reached : ((machine 2).restrict Undisturbed).Reachable h := ⟨_, _, ⟨0, rfl⟩, run⟩
  exact ⟨h, reached, _, _, gone, (capture_queue_drops 2).2 h reached _ _ gone⟩

end IrHub.Firmware.CaptureQueue
