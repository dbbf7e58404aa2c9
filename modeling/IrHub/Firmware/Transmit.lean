/-
# Firmware.Transmit -- `ir_transmit.cpp`: commands wait in a queue and are sent as bursts

`mqtt_incoming_data_cb` hands what it decoded to `xQueueSend`, which waits up to 50 ms for
room and otherwise gives up; its result is not looked at.  IRTransmitTask takes a command
at a time, tunes the PWM slice and switches it on and off, each time after a busy wait until
a deadline that it computes from the deadline before.

`System` is both with the queue between them, `Burst` what was switched for one command.
Commands are sent once each and in order, none is sent in part, and the slice is stopped between
two of them (`transmits_in_order`).  No switch is early; as long as a switch is late by no
more than the shortest pulse, it is not late by more than that anywhere (`no_drift`).
-/
import IrHub.Firmware.PulseArray
import IrHub.Theory.Machine
import IrHub.Theory.Pacing
import IrHub.Theory.Single

namespace IrHub.Firmware.Transmit

set_option autoImplicit false

open IrHub.Theory IrHub.Theory.Pacing IrHub.Theory.Single
open IrHub.Firmware.JsonHelper IrHub.Firmware.Inbound

/-! ## The carrier -/

/-- `IR_DUTY_PERCENT` -/
def irDutyPercent : UInt32 := 33

/-- The PWM slice of `IR_TX_PIN`: where its counter wraps, the level of the channel, and
whether it runs.  The pin shows the carrier while the slice runs; a slice that is stopped holds
its output as it is at that moment, high or low. -/
structure Slice where
  wrap : UInt16
  level : UInt16
  enabled : Bool
  deriving DecidableEq, Repr

/-- `(uint32_t)((float)sys_clk / (divider * (float)freq_hz)) - 1`, with divider 1. -/
def sWrap (sysClk freqHz : UInt32) : UInt32 :=
  UInt32.ofNat ⌊single (single sysClk.toNat / single (1 * single freqHz.toNat))⌋.toNat - 1

/-- `configure_carrier`; `pwm_set_wrap` and `pwm_set_chan_level` take 16 bits. -/
def configureCarrier (sysClk freqHz dutyPercent : UInt32) (slice : Slice) : Slice where
  wrap := (sWrap sysClk freqHz).toUInt16
  level := (sWrap sysClk freqHz * dutyPercent / 100).toUInt16
  enabled := slice.enabled

/-- The carrier a command is sent with. -/
def carrier (msg : IrMessage) : UInt32 :=
  if 20000 ≤ msg.carrierFreq ∧ msg.carrierFreq ≤ 60000 then msg.carrierFreq else irCarrierHz

theorem carrier_range (msg : IrMessage) :
    20000 ≤ (carrier msg).toNat ∧ (carrier msg).toNat ≤ 60000 := by
  unfold carrier
  split
  · rename_i range
    exact range
  · decide

/-- The wrap is the quotient rounded down or up, less one. -/
theorem sWrap_near {sysClk freqHz : UInt32} (clock : single sysClk.toNat = sysClk.toNat)
    (fast : 1000000 ≤ sysClk.toNat) (slow : sysClk.toNat ≤ 1000000000)
    (low : 20000 ≤ freqHz.toNat) (high : freqHz.toNat ≤ 60000) :
    sysClk.toNat / freqHz.toNat ≤ (sWrap sysClk freqHz).toNat + 1 ∧
      (sWrap sysClk freqHz).toNat ≤ sysClk.toNat / freqHz.toNat := by
  have freq : single freqHz.toNat = freqHz.toNat := single_natCast (by omega) (by omega)
  obtain ⟨k, quotient, least, most⟩ :=
    floor_single_div (m := sysClk.toNat) (n := freqHz.toNat) (by omega) (by omega) (by omega)
  have some : 16 ≤ sysClk.toNat / freqHz.toNat := by
    rw [Nat.le_div_iff_mul_le (by omega)]
    omega
  have few : sysClk.toNat / freqHz.toNat ≤ 50000 := by
    rw [Nat.div_le_iff_le_mul_add_pred (by omega)]
    omega
  have fits : k < UInt32.size := Nat.lt_of_le_of_lt (m := 50001) (by omega) (by decide)
  have value : (sWrap sysClk freqHz).toNat = k - 1 := by
    rw [sWrap, clock, freq, one_mul, freq, quotient, Int.toNat_natCast, UInt32.toNat_sub_of_le,
      UInt32.toNat_ofNat_of_lt' fits]
    · rfl
    · rw [UInt32.le_iff_toNat_le, UInt32.toNat_ofNat_of_lt' fits]
      show 1 ≤ k
      omega
  omega

/-- **A command is sent with the carrier it asks for.**  Whatever it asks for, the carrier is
between 20 and 60 kHz, and the one it asks for if that is.  The period of the slice is within
one tick of the system clock of the carrier's, and its output is high for at most a third of
it. -/
theorem carrier_tuned (sysClk : UInt32) (msg : IrMessage) (slice : Slice)
    (clock : single sysClk.toNat = sysClk.toNat) (fast : 1000000 ≤ sysClk.toNat)
    (slow : sysClk.toNat ≤ 1000000000) :
    (20000 ≤ (carrier msg).toNat ∧ (carrier msg).toNat ≤ 60000) ∧
    (20000 ≤ msg.carrierFreq.toNat → msg.carrierFreq.toNat ≤ 60000 →
      carrier msg = msg.carrierFreq) ∧
    let tuned := configureCarrier sysClk (carrier msg) irDutyPercent slice
    tuned.wrap.toNat * (carrier msg).toNat ≤ sysClk.toNat ∧
      sysClk.toNat < (tuned.wrap.toNat + 2) * (carrier msg).toNat ∧
      tuned.level.toNat * 100 ≤ 33 * tuned.wrap.toNat ∧
      33 * tuned.wrap.toNat < (tuned.level.toNat + 1) * 100 := by
  have range := carrier_range msg
  refine ⟨range, fun low high => if_pos ⟨low, high⟩, ?_⟩
  obtain ⟨least, most⟩ := sWrap_near clock fast slow range.1 range.2
  have few : sysClk.toNat / (carrier msg).toNat ≤ 50000 := by
    rw [Nat.div_le_iff_le_mul_add_pred (by omega)]
    omega
  have wrap : (sWrap sysClk (carrier msg)).toUInt16.toNat = (sWrap sysClk (carrier msg)).toNat := by
    rw [UInt32.toNat_toUInt16, Nat.mod_eq_of_lt (by omega)]
  have level : (sWrap sysClk (carrier msg) * irDutyPercent / 100).toUInt16.toNat =
      (sWrap sysClk (carrier msg)).toNat * 33 / 100 := by
    rw [UInt32.toNat_toUInt16, UInt32.toNat_div, UInt32.toNat_mul]
    show _ * 33 % 2 ^ 32 / 100 % 2 ^ 16 = _
    rw [Nat.mod_eq_of_lt (a := _ * 33) (by omega), Nat.mod_eq_of_lt (by omega)]
  simp only [configureCarrier, wrap, level]
  refine ⟨?_, ?_, by omega, by omega⟩
  · exact Nat.le_trans (Nat.mul_le_mul_right _ most) (Nat.div_mul_le_self ..)
  · refine Nat.lt_of_lt_of_le (Nat.lt_mul_of_div_lt (Nat.lt_succ_of_le least) (by omega)) ?_
    exact Nat.le_refl _

/-- 56 kHz at 125 MHz, where the quotient is 2232.14. -/
theorem carrier_tuned_56kHz : 2231 * 56000 ≤ 125000000 ∧ 125000000 < 2233 * 56000 ∧
    configureCarrier 125000000 56000 irDutyPercent ⟨0, 0, false⟩ = ⟨2231, 736, false⟩ ∧
    (configureCarrier 125000000 (carrier ⟨56000, 1, false, [600]⟩) irDutyPercent
      ⟨0, 0, false⟩).wrap.toNat * (carrier ⟨56000, 1, false, [600]⟩).toNat ≤
        (125000000 : UInt32).toNat :=
  ⟨by decide, by decide, by decide +kernel,
    (carrier_tuned 125000000 ⟨56000, 1, false, [600]⟩ ⟨0, 0, false⟩ (by decide +kernel)
      (by decide) (by decide)).2.2.1⟩

/-! ## The task -/

/-- `configMAX_PRIORITIES` -/
def configMaxPriorities : Nat := 8

/-- `TASK_PRIO_TRANSMIT` -/
def taskPrioTransmit : Nat := 3

inductive Pc where
  | receive
  /-- In the loop over the pulses, or at its end, awaiting `next`. -/
  | turn (i : Nat)
  deriving DecidableEq, Repr

structure Task where
  pc : Pc
  msg : IrMessage
  next : Nat
  slice : Slice
  priority : Nat
  origPrio : Nat
  deriving DecidableEq, Repr

/-- A command taken from the queue; `now` is `get_absolute_time()`. -/
def Task.take (sysClk : UInt32) (task : Task) (msg : IrMessage) (now : Nat) : Task :=
  if msg.pulseCount = 0 then { task with msg }
  else
    { task with
      msg
      slice := configureCarrier sysClk (carrier msg) irDutyPercent task.slice
      origPrio := task.priority
      priority := configMaxPriorities - 1
      next := now
      pc := .turn 0 }

/-- `carrier_on()` or `carrier_off()`, and the next deadline.  The `gpio_put` of `carrier_off`
sets an output that a pin with `GPIO_FUNC_PWM` does not show, and that nothing reads. -/
def Task.turn (task : Task) (i : Nat) : Task :=
  match task.msg.pulses[i]? with
  | some durationUs =>
      { task with
        slice := { task.slice with enabled := decide (i % 2 = 0) }
        next := task.next + durationUs.toNat
        pc := .turn (i + 1) }
  | none =>
      { task with
        slice := { task.slice with enabled := false }
        priority := task.origPrio
        pc := .receive }

/-! ## The task, the callback and the queue -/

/-- The length of `g_mqttToTransmitQueue`. -/
def queueLength : Nat := 4

/-- What was switched for a command, and when. -/
structure Burst where
  message : IrMessage
  slice : Slice
  start : Nat
  switches : List (Nat × Bool)
  deriving DecidableEq, Repr

/-- What each call of `xQueueSend` came to, and what was switched: the bursts that are
over, and the start and the switches of the one in progress. -/
structure Log where
  calls : List (IrMessage × Bool)
  bursts : List Burst
  start : Nat
  switches : List (Nat × Bool)

structure System where
  rx : Rx
  /-- In `xQueueSend`, on the task of lwIP's callbacks. -/
  sending : Option IrMessage
  queue : List IrMessage
  task : Task
  /-- The time of the task's last step. -/
  clock : Nat
  log : Log

inductive Event where
  | publish (topic : List UInt8)
  | data (bytes : List UInt8) (last : Bool)
  | sent
  | timedOut
  | task (now : Nat)

/-- The task's step at `now`. -/
def taskStep (sysClk : UInt32) (s : System) (now : Nat) : Option System :=
  match s.task.pc with
  | .receive =>
      match s.queue with
      | [] => none
      | msg :: queue =>
          some { s with
            queue
            task := s.task.take sysClk msg now
            clock := now
            log := { s.log with start := now, switches := [] } }
  | .turn i =>
      if s.task.next ≤ now then
        let task := s.task.turn i
        let switches := s.log.switches ++ [(now, task.slice.enabled)]
        some { s with
          task
          clock := now
          log :=
            if task.pc = .receive then
              { s.log with
                bursts := s.log.bursts ++ [⟨s.task.msg, s.task.slice, s.log.start, switches⟩]
                switches := [] }
            else { s.log with switches } }
      else none

def next (sysClk : UInt32) (s : System) : Event → Option System
  | .publish topic =>
      if s.sending = none then some { s with rx := mqttIncomingPublishCb s.rx topic } else none
  | .data bytes last =>
      if s.sending = none then
        let rx := mqttIncomingDataCb s.rx bytes last
        some { s with rx, sending := (rx.pushed.drop s.rx.pushed.length).head? }
      else none
  | .sent =>
      match s.sending with
      | some msg =>
          if s.queue.length < queueLength then
            some { s with
              sending := none
              queue := s.queue ++ [msg]
              log := { s.log with calls := s.log.calls ++ [(msg, true)] } }
          else none
      | none => none
  | .timedOut =>
      match s.sending with
      | some msg =>
          if s.queue.length < queueLength then none
          else some { s with
            sending := none
            log := { s.log with calls := s.log.calls ++ [(msg, false)] } }
      | none => none
  | .task now => if s.clock ≤ now then taskStep sysClk s now else none

/-- After `init`: the slice is tuned to the default and off. -/
def initial (sysClk : UInt32) (now : Nat) : System where
  rx := ⟨[], [], []⟩
  sending := none
  queue := []
  task := ⟨.receive, ⟨0, 0, false, []⟩, 0, configureCarrier sysClk irCarrierHz irDutyPercent ⟨0, 0, false⟩,
    taskPrioTransmit, 0⟩
  clock := now
  log := ⟨[], [], now, []⟩

def machine (sysClk : UInt32) : Machine System Event :=
  Machine.ofStep (fun s => ∃ now, s = initial sysClk now) (next sysClk)

/-! ## What gets to the queue -/

/-- A command that can be sent: it is whole, and not empty. -/
structure Whole (msg : IrMessage) : Prop where
  nonempty : msg.pulses ≠ []
  fits : msg.pulseCount ≤ irMaxPulses
  untruncated : msg.truncated = false

theorem whole_transmitted {payload : List UInt8} {msg : IrMessage}
    (member : msg ∈ transmitted payload) : Whole msg := by
  rw [transmitted, PulseArray.decodeIrMessage_found] at member
  cases there : PulseArray.found pulsesKey 91 payload with
  | none =>
      rw [there] at member
      cases member
  | some text =>
      rw [there] at member
      have fits := PulseArray.readArray_length text
      by_cases some : 0 < (PulseArray.readArray text).1.length
      · cases long : (PulseArray.readArray text).2 with
        | true => simp [long, some] at member
        | false =>
            obtain rfl : msg = _ := by simpa [long, some] using member
            exact ⟨List.length_pos_iff.mp some, fits, rfl⟩
      · simp [some] at member

theorem transmitted_length (payload : List UInt8) : (transmitted payload).length ≤ 1 := by
  unfold transmitted
  split
  · exact Nat.zero_le 1
  · split <;> simp

/-- A data callback hands over one command at most. -/
theorem dataCb_pushed (rx : Rx) (bytes : List UInt8) (last : Bool) :
    ∃ msg : Option IrMessage, (mqttIncomingDataCb rx bytes last).pushed = rx.pushed ++ msg.toList ∧
      ∀ m ∈ msg, Whole m := by
  unfold mqttIncomingDataCb
  dsimp only
  split
  · generalize append rx.payload bytes = payload
    have short := transmitted_length payload
    have whole : ∀ m ∈ transmitted payload, Whole m := fun m member => whole_transmitted member
    match transmitted payload, short, whole with
    | [], _, _ => exact ⟨none, rfl, nofun⟩
    | [m], _, whole =>
        refine ⟨some m, rfl, ?_⟩
        rintro _ ⟨⟩
        exact whole m List.mem_cons_self
  · exact ⟨none, (List.append_nil _).symm, nofun⟩

/-! ## What is sent for a command -/

/-- The pulses of a command, in microseconds. -/
def durations (msg : IrMessage) : List Nat := msg.pulses.map UInt16.toNat

/-- The `i`-th switch is on for a mark, and off for a space and at the end. -/
def runs (msg : IrMessage) (i : Nat) : Bool := decide (i % 2 = 0 ∧ i < msg.pulseCount)

/-- The switches made so far for a command that was started at `start`. -/
structure Playing (msg : IrMessage) (start : Nat) (switches : List (Nat × Bool)) : Prop where
  running : switches.map Prod.snd = (List.range switches.length).map (runs msg)
  notEarly : NotEarly start (durations msg) (switches.map Prod.fst)

/-- A burst is its command: tuned to its carrier, with a switch for each pulse and a last
one that is off, none of them early. -/
structure Played (sysClk : UInt32) (b : Burst) : Prop extends
    Playing b.message b.start b.switches where
  whole : Whole b.message
  length : b.switches.length = b.message.pulseCount + 1
  tuned : b.slice.wrap = (configureCarrier sysClk (carrier b.message) irDutyPercent b.slice).wrap ∧
    b.slice.level = (configureCarrier sysClk (carrier b.message) irDutyPercent b.slice).level

theorem playing_start (msg : IrMessage) (start : Nat) : Playing msg start [] :=
  ⟨rfl, nofun⟩

/-- One more switch, at its deadline or after it. -/
theorem Playing.snoc {msg : IrMessage} {start now : Nat} {switches : List (Nat × Bool)}
    (playing : Playing msg start switches)
    (reached : deadline start (durations msg) switches.length ≤ now) :
    Playing msg start (switches ++ [(now, runs msg switches.length)]) where
  running := by
    rw [List.map_append, playing.running, List.length_append, List.length_singleton,
      List.range_succ, List.map_append]
    rfl
  notEarly := by
    rw [List.map_append, List.map_singleton]
    exact notEarly_snoc playing.notEarly (by rwa [List.length_map])

/-! ## The task by itself -/

/-- What the task has done of the command that it is sending. -/
structure Sending (sysClk : UInt32) (task : Task) (clock start : Nat)
    (switches : List (Nat × Bool)) (i : Nat) : Prop where
  whole : Whole task.msg
  playing : Playing task.msg start switches
  count : switches.length = i
  inside : i ≤ task.msg.pulseCount
  awaited : task.next = deadline start (durations task.msg) i
  latest : clock = (switches.map Prod.fst).getLastD start
  running : task.slice.enabled = (decide (0 < i) && runs task.msg (i - 1))
  tuned : task.slice.wrap =
      (configureCarrier sysClk (carrier task.msg) irDutyPercent task.slice).wrap ∧
    task.slice.level = (configureCarrier sysClk (carrier task.msg) irDutyPercent task.slice).level
  priority : task.priority = configMaxPriorities - 1 ∧ task.origPrio = taskPrioTransmit

/-- Between two commands the slice is stopped and the task has its own priority. -/
def TaskInv (sysClk : UInt32) (task : Task) (clock start : Nat)
    (switches : List (Nat × Bool)) : Prop :=
  match task.pc with
  | .receive => task.slice.enabled = false ∧ task.priority = taskPrioTransmit
  | .turn i => Sending sysClk task clock start switches i

/-- The command that the task is sending. -/
def current (task : Task) : List IrMessage :=
  match task.pc with
  | .receive => []
  | .turn _ => [task.msg]

theorem runs_of_some {msg : IrMessage} {i : Nat} {d : UInt16} (there : msg.pulses[i]? = some d) :
    runs msg i = decide (i % 2 = 0) := by
  obtain ⟨inside, -⟩ := List.getElem?_eq_some_iff.mp there
  have less : i < msg.pulseCount := inside
  simp [runs, less]

theorem runs_of_none {msg : IrMessage} {i : Nat} (past : msg.pulses[i]? = none) :
    runs msg i = false := by
  have less : msg.pulseCount ≤ i := List.getElem?_eq_none_iff.mp past
  simp only [runs, decide_eq_false_iff_not, not_and]
  omega

/-- What the task's step does: a command is taken, a pulse begins, or a burst ends. -/
inductive Moves (sysClk : UInt32) (s : System) (now : Nat) : System → Prop
  | taken (msg : IrMessage) (queue : List IrMessage) (pc : s.task.pc = .receive)
      (waiting : s.queue = msg :: queue) :
      Moves sysClk s now { s with
        queue
        task := s.task.take sysClk msg now
        clock := now
        log := { s.log with start := now, switches := [] } }
  | pulse (i : Nat) (d : UInt16) (pc : s.task.pc = .turn i) (reached : s.task.next ≤ now)
      (there : s.task.msg.pulses[i]? = some d) :
      Moves sysClk s now { s with
        task := { s.task with
          slice := { s.task.slice with enabled := decide (i % 2 = 0) }
          next := s.task.next + d.toNat
          pc := .turn (i + 1) }
        clock := now
        log := { s.log with switches := s.log.switches ++ [(now, decide (i % 2 = 0))] } }
  | ended (i : Nat) (pc : s.task.pc = .turn i) (reached : s.task.next ≤ now)
      (past : s.task.msg.pulses[i]? = none) :
      Moves sysClk s now { s with
        task := { s.task with
          slice := { s.task.slice with enabled := false }
          priority := s.task.origPrio
          pc := .receive }
        clock := now
        log := { s.log with
          bursts := s.log.bursts ++ [⟨s.task.msg, s.task.slice, s.log.start,
            s.log.switches ++ [(now, false)]⟩]
          switches := [] } }

theorem taskStep_moves {sysClk : UInt32} {s t : System} {now : Nat}
    (step : taskStep sysClk s now = some t) : Moves sysClk s now t := by
  unfold taskStep at step
  cases pc : s.task.pc with
  | receive =>
      simp only [pc] at step
      cases waiting : s.queue with
      | nil =>
          rw [waiting] at step
          cases step
      | cons msg queue =>
          rw [waiting] at step
          cases step
          exact .taken msg queue pc waiting
  | turn i =>
      simp only [pc] at step
      split at step
      · rename_i reached
        cases there : s.task.msg.pulses[i]? with
        | none =>
            simp only [Task.turn, there] at step
            cases step
            exact .ended i pc reached there
        | some d =>
            simp only [Task.turn, there] at step
            cases step
            exact .pulse i d pc reached there
      · cases step

/-! ## The invariant -/

/-- The calls of `xQueueSend` that found room. -/
def entered (calls : List (IrMessage × Bool)) : List IrMessage :=
  (calls.filter Prod.snd).map Prod.fst

/-- Each command handed over has been called for, and each that found room is sent, being
sent, or waiting, in this order. -/
structure Inv (sysClk : UInt32) (s : System) : Prop where
  calls : s.log.calls.map Prod.fst ++ s.sending.toList = s.rx.pushed
  order : entered s.log.calls = s.log.bursts.map Burst.message ++ current s.task ++ s.queue
  room : s.queue.length ≤ queueLength
  whole : ∀ msg ∈ s.rx.pushed, Whole msg
  bursts : ∀ b ∈ s.log.bursts, Played sysClk b
  task : TaskInv sysClk s.task s.clock s.log.start s.log.switches

theorem inv_initial (sysClk : UInt32) (now : Nat) : Inv sysClk (initial sysClk now) where
  calls := rfl
  order := rfl
  room := Nat.zero_le _
  whole := nofun
  bursts := nofun
  task := ⟨rfl, rfl⟩

/-- What is waiting was handed over, so it is whole. -/
theorem Inv.waiting {sysClk : UInt32} {s : System} (inv : Inv sysClk s) {msg : IrMessage}
    (member : msg ∈ s.queue) : Whole msg := by
  refine inv.whole msg ?_
  have entry : msg ∈ entered s.log.calls := by
    rw [inv.order]
    exact List.mem_append_right _ member
  obtain ⟨call, called, rfl⟩ := List.mem_map.mp entry
  rw [← inv.calls]
  exact List.mem_append_left _ (List.mem_map_of_mem (List.mem_of_mem_filter called))

theorem inv_taken {sysClk : UInt32} {s : System} {now : Nat} {msg : IrMessage}
    {queue : List IrMessage} (inv : Inv sysClk s) (pc : s.task.pc = .receive)
    (waiting : s.queue = msg :: queue) :
    Inv sysClk { s with
      queue
      task := s.task.take sysClk msg now
      clock := now
      log := { s.log with start := now, switches := [] } } := by
  have whole := inv.waiting (waiting ▸ List.mem_cons_self)
  have some : msg.pulseCount ≠ 0 := fun none => whole.nonempty (List.length_eq_zero_iff.mp none)
  have idle := inv.task
  rw [TaskInv, pc] at idle
  have order := inv.order
  rw [waiting, current, pc, List.append_nil] at order
  have room := inv.room
  rw [waiting, List.length_cons] at room
  rw [Task.take, if_neg some]
  refine ⟨inv.calls, ?_, Nat.le_of_succ_le room, inv.whole, inv.bursts, ?_⟩
  · rw [order]
    exact List.append_cons ..
  · exact {
      whole
      playing := playing_start msg now
      count := rfl
      inside := Nat.zero_le _
      awaited := (deadline_zero now (durations msg)).symm
      latest := rfl
      running := idle.1
      tuned := ⟨rfl, rfl⟩
      priority := ⟨rfl, idle.2⟩ }

theorem inv_pulse {sysClk : UInt32} {s : System} {now i : Nat} {d : UInt16}
    (inv : Inv sysClk s) (pc : s.task.pc = .turn i) (reached : s.task.next ≤ now)
    (there : s.task.msg.pulses[i]? = some d) :
    Inv sysClk { s with
      task := { s.task with
        slice := { s.task.slice with enabled := decide (i % 2 = 0) }
        next := s.task.next + d.toNat
        pc := .turn (i + 1) }
      clock := now
      log := { s.log with switches := s.log.switches ++ [(now, decide (i % 2 = 0))] } } := by
  have sending := inv.task
  rw [TaskInv, pc] at sending
  obtain ⟨inside, -⟩ := List.getElem?_eq_some_iff.mp there
  have order := inv.order
  rw [current, pc] at order
  have duration : (durations s.task.msg)[i]? = some d.toNat := by
    rw [durations, List.getElem?_map, there, Option.map_some]
  have running := runs_of_some there
  refine ⟨inv.calls, order, inv.room, inv.whole, inv.bursts, ?_⟩
  refine { sending with playing := ?_, count := ?_, inside := inside, awaited := ?_, latest := ?_,
                        running := ?_ }
  · have due : deadline s.log.start (durations s.task.msg) s.log.switches.length ≤ now := by
      rw [sending.count, ← sending.awaited]
      exact reached
    have played := sending.playing.snoc due
    rwa [sending.count, running] at played
  · rw [List.length_append, sending.count]
    rfl
  · show s.task.next + d.toNat = _
    rw [sending.awaited, deadline_succ duration]
  · show now = _
    rw [List.map_append, List.map_singleton, List.getLastD_concat]
  · show decide (i % 2 = 0) = (decide (0 < i + 1) && runs s.task.msg (i + 1 - 1))
    rw [Nat.add_sub_cancel, running, decide_eq_true (Nat.succ_pos i), Bool.true_and]

theorem inv_ended {sysClk : UInt32} {s : System} {now i : Nat} (inv : Inv sysClk s)
    (pc : s.task.pc = .turn i) (reached : s.task.next ≤ now)
    (past : s.task.msg.pulses[i]? = none) :
    Inv sysClk { s with
      task := { s.task with
        slice := { s.task.slice with enabled := false }
        priority := s.task.origPrio
        pc := .receive }
      clock := now
      log := { s.log with
        bursts := s.log.bursts ++ [⟨s.task.msg, s.task.slice, s.log.start,
          s.log.switches ++ [(now, false)]⟩]
        switches := [] } } := by
  have sending := inv.task
  rw [TaskInv, pc] at sending
  have all : i = s.task.msg.pulseCount :=
    Nat.le_antisymm sending.inside (List.getElem?_eq_none_iff.mp past)
  have order := inv.order
  rw [current, pc] at order
  have due : deadline s.log.start (durations s.task.msg) s.log.switches.length ≤ now := by
    rw [sending.count, ← sending.awaited]
    exact reached
  have played := sending.playing.snoc due
  rw [sending.count, runs_of_none past] at played
  refine ⟨inv.calls, ?_, inv.room, inv.whole, ?_, rfl, sending.priority.2⟩
  · rw [order, List.map_append]
    show _ = s.log.bursts.map Burst.message ++ [s.task.msg] ++ [] ++ s.queue
    rw [List.append_nil]
  · intro b member
    rcases List.mem_append.mp member with before | last
    · exact inv.bursts b before
    · obtain rfl := List.mem_singleton.mp last
      refine ⟨played, sending.whole, ?_, sending.tuned⟩
      rw [List.length_append, sending.count, all]
      rfl

theorem inv_task {sysClk : UInt32} {s t : System} {now : Nat} (inv : Inv sysClk s)
    (step : taskStep sysClk s now = some t) : Inv sysClk t := by
  cases taskStep_moves step with
  | taken msg queue pc waiting => exact inv_taken inv pc waiting
  | pulse i d pc reached there => exact inv_pulse inv pc reached there
  | ended i pc reached past => exact inv_ended inv pc reached past

/-- A callback hands over what it has decoded. -/
theorem inv_data {sysClk : UInt32} {s : System} (inv : Inv sysClk s) (free : s.sending = none)
    (bytes : List UInt8) (last : Bool) :
    Inv sysClk { s with
      rx := mqttIncomingDataCb s.rx bytes last
      sending :=
        ((mqttIncomingDataCb s.rx bytes last).pushed.drop s.rx.pushed.length).head? } := by
  obtain ⟨msg, pushed, whole⟩ := dataCb_pushed s.rx bytes last
  have handed : ((mqttIncomingDataCb s.rx bytes last).pushed.drop s.rx.pushed.length).head? =
      msg := by
    rw [pushed, List.drop_left]
    cases msg <;> rfl
  have calls := inv.calls
  rw [free, Option.toList_none, List.append_nil] at calls
  rw [handed]
  refine ⟨?_, inv.order, inv.room, ?_, inv.bursts, inv.task⟩
  · show s.log.calls.map Prod.fst ++ msg.toList = (mqttIncomingDataCb s.rx bytes last).pushed
    rw [pushed, calls]
  · intro m member
    rw [pushed] at member
    rcases List.mem_append.mp member with before | new
    · exact inv.whole m before
    · exact whole m (Option.mem_toList.mp new)

theorem entered_snoc (calls : List (IrMessage × Bool)) (msg : IrMessage) (found : Bool) :
    entered (calls ++ [(msg, found)]) = entered calls ++ if found then [msg] else [] := by
  cases found <;> simp [entered]

theorem inv_next {sysClk : UInt32} {s t : System} {e : Event} (inv : Inv sysClk s)
    (step : next sysClk s e = some t) : Inv sysClk t := by
  cases e with
  | publish topic =>
      simp only [next] at step
      split at step
      · cases step
        exact ⟨inv.calls, inv.order, inv.room, inv.whole, inv.bursts, inv.task⟩
      · cases step
  | data bytes last =>
      simp only [next] at step
      split at step
      · rename_i free
        cases step
        exact inv_data inv free bytes last
      · cases step
  | sent =>
      cases sending : s.sending with
      | none =>
          simp only [next, sending] at step
          cases step
      | some msg =>
          simp only [next, sending] at step
          split at step
          · rename_i room
            cases step
            have calls := inv.calls
            rw [sending] at calls
            refine ⟨?_, ?_, ?_, inv.whole, inv.bursts, inv.task⟩
            · rw [List.map_append]
              exact (List.append_nil _).trans calls
            · rw [entered_snoc, inv.order]
              exact List.append_assoc ..
            · rw [List.length_append, List.length_singleton]
              exact room
          · cases step
  | timedOut =>
      cases sending : s.sending with
      | none =>
          simp only [next, sending] at step
          cases step
      | some msg =>
          simp only [next, sending] at step
          split at step
          · cases step
          · cases step
            have calls := inv.calls
            rw [sending] at calls
            refine ⟨?_, ?_, inv.room, inv.whole, inv.bursts, inv.task⟩
            · rw [List.map_append]
              exact (List.append_nil _).trans calls
            · rw [entered_snoc]
              exact (List.append_nil _).trans inv.order
  | task now =>
      simp only [next] at step
      split at step
      · exact inv_task inv step
      · cases step

theorem invariant (sysClk : UInt32) : (machine sysClk).Invariant (Inv sysClk) where
  base s start := by
    obtain ⟨now, rfl⟩ := start
    exact inv_initial sysClk now
  step _ _ _ inv step := inv_next inv step

/-- **Every command that found room is sent, once and in order, and as it is.**  Every command
that was decoded has been handed to `xQueueSend` once; one is given up only when four others
wait.  Those that found room are the bursts that are over, the one in progress and those that
wait, in the order in which they came.  A burst is the command it is for, pulse by pulse and
never early; the slice runs exactly while a mark of it is being sent, and is stopped between
two. -/
theorem transmits_in_order (sysClk : UInt32) {s : System} (reached : (machine sysClk).Reachable s) :
    s.log.calls.map Prod.fst ++ s.sending.toList = s.rx.pushed ∧
    entered s.log.calls = s.log.bursts.map Burst.message ++ current s.task ++ s.queue ∧
    (∀ t, (machine sysClk).step s .timedOut t → s.queue.length = queueLength) ∧
    (∀ b ∈ s.log.bursts, Played sysClk b) ∧
    (∀ i, s.task.pc = .turn i →
      s.task.slice.enabled = (decide (0 < i) && runs s.task.msg (i - 1))) ∧
    (s.task.pc = .receive →
      s.task.slice.enabled = false ∧ s.task.priority = taskPrioTransmit) := by
  have inv := (invariant sysClk).reachable reached
  have task := inv.task
  refine ⟨inv.calls, inv.order, ?_, inv.bursts, ?_, ?_⟩
  · intro t step
    have move : next sysClk s .timedOut = some t := step
    have room := inv.room
    simp only [next] at move
    split at move
    · split at move
      · cases move
      · omega
    · cases move
  · intro i pc
    rw [TaskInv, pc] at task
    exact task.running
  · intro pc
    rwa [TaskInv, pc] at task

/-- A mark of 600 µs is published, taken at 10, begun at 12 and ended at 640. -/
def oneMark : List Event :=
  [.publish mqttTopicSend, .data (bytes "\x7b\"pulses\":[600]\x7d") true, .sent, .task 10, .task 12,
    .task 640]

theorem transmits_in_order_mark : ∃ s, (machine 125000000).Reachable s ∧
    entered s.log.calls = s.log.bursts.map Burst.message ++ current s.task ++ s.queue ∧
    s.log.bursts.map Burst.switches = [[(12, true), (640, false)]] := by
  obtain ⟨s, run, switches⟩ : ∃ s,
      (machine 125000000).Run (initial 125000000 0) oneMark s ∧
      s.log.bursts.map Burst.switches = [[(12, true), (640, false)]] :=
    Machine.exists_run_of_exec (by decide +kernel)
  have reached : (machine 125000000).Reachable s := ⟨_, _, ⟨0, rfl⟩, run⟩
  exact ⟨s, reached, (transmits_in_order 125000000 reached).2.1, switches⟩

/-! ## Lateness -/

/-- A busy wait is over at most `late` after its deadline, or after it began. -/
def Prompt (late : Nat) (s : System) : Event → Prop
  | .task now => s.task.pc = .receive ∨ now ≤ max s.task.next s.clock + late
  | _ => True

instance (late : Nat) (s : System) : DecidablePred (Prompt late s)
  | .task now => inferInstanceAs (Decidable (s.task.pc = .receive ∨
      now ≤ max s.task.next s.clock + late))
  | .publish _ => instDecidableTrue
  | .data .. => instDecidableTrue
  | .sent => instDecidableTrue
  | .timedOut => instDecidableTrue

/-- The switches for a command whose pulses are at least `late` long are on time. -/
def Exact (late : Nat) (msg : IrMessage) (start : Nat) (switches : List (Nat × Bool)) : Prop :=
  (∀ d ∈ durations msg, late ≤ d) → OnTime late start (durations msg) (switches.map Prod.fst)

/-- So far every switch was on time. -/
structure Punctual (late : Nat) (s : System) : Prop where
  bursts : ∀ b ∈ s.log.bursts, Exact late b.message b.start b.switches
  inProgress : ∀ i, s.task.pc = .turn i → Exact late s.task.msg s.log.start s.log.switches

theorem Sending.exact_snoc {sysClk : UInt32} {task : Task} {clock start i late now : Nat}
    {switches : List (Nat × Bool)} (sending : Sending sysClk task clock start switches i)
    (reached : task.next ≤ now) (prompt : now ≤ max task.next clock + late)
    (before : Exact late task.msg start switches) (runs : Bool) :
    Exact late task.msg start (switches ++ [(now, runs)]) := by
  intro absorbs
  rw [sending.awaited, sending.latest] at prompt
  rw [sending.awaited] at reached
  have count : (switches.map Prod.fst).length = i := by rw [List.length_map, sending.count]
  have inside : i ≤ (durations task.msg).length := by
    rw [durations, List.length_map]
    exact sending.inside
  rw [List.map_append, List.map_singleton]
  exact onTime_snoc (before absorbs) absorbs (count ▸ inside) (count ▸ reached) (count ▸ prompt)

theorem punctual_task {sysClk : UInt32} {s t : System} {now late : Nat} (inv : Inv sysClk s)
    (punctual : Punctual late s) (prompt : Prompt late s (.task now))
    (step : taskStep sysClk s now = some t) : Punctual late t := by
  have task := inv.task
  cases taskStep_moves step with
  | taken msg queue pc waiting =>
      refine ⟨punctual.bursts, ?_⟩
      intro i _ absorbs
      exact nofun
  | pulse i d pc reached there =>
      rw [TaskInv, pc] at task
      have waited := prompt.resolve_left (pc ▸ nofun)
      refine ⟨punctual.bursts, ?_⟩
      intro j _
      exact task.exact_snoc reached waited (punctual.inProgress i pc) _
  | ended i pc reached past =>
      rw [TaskInv, pc] at task
      have waited := prompt.resolve_left (pc ▸ nofun)
      refine ⟨?_, nofun⟩
      intro b member
      rcases List.mem_append.mp member with before | last
      · exact punctual.bursts b before
      · obtain rfl := List.mem_singleton.mp last
        exact task.exact_snoc reached waited (punctual.inProgress i pc) _

/-- Nothing but the task's own step changes what it does. -/
theorem next_task {sysClk : UInt32} {s t : System} {e : Event} (step : next sysClk s e = some t) :
    (t.task = s.task ∧ t.log.bursts = s.log.bursts ∧ t.log.start = s.log.start ∧
      t.log.switches = s.log.switches) ∨
      ∃ now, e = .task now ∧ taskStep sysClk s now = some t := by
  cases e with
  | task now =>
      simp only [next] at step
      split at step
      · exact .inr ⟨now, rfl, step⟩
      · cases step
  | publish topic =>
      simp only [next] at step
      split at step
      · cases step
        exact .inl ⟨rfl, rfl, rfl, rfl⟩
      · cases step
  | data bytes last =>
      simp only [next] at step
      split at step
      · cases step
        exact .inl ⟨rfl, rfl, rfl, rfl⟩
      · cases step
  | sent =>
      simp only [next] at step
      split at step
      · split at step
        · cases step
          exact .inl ⟨rfl, rfl, rfl, rfl⟩
        · cases step
      · cases step
  | timedOut =>
      simp only [next] at step
      split at step
      · split at step
        · cases step
        · cases step
          exact .inl ⟨rfl, rfl, rfl, rfl⟩
      · cases step

theorem punctual_invariant (sysClk : UInt32) (late : Nat) :
    ((machine sysClk).restrict (Prompt late)).Invariant fun s =>
      Inv sysClk s ∧ Punctual late s where
  base s start := by
    obtain ⟨now, rfl⟩ := start
    exact ⟨inv_initial sysClk now, nofun, nofun⟩
  step s e t := by
    rintro ⟨inv, punctual⟩ ⟨prompt, step⟩
    refine ⟨inv_next inv step, ?_⟩
    rcases next_task step with ⟨task, bursts, start, switches⟩ | ⟨now, rfl, moved⟩
    · refine ⟨?_, ?_⟩
      · rw [bursts]
        exact punctual.bursts
      · rw [task, start, switches]
        exact punctual.inProgress
    · exact punctual_task inv punctual prompt moved

/-- **Lateness is not added up.**  If no busy wait is over more than `late` after its
deadline, then each switch of a command whose pulses are at least that long comes at most
`late` after the sum of the pulses before it, however many these are; and no mark and no
space is off by more. -/
theorem no_drift (sysClk : UInt32) (late : Nat) {s : System}
    (reached : ((machine sysClk).restrict (Prompt late)).Reachable s) {b : Burst}
    (sent : b ∈ s.log.bursts) (long : ∀ d ∈ durations b.message, late ≤ d) :
    OnTime late b.start (durations b.message) (b.switches.map Prod.fst) ∧
      ∀ i d t u, (durations b.message)[i]? = some d →
        (b.switches.map Prod.fst)[i]? = some t → (b.switches.map Prod.fst)[i + 1]? = some u →
        t + d ≤ u + late ∧ u ≤ t + d + late := by
  have onTime := ((punctual_invariant sysClk late).reachable reached).2.bursts b sent long
  exact ⟨onTime, fun i d t u between first second => onTime.duration first second between⟩

/-- The wait for 610 is over 30 µs late. -/
theorem no_drift_mark : ∃ s b, ((machine 125000000).restrict (Prompt 60)).Reachable s ∧
    b ∈ s.log.bursts ∧ b.switches = [(12, true), (640, false)] ∧
    OnTime 60 b.start (durations b.message) (b.switches.map Prod.fst) := by
  obtain ⟨s, run, bursts⟩ : ∃ s,
      ((machine 125000000).restrict (Prompt 60)).Run (initial 125000000 0) oneMark s ∧
      s.log.bursts = [⟨⟨38000, 1, false, [600]⟩, ⟨3288, 1085, true⟩, 10,
        [(12, true), (640, false)]⟩] :=
    Machine.exists_run_of_exec_restrict (by decide +kernel)
  have reached : ((machine 125000000).restrict (Prompt 60)).Reachable s := ⟨_, _, ⟨0, rfl⟩, run⟩
  have sent : (⟨⟨38000, 1, false, [600]⟩, ⟨3288, 1085, true⟩, 10,
      [(12, true), (640, false)]⟩ : Burst) ∈ s.log.bursts := bursts ▸ List.mem_singleton_self _
  exact ⟨s, _, reached, sent, rfl, (no_drift 125000000 60 reached sent (by decide)).1⟩

end IrHub.Firmware.Transmit
