/-
# Firmware.LongWrite -- prepared writes and the value they make up

A value that does not fit a packet comes in fragments, each a write to some offset of
`s_prep`, and the client then has them executed or cancelled.  BTstack remembers a
length error and asks for a validation before it executes: what it does is `prepareWrite`
and `executeWrite` here, over the transaction modes of `att_write_cb`.

`Assembled` holds while the fragments of one value come in, in any order: what has been
written agrees with the value.  The two results are about a whole transaction that
starts with nothing prepared (`Unprepared`), which is how every transaction leaves the
module (`unprepared_reached`).
-/
import IrHub.Firmware.Sources

namespace IrHub.Firmware.LongWrite

set_option autoImplicit false

open IrHub.Theory IrHub.Firmware.NetConfig IrHub.Firmware.NetworkTask
open IrHub.Firmware.BleProvision
open IrHub.Firmware.NetConfigFlash (zeroed)
open IrHub.Firmware.Sources (Values Within)
open IrHub.Firmware.Secrecy (Terminated)

/-! ## A transaction -/

structure PreparedWrite where
  handle : Attribute
  offset : Nat
  data : List UInt8

/-- The module, and whether BTstack remembers an error. -/
structure Queue where
  ble : Ble
  failed : Bool

/-- BTstack has a prepare request: it remembers that a length is wrong, and answers
another error at once. -/
def prepareWrite (q : Queue) (w : PreparedWrite) : Queue where
  ble := (attWriteCb q.ble w.handle .active w.offset w.data).1
  failed := q.failed ||
    decide ((attWriteCb q.ble w.handle .active w.offset w.data).2 = invalidAttributeValueLength)

/-- BTstack has an execute request, which may be one to cancel. -/
def executeWrite (q : Queue) (execute : Bool) : Ble :=
  if !execute then (attWriteCb q.ble .other .cancel 0 []).1
  else if q.failed || decide ((attWriteCb q.ble .other .validate 0 []).2 ≠ 0) then
    (attWriteCb q.ble .other .cancel 0 []).1
  else (attWriteCb q.ble .other .execute 0 []).1

def transaction (b : Ble) (writes : List PreparedWrite) (execute : Bool) : Ble :=
  executeWrite (writes.foldl prepareWrite ⟨b, false⟩) execute

/-- The contiguous fragments of a value, from `offset` on. -/
def fragmentsAt (handle : Attribute) : Nat → List (List UInt8) → List PreparedWrite
  | _, [] => []
  | offset, data :: rest => ⟨handle, offset, data⟩ :: fragmentsAt handle (offset + data.length) rest

/-- The prepared buffer is as `init` has it. -/
structure Unprepared (b : Ble) : Prop where
  handle : b.prepHandle = none
  len : b.prepLen = 0
  bad : b.prepBad = false
  prep : b.prep = List.Vector.replicate _ 0

theorem unprepared_resetPrepared (b : Ble) : Unprepared (resetPrepared b) := ⟨rfl, rfl, rfl, rfl⟩

theorem Unprepared.reset {b : Ble} (unprepared : Unprepared b) : resetPrepared b = b := by
  obtain ⟨handle, len, bad, prep⟩ := unprepared
  cases b
  simp_all [resetPrepared]

/-- The characteristics with a text or the port. -/
def IsField : Attribute → Prop
  | .ssid | .pass | .host | .port => True
  | _ => False

/-- The other writes are refused when they are prepared. -/
def Counted (w : PreparedWrite) : Prop := fieldCap w.handle ≠ 0 ∧ w.handle ≠ .cmd

theorem counted_of_isField {w : PreparedWrite} (field : IsField w.handle) : Counted w := by
  unfold Counted
  revert field
  cases w.handle <;> simp [IsField, fieldCap, ssidMax, passMax, hostMax]

/-- A counted write starts behind the end of its field, or ends there. -/
def Beyond (w : PreparedWrite) : Prop := Counted w ∧ fieldCap w.handle < w.offset + w.data.length

/-- Two counted writes are to different characteristics. -/
def Mixed (writes : List PreparedWrite) : Prop :=
  ∃ w ∈ writes, ∃ w' ∈ writes, Counted w ∧ Counted w' ∧ w.handle ≠ w'.handle

/-! ## One prepared write -/

/-- What a prepared write does to the module. -/
inductive Prepares (q after : Queue) (w : PreparedWrite) : Prop
  | refused : ¬Counted w → after = q → Prepares q after w
  | beyond : Beyond w →
      after.failed = true →
      after.ble = { q.ble with
        prepBad := q.ble.prepBad || decide (q.ble.prepHandle ≠ none ∧ q.ble.prepHandle ≠ some w.handle)
        prepHandle := some w.handle } → Prepares q after w
  | wrote : Counted w → w.offset + w.data.length ≤ fieldCap w.handle →
      after.failed = q.failed →
      after.ble.prep.toList = writeAt q.ble.prep.toList w.offset w.data →
      after.ble = { q.ble with
        prepBad := q.ble.prepBad || decide (q.ble.prepHandle ≠ none ∧ q.ble.prepHandle ≠ some w.handle)
        prepHandle := some w.handle
        prep := after.ble.prep
        prepLen := max q.ble.prepLen (w.offset + w.data.length) } → Prepares q after w

theorem prepares (q : Queue) (w : PreparedWrite) : Prepares q (prepareWrite q w) w := by
  obtain ⟨b, failed⟩ := q
  by_cases counted : Counted w
  · have supported : ¬(fieldCap w.handle = 0 ∨ w.handle = .cmd) := by
      rintro (none | command)
      · exact counted.1 none
      · exact counted.2 command
    by_cases fits : w.offset + w.data.length ≤ fieldCap w.handle
    · refine .wrote counted fits ?_ ?_ ?_
      · simp only [prepareWrite, attWriteCb, if_neg supported, dif_pos fits]
        exact Bool.or_false failed
      · simp only [prepareWrite, attWriteCb, if_neg supported, dif_pos fits]
        rfl
      · simp only [prepareWrite, attWriteCb, if_neg supported, dif_pos fits]
    · refine .beyond ⟨counted, by omega⟩ ?_ ?_
      · simp only [prepareWrite, attWriteCb, if_neg supported, dif_neg fits, decide_true,
          Bool.or_true]
      · simp only [prepareWrite, attWriteCb, if_neg supported, dif_neg fits]
  · have unsupported : fieldCap w.handle = 0 ∨ w.handle = .cmd := by
      by_contra supported
      exact counted ⟨fun none => supported (.inl none), fun command => supported (.inr command)⟩
    refine .refused counted ?_
    simp only [prepareWrite, attWriteCb, if_pos unsupported]
    rw [show decide (requestNotSupported = invalidAttributeValueLength) = false from rfl,
      Bool.or_false]

/-! ## The fragments of a value -/

theorem fragmentsAt_piece {handle : Attribute} {w : PreparedWrite} :
    ∀ {fragments : List (List UInt8)} (front : List UInt8),
      w ∈ fragmentsAt handle front.length fragments →
        w.handle = handle ∧ IsPiece (front ++ fragments.flatten) w.offset w.data
  | [], _, member => absurd member List.not_mem_nil
  | data :: rest, front, member => by
      rw [fragmentsAt, List.mem_cons] at member
      rcases member with rfl | later
      · refine ⟨rfl, front, rest.flatten, ?_, rfl⟩
        rw [List.flatten_cons, List.append_assoc]
      · rw [← List.length_append] at later
        obtain ⟨same, piece⟩ := fragmentsAt_piece _ later
        rw [List.append_assoc] at piece
        exact ⟨same, piece⟩

/-- Every place of the value is in a fragment. -/
theorem fragmentsAt_covers (handle : Attribute) {i : Nat} :
    ∀ {fragments : List (List UInt8)} {offset : Nat}, offset ≤ i →
      i < offset + fragments.flatten.length →
        ∃ w ∈ fragmentsAt handle offset fragments, w.offset ≤ i ∧ i < w.offset + w.data.length
  | [], _, after, before => absurd before (Nat.not_lt.mpr after)
  | data :: rest, offset, after, before => by
      by_cases here : i < offset + data.length
      · exact ⟨_, List.mem_cons_self, after, here⟩
      · rw [List.flatten_cons, List.length_append, ← Nat.add_assoc] at before
        obtain ⟨w, member, inside⟩ := fragmentsAt_covers handle (Nat.not_lt.mp here) before
        exact ⟨w, List.mem_cons_of_mem _ member, inside⟩

/-- The writes so far have put pieces of `value` in place. -/
structure Assembled (handle : Attribute) (value : List UInt8) (done : List PreparedWrite)
    (q : Queue) : Prop where
  failed : q.failed = false
  bad : q.ble.prepBad = false
  ours : q.ble.prepHandle = none ∨ q.ble.prepHandle = some handle
  named : done ≠ [] → q.ble.prepHandle = some handle
  len : q.ble.prepLen ≤ value.length
  reaches : ∀ w ∈ done, w.offset + w.data.length ≤ q.ble.prepLen
  agrees : ∀ w ∈ done, ∀ i, w.offset ≤ i → i < w.offset + w.data.length →
    q.ble.prep.toList[i]? = value[i]?

theorem assembled_step {handle : Attribute} {value : List UInt8} {done : List PreparedWrite}
    {q : Queue} {w : PreparedWrite} (assembled : Assembled handle value done q)
    (field : IsField handle) (fits : value.length ≤ fieldCap handle) (same : w.handle = handle)
    (piece : IsPiece value w.offset w.data) :
    Assembled handle value (done ++ [w]) (prepareWrite q w) := by
  subst same
  have counted := counted_of_isField field
  have ends := piece.ends
  cases prepares q w with
  | refused uncounted => exact absurd counted uncounted
  | beyond beyond => exact absurd beyond.2 (by omega)
  | wrote _ _ failed prep after =>
      have room : w.offset + w.data.length ≤ q.ble.prep.toList.length := by
        have cap := fieldCap_le w.handle
        rw [List.Vector.toList_length]
        omega
      have alone : (q.ble.prepHandle ≠ none ∧ q.ble.prepHandle ≠ some w.handle) ↔ False := by
        simpa [← or_iff_not_imp_left] using assembled.ours
      have len : (prepareWrite q w).ble.prepLen = max q.ble.prepLen (w.offset + w.data.length) := by
        rw [after]
      have named : (prepareWrite q w).ble.prepHandle = some w.handle := by
        rw [after]
      refine ⟨failed.trans assembled.failed, ?_, .inr named, fun _ => named, ?_, ?_, ?_⟩
      · rw [after]
        simp only [assembled.bad, decide_eq_false alone.mp, Bool.or_false]
      · rw [len]
        exact Nat.max_le.mpr ⟨assembled.len, ends⟩
      · intro x member
        rw [len]
        rcases List.mem_append.mp member with before | last
        · exact (assembled.reaches x before).trans (Nat.le_max_left ..)
        · rw [List.mem_singleton.mp last]
          exact Nat.le_max_right ..
      · intro x member i starts stops
        rw [prep]
        refine piece.getElem?_writeAt room ?_
        rcases List.mem_append.mp member with before | last
        · exact .inl (assembled.agrees x before i starts stops)
        · rw [List.mem_singleton.mp last] at starts stops
          exact .inr ⟨starts, stops⟩

theorem assembled_run {handle : Attribute} {value : List UInt8} (field : IsField handle)
    (fits : value.length ≤ fieldCap handle) :
    ∀ {writes done : List PreparedWrite} {q : Queue}, Assembled handle value done q →
      (∀ w ∈ writes, w.handle = handle ∧ IsPiece value w.offset w.data) →
        Assembled handle value (done ++ writes) (writes.foldl prepareWrite q)
  | [], done, q, assembled, _ => by
      rw [List.append_nil]
      exact assembled
  | w :: rest, done, q, assembled, pieces => by
      obtain ⟨same, piece⟩ := pieces w List.mem_cons_self
      rw [List.append_cons done w rest]
      exact assembled_run field fits (assembled_step assembled field fits same piece)
        fun x member => pieces x (List.mem_cons_of_mem _ member)

/-! ## Transactions that fail -/

/-- What the writes so far leave of an error.  Nothing but the prepared buffer changes. -/
structure Marked (b : Ble) (done : List PreparedWrite) (q : Queue) : Prop where
  rest : resetPrepared q.ble = resetPrepared b
  beyond : ∀ w ∈ done, Beyond w → q.failed = true
  seen : ∀ w ∈ done, Counted w → q.ble.prepBad = true ∨ q.ble.prepHandle = some w.handle

theorem marked_start (b : Ble) : Marked b [] ⟨b, false⟩ where
  rest := rfl
  beyond _ member := absurd member List.not_mem_nil
  seen _ member := absurd member List.not_mem_nil

/-- The handle of a counted write replaces another only with a mark. -/
theorem seen_step {b : Ble} {done : List PreparedWrite} {q : Queue} {w : PreparedWrite}
    (marked : Marked b done q) {x : PreparedWrite} (member : x ∈ done ++ [w]) (counted : Counted x) :
    (q.ble.prepBad || decide (q.ble.prepHandle ≠ none ∧ q.ble.prepHandle ≠ some w.handle)) = true ∨
      some w.handle = some x.handle := by
  rcases List.mem_append.mp member with before | last
  · rcases marked.seen x before counted with bad | named
    · rw [bad]
      exact .inl rfl
    · by_cases same : w.handle = x.handle
      · exact .inr (congrArg some same)
      · refine .inl ?_
        rw [named]
        simp [Ne.symm same]
  · rw [List.mem_singleton.mp last]
    exact .inr rfl

theorem marked_step {b : Ble} {done : List PreparedWrite} {q : Queue} (marked : Marked b done q)
    (w : PreparedWrite) : Marked b (done ++ [w]) (prepareWrite q w) := by
  cases prepares q w with
  | refused uncounted same =>
      rw [same]
      refine ⟨marked.rest, ?_, ?_⟩
      · intro x member beyond
        rcases List.mem_append.mp member with before | last
        · exact marked.beyond x before beyond
        · rw [List.mem_singleton.mp last] at beyond
          exact absurd beyond.1 uncounted
      · intro x member counted
        rcases List.mem_append.mp member with before | last
        · exact marked.seen x before counted
        · rw [List.mem_singleton.mp last] at counted
          exact absurd counted uncounted
  | beyond beyond failed after =>
      refine ⟨?_, fun _ _ _ => failed, ?_⟩
      · rw [after]
        exact marked.rest
      · intro x member counted
        rw [after]
        exact seen_step marked member counted
  | wrote _ fits failed _ after =>
      refine ⟨?_, ?_, ?_⟩
      · rw [after]
        exact marked.rest
      · intro x member beyond
        rw [failed]
        rcases List.mem_append.mp member with before | last
        · exact marked.beyond x before beyond
        · rw [List.mem_singleton.mp last] at beyond
          exact absurd beyond.2 (by omega)
      · intro x member counted
        rw [after]
        exact seen_step marked member counted

theorem marked_run {b : Ble} : ∀ {writes done : List PreparedWrite} {q : Queue}, Marked b done q →
    Marked b (done ++ writes) (writes.foldl prepareWrite q)
  | [], done, q, marked => by
      rw [List.append_nil]
      exact marked
  | w :: rest, done, q, marked => by
      rw [List.append_cons done w rest]
      exact marked_run (marked_step marked w)

/-- **A transaction that mixes characteristics or goes beyond the end of one leaves the
module as it was.** -/
theorem transaction_failed {b : Ble} (unprepared : Unprepared b) {writes : List PreparedWrite}
    (fails : Mixed writes ∨ ∃ w ∈ writes, Beyond w) (execute : Bool) :
    transaction b writes execute = b := by
  have marked : Marked b ([] ++ writes) (writes.foldl prepareWrite ⟨b, false⟩) :=
    marked_run (marked_start b)
  rw [List.nil_append] at marked
  rw [transaction]
  generalize writes.foldl prepareWrite ⟨b, false⟩ = q at marked ⊢
  have reset : resetPrepared q.ble = b := marked.rest.trans unprepared.reset
  have noticed : q.failed = true ∨ q.ble.prepBad = true := by
    rcases fails with ⟨w, member, x, member', counted, counted', differ⟩ | ⟨w, member, beyond⟩
    · right
      rcases marked.seen w member counted with bad | named
      · exact bad
      · rcases marked.seen x member' counted' with bad | named'
        · exact bad
        · exact absurd (Option.some.inj (named.symm.trans named')) differ
    · exact .inl (marked.beyond w member beyond)
  have refused : (q.failed || decide ((attWriteCb q.ble .other .validate 0 []).2 ≠ 0)) = true := by
    rcases noticed with failed | bad
    · rw [failed, Bool.true_or]
    · simp [attWriteCb, bad, requestNotSupported]
  rw [executeWrite, refused]
  cases execute <;> exact reset

/-! ## Transactions that succeed -/

/-- A field does not depend on the prepared buffer. -/
theorem resetPrepared_applyValue (b : Ble) {handle : Attribute} (field : IsField handle)
    (data : List UInt8) :
    resetPrepared (applyValue b handle data).1 = (applyValue (resetPrepared b) handle data).1 := by
  unfold applyValue
  by_cases fits : data.length ≤ fieldCap handle
  · rw [dif_pos fits, dif_pos fits]
    cases handle with
    | ssid => rfl
    | pass => rfl
    | host => rfl
    | port =>
        dsimp only
        split <;> rfl
    | _ => exact field.elim
  · rw [dif_neg fits, dif_neg fits]

/-- **Fragments of a value, prepared in any order and executed, do what one write of the
value does.** -/
theorem transaction_fragments {b : Ble} (unprepared : Unprepared b) {handle : Attribute}
    (field : IsField handle) {fragments : List (List UInt8)} (some_ : fragments ≠ [])
    (fits : fragments.flatten.length ≤ fieldCap handle) {writes : List PreparedWrite}
    (order : writes.Perm (fragmentsAt handle 0 fragments)) :
    transaction b writes true = (attWriteCb b handle .none 0 fragments.flatten).1 := by
  have pieces : ∀ w ∈ writes, w.handle = handle ∧ IsPiece fragments.flatten w.offset w.data :=
    fun w member => fragmentsAt_piece [] (order.mem_iff.mp member)
  have marked : Marked b ([] ++ writes) (writes.foldl prepareWrite ⟨b, false⟩) :=
    marked_run (marked_start b)
  have assembled : Assembled handle fragments.flatten ([] ++ writes)
      (writes.foldl prepareWrite ⟨b, false⟩) := by
    refine assembled_run field fits ⟨rfl, unprepared.bad, .inl unprepared.handle, ?_, ?_, ?_, ?_⟩
      pieces
    · exact fun none => absurd rfl none
    · rw [unprepared.len]
      exact Nat.zero_le _
    · exact fun _ member => absurd member List.not_mem_nil
    · exact fun _ member => absurd member List.not_mem_nil
  rw [List.nil_append] at assembled marked
  have nonempty : writes ≠ [] := by
    rintro rfl
    cases fragments with
    | nil => exact some_ rfl
    | cons data rest => cases order.nil_eq
  rw [transaction]
  generalize writes.foldl prepareWrite ⟨b, false⟩ = q at assembled marked ⊢
  have reset : resetPrepared q.ble = b := marked.rest.trans unprepared.reset
  have covered : ∀ i, i < fragments.flatten.length → i < q.ble.prepLen ∧
      q.ble.prep.toList[i]? = fragments.flatten[i]? := by
    intro i inside
    obtain ⟨w, member, starts, stops⟩ :=
      fragmentsAt_covers handle (Nat.zero_le i) (by rwa [Nat.zero_add])
    have member := order.mem_iff.mpr member
    exact ⟨stops.trans_le (assembled.reaches w member), assembled.agrees w member i starts stops⟩
  have value : q.ble.prep.toList.take q.ble.prepLen = fragments.flatten := by
    refine List.ext_getElem? fun i => ?_
    by_cases inside : i < fragments.flatten.length
    · obtain ⟨before, agrees⟩ := covered i inside
      rw [List.getElem?_take_of_lt before, agrees]
    · have len := assembled.len
      rw [List.getElem?_eq_none (by rw [List.length_take]; omega),
        List.getElem?_eq_none (Nat.not_lt.mp inside)]
  have plain : handle ≠ .statusCcc := by
    rintro rfl
    exact field
  simp only [executeWrite, attWriteCb, assembled.failed, assembled.bad, assembled.named nonempty,
    value, if_neg plain]
  exact (resetPrepared_applyValue q.ble field _).trans (by rw [reset])

/-- A field leaves the prepared buffer alone. -/
theorem unprepared_applyValue {b : Ble} (unprepared : Unprepared b) {handle : Attribute}
    (field : IsField handle) (data : List UInt8) :
    Unprepared (applyValue b handle data).1 := by
  rw [← unprepared.reset, ← resetPrepared_applyValue b field data]
  exact unprepared_resetPrepared _

/-! ## Between transactions -/

/-- What NetworkTask calls keeps `P`. -/
structure Calls (P : Ble → Prop) : Prop where
  setStatus : ∀ b s, P b → P (BleProvision.setStatus b s)
  start : ∀ b c, P b → P (BleProvision.start b c)
  stop : ∀ b, P b → P (BleProvision.stop b)
  taken : ∀ b, P b → P { b with handoff := zeroed, handoffValid := false }
  woken : ∀ b, P b → P { b with notification := .none }

section Task

variable {P : Ble → Prop} (calls : Calls P) {w : World}
include calls

theorem Calls.report (holds : P w.ble) (state : State) (reason : UInt8)
    (source : BleProvision.Source) (attempt : UInt8) (ip : List.Vector UInt8 4) :
    P (NetworkTask.report w state reason source attempt ip).ble := by
  unfold NetworkTask.report reportBle
  dsimp only
  split
  · exact holds
  · exact calls.setStatus _ _ holds

theorem Calls.loadActive (p : Platform) (holds : P w.ble) : P (NetworkTask.loadActive p w).ble := by
  unfold NetworkTask.loadActive
  dsimp only
  split
  · exact holds
  · exact calls.report (calls.start _ _ holds) ..

theorem Calls.bringUpFailed (holds : P w.ble) (call : Call) (wifi : Bool) (reason : UInt8) :
    P (NetworkTask.bringUpFailed w call wifi reason).ble := by
  have reported := calls.report holds (if wifi then .wifiFailed else .mqttFailed) reason
    (source w call) (attempt call) noIp
  unfold NetworkTask.bringUpFailed
  cases call with
  | main wifiFails mqttFails =>
      dsimp only
      generalize NetworkTask.report w _ reason _ _ noIp = u at reported ⊢
      generalize (if wifi = true then wifiFails + 1 else wifiFails) = wifiFails'
      generalize (if wifi = true then mqttFails else mqttFails + 1) = mqttFails'
      split
      · exact calls.start _ _ reported
      · exact reported
  | commit attempt wifiTries mqttTries =>
      dsimp only
      generalize (if wifi = true then wifiTries + 1 else wifiTries) = wifiTries'
      generalize (if wifi = true then mqttTries else mqttTries + 1) = mqttTries'
      split <;> exact reported

theorem Calls.left (holds : P w.ble) (cause : Leave) : P (NetworkTask.left w cause).ble := by
  cases cause with
  | join call => exact holds
  | joinAborted call => cases call <;> exact holds
  | joinFailed call reason =>
      exact calls.bringUpFailed (w := { w with wifiUp := false, joined := zeroed, lastJoin := none })
        holds call true reason
  | forget => exact holds

theorem Calls.aborted (holds : P w.ble) (cause : Abort) : P (NetworkTask.aborted w cause).ble := by
  cases cause with
  | start call => exact holds
  | waitFailed call reason => exact calls.bringUpFailed holds call false reason
  | waitAborted call => cases call <;> exact holds
  | reverted =>
      have reported := calls.report holds .reverted 0 w.held.activeSource 0 noIp
      unfold NetworkTask.aborted
      dsimp only
      split
      · exact reported
      · exact calls.report reported ..
  | forget => exact holds

theorem Calls.mqttStart (p : Platform) (holds : P w.ble) (call : Call) :
    P (NetworkTask.mqttStart p w call).ble := by
  have reported := calls.report holds .mqttConnecting 0 (source w call) (attempt call) noIp
  unfold NetworkTask.mqttStart
  dsimp only
  split
  · exact calls.bringUpFailed reported call false 3
  · split <;> exact reported

theorem Calls.onlineEvents (holds : P w.ble) (caller : Caller) (badLinks : Nat) :
    P (NetworkTask.onlineEvents w caller badLinks).ble := by
  have woken : P (waitEvents w).ble := calls.woken _ holds
  unfold NetworkTask.onlineEvents
  dsimp only
  split
  · cases caller <;> exact woken
  · split <;> exact woken

theorem Calls.dispatch (holds : P w.ble) (wifiFails mqttFails : Nat) :
    P (NetworkTask.dispatch w wifiFails mqttFails).ble := by
  unfold NetworkTask.dispatch takeCandidate
  dsimp only
  split
  · exact holds
  · split
    · cases w.ble.handoffValid with
      | true => exact calls.taken _ holds
      | false => exact holds
    · split <;> exact holds

/-- **A step of NetworkTask keeps what its calls keep.** -/
theorem Calls.task (p : Platform) (o : Obs) (holds : P w.ble) : P (taskStep p w o).ble := by
  have woken : P (waitEvents w).ble := calls.woken _ holds
  unfold taskStep
  cases w.pc with
  | boot => exact calls.loadActive p holds
  | dispatch wifiFails mqttFails => exact calls.dispatch holds wifiFails mqttFails
  | idle wifiFails mqttFails => exact woken
  | bringUp call =>
      dsimp only
      split
      · exact holds
      · exact calls.report holds ..
  | leave cause =>
      dsimp only
      split
      · exact calls.left holds cause
      · exact holds
  | leavePoll cause polls =>
      dsimp only
      split
      · exact holds
      · exact calls.left holds cause
  | wifiConnect call =>
      dsimp only
      split
      · exact holds
      · exact calls.bringUpFailed holds call true 3
  | wifiPoll call elapsed =>
      dsimp only
      unfold wifiPoll
      split <;> [skip; split <;> [skip; split <;> [skip; split <;> [skip; split]]]] <;> exact holds
  | wifiWait call elapsed =>
      dsimp only
      split <;> exact woken
  | wifiCheck call reason =>
      dsimp only
      unfold wifiCheck
      dsimp only
      split <;> exact holds
  | mqttStart call => exact calls.mqttStart p holds call
  | abort cause =>
      dsimp only
      split
      · exact holds
      · exact calls.aborted (w := { w with mqttUp := false }) holds cause
  | mqttDisconnect cause => exact calls.aborted (w := { w with connection := none }) holds cause
  | mqttConnect call =>
      dsimp only
      unfold mqttConnect
      dsimp only
      split
      · exact holds
      · exact calls.bringUpFailed (w := { w with mqttUp := false, mqttStatus := .pending }) holds
          call false 3
  | mqttPoll call elapsed =>
      dsimp only
      unfold mqttPoll
      split
      · cases call <;> exact holds
      · split <;> [exact holds; exact holds; exact holds; split <;> exact holds]
  | mqttWait call elapsed =>
      dsimp only
      split <;> exact woken
  | mainWait wifiFails mqttFails => exact woken
  | commitWait attempt wifiTries mqttTries =>
      dsimp only
      split <;> exact woken
  | save =>
      dsimp only
      unfold saveCandidate
      dsimp only
      split
      · exact calls.report
          (w := { w with held := (w.held.adopt p o.fault w.candidate).2, candidate := zeroed })
          holds ..
      · exact calls.report
          (w := { w with held := (w.held.adopt p o.fault w.candidate).2, candidate := zeroed })
          holds ..
  | runOnline caller =>
      cases caller with
      | main => exact calls.report holds ..
      | commit => exact holds
  | online caller badLinks =>
      dsimp only
      split
      · exact holds
      · cases caller <;> exact holds
  | onlineEvents caller badLinks => exact calls.onlineEvents holds caller badLinks
  | onlineBle caller badLinks =>
      dsimp only
      unfold onlineBle
      dsimp only
      split <;> exact holds
  | onlineStop caller badLinks => exact calls.stop _ holds
  | onlineLink caller badLinks =>
      dsimp only
      unfold onlineLink
      dsimp only
      generalize (if o.linkJoin = true then 0 else badLinks + 1) = badLinks'
      split
      · cases caller <;> exact holds
      · split
        · cases caller <;> exact holds
        · exact holds
  | lostWait => exact woken
  | forgetErase => exact holds
  | forgetLoad => exact calls.loadActive p holds
  | forgetRefresh =>
      dsimp only
      split
      · exact calls.start _ _ holds
      · exact holds

end Task

/-- Where no characteristic is being written, nothing is prepared. -/
def Between (b : Ble) : Prop := b.prepHandle = none → Unprepared b

theorem between_reset (b : Ble) : Between (resetPrepared b) :=
  fun _ => unprepared_resetPrepared b

/-- The prepared buffer is the same. -/
theorem Between.congr {b after : Ble} (between : Between b) (handle : after.prepHandle = b.prepHandle)
    (len : after.prepLen = b.prepLen) (bad : after.prepBad = b.prepBad)
    (prep : after.prep = b.prep) : Between after := by
  intro none
  obtain ⟨_, len', bad', prep'⟩ := between (handle.symm.trans none)
  exact ⟨none, len.trans len', bad.trans bad', prep.trans prep'⟩

theorem between_pushStatus {b : Ble} (between : Between b) (s : Status) :
    Between (pushStatus b s) := by
  obtain ⟨_, _, _, same⟩ := pushStatus_eq b s
  rw [same]
  exact between.congr rfl rfl rfl rfl

theorem between_calls : Calls Between where
  setStatus _ s between := between_pushStatus between s
  start _ _ between := between.congr rfl rfl rfl rfl
  stop b between := by
    unfold BleProvision.stop
    split
    · exact between
    · exact between_reset _
  taken _ between := between.congr rfl rfl rfl rfl
  woken _ between := between.congr rfl rfl rfl rfl

theorem between_applyValue {b : Ble} (between : Between b) (handle : Attribute)
    (data : List UInt8) : Between (applyValue b handle data).1 := by
  unfold applyValue
  split
  · cases handle with
    | port =>
        dsimp only
        split
        · exact between
        · exact between.congr rfl rfl rfl rfl
    | cmd =>
        dsimp only
        unfold applyCommand
        dsimp only
        split
        · exact between
        · split
          · split
            · exact between_pushStatus between _
            · exact between.congr rfl rfl rfl rfl
          · split
            · exact between.congr rfl rfl rfl rfl
            · exact between
    | _ => exact between.congr rfl rfl rfl rfl
  · exact between

theorem between_callback {b after : Ble} {e : Callback} (between : Between b)
    (happens : callback b e = some after) : Between after := by
  cases e with
  | connected con =>
      simp only [callback] at happens
      split at happens
      · cases happens
        exact between_reset _
      · cases happens
  | disconnected =>
      cases happens
      unfold disconnected
      split
      · exact between
      · exact (between_reset b).congr rfl rfl rfl rfl
  | canSendNow =>
      cases happens
      unfold canSendNow
      split
      · exact between
      · exact between.congr rfl rfl rfl rfl
  | write handle mode offset data =>
      simp only [callback] at happens
      split at happens
      · cases happens
        cases mode with
        | none =>
            simp only [attWriteCb]
            split
            · dsimp only
              have subscribed : Between { b with subscribed := decide (get16 data = 1) } :=
                between.congr rfl rfl rfl rfl
              split
              · exact between_pushStatus subscribed _
              · exact subscribed
            · exact between_applyValue between handle data
        | active =>
            simp only [attWriteCb]
            split
            · exact between
            · split <;> exact fun none => absurd none (Option.some_ne_none handle)
        | validate => exact between
        | execute => exact between_reset _
        | cancel => exact between_reset b
      · cases happens

/-- **In every run, nothing is left in the prepared buffer between transactions.** -/
theorem unprepared_reached {p : Platform} {w : World} (reached : (machine p).Reachable w) :
    w.ble.prepHandle = none → Unprepared w.ble := by
  have inv : (machine p).Invariant fun w => Between w.ble := by
    constructor
    · rintro w ⟨flash, rfl⟩
      exact fun _ => ⟨rfl, rfl, rfl, rfl⟩
    · intro w e t between step
      cases e with
      | task o =>
          obtain rfl := task_next step
          exact between_calls.task p o between
      | mqtt status =>
          obtain ⟨_, _, _, _, rfl⟩ := mqttCallback_eq step
          exact between
      | ble e =>
          obtain ⟨_, _, happens, rfl, -⟩ := bleCallback_eq step
          exact between_callback between happens
  exact inv.reachable reached

/-! ## Every text of the settings -/

structure Texts (c : NetConfig) : Prop where
  ssid : Terminated c.ssid
  password : Terminated c.password
  brokerHost : Terminated c.brokerHost

/-- All three arrays hold a text. -/
def allTexts : Values := ⟨Terminated, Terminated, Terminated, fun _ => True⟩

theorem allTexts_of_validate (c : NetConfig) (valid : validate c = .ok) : Within allTexts c := by
  obtain ⟨ssid, password, host⟩ := terminated_of_validate valid
  exact ⟨ssid, password, host, trivial⟩

theorem allTexts_zeroed : Within allTexts zeroed := by
  have zeros : ∀ n, (0 : UInt8) ∈ List.replicate (n + 1) 0 := fun n =>
    List.mem_replicate.mpr ⟨Nat.succ_ne_zero n, rfl⟩
  exact ⟨zeros ssidMax, zeros passMax, zeros hostMax, trivial⟩

theorem allTexts_writes (w : World) (e : Event) : Sources.Writes allTexts w e := by
  cases e with
  | ble e =>
      intro handle data _
      cases handle with
      | ssid => exact fun fits => Secrecy.terminated_setText data fits
      | pass => exact fun fits => Secrecy.terminated_setText data fits
      | host => exact fun fits => Secrecy.terminated_setText data fits
      | _ => exact trivial
  | _ => trivial

/-- **Every text of what a client stages has a NUL.** -/
theorem staged_texts {p : Platform} {w : World} (reached : (machine p).Reachable w) :
    Texts w.ble.staged := by
  obtain ⟨_, es, ⟨flash, rfl⟩, run⟩ := reached
  have sourced := Sources.sourced_run
    (Values.complete_of_validate p allTexts_zeroed allTexts_of_validate)
    (Sources.sourced_initial p allTexts_zeroed allTexts_of_validate flash)
    (run.restrict fun e _ s => allTexts_writes s e)
  exact ⟨sourced.staged.ssid, sourced.staged.password, sourced.staged.brokerHost⟩

/-! ## Long writes -/

/-- **Long writes equal plain writes, and failed ones leave no trace.** -/
theorem long_writes (p : Platform) :
    (∀ b, Unprepared b → ∀ handle, IsField handle → ∀ fragments : List (List UInt8),
      fragments ≠ [] → fragments.flatten.length ≤ fieldCap handle →
      ∀ writes, writes.Perm (fragmentsAt handle 0 fragments) →
        (transaction b writes true).staged =
          (attWriteCb b handle .none 0 fragments.flatten).1.staged ∧
        Unprepared (transaction b writes true)) ∧
    (∀ b, Unprepared b → ∀ writes, (Mixed writes ∨ ∃ w ∈ writes, Beyond w) → ∀ execute,
      (transaction b writes execute).staged = b.staged ∧
        Unprepared (transaction b writes execute)) ∧
    ∀ w, (machine p).Reachable w →
      Texts w.ble.staged ∧ (w.ble.prepHandle = none → Unprepared w.ble) := by
  refine ⟨?_, ?_, fun w reached => ⟨staged_texts reached, unprepared_reached reached⟩⟩
  · intro b unprepared handle field fragments some_ fits writes order
    have same := transaction_fragments unprepared field some_ fits order
    refine ⟨by rw [same], ?_⟩
    have plain : handle ≠ .statusCcc := by
      rintro rfl
      exact field
    rw [same, attWriteCb, if_neg plain]
    exact unprepared_applyValue unprepared field _
  · intro b unprepared writes fails execute
    rw [transaction_failed unprepared fails execute]
    exact ⟨rfl, unprepared⟩

/-- A name in two fragments, the second of them first. -/
theorem long_writes_homeNet :
    (transaction init [⟨.ssid, 4, bytes "Net"⟩, ⟨.ssid, 0, bytes "Home"⟩] true).staged =
      (attWriteCb init .ssid .none 0 (bytes "HomeNet")).1.staged := by
  have whole : [bytes "Home", bytes "Net"].flatten = bytes "HomeNet" := by decide
  have result := ((long_writes bench).1 init ⟨rfl, rfl, rfl, rfl⟩ .ssid trivial
    [bytes "Home", bytes "Net"] (List.cons_ne_nil _ _) (by decide) _ (List.Perm.swap ..)).1
  rw [whole] at result
  exact result

end IrHub.Firmware.LongWrite
