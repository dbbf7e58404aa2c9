/-
# Firmware.Secrecy -- the Wi-Fi password cannot be read back

The password lies in the same struct as the fields a client may read, passes through
the same buffer of prepared writes, and is part of what `validate` judges before the
reason is reported.  Two copies of the module that differ in the passwords they hold
are asked the same (`Request`); `Alike` is what stays true of them, and no request is
answered differently (`password_secret`).

A client can write a password of its own.  From then on the two are the same, and so
a refused one is refused in both.
-/
import IrHub.Firmware.BleProvision
import IrHub.Theory.Machine

namespace IrHub.Firmware.Secrecy

set_option autoImplicit false

open IrHub.Theory IrHub.Firmware.NetConfig IrHub.Firmware.NetConfigFlash
open IrHub.Firmware.BleProvision

/-! ## Requests and answers -/

/-- What BTstack and NetworkTask ask of the module while a client uses it. -/
inductive Request where
  | connected (con : UInt16)
  | disconnected
  | write (handle : Attribute) (mode : Transaction) (offset : Nat) (data : List UInt8)
  | read (handle : Attribute) (offset : Nat) (buffer : Option (List UInt8)) (size : Nat)
  | canSendNow
  | setStatus (s : Status)

/-- What a client gets to see of it. -/
inductive Answer where
  | nothing
  | read (result : ReadResult)
  | written (rc : UInt8)
  | notified (payload : List UInt8)

section Module

variable (handleBlob : HandleBlob) (name : List UInt8)

def respond (b : Ble) : Request → Ble × Answer
  | .connected con => (connected b con, .nothing)
  | .disconnected => (disconnected b, .nothing)
  | .write handle mode offset data =>
      ((attWriteCb b handle mode offset data).1, .written (attWriteCb b handle mode offset data).2)
  | .read handle offset buffer size =>
      (b, .read (attReadCb handleBlob name b handle offset buffer size))
  | .canSendNow =>
      ((canSendNow b).1, ((canSendNow b).2.map fun s => .notified (statusBytes s)).getD .nothing)
  | .setStatus s => (setStatus b s, .nothing)

end Module

/-! ## Two copies that differ in a password -/

/-- `validate` has nothing against the password. -/
def Acceptable (password : Chars (passMax + 1)) : Prop :=
  ∃ n, boundedLen password = some n ∧ ¬(passMax < n ∨ (n ≠ 0 ∧ n < passMin))

/-- The same settings, up to a password that is acceptable in both. -/
structure SameButPassword (c d : NetConfig) : Prop where
  ssid : c.ssid = d.ssid
  brokerHost : c.brokerHost = d.brokerHost
  brokerPort : c.brokerPort = d.brokerPort
  password : c.password = d.password ∨ Acceptable c.password ∧ Acceptable d.password

/-- The array holds a text. -/
def Terminated {n : Nat} (s : Chars n) : Prop := 0 ∈ s.toList

/-- All is the same but the settings, and these up to the password.  What is handed
over is not asked of the module. -/
inductive Alike (b : Ble) : Ble → Prop
  | intro {current staged handoff : NetConfig}
      (currentSame : SameButPassword b.current current)
      (stagedSame : SameButPassword b.staged staged)
      (currentText : Terminated b.current.ssid)
      (stagedText : Terminated b.staged.ssid) :
      Alike b { b with current, staged, handoff }

theorem SameButPassword.refl (c : NetConfig) : SameButPassword c c := ⟨rfl, rfl, rfl, .inl rfl⟩

/-- An acceptable password does not decide what `validate` finds. -/
theorem validate_acceptable {c : NetConfig} (acceptable : Acceptable c.password)
    {password : Chars (passMax + 1)} (other : Acceptable password) :
    validate { c with password } = validate c := by
  obtain ⟨n, length, fine⟩ := acceptable
  obtain ⟨m, length', fine'⟩ := other
  unfold validate
  simp only [length, length', fine, fine', if_false]

theorem validate_eq {c d : NetConfig} (same : SameButPassword c d) : validate c = validate d := by
  obtain ⟨ssid, brokerHost, brokerPort, password⟩ := same
  have shape : d = { c with password := d.password } := by
    cases c
    cases d
    simp_all
  rcases password with equal | ⟨acceptable, acceptable'⟩
  · rw [shape, ← equal]
  · rw [shape, validate_acceptable acceptable acceptable']

/-- `strlen` stops inside the array. -/
theorem ssidText_eq {c : NetConfig} (terminated : Terminated c.ssid) :
    ssidText c = cstr c.ssid.toList := by
  obtain ⟨rest, shape⟩ := cstr_append_of_mem terminated
  have clean := nul_not_mem_cstr c.ssid.toList
  rw [ssidText, shape, cstr_append_nul rest clean, List.append_assoc, List.append_assoc,
    List.cons_append, cstr_append_nul _ clean]

theorem terminated_setText {n : Nat} (data : List UInt8) (fits : data.length ≤ n) :
    Terminated (setText data fits) := by
  show 0 ∈ data ++ List.replicate (n + 1 - data.length) 0
  rw [List.mem_append, List.mem_replicate]
  exact .inr ⟨by omega, rfl⟩

theorem terminated_zeroed : Terminated zeroed.ssid := by
  unfold Terminated
  decide

/-! ## One request -/

theorem pushStatus_settings (b : Ble) (current staged handoff : NetConfig) (s : Status) :
    pushStatus { b with current, staged, handoff } s =
      { pushStatus b s with current, staged, handoff } := by
  unfold pushStatus
  dsimp only
  split
  · rfl
  · split <;> rfl

theorem alike_pushStatus {a b : Ble} (alike : Alike a b) (s : Status) :
    Alike (pushStatus a s) (pushStatus b s) := by
  obtain @⟨current, staged, handoff, currentSame, stagedSame, currentText, stagedText⟩ := alike
  rw [pushStatus_settings a current staged handoff]
  obtain ⟨_, _, _, same⟩ := pushStatus_eq a s
  rw [same]
  exact ⟨currentSame, stagedSame, currentText, stagedText⟩

theorem alike_resetPrepared {a b : Ble} (alike : Alike a b) :
    Alike (resetPrepared a) (resetPrepared b) := by
  obtain ⟨currentSame, stagedSame, currentText, stagedText⟩ := alike
  exact ⟨currentSame, stagedSame, currentText, stagedText⟩

theorem alike_applyCommand {a b : Ble} (alike : Alike a b) (data : List UInt8) :
    (applyCommand a data).2 = (applyCommand b data).2 ∧
      Alike (applyCommand a data).1 (applyCommand b data).1 := by
  have verdict : validate a.staged = validate b.staged := by
    obtain ⟨-, stagedSame, -, -⟩ := alike
    exact validate_eq stagedSame
  unfold applyCommand
  rw [← verdict]
  by_cases short : data.length ≠ 1
  · simp only [if_pos short]
    exact ⟨trivial, alike⟩
  · simp only [if_neg short]
    by_cases apply : data = [cmdApply]
    · simp only [if_pos apply]
      by_cases refused : validate a.staged ≠ .ok
      · simp only [if_pos refused]
        exact ⟨trivial, alike_pushStatus alike _⟩
      · simp only [if_neg refused]
        obtain ⟨currentSame, stagedSame, currentText, stagedText⟩ := alike
        exact ⟨trivial, currentSame, stagedSame, currentText, stagedText⟩
    · simp only [if_neg apply]
      by_cases forget : data = [cmdForget]
      · simp only [if_pos forget]
        obtain ⟨currentSame, stagedSame, currentText, stagedText⟩ := alike
        exact ⟨trivial, currentSame, stagedSame, currentText, stagedText⟩
      · simp only [if_neg forget]
        exact ⟨trivial, alike⟩

/-- A complete value: a password is the same in both from now on. -/
theorem alike_applyValue {a b : Ble} (alike : Alike a b) (handle : Attribute)
    (data : List UInt8) : (applyValue a handle data).2 = (applyValue b handle data).2 ∧
      Alike (applyValue a handle data).1 (applyValue b handle data).1 := by
  by_cases command : handle = .cmd
  · subst command
    unfold applyValue
    by_cases fits : data.length ≤ fieldCap .cmd
    · simp only [dif_pos fits]
      exact alike_applyCommand alike data
    · simp only [dif_neg fits]
      exact ⟨trivial, alike⟩
  · obtain ⟨currentSame, stagedSame, currentText, stagedText⟩ := alike
    obtain ⟨ssid, brokerHost, brokerPort, password⟩ := stagedSame
    unfold applyValue
    by_cases fits : data.length ≤ fieldCap handle
    · simp only [dif_pos fits]
      cases handle with
      | cmd => exact absurd rfl command
      | ssid =>
          exact ⟨rfl, currentSame, ⟨rfl, brokerHost, brokerPort, password⟩, currentText,
            terminated_setText data fits⟩
      | pass =>
          exact ⟨rfl, currentSame, ⟨ssid, brokerHost, brokerPort, .inl rfl⟩, currentText,
            stagedText⟩
      | host =>
          exact ⟨rfl, currentSame, ⟨ssid, rfl, brokerPort, password⟩, currentText, stagedText⟩
      | port =>
          dsimp only
          split
          · exact ⟨rfl, currentSame, ⟨ssid, brokerHost, brokerPort, password⟩, currentText,
              stagedText⟩
          · exact ⟨rfl, currentSame, ⟨ssid, brokerHost, rfl, password⟩, currentText, stagedText⟩
      | _ =>
          exact ⟨rfl, currentSame, ⟨ssid, brokerHost, brokerPort, password⟩, currentText,
            stagedText⟩
    · simp only [dif_neg fits]
      exact ⟨trivial, currentSame, ⟨ssid, brokerHost, brokerPort, password⟩, currentText,
        stagedText⟩

theorem alike_attWriteCb {a b : Ble} (alike : Alike a b) (handle : Attribute)
    (mode : Transaction) (offset : Nat) (data : List UInt8) :
    (attWriteCb a handle mode offset data).2 = (attWriteCb b handle mode offset data).2 ∧
      Alike (attWriteCb a handle mode offset data).1 (attWriteCb b handle mode offset data).1 := by
  have whole := alike
  cases mode with
  | none =>
      unfold attWriteCb
      dsimp only
      by_cases subscription : handle = .statusCcc
      · simp only [if_pos subscription]
        obtain @⟨current, staged, handoff, currentSame, stagedSame, currentText, stagedText⟩ :=
          alike
        by_cases asked : get16 data = 1
        · simp only [asked, decide_true, if_true]
          have subscribed : Alike { a with subscribed := true }
              { a with subscribed := true, current, staged, handoff } :=
            ⟨currentSame, stagedSame, currentText, stagedText⟩
          exact ⟨trivial, alike_pushStatus subscribed a.status⟩
        · simp only [asked, decide_false, Bool.false_eq_true, if_false]
          exact ⟨trivial, currentSame, stagedSame, currentText, stagedText⟩
      · simp only [if_neg subscription]
        exact alike_applyValue alike handle data
  | active =>
      obtain ⟨currentSame, stagedSame, currentText, stagedText⟩ := alike
      unfold attWriteCb
      dsimp only
      by_cases unknown : fieldCap handle = 0 ∨ handle = .cmd
      · simp only [if_pos unknown]
        exact ⟨trivial, whole⟩
      · simp only [if_neg unknown]
        by_cases fits : offset + data.length ≤ fieldCap handle
        · simp only [dif_pos fits]
          exact ⟨trivial, currentSame, stagedSame, currentText, stagedText⟩
        · simp only [dif_neg fits]
          exact ⟨trivial, currentSame, stagedSame, currentText, stagedText⟩
  | validate =>
      obtain ⟨currentSame, stagedSame, currentText, stagedText⟩ := alike
      exact ⟨rfl, whole⟩
  | execute =>
      have pending : a.prepHandle = b.prepHandle ∧ a.prep = b.prep ∧ a.prepLen = b.prepLen := by
        obtain ⟨-, -, -, -⟩ := alike
        exact ⟨rfl, rfl, rfl⟩
      unfold attWriteCb
      dsimp only
      rw [← pending.1, ← pending.2.1, ← pending.2.2]
      cases a.prepHandle with
      | none => exact ⟨rfl, alike_resetPrepared alike⟩
      | some handle =>
          obtain ⟨same, after⟩ := alike_applyValue alike handle (a.prep.toList.take a.prepLen)
          exact ⟨same, alike_resetPrepared after⟩
  | cancel => exact ⟨rfl, alike_resetPrepared alike⟩

theorem attReadCb_eq (handleBlob : HandleBlob) (name : List UInt8) {a b : Ble}
    (alike : Alike a b) (handle : Attribute) (offset : Nat) (buffer : Option (List UInt8))
    (size : Nat) : attReadCb handleBlob name a handle offset buffer size =
      attReadCb handleBlob name b handle offset buffer size := by
  obtain ⟨-, ⟨ssid, brokerHost, brokerPort, -⟩, -, stagedText⟩ := alike
  cases handle with
  | ssid =>
      have text' := ssidText_eq (ssid ▸ stagedText)
      simp only [attReadCb, ssidText_eq stagedText, text', ssid]
  | host => simp only [attReadCb, brokerHost]
  | port => simp only [attReadCb, brokerPort]
  | _ => rfl

theorem alike_respond (handleBlob : HandleBlob) (name : List UInt8) {a b : Ble}
    (request : Request) (alike : Alike a b) :
    (respond handleBlob name a request).2 = (respond handleBlob name b request).2 ∧
      Alike (respond handleBlob name a request).1 (respond handleBlob name b request).1 := by
  have whole := alike
  cases request with
  | connected con =>
      obtain ⟨currentSame, -, currentText, -⟩ := alike
      exact ⟨rfl, alike_resetPrepared ⟨currentSame, currentSame, currentText, currentText⟩⟩
  | disconnected =>
      obtain ⟨currentSame, -, currentText, -⟩ := alike
      refine ⟨rfl, ?_⟩
      simp only [respond, disconnected]
      by_cases alone : a.con = none
      · simp only [if_pos alone]
        exact whole
      · simp only [if_neg alone]
        exact ⟨currentSame, .refl zeroed, currentText, terminated_zeroed⟩
  | write handle mode offset data =>
      obtain ⟨same, after⟩ := alike_attWriteCb alike handle mode offset data
      exact ⟨congrArg Answer.written same, after⟩
  | read handle offset buffer size =>
      exact ⟨congrArg Answer.read (attReadCb_eq handleBlob name alike handle offset buffer size),
        alike⟩
  | canSendNow =>
      obtain ⟨currentSame, stagedSame, currentText, stagedText⟩ := alike
      simp only [respond, canSendNow]
      by_cases idle : a.notifyCount = 0 ∨ a.con = none
      · simp only [if_pos idle]
        exact ⟨trivial, whole⟩
      · simp only [if_neg idle]
        exact ⟨trivial, currentSame, stagedSame, currentText, stagedText⟩
  | setStatus s => exact ⟨rfl, alike_pushStatus alike s⟩

/-! ## Any sequence of requests -/

/-- **The password cannot be read back.**  Two states that differ only in acceptable
passwords of `s_current` and `s_staged` answer every sequence of requests the same:
the results of reads, the codes of writes and the payloads of notifications. -/
theorem password_secret (handleBlob : HandleBlob) (name : List UInt8) {b : Ble}
    {current staged : Chars (passMax + 1)} (currentText : Terminated b.current.ssid)
    (stagedText : Terminated b.staged.ssid)
    (acceptable : ∀ password ∈ [b.current.password, current, b.staged.password, staged],
      Acceptable password) (requests : List Request) :
    Machine.answers (respond handleBlob name) b requests =
      Machine.answers (respond handleBlob name)
        { b with
          current := { b.current with password := current }
          staged := { b.staged with password := staged } } requests := by
  have both : ∀ {c : NetConfig} {password : Chars (passMax + 1)}, Acceptable c.password →
      Acceptable password → SameButPassword c { c with password } :=
    fun acceptable other => ⟨rfl, rfl, rfl, .inr ⟨acceptable, other⟩⟩
  have alike : Alike b { b with
      current := { b.current with password := current }
      staged := { b.staged with password := staged } } :=
    ⟨both (acceptable _ (by simp)) (acceptable _ (by simp)),
      both (acceptable _ (by simp)) (acceptable _ (by simp)), currentText, stagedText⟩
  exact Machine.answers_eq (fun _ _ request => alike_respond handleBlob name request) alike requests

/-- A client of the hub at home. -/
def homeClient : Ble := connected (start init homeNet) 1

/-- The same with an open network, asked to apply what is staged, and for what can be read. -/
theorem password_secret_homeNet :
    let blob : HandleBlob := fun bytes offset _ _ => (bytes.length, some (bytes.drop offset))
    let requests : List Request :=
      [.write .statusCcc .none 0 [1, 0], .read .ssid 3 none 0, .write .cmd .none 0 [cmdApply],
        .read .pass 0 none 0, .canSendNow]
    Machine.answers (respond blob []) homeClient requests =
      Machine.answers (respond blob [])
        { homeClient with
          current := { homeClient.current with password := zeroed.password }
          staged := { homeClient.staged with password := zeroed.password } } requests := by
  have home : Acceptable homeNet.password := ⟨14, by decide, by decide⟩
  have open_ : Acceptable zeroed.password := ⟨0, by decide, by decide⟩
  have text : Terminated homeNet.ssid := by
    unfold Terminated
    decide
  refine password_secret _ [] text text ?_ _
  intro password member
  simp only [List.mem_cons, List.not_mem_nil, or_false] at member
  rcases member with rfl | rfl | rfl | rfl
  · exact home
  · exact open_
  · exact home
  · exact open_

end IrHub.Firmware.Secrecy
