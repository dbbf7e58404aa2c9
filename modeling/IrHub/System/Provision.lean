/-
# System.Provision -- the setup page and the hub agree on what is valid

The page checks a form before it writes anything, the hub checks every write and then
the settings as a whole.  `validateSetupForm_iff` and `validate_iff` say in the same terms
what they accept; here the writes of `setupApply` go through `apply_value`
(`writeAll_ok_iff`), and `setup_agrees` compares the two.

What was written is read back by its bytes: a text without NUL is the C string in its
array, and an address is ASCII, so it is the same address in both encodings
(`address_encode`).
-/
import IrHub.Firmware.Validation
import IrHub.Frontend.Setup

namespace IrHub.System.Provision

set_option autoImplicit false

open IrHub.Theory IrHub.Theory.Dotted IrHub.Theory.Utf16
open IrHub.Firmware.NetConfig IrHub.Firmware.BleProvision IrHub.Firmware.Validation
open IrHub.Firmware.Secrecy (Acceptable Terminated terminated_setText homeClient)
open IrHub.Firmware.NetConfigFlash (homeNet)
open IrHub.Frontend.Setup hiding cmdApply

/-! ## The writes at the hub -/

/-- The attribute with the UUID of a characteristic. -/
def handleOf : Characteristic → Attribute
  | .ssid => .ssid
  | .password => .pass
  | .host => .host
  | .port => .port
  | .command => .cmd

/-- `writeValueWithResponse` rejects with the error of the hub. -/
def write (b : Ble) (w : Write) : Except UInt8 Ble :=
  let (after, rc) := applyValue b (handleOf w.1) w.2
  if rc = 0 then .ok after else .error rc

/-- Writes one after the other, up to the first that is rejected. -/
def writeAll (b : Ble) (ws : List Write) : Except UInt8 Ble := ws.foldlM write b

/-- The array holds what was written. -/
def Holds {n : Nat} (s : Chars (n + 1)) (data : List UInt8) : Prop :=
  ∃ fits : data.length ≤ n, s = setText data fits

/-- The password after the writes: none, the one there was, or what was typed. -/
def NewPassword (kept : Chars (passMax + 1)) (form : Form) (password : Chars (passMax + 1)) :
    Prop :=
  if form.openNetwork then Holds password []
  else if form.password ≠ [] then Holds password (encode form.password)
  else password = kept

/-- The settings after the writes. -/
structure Staged (kept : Chars (passMax + 1)) (form : Form) (c : NetConfig) : Prop where
  ssid : Holds c.ssid (encode form.ssid)
  password : NewPassword kept form c.password
  brokerHost : Holds c.brokerHost (encode (trim form.host))
  brokerPort : c.brokerPort = form.port.toUint16

/-- What `CMD_APPLY` leaves for NetworkTask. -/
def handOver (b : Ble) (c : NetConfig) : Ble :=
  signal { b with staged := c, handoff := c, handoffValid := true } ⟨true, false, false⟩

theorem bind_ok {α β : Type} {x : Except UInt8 α} {f : α → Except UInt8 β} {result : β} :
    x >>= f = .ok result ↔ ∃ a, x = .ok a ∧ f a = .ok result := by
  cases x with
  | error rc => exact ⟨nofun, nofun⟩
  | ok a =>
      constructor
      · intro done
        exact ⟨a, rfl, done⟩
      · rintro ⟨_, ⟨⟩, done⟩
        exact done

theorem writeAll_append_ok {b after : Ble} {ws vs : List Write} :
    writeAll b (ws ++ vs) = .ok after ↔
      ∃ between, writeAll b ws = .ok between ∧ writeAll between vs = .ok after := by
  rw [writeAll, List.foldlM_append, bind_ok]
  rfl

theorem writeAll_cons_ok {b after : Ble} {w : Write} {ws : List Write} :
    writeAll b (w :: ws) = .ok after ↔
      ∃ between, write b w = .ok between ∧ writeAll between ws = .ok after := by
  rw [writeAll, List.foldlM_cons, bind_ok]
  rfl

theorem writeAll_nil_ok {b after : Ble} : writeAll b [] = .ok after ↔ after = b := by
  rw [writeAll, List.foldlM_nil]
  constructor
  · rintro ⟨⟩
    rfl
  · rintro rfl
    rfl

/-- A text is taken when it fits. -/
theorem write_text_ok {b after : Ble} {c : Characteristic} {data : List UInt8} {n : Nat}
    (cap : fieldCap (handleOf c) = n) (next : Chars (n + 1) → Ble)
    (taken : ∀ fits : data.length ≤ n, write b (c, data) = .ok (next (setText data fits))) :
    write b (c, data) = .ok after ↔ ∃ s, Holds s data ∧ after = next s := by
  by_cases fits : data.length ≤ n
  · rw [taken fits, Except.ok.injEq]
    constructor
    · rintro rfl
      exact ⟨_, ⟨fits, rfl⟩, rfl⟩
    · rintro ⟨_, ⟨_, rfl⟩, rfl⟩
      rfl
  · have refused : write b (c, data) = .error invalidAttributeValueLength := by
      rw [write, applyValue, dif_neg (by rw [cap]; exact fits)]
      rfl
    rw [refused]
    constructor
    · rintro ⟨⟩
    · rintro ⟨_, ⟨short, -⟩, -⟩
      exact absurd short fits

theorem write_ssid_ok {b after : Ble} {data : List UInt8} :
    write b (.ssid, data) = .ok after ↔ ∃ s, Holds s data ∧
      after = { b with staged := { b.staged with ssid := s } } := by
  refine write_text_ok (n := ssidMax) rfl
    (fun s => { b with staged := { b.staged with ssid := s } }) ?_
  intro fits
  rw [write, applyValue, dif_pos (by exact fits)]
  rfl

theorem write_password_ok {b after : Ble} {data : List UInt8} :
    write b (.password, data) = .ok after ↔ ∃ s, Holds s data ∧
      after = { b with staged := { b.staged with password := s } } := by
  refine write_text_ok (n := passMax) rfl
    (fun s => { b with staged := { b.staged with password := s } }) ?_
  intro fits
  rw [write, applyValue, dif_pos (by exact fits)]
  rfl

theorem write_host_ok {b after : Ble} {data : List UInt8} :
    write b (.host, data) = .ok after ↔ ∃ s, Holds s data ∧
      after = { b with staged := { b.staged with brokerHost := s } } := by
  refine write_text_ok (n := hostMax) rfl
    (fun s => { b with staged := { b.staged with brokerHost := s } }) ?_
  intro fits
  rw [write, applyValue, dif_pos (by exact fits)]
  rfl

theorem applyValue_port (b : Ble) {data : List UInt8} (two : data.length = 2) :
    applyValue b .port data =
      ({ b with staged := { b.staged with brokerPort := get16 data } }, 0) := by
  unfold applyValue
  have fits : data.length ≤ fieldCap .port := Nat.le_of_eq two
  simp only [dif_pos fits]
  exact if_neg (not_not.mpr two)

theorem write_port (b : Ble) (port : UInt16) : write b (.port, put16 port) =
    .ok { b with staged := { b.staged with brokerPort := port } } := by
  have value : get16 (put16 port) = port := by
    have read := get16_put16 port []
    rwa [List.append_nil] at read
  have applied := applyValue_port b (put16_length port)
  rw [value] at applied
  rw [write]
  dsimp only [handleOf]
  rw [applied]
  rfl

theorem applyValue_command (b : Ble) : applyValue b .cmd [cmdApply] =
    if validate b.staged ≠ .ok then
      (pushStatus b ⟨.invalid, invalidReason (validate b.staged), noIp, 0, .candidate⟩,
        valueNotAllowed)
    else (handOver b b.staged, 0) := by
  unfold applyValue
  have fits : [cmdApply].length ≤ fieldCap .cmd := by decide
  simp only [dif_pos fits]
  rfl

theorem write_command_ok {b after : Ble} :
    write b (.command, [Frontend.Setup.cmdApply]) = .ok after ↔
      validate b.staged = .ok ∧ after = handOver b b.staged := by
  rw [write]
  dsimp only [handleOf]
  rw [show [Frontend.Setup.cmdApply] = [cmdApply] from rfl, applyValue_command]
  by_cases valid : validate b.staged = .ok
  · rw [if_neg (not_not.mpr valid)]
    dsimp only
    rw [if_pos rfl, Except.ok.injEq]
    exact ⟨fun same => ⟨valid, same.symm⟩, fun same => same.2.symm⟩
  · rw [if_pos valid]
    dsimp only
    rw [if_neg (by decide)]
    exact ⟨nofun, fun same => absurd same.1 valid⟩

/-! ## All writes -/

theorem writeAll_singleton_ok {b after : Ble} {w : Write} :
    writeAll b [w] = .ok after ↔ write b w = .ok after := by
  rw [writeAll_cons_ok]
  constructor
  · rintro ⟨_, written, done⟩
    rw [writeAll_nil_ok.mp done]
    exact written
  · intro written
    exact ⟨after, written, writeAll_nil_ok.mpr rfl⟩

theorem writeAll_password_ok {b after : Ble} {form : Form} :
    writeAll b (passwordWrites form) = .ok after ↔
      ∃ password, NewPassword b.staged.password form password ∧
        after = { b with staged := { b.staged with password } } := by
  unfold passwordWrites NewPassword
  by_cases open_ : form.openNetwork = true
  · simp only [if_pos open_]
    rw [writeAll_singleton_ok, write_password_ok]
  · simp only [if_neg open_]
    by_cases typed : form.password ≠ []
    · simp only [if_pos typed]
      rw [writeAll_singleton_ok, write_password_ok]
    · simp only [if_neg typed]
      rw [writeAll_nil_ok]
      constructor
      · rintro rfl
        exact ⟨_, rfl, rfl⟩
      · rintro ⟨_, rfl, rfl⟩
        rfl

/-- The writes are taken when each text fits and the settings that result are valid. -/
theorem writeAll_ok_iff {b after : Ble} {form : Form} :
    writeAll b (setupWrites form) = .ok after ↔
      ∃ c, Staged b.staged.password form c ∧ validate c = .ok ∧ after = handOver b c := by
  rw [setupWrites, List.cons_append, writeAll_cons_ok]
  simp only [writeAll_append_ok, writeAll_cons_ok, writeAll_nil_ok, write_ssid_ok,
    writeAll_password_ok, write_host_ok, write_port, write_command_ok, Except.ok.injEq]
  constructor
  · rintro ⟨_, ⟨ssid, ssidHolds, rfl⟩, _, ⟨password, passwordHolds, rfl⟩,
      _, ⟨host, hostHolds, rfl⟩, _, rfl, _, ⟨valid, rfl⟩, rfl⟩
    exact ⟨_, ⟨ssidHolds, passwordHolds, hostHolds, rfl⟩, valid, rfl⟩
  · rintro ⟨⟨ssid, password, host, port⟩, ⟨ssidHolds, passwordHolds, hostHolds, same⟩, valid, rfl⟩
    obtain rfl : port = form.port.toUint16 := same
    exact ⟨_, ⟨ssid, ssidHolds, rfl⟩, _, ⟨password, passwordHolds, rfl⟩, _, ⟨host, hostHolds, rfl⟩,
      _, rfl, _, ⟨valid, rfl⟩, rfl⟩

/-! ## Reading back -/

theorem Holds.terminated {n : Nat} {s : Chars (n + 1)} {data : List UInt8} (held : Holds s data) :
    Terminated s := by
  obtain ⟨fits, rfl⟩ := held
  exact terminated_setText data fits

/-- Without a NUL in it, what was written is the C string. -/
theorem Holds.text {n : Nat} {s : Chars (n + 1)} {data : List UInt8} (held : Holds s data)
    (clean : 0 ∉ data) : textOf s = data := by
  obtain ⟨fits, rfl⟩ := held
  have room : n + 1 - data.length = n - data.length + 1 := by omega
  show cstr (data ++ List.replicate (n + 1 - data.length) 0) = data
  rw [room, List.replicate_succ, cstr_append_nul _ clean]

theorem codes_encode {s : List UInt16} (ascii : ∀ u ∈ s, u.toNat < 128) :
    codes (encode s) = units s := by
  rw [encode_ascii ascii, codes, units, List.map_map]
  refine List.map_congr_left ?_
  intro u member
  have small := ascii u member
  show u.toNat % 256 = u.toNat
  omega

/-- An address is the same in units and in bytes. -/
theorem address_encode (s : List UInt16) : Address (codes (encode s)) ↔ Address (units s) := by
  constructor
  · intro address
    have ascii := ascii_of_encode fun b member => address.ascii _ (List.mem_map_of_mem member)
    rwa [codes_encode ascii] at address
  · intro address
    rwa [codes_encode fun u member => address.ascii _ (List.mem_map_of_mem member)]

/-! ## Agreement -/

/-- No NUL in the texts. -/
structure NulFree (form : Form) : Prop where
  ssid : 0 ∉ form.ssid
  password : 0 ∉ form.password
  host : 0 ∉ form.host

/-- The settings are those of the form. -/
structure Carries (kept : Chars (passMax + 1)) (form : Form) (c : NetConfig) : Prop where
  ssid : textOf c.ssid = encode form.ssid
  password :
    if form.openNetwork then textOf c.password = []
    else if form.password ≠ [] then textOf c.password = encode form.password
    else c.password = kept
  brokerHost : textOf c.brokerHost = encode (trim form.host)
  brokerPort : form.port = .finite c.brokerPort.toNat

/-- A password the page lets through can be written, and the hub accepts it. -/
theorem newPassword_exists {kept : Chars (passMax + 1)} (keptFine : Acceptable kept) {form : Form}
    (clean : 0 ∉ form.password)
    (fits : form.openNetwork = true ∨ (byteLength form.password ≠ 0 →
      8 ≤ byteLength form.password ∧ byteLength form.password ≤ 63)) :
    ∃ password, NewPassword kept form password ∧ Acceptable password := by
  unfold NewPassword
  by_cases open_ : form.openNetwork = true
  · simp only [if_pos open_]
    have none : ([] : List UInt8).length ≤ passMax := by decide
    have held : Holds (setText [] none) [] := ⟨none, rfl⟩
    refine ⟨_, held, (acceptable_iff _).mpr ⟨held.terminated, ?_⟩⟩
    rw [held.text nofun]
    exact fun some => absurd rfl some
  · simp only [if_neg open_]
    by_cases typed : form.password ≠ []
    · simp only [if_pos typed]
      have some : byteLength form.password ≠ 0 :=
        mt List.length_eq_zero_iff.mp (encode_ne_nil typed)
      obtain ⟨long, most⟩ := (fits.resolve_left open_) some
      have short : (encode form.password).length ≤ passMax := most
      have held : Holds (setText (encode form.password) short) (encode form.password) :=
        ⟨short, rfl⟩
      refine ⟨_, held, (acceptable_iff _).mpr ⟨held.terminated, ?_⟩⟩
      rw [held.text (nul_not_mem_encode clean)]
      exact fun _ => ⟨long, short⟩
    · simp only [if_neg typed]
      exact ⟨kept, rfl, keptFine⟩

theorem Staged.carries {kept : Chars (passMax + 1)} {form : Form} {c : NetConfig}
    (staged : Staged kept form c) (clean : NulFree form) {n : Nat} (small : n ≤ 65535)
    (port : form.port = .finite n) : Carries kept form c where
  ssid := staged.ssid.text (nul_not_mem_encode clean.ssid)
  password := by
    have password := staged.password
    unfold NewPassword at password
    by_cases open_ : form.openNetwork = true
    · rw [if_pos open_] at password ⊢
      exact password.text nofun
    · rw [if_neg open_] at password ⊢
      by_cases typed : form.password ≠ []
      · rw [if_pos typed] at password ⊢
        exact password.text (nul_not_mem_encode clean.password)
      · rw [if_neg typed] at password ⊢
        exact password
  brokerHost := staged.brokerHost.text
    (nul_not_mem_encode fun member => clean.host (mem_of_mem_trim member))
  brokerPort := by
    rw [staged.brokerPort, port, toUint16_nat, UInt16.toNat_ofNat_of_lt' (Nat.lt_succ_of_le small)]

/-- The settings of the form are valid when the page has nothing against the form, the
password aside. -/
theorem validate_staged {kept : Chars (passMax + 1)} {form : Form} {c : NetConfig}
    (staged : Staged kept form c) (clean : NulFree form) {n : Nat} (small : n ≤ 65535)
    (port : form.port = .finite n) : validate c = .ok ↔
      (1 ≤ byteLength form.ssid ∧ byteLength form.ssid ≤ 32) ∧ Acceptable c.password ∧
      Address (units (trim form.host)) ∧ n ≠ 0 := by
  have carries := staged.carries clean small port
  have zero : c.brokerPort ≠ 0 ↔ n ≠ 0 := by
    have same : n = c.brokerPort.toNat := by
      have values := carries.brokerPort
      rw [port, Number.finite.injEq] at values
      exact_mod_cast values
    rw [same]
    exact not_congr UInt16.toNat_inj.symm
  rw [validate_iff, carries.ssid, carries.brokerHost, address_encode, zero]
  constructor
  · rintro ⟨⟨-, some, most⟩, password, ⟨-, address⟩, nonzero⟩
    exact ⟨⟨some, most⟩, password, address, nonzero⟩
  · rintro ⟨⟨some, most⟩, password, address, nonzero⟩
    exact ⟨⟨staged.ssid.terminated, some, most⟩, password,
      ⟨staged.brokerHost.terminated, address⟩, nonzero⟩

/-- A form without a problem fits. -/
theorem staged_exists {kept : Chars (passMax + 1)} (keptFine : Acceptable kept)
    {lastState : Option UInt8} {form : Form} (clean : NulFree form)
    (fine : validateSetupForm lastState form = none) :
    ∃ c, Staged kept form c ∧ Acceptable c.password := by
  obtain ⟨⟨-, ssidFits⟩, passwordFine, address, -⟩ :=
    (validateSetupForm_iff lastState form).mp fine
  obtain ⟨password, new, acceptable⟩ :=
    newPassword_exists keptFine clean.password (passwordFine.imp_right And.right)
  have hostFits : (encode (trim form.host)).length ≤ hostMax := by
    have length := ((address_encode _).mpr address).length_le
    rw [codes_length] at length
    exact Nat.le_trans length (by decide)
  exact ⟨⟨setText _ ssidFits, password, setText _ hostFits, form.port.toUint16⟩,
    ⟨⟨ssidFits, rfl⟩, new, ⟨hostFits, rfl⟩, rfl⟩, acceptable⟩

/-- **The page and the hub agree.**  A form without a problem is written without an error,
and its settings are valid and handed over.  A form with a port of 16 bits and a password
or none on purpose, in which the page finds a problem, would be refused by the hub: the
writes of `setupApply` end in an error. -/
theorem setup_agrees (b : Ble) (lastState : Option UInt8) {form : Form} (clean : NulFree form) :
    (Acceptable b.staged.password → validateSetupForm lastState form = none →
      ∃ after, writeAll b (setupWrites form) = .ok after ∧ validate after.staged = .ok ∧
        after.handoffValid = true ∧ Carries b.staged.password form after.handoff) ∧
    (∀ n : Nat, n ≤ 65535 → form.port = .finite n →
      (form.openNetwork = true ∨ form.password ≠ []) → validateSetupForm lastState form ≠ none →
      ∃ rc, writeAll b (setupWrites form) = .error rc) := by
  constructor
  · intro keptFine fine
    obtain ⟨ssid, -, address, n, least, most, port⟩ :=
      (validateSetupForm_iff lastState form).mp fine
    obtain ⟨c, staged, acceptable⟩ := staged_exists keptFine clean fine
    have valid : validate c = .ok := (validate_staged staged clean most port).mpr
      ⟨ssid, acceptable, address, by omega⟩
    have carries := staged.carries clean most port
    exact ⟨_, writeAll_ok_iff.mpr ⟨c, staged, valid, rfl⟩, valid, rfl, carries⟩
  · intro n most port wanted problem
    cases written : writeAll b (setupWrites form) with
    | error rc => exact ⟨rc, rfl⟩
    | ok after =>
        obtain ⟨c, staged, valid, -⟩ := writeAll_ok_iff.mp written
        obtain ⟨ssid, acceptable, address, nonzero⟩ :=
          (validate_staged staged clean most port).mp valid
        refine absurd ((validateSetupForm_iff lastState form).mpr
          ⟨ssid, ?_, address, n, by omega, most, port⟩) problem
        by_cases open_ : form.openNetwork = true
        · exact .inl open_
        · have typed := wanted.resolve_left open_
          have password := (staged.carries clean most port).password
          rw [if_neg open_, if_pos typed] at password
          have bounds := ((acceptable_iff _).mp acceptable).2
          rw [password] at bounds
          refine .inr ⟨fun empty => ?_, bounds⟩
          exact absurd (List.length_eq_zero_iff.mp empty) (encode_ne_nil typed)

/-- `café`, the password left blank, and a broker with blanks around it. -/
def cafeForm : Form where
  ssid := [0x63, 0x61, 0x66, 0xE9]
  password := []
  openNetwork := false
  host := (bytes " 192.168.1.7 ").map UInt8.toUInt16
  port := .finite 1883

/-- On the hub at home, and with a dot too many on an open network. -/
theorem setup_agrees_cafe :
    (∃ after, writeAll homeClient (setupWrites cafeForm) = .ok after ∧
      validate after.staged = .ok ∧ after.handoffValid = true ∧
      Carries homeNet.password cafeForm after.handoff) ∧
    ∃ rc, writeAll homeClient (setupWrites { cafeForm with
      openNetwork := true
      host := (bytes "192.168.1.7.").map UInt8.toUInt16 }) = .error rc := by
  have home : Acceptable homeClient.staged.password := ⟨14, by decide, by decide⟩
  constructor
  · have clean : NulFree cafeForm := ⟨by decide, by decide, by decide⟩
    exact (setup_agrees homeClient (some 6) clean).1 home (by decide +kernel)
  · refine (setup_agrees homeClient none ⟨by decide, by decide, by decide⟩).2 1883 (by decide) rfl
      (.inl rfl) (by decide +kernel)

end IrHub.System.Provision
