/-
# System.Unedited -- the settings, from the hub through the form and back

`setupFind` reads the settings that a client starts from, less the password, into the form.
Applying the form as it stands goes a long way: the bytes of the SSID are decoded to UTF-16, lose
line breaks to the text field, and are encoded again; the password is not written at all; the
port is a number in between.  `unedited_iff` says when the hub gets the settings back that it
gave, `unedited` that it does in every session of the page.
-/
import IrHub.System.Commission

namespace IrHub.System.Unedited

set_option autoImplicit false

open IrHub.Theory IrHub.Theory.Utf16 IrHub.Theory.Utf8 IrHub.Theory.Dotted
open IrHub.Firmware.NetConfig IrHub.Firmware.NetworkTask
open IrHub.Firmware.BleProvision (Ble applyValue cmdApply ssidText)
open IrHub.Firmware.NetConfigFlash (zeroed)
open IrHub.Firmware.Validation (codes textOf validate_iff)
open IrHub.Firmware.Secrecy (ssidText_eq)
open IrHub.Firmware.Radio (homeBuild refused)
open IrHub.Frontend.Setup hiding cmdApply
open IrHub.System.Provision hiding write
open IrHub.System.Commission

/-! ## Text in a field -/

/-- Text that a text field gives back as it is. -/
structure Readable (bytes : List UInt8) : Prop where
  utf8 : ∃ cs, bytes = utf8 cs
  unmarked : mark.isPrefixOf bytes = false
  lineFeed : 0xA ∉ bytes
  carriageReturn : 0xD ∉ bytes

/-- Neither of the line breaks that a field drops. -/
def keeps (c : Char) : Bool := c.toNat ≠ 0xA ∧ c.toNat ≠ 0xD

theorem fieldValue_char (c : Char) :
    fieldValue (unitsOf c) = if keeps c then unitsOf c else [] := by
  have valid : c.toNat < 0xD800 ∨ (0xDFFF < c.toNat ∧ c.toNat < 0x110000) := c.valid
  have drops : ∀ {n : Nat}, n < 0x10000 →
      ((UInt16.ofNat n ≠ 0xA ∧ UInt16.ofNat n ≠ 0xD) ↔ (n ≠ 0xA ∧ n ≠ 0xD)) := by
    intro n small
    rw [ne_eq, ne_eq, ← UInt16.toNat_inj, ← UInt16.toNat_inj, toNat_ofNat_unit small]
    rfl
  unfold unitsOf
  split
  · rename_i small
    rw [fieldValue, List.filter_cons, List.filter_nil, keeps]
    simp only [drops small]
  · rename_i large
    have stays : keeps c = true := by
      rw [keeps, decide_eq_true_eq]
      omega
    rw [stays, if_pos rfl, fieldValue, List.filter_eq_self]
    intro u member
    rw [decide_eq_true_eq]
    rcases List.mem_cons.mp member with rfl | member
    · exact (drops (by omega)).mpr (by omega)
    · rw [List.mem_singleton.mp member]
      exact (drops (by omega)).mpr (by omega)

theorem fieldValue_unitsOf (cs : List Char) :
    fieldValue (cs.flatMap unitsOf) = (cs.filter keeps).flatMap unitsOf := by
  induction cs with
  | nil => rfl
  | cons c cs ih =>
      rw [List.flatMap_cons, fieldValue, List.filter_append, ← fieldValue, ← fieldValue, ih,
        fieldValue_char, List.filter_cons]
      cases keeps c with
      | true => rfl
      | false => rfl

/-- There is a line break among characters when there is one among their bytes. -/
theorem keeps_iff (cs : List Char) :
    (∀ c ∈ cs, keeps c = true) ↔ 0xA ∉ utf8 cs ∧ 0xD ∉ utf8 cs := by
  have lineFeed := ascii_mem_utf8 (n := 10) (by decide) cs
  have carriageReturn := ascii_mem_utf8 (n := 13) (by decide) cs
  rw [show (0xA : UInt8) = UInt8.ofNat 10 from rfl, show (0xD : UInt8) = UInt8.ofNat 13 from rfl,
    lineFeed, carriageReturn]
  simp only [keeps, decide_eq_true_eq, not_exists, not_and]
  constructor
  · intro all
    exact ⟨fun c member => (all c member).1, fun c member => (all c member).2⟩
  · rintro ⟨first, second⟩ c member
    exact ⟨first c member, second c member⟩

/-- **A field gives back what is readable, and nothing else.** -/
theorem encode_field_iff (bytes : List UInt8) :
    encode (fieldValue (decode bytes)) = bytes ↔ Readable bytes := by
  rw [decode, fieldValue_unitsOf, encode_unitsOf, utf8_filter_iff]
  constructor
  · rintro ⟨cs, rfl, unmarked, kept⟩
    obtain ⟨lineFeed, carriageReturn⟩ := (keeps_iff cs).mp kept
    exact ⟨⟨cs, rfl⟩, unmarked, lineFeed, carriageReturn⟩
  · rintro ⟨⟨cs, rfl⟩, unmarked, lineFeed, carriageReturn⟩
    exact ⟨cs, rfl, unmarked, (keeps_iff cs).mpr ⟨lineFeed, carriageReturn⟩⟩

theorem nul_not_mem_field {bytes : List UInt8} (clean : 0 ∉ bytes) :
    0 ∉ fieldValue (decode bytes) := fun member =>
  nul_not_mem_decode clean (List.mem_of_mem_filter member)

/-! ## An address in a field -/

theorem address_digits {s : List Nat} (address : Address s) : ∀ n ∈ s, IsDigit n ∨ n = 46 := by
  obtain ⟨o, os, rfl, -, octets⟩ := address.parts
  intro n member
  rw [List.mem_append, List.mem_flatMap] at member
  rcases member with first | ⟨x, later, inside⟩
  · exact .inl ((octets o List.mem_cons_self).digits n first)
  · rcases List.mem_cons.mp inside with rfl | inside
    · exact .inr rfl
    · exact .inl ((octets x (List.mem_cons_of_mem _ later)).digits n inside)

theorem utf8_ascii {bytes : List UInt8} (ascii : ∀ b ∈ bytes, b.toNat < 128) :
    utf8 (bytes.map fun b => Char.ofNat b.toNat) = bytes := by
  induction bytes with
  | nil => rfl
  | cons b bytes ih =>
      have small := ascii b List.mem_cons_self
      have code : (Char.ofNat b.toNat).toNat = b.toNat :=
        toNat_ofNat (by simp only [Nat.isValidChar]; omega)
      have byte : String.utf8EncodeChar (Char.ofNat b.toNat) = [b] := by
        rcases utf8_cases (Char.ofNat b.toNat) with ⟨-, single⟩ | ⟨large, -, -⟩
        · rw [single, code, UInt8.ofNat_toNat]
        · omega
      rw [List.map_cons, utf8, List.flatMap_cons, byte, ← utf8,
        ih fun c member => ascii c (List.mem_cons_of_mem _ member)]
      rfl

theorem readable_ascii {bytes : List UInt8} (ascii : ∀ b ∈ bytes, 0xD < b.toNat ∧ b.toNat < 128) :
    Readable bytes where
  utf8 := ⟨_, (utf8_ascii fun b member => (ascii b member).2).symm⟩
  unmarked := by
    rw [Bool.eq_false_iff]
    intro marked
    obtain ⟨rest, rfl⟩ := List.isPrefixOf_iff_prefix.mp marked
    exact absurd (ascii 0xEF (by simp [mark])).2 (by decide)
  lineFeed member := absurd (ascii 0xA member).1 (by decide)
  carriageReturn member := absurd (ascii 0xD member).1 (by decide)

theorem readable_address {bytes : List UInt8} (address : Address (codes bytes)) :
    Readable bytes := by
  refine readable_ascii fun b member => ?_
  rcases address_digits address _ (List.mem_map_of_mem member) with ⟨least, most⟩ | dot
  · omega
  · omega

theorem not_white : ∀ n < 58, 48 ≤ n ∨ n = 46 → isWhite (UInt16.ofNat n) = false := by decide

/-- An address has no white space around it. -/
theorem trim_address {s : List UInt16} (address : Address (units s)) : trim s = s := by
  have dark : ∀ u ∈ s, ¬isWhite u = true := by
    intro u member
    have digit := address_digits address _ (List.mem_map_of_mem member)
    unfold IsDigit at digit
    have plain := not_white u.toNat (by omega) (by omega)
    rw [UInt16.ofNat_toNat] at plain
    rw [plain]
    decide
  have front : s.dropWhile isWhite = s :=
    List.dropWhile_eq_self_iff.mpr fun some_ => dark _ (List.getElem_mem some_)
  rw [trim, front]
  exact List.rdropWhile_eq_self_iff.mpr fun some_ => dark _ (List.getLast_mem some_)

/-! ## The form as it is opened -/

/-- The form that `setupFind` leaves. -/
def opened (b : Ble) : Form :=
  setupFields (ssidText b.staged) (cstr b.staged.brokerHost.toList) (put16 b.staged.brokerPort)

/-- The same settings but for the SSID, to whoever reads C strings. -/
structure SameButSsid (c d : NetConfig) : Prop where
  password : c.password = d.password
  brokerHost : textOf c.brokerHost = textOf d.brokerHost
  brokerPort : c.brokerPort = d.brokerPort

/-- The same settings. -/
structure Same (c d : NetConfig) : Prop extends SameButSsid c d where
  ssid : textOf c.ssid = textOf d.ssid

section Opened

variable {b : Ble} (valid : validate b.staged = .ok)

include valid

theorem ssid_opened : (opened b).ssid = fieldValue (decode (textOf b.staged.ssid)) := by
  rw [opened, setupFields, ssidText_eq ((validate_iff _).mp valid).1.1]
  rfl

/-- The host comes back. -/
theorem host_opened : encode (trim (opened b).host) = textOf b.staged.brokerHost ∧
    Address (units (trim (opened b).host)) := by
  obtain ⟨-, -, ⟨-, address⟩, -⟩ := (validate_iff _).mp valid
  have back : encode (opened b).host = textOf b.staged.brokerHost :=
    (encode_field_iff _).mpr (readable_address address)
  rw [← back, address_encode] at address
  rw [trim_address address]
  exact ⟨back, address⟩

/-- The port comes back. -/
theorem port_opened : (opened b).port = .finite b.staged.brokerPort.toNat := by
  obtain ⟨-, -, -, nonzero⟩ := (validate_iff _).mp valid
  have back : get16 (put16 b.staged.brokerPort) = b.staged.brokerPort := by
    have whole := get16_put16 b.staged.brokerPort []
    rwa [List.append_nil] at whole
  rw [opened, setupFields, back]
  dsimp only
  rw [if_neg nonzero]

theorem clean_opened : NulFree (opened b) where
  ssid := by
    rw [ssid_opened valid]
    exact nul_not_mem_field (nul_not_mem_cstr _)
  password := by rintro ⟨⟩
  host := nul_not_mem_field (nul_not_mem_cstr _)

/-- The page has nothing against the form when the SSID comes back. -/
theorem fine_opened (readable : Readable (textOf b.staged.ssid)) {lastState : Option UInt8}
    (known : lastState ≠ some unprovisioned) : validateSetupForm lastState (opened b) = none := by
  obtain ⟨⟨-, least, most⟩, -, -, nonzero⟩ := (validate_iff _).mp valid
  have length : byteLength (opened b).ssid = (textOf b.staged.ssid).length := by
    rw [byteLength, ssid_opened valid, (encode_field_iff _).mpr readable]
  have small := b.staged.brokerPort.toNat_lt
  have some_ : b.staged.brokerPort.toNat ≠ 0 := fun zero => nonzero (UInt16.toNat_inj.mp zero)
  refine (validateSetupForm_iff _ _).mpr ⟨by rw [length]; exact ⟨least, most⟩,
    .inr ⟨fun _ => known, fun typed => absurd rfl typed⟩, (host_opened valid).2, ?_⟩
  exact ⟨_, by omega, by omega, port_opened valid⟩

/-- The form carries everything else as it was opened with. -/
theorem same_rest {c : NetConfig} (carries : Carries b.staged.password (opened b) c) :
    SameButSsid c b.staged where
  password := carries.password
  brokerHost := carries.brokerHost.trans (host_opened valid).1
  brokerPort := by
    have port := carries.brokerPort
    rw [port_opened valid, Number.finite.injEq] at port
    exact (UInt16.toNat_inj.mp (by exact_mod_cast port)).symm

/-- The SSID comes back if it is readable. -/
theorem ssid_back {c : NetConfig} (carries : Carries b.staged.password (opened b) c) :
    textOf c.ssid = textOf b.staged.ssid ↔ Readable (textOf b.staged.ssid) := by
  have ssid : textOf c.ssid = encode (opened b).ssid := carries.ssid
  rw [ssid, ssid_opened valid]
  exact encode_field_iff _

/-- The settings that the form carries are those it was opened with, if the SSID comes back. -/
theorem same_opened {c : NetConfig} (carries : Carries b.staged.password (opened b) c) :
    Same c b.staged ↔ Readable (textOf b.staged.ssid) :=
  ⟨fun same => (ssid_back valid carries).mp same.ssid,
    fun readable => ⟨same_rest valid carries, (ssid_back valid carries).mpr readable⟩⟩

/-- **An unedited form gives the hub its settings back exactly when the SSID is readable**: else
the page or the hub refuses it, or it is for another SSID. -/
theorem unedited_iff {lastState : Option UInt8} (known : lastState ≠ some unprovisioned) :
    (validateSetupForm lastState (opened b) = none ∧
      ∃ c, writeAll b (setupWrites (opened b)) = .ok (handOver b c) ∧ Same c b.staged) ↔
      Readable (textOf b.staged.ssid) := by
  have keptFine := acceptable_of_validate valid
  constructor
  · rintro ⟨fine, c, written, same⟩
    obtain ⟨d, written', carries⟩ := writes_of_fine (clean_opened valid) keptFine fine
    have handed := congrArg Ble.handoff (Except.ok.inj (written.symm.trans written'))
    obtain rfl : c = d := handed
    exact (same_opened valid carries).mp same
  · intro readable
    have fine := fine_opened valid readable known
    obtain ⟨c, written, carries⟩ := writes_of_fine (clean_opened valid) keptFine fine
    exact ⟨fine, c, written, (same_opened valid carries).mpr readable⟩

end Opened

/-! ## The page and the hub, from a client that connects -/

theorem valid_of_current {p : Platform} {w : World} (reached : (machine p).Reachable w)
    (some_ : w.ble.current ≠ zeroed) : validate w.ble.current = .ok :=
  (startable_current reached).resolve_left some_

/-- **Applying the form as it is opened changes nothing**: a client connects to a hub that has
settings for it to start from.  If their SSID is readable, a page that has not been told that there
are none has nothing against the form.  If it has nothing against it, no write is refused in any
session, whatever the hub does in between, and once the last is made what is handed over are the
settings that the client started from, but with another SSID if theirs is not readable. -/
theorem unedited {p : Platform} {w v : World} {con : UInt16} (reached : (machine p).Reachable w)
    (connects : next p w (.ble (.connected con)) = some v) (some_ : w.ble.current ≠ zeroed)
    (lastState : Option UInt8) :
    (lastState ≠ some unprovisioned → Readable (textOf w.ble.current.ssid) →
      validateSetupForm lastState (opened v.ble) = none) ∧
    (validateSetupForm lastState (opened v.ble) = none →
      ∀ gs s, (session p).Run ⟨v, setupWrites (opened v.ble)⟩ gs s →
        (∀ characteristic value rest, s.writes = (characteristic, value) :: rest →
          (applyValue s.hub.ble (handleOf characteristic) value).2 = 0) ∧
        (s.writes = [] → ∃ c, s.hub.history.accepted.getLast? = some (.apply c) ∧
          s.hub.ble.handoffValid = true ∧ SameButSsid c w.ble.current ∧
          (textOf c.ssid = textOf w.ble.current.ssid ↔ Readable (textOf w.ble.current.ssid)) ∧
          (Same c w.ble.current ↔ Readable (textOf w.ble.current.ssid)))) := by
  have started := staged_connected connects
  have valid : validate v.ble.staged = .ok := by
    rw [started]
    exact valid_of_current reached some_
  rw [← started]
  refine ⟨fun known readable => fine_opened valid readable known, fun fine gs s ran => ?_⟩
  obtain ⟨c, written, carries⟩ :=
    writes_of_fine (clean_opened valid) (acceptable_of_validate valid) fine
  have follows : Follows v.ble (opened v.ble) s := by
    refine Machine.run_preserves (P := Follows v.ble (opened v.ble)) ?_ (follows_start v _) ran
    intro u event t follows step
    exact follows_next follows step
  obtain ⟨taken, handed⟩ := follows.writes written
  refine ⟨taken, fun none => ?_⟩
  obtain ⟨-, newest, waiting⟩ := handed none
  exact ⟨c, newest, waiting, same_rest valid carries, ssid_back valid carries,
    same_opened valid carries⟩

/-- The hub has the build's settings and cannot join with them.  The page applies them again. -/
theorem unedited_homeNet : ∃ v gs s c,
    (session homeBuild).Run ⟨v, setupWrites (opened v.ble)⟩ gs s ∧
    s.hub.history.accepted.getLast? = some (.apply c) ∧ textOf c.ssid = bytes "HomeNet" ∧
    c.password = v.ble.staged.password := by
  have computed : (Machine.exec (next homeBuild) (initial blank)
      (List.replicate 15 (.task refused))).any (fun w => decide (w.ble.current ≠ zeroed ∧
        textOf w.ble.current.ssid = bytes "HomeNet" ∧
        (next homeBuild w (.ble (.connected 1))).any (fun v => decide (
          (Machine.exec (sessionNext homeBuild) ⟨v, setupWrites (opened v.ble)⟩
            [written .ssid (bytes "HomeNet"), .task refused, written .host (bytes "192.168.1.100"),
              written .port [0x5B, 0x07], .task refused, written .cmd [cmdApply]]).any
              (fun s => decide (s.writes = [])) = true)) = true)) = true := by
    decide +kernel
  obtain ⟨w, run, some_, ssid, connected⟩ := Machine.exists_run_of_exec computed
  obtain ⟨v, connects, paged⟩ := (Option.any_eq_true ..).mp connected
  obtain ⟨s, ran, done⟩ := Machine.exists_run_of_exec (of_decide_eq_true paged)
  have reached : (machine homeBuild).Reachable w := ⟨_, _, ⟨blank, rfl⟩, run⟩
  have ascii : (bytes "HomeNet").all (fun b => 0xD < b.toNat ∧ b.toNat < 128) = true := by
    decide
  have readable : Readable (textOf w.ble.current.ssid) := by
    rw [ssid]
    exact readable_ascii fun b member => of_decide_eq_true (List.all_eq_true.mp ascii b member)
  obtain ⟨fine, applied⟩ := unedited reached connects some_ none
  obtain ⟨-, last⟩ := applied (fine (by rintro ⟨⟩) readable) _ s ran
  obtain ⟨c, newest, -, -, -, same⟩ := last done
  have same := same.mpr readable
  refine ⟨v, _, s, c, ran, newest, same.ssid.trans ssid, ?_⟩
  rw [same.password, staged_connected connects]

end IrHub.System.Unedited
