/-
# Firmware.BrokerAddress -- the address that is validated and the one connected to

`validate` reads the broker with `parse_ipv4`, `mqtt_start` reads it again with lwIP's
`ip4addr_aton`.  To the first every part is decimal; to the second a part that starts
with `0` is octal.

Settings that get to `mqtt_start` have passed `validate`: they come from the flash, from
the build or from an apply that was accepted (`valid_at_start`).  For them the two agree
exactly when no octet of more than 7 is written with a leading zero
(`broker_address_iff`).
-/
import IrHub.Firmware.Radio
import IrHub.Firmware.Validation

namespace IrHub.Firmware.BrokerAddress

set_option autoImplicit false

open IrHub.Theory IrHub.Theory.Dotted IrHub.Firmware.NetConfig IrHub.Firmware.NetworkTask
open IrHub.Firmware.Commands IrHub.Firmware.Radio IrHub.Firmware.Validation
open IrHub.Firmware.NetConfigFlash (Flash)

/-! ## The `inet_aton` grammar -/

/-- The number that digits write in base eight, if all of them are below it. -/
def octal (digits : List UInt8) : Option Nat :=
  if digits.all (· < 56) then
    some (digits.foldl (fun acc b => 8 * acc + (b.toNat - 48)) 0)
  else none

/-- A part of an address, one to three digits: octal behind a zero, else decimal. -/
def part (digits : List UInt8) : Option UInt8 :=
  ((if digits.head? = some 48 then octal digits else some (value (codes digits))).filter
    (· ≤ 255)).map UInt8.ofNat

/-- One to three digits. -/
def Digits (digits : List UInt8) : Prop :=
  1 ≤ digits.length ∧ digits.length ≤ 3 ∧ ∀ b ∈ digits, isDigit b = true

/-- What `inet_aton` makes of four parts of up to three digits. -/
def InetAton (aton : List UInt8 → Option (List UInt8)) : Prop :=
  ∀ (o : List UInt8) (os : List (List UInt8)), os.length = 3 → (∀ x ∈ o :: os, Digits x) →
    aton (o ++ os.flatMap (46 :: ·)) = (o :: os).mapM part

/-! ## One octet -/

theorem value_codes (digits : List UInt8) :
    value (codes digits) = digits.foldl (fun acc b => 10 * acc + (b.toNat - 48)) 0 := by
  rw [value, codes, List.foldl_map]

theorem digits_of_octet {x : List UInt8} (octet : Octet (codes x)) : Digits x := by
  refine ⟨?_, ?_, ?_⟩
  · have some := octet.nonempty
    rwa [codes_length] at some
  · have short := octet.short
    rwa [codes_length] at short
  · intro b member
    exact (isDigit_iff b).mpr (octet.digits _ (List.mem_map_of_mem member))

theorem digit_bounds {b : UInt8} (digit : isDigit b = true) : 48 ≤ b.toNat ∧ b.toNat ≤ 57 :=
  (isDigit_iff b).mp digit

theorem below_eight (b : UInt8) : b < 56 ↔ b.toNat < 56 := by
  rw [UInt8.lt_iff_toNat_lt]
  rfl

/-- What stands behind the zero: nothing, or one or two digits. -/
theorem digits_behind {x : List UInt8} (digits : Digits x) (zero : x.head? = some 48) :
    x = [48] ∨ (∃ b, x = [48, b] ∧ isDigit b = true) ∨
      ∃ b c, x = [48, b, c] ∧ isDigit b = true ∧ isDigit c = true := by
  obtain ⟨some, short, all⟩ := digits
  match x with
  | [] => cases zero
  | [a] =>
      cases zero
      exact .inl rfl
  | [a, b] =>
      cases zero
      exact .inr (.inl ⟨b, rfl, all b (by simp)⟩)
  | [a, b, c] =>
      cases zero
      exact .inr (.inr ⟨b, c, rfl, all b (by simp), all c (by simp)⟩)
  | a :: b :: c :: d :: rest =>
      simp only [List.length_cons] at short
      omega

/-- Behind a zero the two bases agree on a last digit below eight and on nothing else. -/
theorem octal_iff {x : List UInt8} (digits : Digits x) (zero : x.head? = some 48) :
    octal x = some (value (codes x)) ↔ value (codes x) ≤ 7 := by
  have nought : (48 : UInt8).toNat = 48 := rfl
  rw [value_codes, octal]
  rcases digits_behind digits zero with rfl | ⟨b, rfl, digit⟩ | ⟨b, c, rfl, digit, last⟩
  · simp
  · have bounds := digit_bounds digit
    simp only [List.all_cons, List.all_nil, Bool.and_true, Bool.and_eq_true, decide_eq_true_eq,
      below_eight, List.foldl_cons, List.foldl_nil, nought, Option.ite_none_right_eq_some, and_true]
    constructor <;> intro <;> omega
  · have bounds := digit_bounds digit
    have bounds' := digit_bounds last
    simp only [List.all_cons, List.all_nil, Bool.and_true, Bool.and_eq_true, decide_eq_true_eq,
      below_eight, List.foldl_cons, List.foldl_nil, nought, Option.ite_none_right_eq_some,
      Option.some.injEq]
    omega

/-- Read in base eight, three digits are no more than in base ten. -/
theorem octal_le {x : List UInt8} (digits : Digits x) (zero : x.head? = some 48) {v : Nat}
    (read : octal x = some v) : v ≤ 255 := by
  have nought : (48 : UInt8).toNat = 48 := rfl
  rw [octal, Option.ite_none_right_eq_some] at read
  obtain ⟨-, same⟩ := read
  rcases digits_behind digits zero with rfl | ⟨b, rfl, digit⟩ | ⟨b, c, rfl, digit, last⟩
  · cases same
    decide
  · have bounds := digit_bounds digit
    simp only [List.foldl_cons, List.foldl_nil, nought, Option.some.injEq] at same
    omega
  · have bounds := digit_bounds digit
    have bounds' := digit_bounds last
    simp only [List.foldl_cons, List.foldl_nil, nought, Option.some.injEq] at same
    omega

theorem ofNat_inj {v u : Nat} (left : v ≤ 255) (right : u ≤ 255) :
    UInt8.ofNat v = UInt8.ofNat u ↔ v = u := by
  constructor
  · intro same
    have numbers := congrArg UInt8.toNat same
    rwa [UInt8.toNat_ofNat_of_lt' (Nat.lt_succ_of_le left),
      UInt8.toNat_ofNat_of_lt' (Nat.lt_succ_of_le right)] at numbers
  · exact congrArg UInt8.ofNat

/-- Both readings of one octet. -/
theorem part_iff {x : List UInt8} (octet : Octet (codes x)) :
    part x = some (octetByte x) ↔ (x.head? = some 48 → value (codes x) ≤ 7) := by
  have small := octet.small
  rw [part, octetByte]
  by_cases zero : x.head? = some 48
  · have digits := digits_of_octet octet
    rw [if_pos zero, ← octal_iff digits zero]
    cases read : octal x with
    | none => simp [zero]
    | some v =>
        have fits := octal_le digits zero read
        simp [Option.filter, fits, zero, ofNat_inj fits small]
  · rw [if_neg zero]
    simp [Option.filter, small, zero]

/-! ## The whole address -/

theorem mapM_part {parts : List (List UInt8)} :
    parts.mapM part = some (parts.map octetByte) ↔ ∀ x ∈ parts, part x = some (octetByte x) := by
  induction parts with
  | nil => simp
  | cons x parts ih =>
      rw [List.mapM_cons, List.map_cons, List.forall_mem_cons, ← ih]
      cases part x with
      | none => simp
      | some v => cases parts.mapM part <;> simp

/-- `ip4addr_aton` takes the host for the address `parse_ipv4` takes it for. -/
def Agrees (aton : List UInt8 → Option (List UInt8)) (c : NetConfig) : Prop :=
  ∃ octets, aton (text c.brokerHost) = some octets ∧ parseIpv4 c.brokerHost.toList = some octets

/-- An octet of more than 7 has no leading zero. -/
def NoOctal (c : NetConfig) : Prop :=
  ∀ x ∈ (text c.brokerHost).splitOn 46, x.head? = some 48 → value (codes x) ≤ 7

theorem agrees_iff {aton : List UInt8 → Option (List UInt8)} (grammar : InetAton aton)
    {c : NetConfig} (valid : validate c = .ok) : Agrees aton c ↔ NoOctal c := by
  obtain ⟨-, -, ⟨terminated, address⟩, -⟩ := (validate_iff c).mp valid
  obtain ⟨o, os, parts, three, octets, parsed⟩ := parseIpv4_address address
  obtain ⟨rest, whole⟩ := cstr_append_of_mem terminated
  have read : parseIpv4 c.brokerHost.toList = some ((o :: os).map octetByte) := by
    rw [whole, parseIpv4_nul]
    exact parsed
  rw [Agrees, NoOctal, read, show text c.brokerHost = textOf c.brokerHost from rfl, parts,
    eq_of_splitOn parts, grammar o os three fun x member => digits_of_octet (octets x member)]
  simp only [Option.some.injEq, exists_eq_right', mapM_part]
  exact forall₂_congr fun x member => part_iff (octets x member)

/-! ## What gets to `mqtt_start` -/

/-- The settings in use, if there are any, have passed `validate`. -/
def Valid (h : Held) : Prop := h.haveActive = true → validate h.active = .ok

theorem valid_load (p : Platform) (h : Held) : Valid (h.load p) := by
  intro have_
  unfold Held.load NetConfigFlash.load at have_ ⊢
  dsimp only at have_ ⊢
  cases read : NetConfig.parse h.flash.config.toList with
  | some c => exact validate_of_parse read
  | none =>
      rw [read] at have_
      unfold NetConfigFlash.unstored at have_ ⊢
      dsimp only at have_ ⊢
      cases built : buildDefaults p.defs with
      | none =>
          rw [built] at have_
          cases have_
      | some c => exact validate_of_buildDefaults built

/-- Settings that wait, that are tried and that are in use have passed `validate`. -/
theorem valid_reached {p : Platform} {flash : Flash} {w : World} {es : List Event}
    (run : (machine p).Run (initial flash) es w) :
    Mailbox.Holds (fun c => validate c = .ok) Valid (mailbox p w) := by
  let Posts : Mailbox.State NetConfig Result Bool Held → Mailbox.Event NetConfig Result Bool → Prop :=
    fun _ e => ∀ c, e = .accept (.apply c) → validate c = .ok
  have quiet : ∀ s e, (∀ command, e ≠ .accept command) → Posts s e := by
    rintro _ _ quiet c rfl
    exact absurd rfl (quiet _)
  have accept : ∀ (w : World) e command, True → BleProvision.accepted w.ble e = some command →
      Posts (mailbox p w) (.accept command) := by
    rintro w e command - accepted c same
    cases same
    exact (BleProvision.accepted_apply accepted).2
  have allowed : ((machine p).restrict fun _ _ => True).Run (initial flash) es w :=
    run.restrict fun _ _ _ => trivial
  refine (reached quiet accept (Mailbox.holds_initial (valid_load p _)) ?_ allowed).2
  intro s e t holds posts step
  refine Mailbox.holds_step ?_ ?_ holds posts step
  · intro c result held valid before
    cases result with
    | online fault => exact fun _ => valid
    | reverted => exact before
  · intro eraseFails held _
    exact valid_load p _

/-- **What gets to `mqtt_start` has passed `validate`.** -/
theorem valid_at_start {p : Platform} {w : World} (reached : (machine p).Reachable w) {call : Call}
    (start : w.pc = .mqttStart call) : validate (settings w call) = .ok := by
  obtain ⟨fails, observed⟩ := reached.observed .none count
  obtain ⟨_, es, ⟨flash, rfl⟩, run⟩ := reached
  have holds := valid_reached run
  cases call with
  | main wifiFails mqttFails =>
      have inUse : w.held.haveActive = true :=
        (warranted_reached observed).active (by simp only [start]; rfl)
      have store := holds.store
      simp only [mailbox, start, loading, Bool.false_eq_true, if_false] at store
      exact store inUse
  | commit attempt wifiTries mqttTries =>
      refine holds.trying w.candidate ?_
      simp only [mailbox, start, stageOf, callOf]

/-- **The broker that was validated is the one connected to exactly when** no octet of
more than 7 is written with a leading zero. -/
theorem broker_address_iff {p : Platform} (grammar : InetAton p.aton) {w : World}
    (reached : (machine p).Reachable w) {call : Call} (start : w.pc = .mqttStart call) :
    Agrees p.aton (settings w call) ↔ NoOctal (settings w call) :=
  agrees_iff grammar (valid_at_start reached start)

/-! ## Two builds -/

/-- `inet_aton` on four parts of up to three digits. -/
def fourParts (s : List UInt8) : Option (List UInt8) :=
  let parts := s.splitOn 46
  if parts.length = 4 ∧ parts.all (fun x => 1 ≤ x.length && x.length ≤ 3 && x.all isDigit) then
    parts.mapM part
  else none

theorem inetAton_fourParts : InetAton fourParts := by
  intro o os three digits
  have apart : ∀ x ∈ o :: os, (46 : UInt8) ∉ x := by
    intro x member dot
    exact absurd ((digits x member).2.2 46 dot) (by decide)
  rw [fourParts, splitOn_parts apart]
  refine if_pos ⟨by rw [List.length_cons, three], List.all_eq_true.mpr fun x member => ?_⟩
  obtain ⟨some, short, all⟩ := digits x member
  simp only [some, short, List.all_eq_true.mpr all, decide_true, Bool.and_self]

/-- A build for the broker with some text for its address. -/
def build (host : String) : Platform where
  defs := ⟨bytes "HomeNet", bytes "hunter2hunter2", bytes host, 1883⟩
  binaryClear := true
  aton := fourParts

/-- The main loop gets to `mqtt_start` when the link comes up. -/
def toStart : List Event := steps 5 .down ++ steps 2 .up

/-- `192.168.010.001` passes `validate` as 192.168.10.1, and 192.168.8.1 is connected to. -/
theorem octal_broker : ∃ w call, (machine (build "192.168.010.001")).Reachable w ∧
    w.pc = .mqttStart call ∧ validate (settings w call) = .ok ∧
    parseIpv4 (settings w call).brokerHost.toList = some [192, 168, 10, 1] ∧
    fourParts (text (settings w call).brokerHost) = some [192, 168, 8, 1] ∧
    ¬Agrees (build "192.168.010.001").aton (settings w call) := by
  have computed : (Machine.exec (next (build "192.168.010.001")) (initial blank) toStart).any
      (fun w => decide (w.pc = .mqttStart (.main 0 0) ∧ validate w.held.active = .ok ∧
        parseIpv4 w.held.active.brokerHost.toList = some [192, 168, 10, 1] ∧
        fourParts (text w.held.active.brokerHost) = some [192, 168, 8, 1])) = true := by
    decide +kernel
  obtain ⟨w, run, start, valid, parsed, other⟩ := Machine.exists_run_of_exec computed
  refine ⟨w, .main 0 0, ⟨_, _, ⟨blank, rfl⟩, run⟩, start, valid, parsed, other, ?_⟩
  rintro ⟨octets, taken, read⟩
  rw [show settings w (.main 0 0) = w.held.active from rfl] at taken read
  rw [show (build "192.168.010.001").aton = fourParts from rfl, other] at taken
  rw [parsed, ← taken] at read
  exact absurd read (by decide)

theorem plain_broker : ∃ w call, (machine (build "192.168.1.100")).Reachable w ∧
    w.pc = .mqttStart call ∧ Agrees (build "192.168.1.100").aton (settings w call) := by
  have computed : (Machine.exec (next (build "192.168.1.100")) (initial blank) toStart).any
      (fun w => decide (w.pc = .mqttStart (.main 0 0) ∧
        ∀ x ∈ (text w.held.active.brokerHost).splitOn 46, ¬x.head? = some 48)) = true := by
    decide +kernel
  obtain ⟨w, run, start, noZero⟩ := Machine.exists_run_of_exec computed
  have reached : (machine (build "192.168.1.100")).Reachable w := ⟨_, _, ⟨blank, rfl⟩, run⟩
  refine ⟨w, .main 0 0, reached, start, ?_⟩
  exact (broker_address_iff inetAton_fourParts reached start).mpr fun x member zero =>
    absurd zero (noZero x member)

end IrHub.Firmware.BrokerAddress
