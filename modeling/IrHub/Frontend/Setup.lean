/-
# Frontend.Setup -- the form of the setup page

`validateSetupForm` and the writes of `setupApply`, for the values the fields have while
the writes are made.  A text field holds any string of UTF-16 units.

`validateSetupForm_iff` says what a form without a problem is.
-/
import IrHub.Theory.Buffer
import IrHub.Theory.Dotted
import IrHub.Theory.Utf16
import IrHub.Theory.Utf8
import Mathlib.Data.Rat.Defs

namespace IrHub.Frontend.Setup

set_option autoImplicit false

open IrHub.Theory IrHub.Theory.Dotted IrHub.Theory.Utf16

/-! ## Numbers -/

/-- A Number.  Every finite double is a rational. -/
inductive Number where
  | nan
  | infinity (negative : Bool)
  | finite (q : Rat)
  deriving DecidableEq

/-- `x < y` -/
def Number.lt : Number → Number → Bool
  | .finite p, .finite q => p < q
  | .finite _, .infinity negative => !negative
  | .infinity negative, .finite _ => negative
  | .infinity negative, .infinity negative' => negative && !negative'
  | _, _ => false

/-- `Number.isInteger` -/
def Number.isInteger : Number → Bool
  | .finite q => q.den = 1
  | _ => false

/-- The number as an unsigned integer of 16 bits. -/
def Number.toUint16 : Number → UInt16
  | .finite q => UInt16.ofInt (q.num.tdiv q.den)
  | _ => 0

/-! ## The form -/

/-- `port` is what `Number` makes of the text in its field. -/
structure Form where
  ssid : List UInt16
  password : List UInt16
  openNetwork : Bool
  host : List UInt16
  port : Number

/-- `PROV_STATE.UNPROVISIONED` -/
def unprovisioned : UInt8 := 0

def byteLength (s : List UInt16) : Nat := (encode s).length

def isDigitUnit (u : UInt16) : Bool := 48 ≤ u && u ≤ 57

/-- `/^\d{1,3}$/.test(o)` -/
def isOctet (o : List UInt16) : Bool := 1 ≤ o.length && o.length ≤ 3 && o.all isDigitUnit

/-- `Number(o)` for digits. -/
def number (o : List UInt16) : Nat := o.foldl (fun acc u => 10 * acc + (u.toNat - 48)) 0

/-- The check of the broker's address. -/
def ipv4 (host : List UInt16) : Bool :=
  let octets := host.splitOn 46
  octets.length == 4 && octets.all (fun o => isOctet o && number o ≤ 255) &&
    octets.any (fun o => number o != 0)

/-- `validateSetupForm`, where `lastState` is that of `setup`. -/
def validateSetupForm (lastState : Option UInt8) (form : Form) : Option String :=
  let ssidLen := byteLength form.ssid
  let passLen := byteLength form.password
  if ssidLen < 1 ∨ ssidLen > 32 then some "The SSID must be 1–32 bytes."
  else if ¬form.openNetwork ∧ passLen = 0 ∧ lastState = some unprovisioned then
    some "Enter the Wi-Fi password, or tick \"Open network\"."
  else if ¬form.openNetwork ∧ passLen ≠ 0 ∧ (passLen < 8 ∨ passLen > 63) then
    some "A WPA2 password is 8–63 characters."
  else if ¬ipv4 (trim form.host) then
    some "The broker must be an IPv4 address such as 192.168.1.100."
  else if ¬form.port.isInteger ∨ form.port.lt (.finite 1) ∨ Number.lt (.finite 65535) form.port then
    some "The port must be 1–65535."
  else none

/-! ## The writes -/

/-- The keys of `PROV.chars` that are written. -/
inductive Characteristic where
  | ssid
  | password
  | host
  | port
  | command
  deriving DecidableEq, Repr

abbrev Write := Characteristic × List UInt8

/-- `PROV.CMD_APPLY` -/
def cmdApply : UInt8 := 0x01

/-- Not writing the password keeps the one of the hub. -/
def passwordWrites (form : Form) : List Write :=
  if form.openNetwork then [(.password, [])]
  else if form.password ≠ [] then [(.password, encode form.password)]
  else []

/-- The writes of `setupApply`, in order. -/
def setupWrites (form : Form) : List Write :=
  (.ssid, encode form.ssid) :: passwordWrites form ++
    [(.host, encode (trim form.host)), (.port, put16 form.port.toUint16),
      (.command, [cmdApply])]

/-! ## The fields before they are edited -/

/-- What a text field holds of a value that is set: it drops line breaks. -/
def fieldValue (s : List UInt16) : List UInt16 := s.filter fun u => u ≠ 0xA ∧ u ≠ 0xD

/-- The fields that `setupFind` fills from the characteristics. -/
def setupFields (ssid host port : List UInt8) : Form where
  ssid := fieldValue (Utf8.decode ssid)
  password := []
  openNetwork := false
  host := fieldValue (Utf8.decode host)
  port := .finite (if get16 port = 0 then 1883 else (get16 port).toNat)

/-! ## A form without a problem -/

/-- The codes of units. -/
def units (s : List UInt16) : List Nat := s.map UInt16.toNat

@[simp] theorem units_length (s : List UInt16) : (units s).length = s.length := List.length_map _

theorem isDigitUnit_iff (u : UInt16) : isDigitUnit u = true ↔ IsDigit u.toNat := by
  simp only [isDigitUnit, Bool.and_eq_true, decide_eq_true_eq, UInt16.le_iff_toNat_le, IsDigit]
  rfl

theorem number_eq (o : List UInt16) : number o = value (units o) := by
  simp only [number, value, units, List.foldl_map]

theorem isOctet_iff (o : List UInt16) :
    isOctet o = true ∧ number o ≤ 255 ↔ Octet (units o) := by
  simp only [isOctet, number_eq, Bool.and_eq_true, decide_eq_true_eq, List.all_eq_true,
    isDigitUnit_iff]
  constructor
  · rintro ⟨⟨⟨nonempty, short⟩, digits⟩, small⟩
    refine ⟨?_, ?_, ?_, small⟩
    · rw [units_length]
      exact nonempty
    · rw [units_length]
      exact short
    · intro n member
      obtain ⟨u, inside, rfl⟩ := List.mem_map.mp member
      exact digits u inside
  · rintro ⟨nonempty, short, digits, small⟩
    rw [units_length] at nonempty short
    exact ⟨⟨⟨nonempty, short⟩, fun u inside => digits _ (List.mem_map_of_mem inside)⟩, small⟩

/-- The page takes the addresses in dotted decimal, and nothing else. -/
theorem ipv4_iff (host : List UInt16) : ipv4 host = true ↔ Address (units host) := by
  have split : (units host).splitOn 46 = (host.splitOn 46).map units :=
    splitOn_map (fun _ _ => UInt16.toNat_inj.mp) 46 host
  simp only [ipv4, Bool.and_eq_true, beq_iff_eq, List.all_eq_true, List.any_eq_true, bne_iff_ne,
    decide_eq_true_eq, isOctet_iff]
  constructor
  · rintro ⟨⟨four, octets⟩, o, member, nonzero⟩
    rw [number_eq] at nonzero
    refine ⟨by rw [split, List.length_map, four], ?_, units o, ?_, nonzero⟩
    · intro x inside
      rw [split, List.mem_map] at inside
      obtain ⟨p, part, rfl⟩ := inside
      exact octets p part
    · rw [split]
      exact List.mem_map_of_mem member
  · rintro ⟨four, octets, x, inside, nonzero⟩
    rw [split] at four octets inside
    obtain ⟨o, member, rfl⟩ := List.mem_map.mp inside
    rw [← number_eq] at nonzero
    exact ⟨⟨by simpa using four, fun p part => octets _ (List.mem_map_of_mem part)⟩, o, member,
      nonzero⟩

theorem port_iff (port : Number) :
    ¬(¬port.isInteger ∨ port.lt (.finite 1) ∨ Number.lt (.finite 65535) port) ↔
      ∃ n : Nat, 1 ≤ n ∧ n ≤ 65535 ∧ port = .finite n := by
  cases port with
  | nan => simp [Number.isInteger]
  | infinity negative => simp [Number.isInteger]
  | finite q =>
      simp only [Number.isInteger, Number.lt, decide_eq_true_eq, not_or, not_not, not_lt,
        Number.finite.injEq]
      constructor
      · rintro ⟨integer, least, most⟩
        have whole : q = (q.num : Rat) := (Rat.den_eq_one_iff q).mp integer |>.symm
        have bounds : 1 ≤ q.num ∧ q.num ≤ 65535 := by
          rw [whole] at least most
          exact ⟨by exact_mod_cast least, by exact_mod_cast most⟩
        obtain ⟨n, same⟩ := Int.eq_ofNat_of_zero_le (show 0 ≤ q.num by omega)
        refine ⟨n, by omega, by omega, ?_⟩
        rw [whole, same]
        rfl
      · rintro ⟨n, least, most, rfl⟩
        exact ⟨Rat.den_natCast n, by exact_mod_cast least, by exact_mod_cast most⟩

theorem toUint16_nat (n : Nat) : (Number.finite n).toUint16 = UInt16.ofNat n := by
  have whole : ((n : Rat).num.tdiv (n : Rat).den) = (n : Int) := by simp
  have low : ((n : Int) % 2 ^ 16).toNat = n % 2 ^ 16 := by omega
  rw [Number.toUint16, whole, UInt16.ofInt, low, UInt16.ofNat_mod_size]

theorem problem_eq_none {p : Prop} [Decidable p] {problem : String} {rest : Option String} :
    (if p then some problem else rest) = none ↔ ¬p ∧ rest = none := by
  split <;> simp [*]

/-- **A form without a problem.** -/
theorem validateSetupForm_iff (lastState : Option UInt8) (form : Form) :
    validateSetupForm lastState form = none ↔
      (1 ≤ byteLength form.ssid ∧ byteLength form.ssid ≤ 32) ∧
      (form.openNetwork = true ∨
        (byteLength form.password = 0 → lastState ≠ some unprovisioned) ∧
        (byteLength form.password ≠ 0 →
          8 ≤ byteLength form.password ∧ byteLength form.password ≤ 63)) ∧
      Address (units (trim form.host)) ∧
      ∃ n : Nat, 1 ≤ n ∧ n ≤ 65535 ∧ form.port = .finite n := by
  rw [← ipv4_iff, ← port_iff]
  simp only [validateSetupForm, problem_eq_none, not_not, and_true]
  constructor
  · rintro ⟨ssid, missing, wrong, host, port⟩
    refine ⟨by omega, ?_, host, port⟩
    by_cases open_ : form.openNetwork = true
    · exact .inl open_
    · refine .inr ⟨fun empty fresh => missing ⟨open_, empty, fresh⟩, fun typed => ?_⟩
      have fits : ¬(byteLength form.password < 8 ∨ byteLength form.password > 63) :=
        fun bad => wrong ⟨open_, typed, bad⟩
      omega
  · rintro ⟨ssid, password, host, port⟩
    refine ⟨by omega, ?_, ?_, host, port⟩
    · rintro ⟨closed, empty, fresh⟩
      rcases password with open_ | ⟨known, -⟩
      · exact closed open_
      · exact known empty fresh
    · rintro ⟨closed, typed, bad⟩
      rcases password with open_ | ⟨-, fits⟩
      · exact closed open_
      · have bounds := fits typed
        omega

end IrHub.Frontend.Setup
