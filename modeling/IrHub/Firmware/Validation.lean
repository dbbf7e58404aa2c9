/-
# Firmware.Validation -- what `validate` accepts

`parse_ipv4` reads its octets digit by digit and stops at the first one it cannot use.
`parseIpv4_iff` shows that it accepts the addresses in dotted decimal and nothing else,
from what one octet, the octets after a dot and the whole string give.  `validate_iff`
puts `validate` in these terms.
-/
import IrHub.Firmware.Secrecy
import IrHub.Theory.Dotted

namespace IrHub.Firmware.Validation

set_option autoImplicit false

open IrHub.Theory IrHub.Theory.Dotted IrHub.Firmware.NetConfig IrHub.Firmware.Secrecy

/-- The codes of bytes. -/
def codes (s : List UInt8) : List Nat := s.map UInt8.toNat

@[simp] theorem codes_length (s : List UInt8) : (codes s).length = s.length := List.length_map _

theorem isDigit_iff (b : UInt8) : isDigit b = true ↔ IsDigit b.toNat := by
  simp only [isDigit, Bool.and_eq_true, decide_eq_true_eq, UInt8.le_iff_toNat_le, IsDigit]
  rfl

/-! ## One octet -/

/-- The digits read are all there are, unless they are too many or too large. -/
theorem ipDigits_eq (s : List UInt8) {digits v : Nat} (few : digits ≤ 3) (small : v ≤ 255) :
    ipDigits digits v s =
      if digits + (s.takeWhile isDigit).length ≤ 3 ∧
          (codes (s.takeWhile isDigit)).foldl (fun acc n => 10 * acc + (n - 48)) v ≤ 255 then
        some (digits + (s.takeWhile isDigit).length,
          (codes (s.takeWhile isDigit)).foldl (fun acc n => 10 * acc + (n - 48)) v,
          s.dropWhile isDigit)
      else none := by
  have grows : ∀ (ds : List Nat) (v : Nat), v ≤ ds.foldl (fun acc n => 10 * acc + (n - 48)) v := by
    intro ds
    induction ds with
    | nil => exact fun v => Nat.le_refl v
    | cons n ds ih =>
        intro v
        have step := ih (10 * v + (n - 48))
        simp only [List.foldl_cons]
        omega
  induction s generalizing digits v with
  | nil => simp [ipDigits, codes, few, small]
  | cons b s ih =>
      rw [ipDigits]
      by_cases digit : isDigit b = true
      · rw [if_pos digit, List.takeWhile_cons_of_pos digit, List.dropWhile_cons_of_pos digit]
        simp only [codes, List.length_cons, List.map_cons, List.foldl_cons] at ih ⊢
        rw [Nat.mul_comm v 10]
        by_cases tooMuch : digits + 1 > 3 ∨ 10 * v + (b.toNat - 48) > 255
        · have least := grows ((s.takeWhile isDigit).map UInt8.toNat) (10 * v + (b.toNat - 48))
          rw [if_pos tooMuch, if_neg (by omega)]
        · rw [if_neg tooMuch, ih (by omega) (by omega)]
          simp only [show digits + 1 + (s.takeWhile isDigit).length =
            digits + ((s.takeWhile isDigit).length + 1) by omega]
      · rw [if_neg digit, List.takeWhile_cons_of_neg digit, List.dropWhile_cons_of_neg digit]
        simp [codes, few, small]

theorem ipDigits_sound {s r : List UInt8} {digits v : Nat}
    (read : ipDigits 0 0 s = some (digits, v, r)) (some : digits ≠ 0) :
    ∃ o, s = o ++ r ∧ Octet (codes o) ∧ v = value (codes o) := by
  rw [ipDigits_eq s (by omega) (by omega)] at read
  split at read
  · rename_i fine
    obtain ⟨rfl, rfl, rfl⟩ := by simpa using read
    refine ⟨s.takeWhile isDigit, List.takeWhile_append_dropWhile.symm, ?_, rfl⟩
    refine ⟨?_, ?_, ?_, fine.2⟩
    · rw [codes_length]
      omega
    · rw [codes_length]
      omega
    · intro n member
      obtain ⟨b, inside, rfl⟩ := List.mem_map.mp member
      exact (isDigit_iff b).mp (List.mem_takeWhile_imp inside)
  · cases read

theorem ipDigits_complete {o r : List UInt8} (octet : Octet (codes o))
    (stops : ∀ b, r.head? = some b → isDigit b = false) :
    ipDigits 0 0 (o ++ r) = some (o.length, value (codes o), r) := by
  have digits : ∀ b ∈ o, isDigit b = true :=
    fun b member => (isDigit_iff b).mpr (octet.digits _ (List.mem_map_of_mem member))
  have none : r.takeWhile isDigit = [] ∧ r.dropWhile isDigit = r := by
    cases r with
    | nil => simp
    | cons b r => simp [stops b rfl]
  have short := octet.short
  rw [codes_length] at short
  rw [ipDigits_eq _ (by omega) (by omega), List.takeWhile_append_of_pos digits,
    List.dropWhile_append_of_pos digits, none.1, none.2, List.append_nil, Nat.zero_add]
  exact if_pos ⟨short, octet.small⟩

theorem length_ne_zero {o : List UInt8} (octet : Octet (codes o)) : o.length ≠ 0 := by
  have nonempty := octet.nonempty
  rw [codes_length] at nonempty
  omega

/-! ## The octets -/

/-- What is stored of an octet. -/
def octetByte (o : List UInt8) : UInt8 := UInt8.ofNat (value (codes o))

theorem octetByte_eq_zero {o : List UInt8} (octet : Octet (codes o)) :
    octetByte o = 0 ↔ value (codes o) = 0 := by
  have small := octet.small
  have whole : (octetByte o).toNat = value (codes o) :=
    UInt8.toNat_ofNat_of_lt' (Nat.lt_of_le_of_lt small (by decide))
  rw [← UInt8.toNat_inj, whole]
  rfl

/-- An octet ends where the others begin. -/
theorem stops_parts (os : List (List UInt8)) :
    ∀ b, (os.flatMap (46 :: ·)).head? = some b → isDigit b = false := by
  intro b first
  cases os with
  | nil => cases first
  | cons o os =>
      obtain rfl := by simpa using first
      decide

/-- The octets after the first, each behind its dot. -/
theorem ipParts_sound {parts : Nat} {tmp s after r : List UInt8} (later : tmp ≠ [])
    (read : ipParts parts tmp s = some (after, r)) :
    ∃ os : List (List UInt8), os.length = parts ∧ s = os.flatMap (46 :: ·) ++ r ∧
      (∀ o ∈ os, Octet (codes o)) ∧ after = tmp ++ os.map octetByte := by
  induction parts generalizing tmp s with
  | zero =>
      obtain ⟨rfl, rfl⟩ := by simpa [ipParts] using read
      exact ⟨[], rfl, rfl, by simp, by simp⟩
  | succ parts ih =>
      have notFirst : (tmp == []) = false := by simpa using later
      simp only [ipParts, notFirst, ipDot, Option.bind_eq_bind, Option.bind_eq_some_iff] at read
      obtain ⟨t, dot, ⟨digits, v, u⟩, octet, read⟩ := read
      split at read
      · cases read
      · rename_i some
        obtain ⟨o, rfl, fine, rfl⟩ := ipDigits_sound octet some
        obtain ⟨os, rfl, rfl, octets, rfl⟩ := ih (by simp) read
        have head : s = 46 :: (o ++ (os.flatMap (46 :: ·) ++ r)) := by
          cases s with
          | nil => simp at dot
          | cons b s => simpa using dot
        refine ⟨o :: os, rfl, by simp [head], ?_, by simp [octetByte]⟩
        intro x member
        rcases List.mem_cons.mp member with rfl | member
        · exact fine
        · exact octets x member

theorem ipParts_complete {os : List (List UInt8)} {tmp : List UInt8} (later : tmp ≠ [])
    (octets : ∀ o ∈ os, Octet (codes o)) :
    ipParts os.length tmp (os.flatMap (46 :: ·)) = some (tmp ++ os.map octetByte, []) := by
  induction os generalizing tmp with
  | nil => simp [ipParts]
  | cons o os ih =>
      have octet := octets o List.mem_cons_self
      have notFirst : (tmp == []) = false := by simpa using later
      rw [List.length_cons, ipParts, notFirst, List.flatMap_cons, List.cons_append]
      simp only [ipDot, List.head?_cons, List.tail_cons, Bool.false_eq_true, if_false, if_true,
        Option.bind_eq_bind, Option.bind_some, ipDigits_complete octet (stops_parts os),
        if_neg (length_ne_zero octet)]
      rw [ih (by simp) fun x member => octets x (List.mem_cons_of_mem _ member)]
      simp [octetByte]

/-! ## The address -/

theorem codes_parts (o : List UInt8) (os : List (List UInt8)) :
    codes (o ++ os.flatMap (46 :: ·)) = codes o ++ (os.map codes).flatMap (46 :: ·) := by
  simp only [codes, List.map_append, List.map_flatMap, List.flatMap_map]
  rfl

theorem foldl_or_eq_zero {tmp : List UInt8} {acc : UInt8} :
    tmp.foldl (· ||| ·) acc = 0 ↔ acc = 0 ∧ ∀ b ∈ tmp, b = 0 := by
  induction tmp generalizing acc with
  | nil => simp
  | cons b tmp ih =>
      rw [List.foldl_cons, ih, UInt8.or_eq_zero_iff]
      simp [and_assoc]

/-- The check against `0.0.0.0`. -/
theorem zero_iff {os : List (List UInt8)} (octets : ∀ o ∈ os, Octet (codes o)) :
    (os.map octetByte).foldl (· ||| ·) 0 = 0 ↔ ¬∃ x ∈ os.map codes, value x ≠ 0 := by
  rw [foldl_or_eq_zero]
  constructor
  · rintro ⟨-, zero⟩ ⟨x, member, nonzero⟩
    obtain ⟨o, inside, rfl⟩ := List.mem_map.mp member
    exact nonzero ((octetByte_eq_zero (octets o inside)).mp
      (zero _ (List.mem_map_of_mem inside)))
  · intro none
    refine ⟨rfl, ?_⟩
    intro b member
    obtain ⟨o, inside, rfl⟩ := List.mem_map.mp member
    refine (octetByte_eq_zero (octets o inside)).mpr ?_
    by_contra nonzero
    exact none ⟨codes o, List.mem_map_of_mem inside, nonzero⟩

/-- All of `parse_ipv4` but what is left over and the check against `0.0.0.0`. -/
theorem ipParts_four {s tmp r : List UInt8} (read : ipParts 4 [] s = some (tmp, r)) :
    ∃ (o : List UInt8) (os : List (List UInt8)), s = o ++ os.flatMap (46 :: ·) ++ r ∧
      os.length = 3 ∧ (∀ x ∈ o :: os, Octet (codes x)) ∧ tmp = (o :: os).map octetByte := by
  rw [ipParts] at read
  simp only [beq_self_eq_true, ipDot, if_true, Option.bind_eq_bind, Option.bind_some,
    Option.bind_eq_some_iff] at read
  obtain ⟨⟨digits, v, t⟩, first, read⟩ := read
  split at read
  · cases read
  · rename_i some
    obtain ⟨o, rfl, octet, rfl⟩ := ipDigits_sound first some
    obtain ⟨os, three, rfl, octets, rfl⟩ := ipParts_sound (by simp) read
    refine ⟨o, os, by simp, three, ?_, by simp [octetByte]⟩
    intro x member
    rcases List.mem_cons.mp member with rfl | member
    · exact octet
    · exact octets x member

theorem ipParts_address {o : List UInt8} {os : List (List UInt8)} (three : os.length = 3)
    (octets : ∀ x ∈ o :: os, Octet (codes x)) :
    ipParts 4 [] (o ++ os.flatMap (46 :: ·)) = some ((o :: os).map octetByte, []) := by
  have octet := octets o List.mem_cons_self
  have later : [octetByte o] ≠ [] := List.cons_ne_nil _ _
  have rest := ipParts_complete later fun x member => octets x (List.mem_cons_of_mem _ member)
  rw [three] at rest
  rw [ipParts]
  simp only [beq_self_eq_true, ipDot, if_true, Option.bind_eq_bind, Option.bind_some,
    ipDigits_complete octet (stops_parts os), if_neg (length_ne_zero octet), List.nil_append]
  exact rest

/-- The parts of an address, and what `parse_ipv4` makes of them. -/
theorem parseIpv4_address {s : List UInt8} (address : Address (codes s)) :
    ∃ o os, s.splitOn 46 = o :: os ∧ os.length = 3 ∧ (∀ x ∈ o :: os, Octet (codes x)) ∧
      parseIpv4 s = some ((o :: os).map octetByte) := by
  obtain ⟨four, octets, nonzero⟩ := address
  have split : (codes s).splitOn 46 = (s.splitOn 46).map codes :=
    splitOn_map (fun _ _ => UInt8.toNat_inj.mp) 46 s
  cases parts : s.splitOn 46 with
  | nil => exact absurd parts (List.splitOn_ne_nil 46 s)
  | cons o os =>
      rw [split, parts] at four octets nonzero
      have three : os.length = 3 := by simpa using four
      have octets : ∀ x ∈ o :: os, Octet (codes x) :=
        fun x member => octets _ (List.mem_map_of_mem member)
      have notZero := mt (zero_iff octets).mp (not_not.mpr nonzero)
      refine ⟨o, os, rfl, three, octets, ?_⟩
      rw [eq_of_splitOn parts]
      simp only [parseIpv4, Option.bind_eq_bind, ipParts_address three octets,
        Option.bind_some, if_neg notZero]
      simp

/-- **What `parse_ipv4` accepts**: dotted decimal. -/
theorem parseIpv4_iff {s : List UInt8} (clean : 0 ∉ s) :
    parseIpv4 s ≠ none ↔ Address (codes s) := by
  constructor
  · intro accepted
    simp only [parseIpv4, Option.bind_eq_bind] at accepted
    cases read : ipParts 4 [] s with
    | none => exact absurd (by rw [read]; rfl) accepted
    | some parts =>
        obtain ⟨tmp, r⟩ := parts
        rw [read, Option.bind_some] at accepted
        obtain ⟨o, os, rfl, three, octets, rfl⟩ := ipParts_four read
        have done : r = [] := by
          cases r with
          | nil => rfl
          | cons b r =>
              have text : b ≠ 0 := by
                rintro rfl
                simp at clean
              simp [text] at accepted
        subst done
        by_cases zero : ((o :: os).map octetByte).foldl (· ||| ·) 0 = 0
        · simp only [if_pos zero] at accepted
          simp at accepted
        · rw [zero_iff octets, not_not, List.map_cons] at zero
          rw [List.append_nil, codes_parts]
          refine (address_iff ?_ (by rw [List.length_map, three])).mpr zero
          intro x member
          rw [← List.map_cons, List.mem_map] at member
          obtain ⟨y, inside, rfl⟩ := member
          exact octets y inside
  · intro address
    obtain ⟨o, os, -, -, -, parsed⟩ := parseIpv4_address address
    rw [parsed]
    exact Option.some_ne_none _

/-! ## The settings -/

/-- The C string in an array. -/
def textOf {n : Nat} (s : Chars n) : List UInt8 := cstr s.toList

theorem boundedLen_eq {n : Nat} {s : Chars n} (terminated : Terminated s) :
    boundedLen s = some (textOf s).length := if_pos terminated

theorem boundedLen_none {n : Nat} {s : Chars n} (open_ : ¬Terminated s) : boundedLen s = none :=
  if_neg open_

theorem parseIpv4_text {n : Nat} {s : Chars n} (terminated : Terminated s) :
    parseIpv4 s.toList ≠ none ↔ Address (codes (textOf s)) := by
  obtain ⟨rest, shape⟩ := cstr_append_of_mem terminated
  rw [shape, parseIpv4_nul]
  exact parseIpv4_iff (nul_not_mem_cstr s.toList)

theorem acceptable_iff (s : Chars (passMax + 1)) : Acceptable s ↔
    Terminated s ∧ ((textOf s).length ≠ 0 → passMin ≤ (textOf s).length ∧
      (textOf s).length ≤ passMax) := by
  constructor
  · rintro ⟨n, length, fine⟩
    have terminated : Terminated s := by
      by_contra open_
      rw [boundedLen_none open_] at length
      cases length
    rw [boundedLen_eq terminated, Option.some.injEq] at length
    refine ⟨terminated, ?_⟩
    omega
  · rintro ⟨terminated, fine⟩
    refine ⟨_, boundedLen_eq terminated, ?_⟩
    omega

/-- **What `validate` accepts.** -/
theorem validate_iff (c : NetConfig) : validate c = .ok ↔
    (Terminated c.ssid ∧ 1 ≤ (textOf c.ssid).length ∧ (textOf c.ssid).length ≤ ssidMax) ∧
    Acceptable c.password ∧
    (Terminated c.brokerHost ∧ Address (codes (textOf c.brokerHost))) ∧
    c.brokerPort ≠ 0 := by
  constructor
  · intro valid
    obtain ⟨ssid, -, host⟩ := terminated_of_validate valid
    unfold validate at valid
    rw [boundedLen_eq ssid, boundedLen_eq host] at valid
    dsimp only at valid
    split at valid
    · cases valid
    · rename_i ssidFits
      split at valid
      · cases valid
      · rename_i n length
        split at valid
        · cases valid
        · rename_i passFits
          split at valid
          · cases valid
          · rename_i isHost
            split at valid
            · cases valid
            · rename_i port
              have address := (parseIpv4_text host).mp fun none => isHost (.inr none)
              exact ⟨⟨ssid, by omega, by omega⟩, ⟨n, length, passFits⟩, ⟨host, address⟩, port⟩
  · rintro ⟨⟨ssid, some, fits⟩, ⟨n, length, passFits⟩, ⟨host, address⟩, port⟩
    have isHost : ¬((textOf c.brokerHost).length = 0 ∨ parseIpv4 c.brokerHost.toList = none) := by
      rintro (empty | none)
      · obtain ⟨o, os, shape, three, -⟩ := address.parts
        rw [List.length_eq_zero_iff.mp empty] at shape
        obtain ⟨-, gone⟩ := List.append_eq_nil_iff.mp shape.symm
        obtain ⟨x, y, z, rfl⟩ := List.length_eq_three.mp three
        cases gone
      · exact (parseIpv4_text host).mpr address none
    unfold validate
    rw [boundedLen_eq ssid, boundedLen_eq host, length]
    simp only [if_neg (show ¬((textOf c.ssid).length = 0 ∨ ssidMax < (textOf c.ssid).length) by
      omega), if_neg passFits, if_neg isHost, if_neg port]

end IrHub.Firmware.Validation
