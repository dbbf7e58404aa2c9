/-
# Firmware.NetConfig -- `net_config.cpp`: the network settings and their flash record

The three text fields are `char` arrays, so their lengths are part of the type;
what a field says is the C string in it.  `serialize` lays the record out byte by
byte and `parse` reads it back, checking magic, version, size, CRC and `validate`.

`serialize_eq` shows the page as its segments, and `parse_serialize` is the round
trip: the settings come back with every field zero-filled after its NUL.  The page
is a canonical form of the strings and the port (`flash_record_canonical`).
-/
import IrHub.Theory.Buffer
import IrHub.Theory.CLibrary
import Mathlib.Data.Vector.Basic

namespace IrHub.Firmware.NetConfig

set_option autoImplicit false
set_option linter.dupNamespace false

open IrHub.Theory

/-- `SSID_MAX` -/
def ssidMax : Nat := 32

/-- `PASS_MAX` -/
def passMax : Nat := 63

/-- `PASS_MIN` -/
def passMin : Nat := 8

/-- `HOST_MAX` -/
def hostMax : Nat := 63

/-- A `char` array of a fixed size. -/
abbrev Chars (n : Nat) := List.Vector UInt8 n

structure NetConfig where
  ssid : Chars (ssidMax + 1)
  password : Chars (passMax + 1)
  brokerHost : Chars (hostMax + 1)
  brokerPort : UInt16
  deriving DecidableEq

/-- `Source` -/
inductive Source where
  | none
  | buildDefaults
  | flash
  deriving DecidableEq, Repr

/-- `Invalid`, in the order of its values. -/
inductive Invalid where
  | ok
  | ssid
  | password
  | host
  | port
  deriving DecidableEq, Repr

/-! ## Validation -/

/-- `bounded_len`: the place of the NUL, `none` when there is none. -/
def boundedLen {n : Nat} (s : Chars n) : Option Nat :=
  if 0 ∈ s.toList then some (cstr s.toList).length else none

/-- The digits of one part of an address, `digits` of them read so far with value
`v`: how many there are, their value and the rest. -/
def ipDigits : Nat → Nat → List UInt8 → Option (Nat × Nat × List UInt8)
  | digits, v, [] => some (digits, v, [])
  | digits, v, b :: s =>
      if isDigit b then
        if digits + 1 > 3 ∨ v * 10 + (b.toNat - 48) > 255 then none
        else ipDigits (digits + 1) (v * 10 + (b.toNat - 48)) s
      else some (digits, v, b :: s)

/-- The dot before every part but the first. -/
def ipDot (first : Bool) (s : List UInt8) : Option (List UInt8) :=
  if first then some s else if s.head? = some 46 then some s.tail else none

/-- The parts still to come, after those in `tmp`. -/
def ipParts : Nat → List UInt8 → List UInt8 → Option (List UInt8 × List UInt8)
  | 0, tmp, s => some (tmp, s)
  | parts + 1, tmp, s => do
      let s ← ipDot (tmp == []) s
      let (digits, v, s) ← ipDigits 0 0 s
      if digits = 0 then none else ipParts parts (tmp ++ [UInt8.ofNat v]) s

/-- `parse_ipv4` on a C string: the four octets. -/
def parseIpv4 (s : List UInt8) : Option (List UInt8) := do
  let (tmp, s) ← ipParts 4 [] s
  if s ≠ [] ∧ s.head? ≠ some 0 then none
  else if tmp.foldl (· ||| ·) 0 = 0 then none
  else some tmp

/-- `validate` -/
def validate (c : NetConfig) : Invalid :=
  match boundedLen c.ssid with
  | none => .ssid
  | some n =>
      if n = 0 ∨ ssidMax < n then .ssid
      else
        match boundedLen c.password with
        | none => .password
        | some n =>
            if passMax < n ∨ (n ≠ 0 ∧ n < passMin) then .password
            else
              match boundedLen c.brokerHost with
              | none => .host
              | some n =>
                  if n = 0 ∨ parseIpv4 c.brokerHost.toList = none then .host
                  else if c.brokerPort = 0 then .port
                  else .ok

/-! ## The CRC -/

/-- One turn of the inner loop of `crc32`. -/
def crcBit (crc : UInt32) : UInt32 := (crc >>> 1) ^^^ (0xEDB88320 &&& (0 - (crc &&& 1)))

/-- One byte. -/
def crcByte (crc : UInt32) (b : UInt8) : UInt32 := Nat.iterate crcBit 8 (crc ^^^ b.toUInt32)

/-- `crc32` -/
def crc32 (data : List UInt8) : UInt32 := ~~~(data.foldl crcByte 0xFFFFFFFF)

/-! ## The record -/

/-- `MAGIC` -/
def magic : UInt32 := 0x434E5249

/-- `VERSION` -/
def version : UInt16 := 1

def offSsid : Nat := 8
def offPass : Nat := offSsid + ssidMax + 1
def offHost : Nat := offPass + passMax + 1
def offPort : Nat := offHost + hostMax + 1
def offCrc : Nat := offPort + 2

/-- `RECORD_USED` -/
def recordUsed : Nat := offCrc + 4

/-- `PAYLOAD_SIZE` -/
def payloadSize : UInt16 := UInt16.ofNat (offCrc - offSsid)

/-- `RECORD_BYTES` -/
def recordBytes : Nat := 256

/-- What `strncpy(.., s, n)` writes: the C string, cut or zero-filled to `n`. -/
def strncpyFill (n : Nat) (s : List UInt8) : List UInt8 :=
  strncpy n s ++ List.replicate (n - (strncpy n s).length) 0

/-- The page before its CRC is put in. -/
def writeFields (c : NetConfig) (page : List UInt8) : List UInt8 :=
  let page := writeAt page 0 (List.replicate recordBytes 0xFF)
  let page := writeAt page 0 (put32 magic)
  let page := writeAt page 4 (put16 version)
  let page := writeAt page 6 (put16 payloadSize)
  let page := writeAt page offSsid (List.replicate (offPort - offSsid) 0)
  let page := writeAt page offSsid (strncpyFill ssidMax c.ssid.toList)
  let page := writeAt page offPass (strncpyFill passMax c.password.toList)
  let page := writeAt page offHost (strncpyFill hostMax c.brokerHost.toList)
  writeAt page offPort (put16 c.brokerPort)

/-- `serialize`: the page written over `page`, `none` where it returns 0. -/
def serialize (c : NetConfig) (page : List UInt8) : Option (List UInt8) :=
  if page.length < recordBytes then none
  else
    let page := writeFields c page
    some (writeAt page offCrc (put32 (crc32 (slice page 0 offCrc))))

/-- A field of the record. -/
def fieldAt {page : List UInt8} (long : recordUsed ≤ page.length) (off n : Nat)
    (inside : off + n ≤ recordUsed) : Chars n :=
  ⟨slice page off n, slice_length (Nat.le_trans inside long)⟩

/-- The settings in a record, unchecked. -/
def fields {page : List UInt8} (long : recordUsed ≤ page.length) : NetConfig where
  ssid := fieldAt long offSsid (ssidMax + 1) (by decide)
  password := fieldAt long offPass (passMax + 1) (by decide)
  brokerHost := fieldAt long offHost (hostMax + 1) (by decide)
  brokerPort := get16 (page.drop offPort)

/-- `parse` -/
def parse (page : List UInt8) : Option NetConfig :=
  if long : recordUsed ≤ page.length then
    if get32 page ≠ magic then none
    else if get16 (page.drop 4) ≠ version then none
    else if get16 (page.drop 6) ≠ payloadSize then none
    else if get32 (page.drop offCrc) ≠ crc32 (slice page 0 offCrc) then none
    else if validate (fields long) ≠ .ok then none
    else some (fields long)
  else none

/-! ## Build defaults -/

/-- The values of the compile definitions, the texts without their NUL. -/
structure BuildDefinitions where
  wifiSsid : List UInt8
  wifiPassword : List UInt8
  mqttBrokerIp : List UInt8
  mqttBrokerPort : Int

/-- `strcpy` into a zeroed array. -/
def strcpyZeroed {n : Nat} (s : List UInt8) (fits : s.length ≤ n) : Chars (n + 1) :=
  ⟨s ++ List.replicate (n + 1 - s.length) 0, by simp; omega⟩

/-- `build_defaults` -/
def buildDefaults (d : BuildDefinitions) : Option NetConfig :=
  if d.wifiSsid = [] ∨ d.wifiSsid = bytes "YOUR_WIFI_SSID" then none
  else if fits : d.wifiSsid.length ≤ ssidMax ∧ d.wifiPassword.length ≤ passMax ∧
      d.mqttBrokerIp.length ≤ hostMax then
    let c : NetConfig := {
      ssid := strcpyZeroed d.wifiSsid fits.1
      password := strcpyZeroed d.wifiPassword fits.2.1
      brokerHost := strcpyZeroed d.mqttBrokerIp fits.2.2
      brokerPort := UInt16.ofInt d.mqttBrokerPort }
    if validate c ≠ .ok then none else some c
  else none

/-! ## The layout -/

theorem strncpyFill_length (n : Nat) (s : List UInt8) : (strncpyFill n s).length = n := by
  have short : (strncpy n s).length ≤ n := List.length_take_le n (cstr s)
  rw [strncpyFill, List.length_append, List.length_replicate]
  omega

/-- The bytes the CRC covers. -/
def payload (c : NetConfig) : List UInt8 :=
  put32 magic ++ put16 version ++ put16 payloadSize ++
    strncpyFill ssidMax c.ssid.toList ++ [0] ++ strncpyFill passMax c.password.toList ++ [0] ++
    strncpyFill hostMax c.brokerHost.toList ++ [0] ++ put16 c.brokerPort

theorem payload_length (c : NetConfig) : (payload c).length = offCrc := by
  simp only [payload, List.length_append, strncpyFill_length, put32_length, put16_length]
  rfl

theorem writeFields_eq (c : NetConfig) {page : List UInt8} (long : recordBytes ≤ page.length) :
    writeFields c page = payload c ++ (List.replicate 4 0xFF ++
      (List.replicate 81 0xFF ++ page.drop recordBytes)) := by
  have erased : List.replicate recordBytes (0xFF : UInt8) =
      List.replicate 4 0xFF ++ (List.replicate 2 0xFF ++ (List.replicate 2 0xFF ++
        (List.replicate 161 0xFF ++ (List.replicate 2 0xFF ++ (List.replicate 4 0xFF ++
          List.replicate 81 0xFF))))) := by
    rw [show recordBytes = 4 + (2 + (2 + (161 + (2 + (4 + 81))))) from rfl]
    iterate 6 rw [List.replicate_add]
  have zeroed : ∀ front rest : List UInt8,
      front ++ List.replicate (offPort - offSsid) 0 ++ rest =
        front ++ (List.replicate ssidMax 0 ++ ([0] ++ (List.replicate passMax 0 ++ ([0] ++
          (List.replicate hostMax 0 ++ ([0] ++ rest)))))) := by
    have fields : List.replicate (offPort - offSsid) (0 : UInt8) =
        List.replicate ssidMax 0 ++ ([0] ++ (List.replicate passMax 0 ++ ([0] ++
          (List.replicate hostMax 0 ++ [0])))) := by
      rw [show offPort - offSsid = ssidMax + (1 + (passMax + (1 + (hostMax + 1)))) from rfl]
      iterate 5 rw [List.replicate_add]
      rfl
    intro front rest
    rw [fields]
    simp only [List.append_assoc]
  have blank : writeAt page 0 (List.replicate recordBytes 0xFF) =
      [] ++ (List.replicate recordBytes 0xFF ++ page.drop recordBytes) := by
    have old : (page.take recordBytes).length =
        (List.replicate recordBytes (0xFF : UInt8)).length := by
      rw [List.length_take, List.length_replicate]
      exact Nat.min_eq_left long
    have none : ([] : List UInt8).length = 0 := rfl
    have written := writeAt_next (page.drop recordBytes) none old
    rwa [List.nil_append, List.take_append_drop] at written
  have ssid := strncpyFill_length ssidMax c.ssid.toList
  have pass := strncpyFill_length passMax c.password.toList
  have host := strncpyFill_length hostMax c.brokerHost.toList
  rw [writeFields, blank, erased]
  simp only [List.append_assoc]
  rw [writeAt_next _ (by rfl) (by rfl), List.nil_append, writeAt_next _ (by rfl) (by rfl),
    writeAt_next _ (by rfl) (by rfl),
    writeAt_next _ (by rfl) (by rw [List.length_replicate, List.length_replicate]; rfl), zeroed,
    writeAt_next _ (by rfl) (by rw [ssid, List.length_replicate]),
    writeAt_over _ (by simp only [List.length_append, ssid]; rfl)
      (by rw [pass, List.length_replicate]),
    writeAt_over _ (by simp only [List.length_append, ssid, pass]; rfl)
      (by rw [host, List.length_replicate]),
    writeAt_over _ (by simp only [List.length_append, ssid, pass, host]; rfl) (by rfl)]
  rfl

/-- The page from its first byte to its last: the payload, its CRC, erased-flash
padding and what the buffer held after the page. -/
theorem serialize_eq (c : NetConfig) {page : List UInt8} (long : recordBytes ≤ page.length) :
    serialize c page = some (payload c ++ (put32 (crc32 (payload c)) ++
      (List.replicate 81 0xFF ++ page.drop recordBytes))) := by
  rw [serialize, if_neg (Nat.not_lt.mpr long), writeFields_eq c long]
  dsimp only
  rw [slice_here _ (payload_length c), writeAt_next _ (payload_length c) (by rfl)]
  simp only [List.append_assoc]

/-! ## C strings in fields -/

/-- A field zero-filled after its NUL. -/
def zeroFilled {n : Nat} (s : Chars n) : Chars n :=
  ⟨cstr s.toList ++ List.replicate (n - (cstr s.toList).length) 0, by
    have short : (cstr s.toList).length ≤ n :=
      Nat.le_trans (List.takeWhile_sublist _).length_le (Nat.le_of_eq s.toList_length)
    rw [List.length_append, List.length_replicate]
    omega⟩

theorem zeroFilled_toList {n : Nat} {s : Chars n} (terminated : 0 ∈ s.toList) :
    ∃ rest, (zeroFilled s).toList = cstr s.toList ++ 0 :: rest := by
  have short := cstr_length_lt terminated
  rw [s.toList_length] at short
  obtain ⟨k, room⟩ := Nat.exists_eq_add_of_lt short
  refine ⟨List.replicate k 0, ?_⟩
  show cstr s.toList ++ List.replicate (n - (cstr s.toList).length) 0 = _
  rw [show n - (cstr s.toList).length = k + 1 by omega, List.replicate_succ]

theorem cstr_zeroFilled {n : Nat} {s : Chars n} (terminated : 0 ∈ s.toList) :
    cstr (zeroFilled s).toList = cstr s.toList := by
  obtain ⟨rest, shape⟩ := zeroFilled_toList terminated
  rw [shape, cstr_append_nul rest (nul_not_mem_cstr _)]

theorem boundedLen_zeroFilled {n : Nat} {s : Chars n} (terminated : 0 ∈ s.toList) :
    boundedLen (zeroFilled s) = boundedLen s := by
  have still : 0 ∈ (zeroFilled s).toList := by
    obtain ⟨rest, shape⟩ := zeroFilled_toList terminated
    rw [shape]
    simp
  rw [boundedLen, boundedLen, if_pos still, if_pos terminated, cstr_zeroFilled terminated]

/-- What `strncpy` leaves in a zeroed field is the zero-filled field. -/
theorem strncpyFill_terminated {n : Nat} {s : Chars (n + 1)} (terminated : 0 ∈ s.toList) :
    strncpyFill n s.toList ++ [0] = (zeroFilled s).toList := by
  have short := cstr_length_lt terminated
  rw [s.toList_length] at short
  have whole : strncpy n s.toList = cstr s.toList := List.take_of_length_le (by omega)
  show _ = cstr s.toList ++ List.replicate (n + 1 - (cstr s.toList).length) 0
  rw [strncpyFill, whole, List.append_assoc,
    show n + 1 - (cstr s.toList).length = (n - (cstr s.toList).length) + 1 by omega,
    List.replicate_succ']

/-! ## `parse_ipv4` stops at the NUL -/

theorem ipDigits_nul (t rest : List UInt8) (digits v : Nat) :
    ipDigits digits v (t ++ 0 :: rest) =
      (ipDigits digits v t).map fun (digits, v, s) => (digits, v, s ++ 0 :: rest) := by
  induction t generalizing digits v with
  | nil =>
      have stop : isDigit 0 = false := by decide
      simp [ipDigits, stop]
  | cons b t ih =>
      rw [List.cons_append, ipDigits, ipDigits]
      by_cases digit : isDigit b
      · rw [if_pos digit, if_pos digit]
        split
        · rfl
        · exact ih _ _
      · rw [if_neg digit, if_neg digit]
        rfl

theorem ipDot_nul (first : Bool) (t rest : List UInt8) :
    ipDot first (t ++ 0 :: rest) = (ipDot first t).map fun s => s ++ 0 :: rest := by
  cases first with
  | true => rfl
  | false =>
      cases t with
      | nil => rfl
      | cons b t =>
          by_cases dot : b = 46 <;> simp [ipDot, dot]

theorem ipParts_nul (parts : Nat) (tmp t rest : List UInt8) :
    ipParts parts tmp (t ++ 0 :: rest) =
      (ipParts parts tmp t).map fun (tmp, s) => (tmp, s ++ 0 :: rest) := by
  induction parts generalizing tmp t with
  | zero => rfl
  | succ parts ih =>
      simp only [ipParts, ipDot_nul, Option.bind_eq_bind]
      cases ipDot (tmp == []) t with
      | none => rfl
      | some s =>
          simp only [Option.map_some, Option.bind_some, ipDigits_nul]
          cases ipDigits 0 0 s with
          | none => rfl
          | some read =>
              obtain ⟨digits, v, s⟩ := read
              simp only [Option.map_some, Option.bind_some]
              split
              · rfl
              · exact ih _ _

theorem parseIpv4_nul (t rest : List UInt8) : parseIpv4 (t ++ 0 :: rest) = parseIpv4 t := by
  simp only [parseIpv4, ipParts_nul, Option.bind_eq_bind]
  cases ipParts 4 [] t with
  | none => rfl
  | some read =>
      obtain ⟨tmp, s⟩ := read
      cases s with
      | nil => simp
      | cons b s => simp

theorem parseIpv4_zeroFilled {n : Nat} {s : Chars n} (terminated : 0 ∈ s.toList) :
    parseIpv4 (zeroFilled s).toList = parseIpv4 s.toList := by
  obtain ⟨filled, filledShape⟩ := zeroFilled_toList terminated
  obtain ⟨rest, shape⟩ := cstr_append_of_mem terminated
  rw [filledShape, parseIpv4_nul, shape, parseIpv4_nul, ← shape]

/-! ## The round trip -/

/-- The settings as they come back from flash. -/
def canonical (c : NetConfig) : NetConfig where
  ssid := zeroFilled c.ssid
  password := zeroFilled c.password
  brokerHost := zeroFilled c.brokerHost
  brokerPort := c.brokerPort

/-- Valid settings have a NUL in each field. -/
theorem terminated_of_validate {c : NetConfig} (valid : validate c = .ok) :
    0 ∈ c.ssid.toList ∧ 0 ∈ c.password.toList ∧ 0 ∈ c.brokerHost.toList := by
  have found : ∀ {n : Nat} (s : Chars n), boundedLen s ≠ none → 0 ∈ s.toList := by
    intro n s some
    by_contra missing
    exact some (if_neg missing)
  unfold validate at valid
  split at valid
  · cases valid
  · split at valid
    · cases valid
    · split at valid
      · cases valid
      · split at valid
        · cases valid
        · split at valid
          · cases valid
          · exact ⟨found _ (by simp [*]), found _ (by simp [*]), found _ (by simp [*])⟩

/-- What `build_defaults` returns is valid. -/
theorem validate_of_buildDefaults {d : BuildDefinitions} {c : NetConfig}
    (found : buildDefaults d = some c) : validate c = .ok := by
  unfold buildDefaults at found
  split at found
  · cases found
  · split at found
    · dsimp only at found
      split at found
      · cases found
      · rename_i valid
        cases found
        exact not_not.mp valid
    · cases found

/-- What `parse` returns is valid. -/
theorem validate_of_parse {page : List UInt8} {c : NetConfig}
    (found : parse page = some c) : validate c = .ok := by
  unfold parse at found
  split at found
  · split at found
    · cases found
    split at found
    · cases found
    split at found
    · cases found
    split at found
    · cases found
    split at found
    · cases found
    · rename_i valid
      cases found
      exact not_not.mp valid
  · cases found

theorem validate_canonical {c : NetConfig} (valid : validate c = .ok) :
    validate (canonical c) = .ok := by
  obtain ⟨ssid, password, host⟩ := terminated_of_validate valid
  rw [← valid]
  simp only [validate, canonical, boundedLen_zeroFilled ssid, boundedLen_zeroFilled password,
    boundedLen_zeroFilled host, parseIpv4_zeroFilled host]
  rfl

/-- A record of valid settings, field by field. -/
theorem payload_append {c : NetConfig} (valid : validate c = .ok) (rest : List UInt8) :
    payload c ++ rest = put32 magic ++ (put16 version ++ (put16 payloadSize ++
      ((zeroFilled c.ssid).toList ++ ((zeroFilled c.password).toList ++
        ((zeroFilled c.brokerHost).toList ++ (put16 c.brokerPort ++ rest)))))) := by
  obtain ⟨ssid, password, host⟩ := terminated_of_validate valid
  rw [← strncpyFill_terminated ssid, ← strncpyFill_terminated password,
    ← strncpyFill_terminated host]
  simp only [payload, List.append_assoc]

/-- The fields are where the layout puts them. -/
theorem fields_record {c : NetConfig} (valid : validate c = .ok) (rest : List UInt8)
    (long : recordUsed ≤ (payload c ++ rest).length) : fields long = canonical c := by
  have shape := payload_append valid rest
  have ssid : slice (payload c ++ rest) offSsid (ssidMax + 1) = (zeroFilled c.ssid).toList := by
    rw [shape, slice_skip _ _ (by decide), slice_skip _ _ (by decide), slice_skip _ _ (by decide)]
    exact slice_here _ (List.Vector.toList_length _)
  have password : slice (payload c ++ rest) offPass (passMax + 1) =
      (zeroFilled c.password).toList := by
    rw [shape, slice_skip _ _ (by decide), slice_skip _ _ (by decide), slice_skip _ _ (by decide),
      slice_skip _ _ (by rw [List.Vector.toList_length]; decide), List.Vector.toList_length]
    exact slice_here _ (List.Vector.toList_length _)
  have host : slice (payload c ++ rest) offHost (hostMax + 1) =
      (zeroFilled c.brokerHost).toList := by
    rw [shape, slice_skip _ _ (by decide), slice_skip _ _ (by decide), slice_skip _ _ (by decide),
      slice_skip _ _ (by rw [List.Vector.toList_length]; decide), List.Vector.toList_length,
      slice_skip _ _ (by rw [List.Vector.toList_length]; decide), List.Vector.toList_length]
    exact slice_here _ (List.Vector.toList_length _)
  have port : get16 ((payload c ++ rest).drop offPort) = c.brokerPort := by
    rw [shape, drop_skip _ (by decide), drop_skip _ (by decide), drop_skip _ (by decide),
      drop_skip _ (by rw [List.Vector.toList_length]; decide), List.Vector.toList_length,
      drop_skip _ (by rw [List.Vector.toList_length]; decide), List.Vector.toList_length,
      drop_skip _ (by rw [List.Vector.toList_length]; decide), List.Vector.toList_length]
    exact get16_put16 c.brokerPort rest
  unfold fields canonical
  congr 1
  · exact Subtype.ext ssid
  · exact Subtype.ext password
  · exact Subtype.ext host

/-- A record is read back as the settings it was made from. -/
theorem parse_record {c : NetConfig} (valid : validate c = .ok) (rest : List UInt8) :
    parse (payload c ++ (put32 (crc32 (payload c)) ++ rest)) = some (canonical c) := by
  have long : recordUsed ≤ (payload c ++ (put32 (crc32 (payload c)) ++ rest)).length := by
    rw [List.length_append, List.length_append, payload_length, put32_length]
    exact Nat.add_le_add_left (Nat.le_add_right 4 _) offCrc
  have settings := fields_record valid _ long
  have covered : slice (payload c ++ (put32 (crc32 (payload c)) ++ rest)) 0 offCrc = payload c :=
    slice_here _ (payload_length c)
  have crcRead : get32 ((payload c ++ (put32 (crc32 (payload c)) ++ rest)).drop offCrc) =
      crc32 (payload c) := by
    rw [drop_skip _ (Nat.le_of_eq (payload_length c)), payload_length, Nat.sub_self]
    exact get32_put32 _ rest
  have magicRead : get32 (payload c ++ (put32 (crc32 (payload c)) ++ rest)) = magic := by
    rw [payload_append valid]
    exact get32_put32 _ _
  have versionRead : get16 ((payload c ++ (put32 (crc32 (payload c)) ++ rest)).drop 4) = version := by
    rw [payload_append valid, drop_skip _ (by decide)]
    exact get16_put16 _ _
  have sizeRead : get16 ((payload c ++ (put32 (crc32 (payload c)) ++ rest)).drop 6) =
      payloadSize := by
    rw [payload_append valid, drop_skip _ (by decide), drop_skip _ (by decide)]
    exact get16_put16 _ _
  rw [parse, dif_pos long, if_neg (not_not.mpr magicRead), if_neg (not_not.mpr versionRead),
    if_neg (not_not.mpr sizeRead), covered, if_neg (not_not.mpr crcRead), settings,
    if_neg (not_not.mpr (validate_canonical valid))]

/-- **Round trip.**  Valid settings come back from any page they were written to,
zero-filled after each NUL. -/
theorem parse_serialize {c : NetConfig} (valid : validate c = .ok) {page : List UInt8}
    (long : recordBytes ≤ page.length) :
    (serialize c page).bind parse = some (canonical c) := by
  rw [serialize_eq c long, Option.bind_some]
  exact parse_record valid _

/-! ## The record is a canonical form -/

/-- From its NUL on the field is zero. -/
def ZeroAfterNul {n : Nat} (s : Chars n) : Prop :=
  ∀ b ∈ s.toList.drop (cstr s.toList).length, b = 0

/-- The same C strings and the same port. -/
structure SameValues (c d : NetConfig) : Prop where
  ssid : cstr c.ssid.toList = cstr d.ssid.toList
  password : cstr c.password.toList = cstr d.password.toList
  brokerHost : cstr c.brokerHost.toList = cstr d.brokerHost.toList
  brokerPort : c.brokerPort = d.brokerPort

theorem SameValues.refl (c : NetConfig) : SameValues c c := ⟨rfl, rfl, rfl, rfl⟩

theorem canonical_values {c : NetConfig} (valid : validate c = .ok) :
    SameValues (canonical c) c := by
  obtain ⟨ssid, password, host⟩ := terminated_of_validate valid
  exact ⟨cstr_zeroFilled ssid, cstr_zeroFilled password, cstr_zeroFilled host, rfl⟩

theorem zeroAfterNul_zeroFilled {n : Nat} {s : Chars n} (terminated : 0 ∈ s.toList) :
    ZeroAfterNul (zeroFilled s) := by
  intro b member
  rw [cstr_zeroFilled terminated] at member
  have shape : (zeroFilled s).toList =
      cstr s.toList ++ List.replicate (n - (cstr s.toList).length) 0 := rfl
  rw [shape, List.drop_left] at member
  exact List.eq_of_mem_replicate member

/-- Of a field only its C string is copied. -/
theorem strncpyFill_congr (n : Nat) {s t : List UInt8} (same : cstr s = cstr t) :
    strncpyFill n s = strncpyFill n t := by
  simp only [strncpyFill, strncpy, same]

theorem payload_congr {c d : NetConfig} (same : SameValues c d) : payload c = payload d := by
  obtain ⟨ssid, password, host, port⟩ := same
  simp only [payload, strncpyFill_congr _ ssid, strncpyFill_congr _ password,
    strncpyFill_congr _ host, port]

/-- The page written for a payload, whatever it held before. -/
theorem serialize_page (c : NetConfig) {page : List UInt8} (size : page.length = recordBytes) :
    serialize c page =
      some (payload c ++ (put32 (crc32 (payload c)) ++ List.replicate 81 0xFF)) := by
  have whole : page.drop recordBytes = [] := List.drop_of_length_le (Nat.le_of_eq size)
  rw [serialize_eq c (Nat.le_of_eq size.symm), whole, List.append_nil]

/-- **The record is a canonical form of the settings.**  Valid settings written over
any page are read back with the same C strings and port and zeros after each NUL;
what is read back is written as the same page again; and so are any settings with
these strings and this port, over any page. -/
theorem flash_record_canonical {c : NetConfig} (valid : validate c = .ok) {page : List UInt8}
    (size : page.length = recordBytes) :
    ∃ record back, serialize c page = some record ∧ record.length = recordBytes ∧
      parse record = some back ∧ SameValues back c ∧
      (ZeroAfterNul back.ssid ∧ ZeroAfterNul back.password ∧ ZeroAfterNul back.brokerHost) ∧
      (∀ page', page'.length = recordBytes → serialize back page' = some record) ∧
      ∀ d page', SameValues d c → page'.length = recordBytes → serialize d page' = some record := by
  obtain ⟨ssid, password, host⟩ := terminated_of_validate valid
  have again : ∀ d page', SameValues d c → page'.length = recordBytes → serialize d page' =
      some (payload c ++ (put32 (crc32 (payload c)) ++ List.replicate 81 0xFF)) := by
    intro d page' same size'
    rw [serialize_page d size', payload_congr same]
  refine ⟨_, canonical c, again c page (.refl c) size, ?_, parse_record valid _,
    canonical_values valid, ?_, ?_, again⟩
  · rw [List.length_append, List.length_append, payload_length, put32_length,
      List.length_replicate]
    rfl
  · exact ⟨zeroAfterNul_zeroFilled ssid, zeroAfterNul_zeroFilled password,
      zeroAfterNul_zeroFilled host⟩
  · intro page' size'
    exact again (canonical c) page' (canonical_values valid) size'

/-- A field with bytes left after its NUL, over a page of other bytes. -/
theorem flash_record_canonical_stale :
    ∃ c page record back, c.ssid.toList.drop 3 = List.replicate 30 0x58 ∧
      page = List.replicate recordBytes 0x5A ∧ serialize c page = some record ∧
      parse record = some back ∧ ZeroAfterNul back.ssid := by
  let c : NetConfig := {
    ssid := ⟨bytes "ab" ++ 0 :: List.replicate 30 0x58, by decide⟩
    password := List.Vector.replicate _ 0
    brokerHost := strcpyZeroed (bytes "10.0.0.1") (by decide)
    brokerPort := 1883 }
  have size : (List.replicate recordBytes (0x5A : UInt8)).length = recordBytes :=
    List.length_replicate
  obtain ⟨record, back, written, -, read, -, zeros, -⟩ :=
    flash_record_canonical (c := c) (by decide +kernel) size
  exact ⟨c, _, record, back, by decide, rfl, written, read, zeros.1⟩

end IrHub.Firmware.NetConfig
