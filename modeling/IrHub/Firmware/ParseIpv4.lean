/-
# Firmware.ParseIpv4 -- `parse_ipv4` with its pointer and its `out`

`NetConfig.parseIpv4` is a function of a string.  The C function walks a pointer through
memory and writes its result through another one.  `parseIpv4At` is that walk: every
character it looks at is a `load`, its only write the final `memcpy`.

`parseIpv4At_ends` shows that the walk does what the function on strings does, from the
digits of one part (`digits_end`) and the parts after one another (`parts_end`); a NUL is
no digit and no dot, so no turn gets past it.
-/
import IrHub.Firmware.Validation
import IrHub.Theory.Access

namespace IrHub.Firmware.ParseIpv4

set_option autoImplicit false

open IrHub.Theory IrHub.Theory.Access IrHub.Theory.Dotted IrHub.Firmware.NetConfig
  IrHub.Firmware.Validation

/-! ## The walk -/

/-- `s`, `digits` and `v` in the loop over the digits of a part. -/
structure DigitScan where
  s : Nat
  digits : Nat
  v : Nat
  deriving DecidableEq, Repr

/-- One turn of that loop; `none` is `return false`. -/
def digitTurn (mem : List UInt8) (d : DigitScan) : Checked (DigitScan ⊕ Option DigitScan) := do
  let b ← load mem d.s
  if isDigit b then
    let v := d.v * 10 + (b.toNat - 48)
    if d.digits + 1 > 3 ∨ v > 255 then .ok (.inr none)
    else .ok (.inl ⟨d.s + 1, d.digits + 1, v⟩)
  else .ok (.inr (some d))

/-- The dot before every part but the first. -/
def dotAt (mem : List UInt8) (first : Bool) (s : Nat) : Checked (Option Nat) :=
  if first then .ok (some s)
  else do
    let b ← load mem s
    if b = 46 then .ok (some (s + 1)) else .ok none

/-- The parts still to come, after those in `tmp`. -/
def partsAt (mem : List UInt8) (fuel : Nat) :
    Nat → List UInt8 → Nat → Checked (Option (List UInt8 × Nat))
  | 0, tmp, s => .ok (some (tmp, s))
  | parts + 1, tmp, s => do
      match ← dotAt mem (tmp == []) s with
      | none => .ok none
      | some s =>
          match ← loop (digitTurn mem) fuel ⟨s, 0, 0⟩ with
          | none => .ok none
          | some d =>
              if d.digits = 0 then .ok none
              else partsAt mem fuel parts (tmp ++ [UInt8.ofNat d.v]) d.s

/-- `parse_ipv4` on the string at the start of `mem`: the value returned and `out`. -/
def parseIpv4At (fuel : Nat) (mem out : List UInt8) : Checked (Bool × List UInt8) := do
  match ← partsAt mem fuel 4 [] 0 with
  | none => .ok (false, out)
  | some (tmp, s) => do
      let b ← load mem s
      if b ≠ 0 then .ok (false, out)
      else if tmp.foldl (· ||| ·) 0 = 0 then .ok (false, out)
      else do
        let out ← store out 0 tmp
        .ok (true, out)

/-! ## The walk reads the string -/

section Walk

variable {text rest : List UInt8} {fuel s : Nat}

theorem ipDigits_stop {digits v : Nat} {p : List UInt8} (stop : isDigit (p.headD 0) = false) :
    ipDigits digits v p = some (digits, v, p) := by
  cases p with
  | nil => rfl
  | cons b p => rw [ipDigits, if_neg (by simpa using stop)]

theorem digits_end (inside : s ≤ text.length) (enough : text.length < fuel) :
    Ends (loop (digitTurn (text ++ 0 :: rest)) fuel ⟨s, 0, 0⟩) fun found =>
      (found.map fun d => (d.digits, d.v, text.drop d.s)) = ipDigits 0 0 (text.drop s) ∧
        ∀ d, found = some d → d.s ≤ text.length := by
  refine loop_ends
    (fun d : DigitScan => d.s ≤ text.length ∧
      ipDigits d.digits d.v (text.drop d.s) = ipDigits 0 0 (text.drop s))
    (fun d : DigitScan => text.length - d.s) ?_ fuel ⟨s, 0, 0⟩ ⟨inside, rfl⟩ (by simp only; omega)
  rintro ⟨p, digits, v⟩ ⟨before, same⟩
  simp only at before same
  refine Ends.bind ⟨_, load_text rest before, rfl⟩ ?_
  rintro _ rfl
  by_cases digit : isDigit ((text.drop p).headD 0) = true
  · -- a NUL is no digit, so this one is in the text
    have inText : p < text.length := by
      by_contra past
      rw [List.drop_of_length_le (by omega)] at digit
      exact absurd digit (by decide)
    rw [List.drop_eq_getElem_cons inText, List.headD_cons] at digit ⊢
    rw [List.drop_eq_getElem_cons inText, ipDigits, if_pos digit] at same
    simp only [if_pos digit]
    split
    · rename_i tooMuch
      rw [if_pos tooMuch] at same
      exact Ends.ok (Or.inr ⟨none, rfl, same, by simp⟩)
    · rename_i fine
      rw [if_neg fine] at same
      exact Ends.ok (Or.inl ⟨_, rfl, ⟨inText, same⟩, by simp only; omega⟩)
  · rw [if_neg digit]
    rw [ipDigits_stop (by simpa using digit)] at same
    exact Ends.ok (Or.inr ⟨_, rfl, same, by simp [before]⟩)

theorem dot_end (first : Bool) (inside : s ≤ text.length) :
    Ends (dotAt (text ++ 0 :: rest) first s) fun found =>
      found.map text.drop = ipDot first (text.drop s) ∧ ∀ t, found = some t → t ≤ text.length := by
  rw [dotAt, ipDot]
  cases first with
  | true => exact Ends.ok ⟨rfl, by simp [inside]⟩
  | false =>
      refine Ends.bind ⟨_, load_text rest inside, rfl⟩ ?_
      rintro _ rfl
      have next : text.drop (s + 1) = (text.drop s).tail := by rw [List.tail_drop]
      cases shape : text.drop s with
      | nil => exact ⟨none, by simp, by simp, by simp⟩
      | cons b p =>
          by_cases dot : b = 46
          · have inText : s < text.length := by
              by_contra past
              rw [List.drop_of_length_le (by omega)] at shape
              cases shape
            rw [shape, List.tail_cons] at next
            exact ⟨some (s + 1), by simp [dot], by simp [dot, next], by simp; omega⟩
          · exact ⟨none, by simp [dot], by simp [dot], by simp⟩

theorem parts_end (parts : Nat) (tmp : List UInt8) (inside : s ≤ text.length)
    (enough : text.length < fuel) :
    Ends (partsAt (text ++ 0 :: rest) fuel parts tmp s) fun found =>
      (found.map fun (tmp, s) => (tmp, text.drop s)) = ipParts parts tmp (text.drop s) ∧
        ∀ tmp' s', found = some (tmp', s') →
          s' ≤ text.length ∧ tmp'.length = tmp.length + parts := by
  induction parts generalizing tmp s with
  | zero => exact Ends.ok ⟨rfl, by rintro _ _ ⟨⟩; exact ⟨inside, rfl⟩⟩
  | succ parts ih =>
      rw [partsAt, ipParts]
      refine (dot_end (tmp == []) inside).bind ?_
      rintro (_ | t) ⟨dot, within⟩
      · rw [← dot]
        exact Ends.ok ⟨rfl, by simp⟩
      · rw [← dot]
        refine (digits_end (within t rfl) enough).bind ?_
        rintro (_ | ⟨u, digits, v⟩) ⟨read, bound⟩
        · simp only [Option.map_some, Option.bind_eq_bind, Option.bind_some, ← read]
          exact Ends.ok ⟨rfl, by simp⟩
        · simp only [Option.map_some, Option.bind_eq_bind, Option.bind_some, ← read]
          by_cases none : digits = 0
          · rw [if_pos none, if_pos none]
            exact Ends.ok ⟨rfl, by simp⟩
          · rw [if_neg none, if_neg none]
            refine (ih (tmp ++ [UInt8.ofNat v]) (bound _ rfl)).mono ?_
            rintro found ⟨same, rest⟩
            refine ⟨same, fun tmp' s' shape => ?_⟩
            obtain ⟨before, length⟩ := rest tmp' s' shape
            rw [List.length_append, List.length_singleton] at length
            exact ⟨before, by omega⟩

/-- What `parse_ipv4` leaves in `out`. -/
def written (out : List UInt8) : Option (List UInt8) → Bool × List UInt8
  | none => (false, out)
  | some tmp => (true, tmp)

/-- **The walk is the function on strings**, and it touches nothing behind the NUL. -/
theorem parseIpv4At_ends {out : List UInt8} (four : out.length = 4) (enough : text.length < fuel) :
    parseIpv4At fuel (text ++ 0 :: rest) out = .ok (written out (parseIpv4 text)) := by
  refine Ends.eq_ok ?_
  rw [parseIpv4At, parseIpv4]
  refine (parts_end 4 [] (Nat.zero_le _) enough).bind ?_
  rintro (_ | ⟨tmp, p⟩) ⟨same, bound⟩
  · rw [List.drop_zero] at same
    rw [← same]
    exact Ends.ok rfl
  · obtain ⟨inside, length⟩ := bound tmp p rfl
    rw [List.drop_zero] at same
    rw [← same]
    simp only [Option.map_some, Option.bind_eq_bind, Option.bind_some]
    refine Ends.bind ⟨_, load_text rest inside, rfl⟩ ?_
    rintro _ rfl
    have ends : (text.drop p).headD 0 ≠ 0 ↔ text.drop p ≠ [] ∧ (text.drop p).head? ≠ some 0 := by
      cases text.drop p <;> simp
    by_cases more : (text.drop p).headD 0 ≠ 0
    · rw [if_pos more, if_pos (ends.mp more)]
      exact Ends.ok rfl
    · rw [if_neg more, if_neg (mt ends.mpr more)]
      by_cases zero : tmp.foldl (· ||| ·) 0 = 0
      · rw [if_pos zero, if_pos zero]
        exact Ends.ok rfl
      · rw [if_neg zero, if_neg zero, store_fits (by simpa [four] using length.le)]
        have whole : writeAt out 0 tmp = tmp := by
          rw [writeAt, List.drop_of_length_le (by simpa [four] using length.ge)]
          simp
        exact Ends.ok (by rw [whole, written])

end Walk

/-! ## The grammar -/

/-- **`parse_ipv4` accepts exactly its grammar**, for every string and whatever is in memory
behind it: four octets with dots between them, not all zero.  It then leaves their values
in `out`, and otherwise `out` as it was. -/
theorem parse_ipv4_grammar {s out : List UInt8} (clean : 0 ∉ s) (four : out.length = 4) :
    ∃ accepted after,
      (∀ fuel rest, s.length < fuel →
        parseIpv4At fuel (s ++ 0 :: rest) out = .ok (accepted, after)) ∧
      (accepted = true ↔ Address (codes s)) ∧
      (accepted = true → after.map UInt8.toNat = ((codes s).splitOn 46).map value) ∧
      (accepted = false → after = out) := by
  refine ⟨(written out (parseIpv4 s)).1, (written out (parseIpv4 s)).2,
    fun fuel rest enough => parseIpv4At_ends four enough, ?_, ?_, ?_⟩
  · rw [← parseIpv4_iff clean]
    cases parseIpv4 s with
    | none => simp [written]
    | some tmp => simp [written]
  · intro accepted
    have address : Address (codes s) := by
      rw [← parseIpv4_iff clean]
      intro refused
      rw [refused] at accepted
      cases accepted
    obtain ⟨o, os, parts, -, octets, parsed⟩ := parseIpv4_address address
    have split : (codes s).splitOn 46 = (o :: os).map codes := by
      rw [← parts]
      exact splitOn_map (fun _ _ => UInt8.toNat_inj.mp) 46 s
    rw [parsed, split]
    show ((o :: os).map octetByte).map UInt8.toNat = ((o :: os).map codes).map value
    rw [List.map_map, List.map_map]
    refine List.map_congr_left fun x member => ?_
    exact UInt8.toNat_ofNat_of_lt' (Nat.lt_of_le_of_lt (octets x member).small (by decide))
  · cases parseIpv4 s with
    | none => exact fun _ => rfl
    | some tmp => exact fun refused => by cases refused

/-- `192.168.10.1` is read up to its NUL. -/
theorem parse_ipv4_grammar_private :
    ∃ accepted after,
      (∀ fuel rest, (bytes "192.168.10.1").length < fuel →
        parseIpv4At fuel (bytes "192.168.10.1" ++ 0 :: rest) [0, 0, 0, 0] =
          .ok (accepted, after)) ∧
      (accepted = true ↔ Address (codes (bytes "192.168.10.1"))) ∧
      (accepted = true → after.map UInt8.toNat =
        ((codes (bytes "192.168.10.1")).splitOn 46).map value) ∧
      (accepted = false → after = [0, 0, 0, 0]) :=
  parse_ipv4_grammar (s := bytes "192.168.10.1") (by decide) rfl

/-- The walk itself, on memory that ends at the NUL. -/
example : parseIpv4At 13 (bytes "192.168.10.1" ++ [0]) [0, 0, 0, 0] =
    .ok (true, [192, 168, 10, 1]) := by decide +kernel

end IrHub.Firmware.ParseIpv4
