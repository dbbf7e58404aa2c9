/-
# Theory.CMemory -- the C string functions as they touch memory

`CLibrary` has these functions on the bytes a pointer points at.  Here they are loops over
memory, and a pointer is a position in it.  On memory that holds `text` and then a NUL,
each ends within the text and its NUL, for any fuel above the length, and what it finds
is what the function of `CLibrary` finds in `text.drop p`: a pointer `q` stands for
`text.drop q` (`strchrAt_ends`, `strstrAt_ends`, `scanIntAt_ends`).
-/
import IrHub.Theory.Access
import IrHub.Theory.CLibrary

namespace IrHub.Theory.CMemory

set_option autoImplicit false

open IrHub.Theory.Access

/-! ## Searching -/

/-- One turn of `strchr`. -/
def strchrTurn (mem : List UInt8) (c : UInt8) (p : Nat) : Checked (Nat ⊕ Option Nat) := do
  let b ← load mem p
  if b = c then .ok (.inr (some p))
  else if b = 0 then .ok (.inr none) else .ok (.inl (p + 1))

def strchrAt (mem : List UInt8) (fuel p : Nat) (c : UInt8) : Checked (Option Nat) :=
  loop (strchrTurn mem c) fuel p

/-- The bytes from `p` on are those of `pattern`; the comparison stops at the first that
is not. -/
def startsAt (mem : List UInt8) : List UInt8 → Nat → Checked Bool
  | [], _ => .ok true
  | c :: pattern, p => do
      let b ← load mem p
      if c = b then startsAt mem pattern (p + 1) else .ok false

/-- One turn of `strstr`. -/
def strstrTurn (mem pattern : List UInt8) (p : Nat) : Checked (Nat ⊕ Option Nat) := do
  if ← startsAt mem pattern p then .ok (.inr (some p))
  else do
    let b ← load mem p
    if b = 0 then .ok (.inr none) else .ok (.inl (p + 1))

def strstrAt (mem pattern : List UInt8) (fuel p : Nat) : Checked (Option Nat) :=
  loop (strstrTurn mem pattern) fuel p

/-- `strcmp(p, pattern) == 0` for a literal. -/
def equalsAt (mem : List UInt8) : List UInt8 → Nat → Checked Bool
  | [], p => do
      let b ← load mem p
      .ok (b == 0)
  | c :: pattern, p => do
      let b ← load mem p
      if b = c then equalsAt mem pattern (p + 1) else .ok false

/-! ## Numbers -/

/-- One turn of the loop over the digits of a number, at `p` with value `v`. -/
def numeralTurn (mem : List UInt8) (read : Nat × Nat) : Checked ((Nat × Nat) ⊕ (Nat × Nat)) := do
  let b ← load mem read.1
  if isDigit b then .ok (.inl (read.1 + 1, 10 * read.2 + (b.toNat - 48))) else .ok (.inr read)

/-- The sign at `p`, and where the digits start. -/
def signAt (mem : List UInt8) (p : Nat) : Checked (Bool × Nat) := do
  let b ← load mem p
  if b = 45 then .ok (true, p + 1) else if b = 43 then .ok (false, p + 1) else .ok (false, p)

/-- The sign, the magnitude and the end of a number; `none` without digits. -/
def scanIntAt (mem : List UInt8) (fuel p : Nat) : Checked (Option (Bool × Nat × Nat)) := do
  let p ← scan isSpace mem fuel p
  let (negative, p) ← signAt mem p
  let (next, magnitude) ← loop (numeralTurn mem) fuel (p, 0)
  if next = p then .ok none else .ok (some (negative, magnitude, next))

/-- `strtol(p, &next, 10)`: the value and `next`; `none` when `next == p`. -/
def strtolAt (mem : List UInt8) (fuel p : Nat) : Checked (Option (Int × Nat)) := do
  match ← scanIntAt mem fuel p with
  | none => .ok none
  | some (negative, magnitude, next) =>
      .ok (some (if negative then max (-2147483648) (-(magnitude : Int))
        else min 2147483647 magnitude, next))

/-- `strtoul(p, nullptr, 10)` -/
def strtoulAt (mem : List UInt8) (fuel p : Nat) : Checked UInt32 := do
  match ← scanIntAt mem fuel p with
  | none => .ok 0
  | some (negative, magnitude, _) =>
      if 4294967295 < magnitude then .ok 4294967295
      else if negative then .ok (-UInt32.ofNat magnitude) else .ok (UInt32.ofNat magnitude)

/-! ## Writing -/

/-- `snprintf(out + pos, room, ..)` where `piece` is the formatted text: as much of it as
fits before a NUL, and its whole length. -/
def snprintfAt (mem : List UInt8) (pos room : Nat) (piece : List UInt8) :
    Checked (Nat × List UInt8) :=
  if room = 0 then .ok (piece.length, mem)
  else do
    let mem ← store mem pos (piece.take (room - 1) ++ [0])
    .ok (piece.length, mem)

/-- Nothing is written past the room, and all of a text that fits. -/
theorem snprintfAt_ends {mem front : List UInt8} {room : Nat} (piece : List UInt8)
    (holds : front <+: mem) (fits : front.length + room ≤ mem.length) :
    Ends (snprintfAt mem front.length room piece) fun (n, after) =>
      n = piece.length ∧ Within (front.length + room) mem after ∧
        (piece.length < room → front ++ piece ++ [0] <+: after) := by
  rw [snprintfAt]
  by_cases none : room = 0
  · rw [if_pos none]
    exact Ends.ok ⟨rfl, Within.refl _ mem, fun short => by omega⟩
  · have below : front.length + (piece.take (room - 1) ++ [0]).length ≤ front.length + room := by
      rw [List.length_append, List.length_take, List.length_singleton]
      omega
    rw [if_neg none]
    refine (store_end holds below fits).bind ?_
    rintro after ⟨text, within⟩
    refine Ends.ok ⟨rfl, within, fun short => ?_⟩
    rwa [List.take_of_length_le (by omega), ← List.append_assoc] at text

/-! ## They find what the functions on text find -/

theorem strchr_head (p : List UInt8) {c : UInt8} (notNul : c ≠ 0) :
    strchr p c = if p.headD 0 = c then some p
      else if p.headD 0 = 0 then none else strchr p.tail c := by
  cases p with
  | nil => simp [strchr, Ne.symm notNul]
  | cons b p => rfl

theorem strstr_head (pattern p : List UInt8) :
    strstr pattern p = if pattern.isPrefixOf p then some p
      else if p.headD 0 = 0 then none else strstr pattern p.tail := by
  cases p with
  | nil => cases pattern <;> simp [strstr]
  | cons b p => rfl

theorem scanSign_head (p : List UInt8) :
    scanSign p = if p.headD 0 = 45 then (true, p.tail)
      else if p.headD 0 = 43 then (false, p.tail) else (false, p) := by
  unfold scanSign
  split
  · rfl
  · rfl
  · rename_i notMinus notPlus
    cases p with
    | nil => rfl
    | cons b p =>
        have minus : b ≠ 45 := fun same => notMinus p (by rw [same])
        have plus : b ≠ 43 := fun same => notPlus p (by rw [same])
        simp [minus, plus]

section Text

variable {text rest : List UInt8} {fuel p : Nat}

/-- A byte other than NUL stands in the text. -/
theorem lt_of_head (notNul : (text.drop p).headD 0 ≠ 0) : p < text.length := by
  by_contra past
  rw [List.drop_of_length_le (by omega)] at notNul
  exact notNul rfl

/-- A search that has found nothing at `q` stops at the NUL, or goes on behind `q`. -/
theorem search_goes_on (seek : List UInt8 → Option (List UInt8)) {q : Nat} {post : Nat → Prop}
    (after : p ≤ q)
    (same : (if (text.drop q).headD 0 = 0 then none else seek (text.drop (q + 1))) =
      seek (text.drop p)) :
    Ends (if (text.drop q).headD 0 = 0 then (.ok (.inr none) : Checked (Nat ⊕ Option Nat))
      else .ok (.inl (q + 1))) fun next =>
      (∃ r, next = .inl r ∧
        (p ≤ r ∧ r ≤ text.length ∧ seek (text.drop r) = seek (text.drop p)) ∧
        text.length - r < text.length - q) ∨
      ∃ found, next = .inr found ∧ found.map text.drop = seek (text.drop p) ∧
        ∀ r, found = some r → post r := by
  by_cases nul : (text.drop q).headD 0 = 0
  · rw [if_pos nul] at same ⊢
    exact Ends.ok (Or.inr ⟨none, rfl, same, by simp⟩)
  · have inText := lt_of_head nul
    rw [if_neg nul] at same ⊢
    exact Ends.ok (Or.inl ⟨q + 1, rfl, ⟨by omega, inText, same⟩, by omega⟩)

theorem strchrAt_ends {c : UInt8} (notNul : c ≠ 0) (inside : p ≤ text.length)
    (enough : text.length < fuel) :
    Ends (strchrAt (text ++ 0 :: rest) fuel p c) fun found =>
      found.map text.drop = strchr (text.drop p) c ∧
        ∀ q, found = some q → p ≤ q ∧ q < text.length := by
  refine loop_ends
    (fun q => p ≤ q ∧ q ≤ text.length ∧ strchr (text.drop q) c = strchr (text.drop p) c)
    (fun q => text.length - q) ?_ fuel p ⟨Nat.le_refl p, inside, rfl⟩ (by omega)
  rintro q ⟨after, before, same⟩
  refine Ends.bind ⟨_, load_text rest before, rfl⟩ ?_
  rintro _ rfl
  rw [strchr_head _ notNul, List.tail_drop] at same
  by_cases hit : (text.drop q).headD 0 = c
  · rw [if_pos hit] at same ⊢
    exact Ends.ok (Or.inr ⟨some q, rfl, same, by
      rintro _ ⟨⟩; exact ⟨after, lt_of_head (hit.trans_ne notNul)⟩⟩)
  · rw [if_neg hit] at same ⊢
    exact search_goes_on (strchr · c) after same

theorem startsAt_eq {pattern : List UInt8} (clean : 0 ∉ pattern) (inside : p ≤ text.length) :
    startsAt (text ++ 0 :: rest) pattern p = .ok (pattern.isPrefixOf (text.drop p)) := by
  induction pattern generalizing p with
  | nil => rfl
  | cons c pattern ih =>
      rw [List.mem_cons, not_or] at clean
      rw [startsAt, load_text rest inside]
      show (if c = (text.drop p).headD 0 then _ else _) = _
      cases shape : text.drop p with
      | nil => simp [Ne.symm clean.1]
      | cons b more =>
          rw [List.headD_cons, List.isPrefixOf_cons_cons]
          by_cases same : c = b
          · have inText : p < text.length :=
              lt_of_head (by rw [shape, List.headD_cons, ← same]; exact Ne.symm clean.1)
            have next : text.drop (p + 1) = more := by rw [← List.tail_drop, shape, List.tail_cons]
            rw [if_pos same, ih clean.2 inText, next]
            simp [same]
          · simp [same]

theorem cstr_head (p : List UInt8) :
    cstr p = if p.headD 0 = 0 then [] else p.headD 0 :: cstr p.tail := by
  cases p with
  | nil => rfl
  | cons b p => by_cases nul : b = 0 <;> simp [cstr, nul]

theorem equalsAt_eq {pattern : List UInt8} (clean : 0 ∉ pattern) (inside : p ≤ text.length) :
    equalsAt (text ++ 0 :: rest) pattern p = .ok (decide (cstr (text.drop p) = pattern)) := by
  induction pattern generalizing p with
  | nil =>
      rw [equalsAt, load_text rest inside, cstr_head]
      show Except.ok ((text.drop p).headD 0 == 0) = _
      by_cases nul : (text.drop p).headD 0 = 0
      · rw [if_pos nul, nul]
        rfl
      · rw [if_neg nul, beq_false_of_ne nul, decide_eq_false (List.cons_ne_nil _ _)]
  | cons c pattern ih =>
      rw [List.mem_cons, not_or] at clean
      rw [equalsAt, load_text rest inside, cstr_head]
      show (if (text.drop p).headD 0 = c then _ else _) = _
      by_cases same : (text.drop p).headD 0 = c
      · have notNul : (text.drop p).headD 0 ≠ 0 := by
          rw [same]
          exact Ne.symm clean.1
        rw [if_pos same, if_neg notNul, ih clean.2 (lt_of_head notNul), List.tail_drop, same]
        simp
      · rw [if_neg same]
        by_cases nul : (text.drop p).headD 0 = 0
        · rw [if_pos nul, decide_eq_false (List.cons_ne_nil c pattern).symm]
        · rw [if_neg nul, decide_eq_false fun shape => same (List.cons.inj shape).1]

theorem strstrAt_ends {pattern : List UInt8} (clean : 0 ∉ pattern) (inside : p ≤ text.length)
    (enough : text.length < fuel) :
    Ends (strstrAt (text ++ 0 :: rest) pattern fuel p) fun found =>
      found.map text.drop = strstr pattern (text.drop p) ∧
        ∀ q, found = some q → p ≤ q ∧ q ≤ text.length := by
  refine loop_ends
    (fun q => p ≤ q ∧ q ≤ text.length ∧
      strstr pattern (text.drop q) = strstr pattern (text.drop p))
    (fun q => text.length - q) ?_ fuel p ⟨Nat.le_refl p, inside, rfl⟩ (by omega)
  rintro q ⟨after, before, same⟩
  refine Ends.bind ⟨_, startsAt_eq clean before, rfl⟩ ?_
  rintro _ rfl
  rw [strstr_head, List.tail_drop] at same
  by_cases hit : pattern.isPrefixOf (text.drop q) = true
  · rw [if_pos hit] at same ⊢
    exact Ends.ok (Or.inr ⟨some q, rfl, same, by rintro _ ⟨⟩; exact ⟨after, before⟩⟩)
  · rw [if_neg hit] at same ⊢
    refine Ends.bind ⟨_, load_text rest before, rfl⟩ ?_
    rintro _ rfl
    exact search_goes_on (strstr pattern) after same

/-! ### Numbers -/

theorem signAt_ends (inside : p ≤ text.length) :
    Ends (signAt (text ++ 0 :: rest) p) fun (negative, q) =>
      scanSign (text.drop p) = (negative, text.drop q) ∧ p ≤ q ∧ q ≤ text.length := by
  refine Ends.bind ⟨_, load_text rest inside, rfl⟩ ?_
  rintro _ rfl
  rw [scanSign_head, List.tail_drop]
  by_cases minus : (text.drop p).headD 0 = 45
  · rw [if_pos minus, if_pos minus]
    exact Ends.ok ⟨rfl, by omega, lt_of_head (by rw [minus]; decide)⟩
  · rw [if_neg minus, if_neg minus]
    by_cases plus : (text.drop p).headD 0 = 43
    · rw [if_pos plus, if_pos plus]
      exact Ends.ok ⟨rfl, by omega, lt_of_head (by rw [plus]; decide)⟩
    · rw [if_neg plus, if_neg plus]
      exact Ends.ok ⟨rfl, Nat.le_refl p, inside⟩

theorem numeral_ends (inside : p ≤ text.length) (enough : text.length < fuel) :
    Ends (loop (numeralTurn (text ++ 0 :: rest)) fuel (p, 0)) fun (q, magnitude) =>
      Passed isDigit text p q ∧ magnitude = ofDigits ((text.drop p).takeWhile isDigit) := by
  let step := fun (acc : Nat) (b : UInt8) => 10 * acc + (b.toNat - 48)
  refine loop_ends
    (fun (read : Nat × Nat) => Passing isDigit text p read.1 ∧
      ((text.drop read.1).takeWhile isDigit).foldl step read.2 =
        ofDigits ((text.drop p).takeWhile isDigit))
    (fun read => text.length - read.1) ?_ fuel (p, 0)
    ⟨⟨Nat.le_refl p, inside, rfl⟩, rfl⟩ (by simp only; omega)
  rintro ⟨q, v⟩ ⟨passing, same⟩
  simp only at passing same
  refine Ends.bind ⟨_, load_text rest passing.inside, rfl⟩ ?_
  rintro _ rfl
  cases shape : text.drop q with
  | nil =>
      rw [shape] at same
      refine Ends.ok (Or.inr ⟨(q, v), rfl, passing.stays ?_, same⟩)
      rw [shape, List.dropWhile_nil]
  | cons b more =>
      rw [shape] at same
      have next : text.drop (q + 1) = more := by rw [← List.tail_drop, shape, List.tail_cons]
      rw [List.headD_cons]
      by_cases digit : isDigit b = true
      · have inText : q < text.length := by
          by_contra past
          rw [List.drop_of_length_le (by omega)] at shape
          cases shape
        rw [if_pos digit]
        rw [List.takeWhile_cons_of_pos digit, List.foldl_cons] at same
        refine Ends.ok (Or.inl ⟨_, rfl, ⟨⟨?_, inText, ?_⟩, ?_⟩, ?_⟩)
        · exact Nat.le_succ_of_le passing.after
        · show (text.drop (q + 1)).dropWhile isDigit = (text.drop p).dropWhile isDigit
          rw [next, ← passing.same, shape, List.dropWhile_cons_of_pos digit]
        · show ((text.drop (q + 1)).takeWhile isDigit).foldl step _ = _
          rw [next]
          exact same
        · simp only
          omega
      · rw [if_neg digit]
        rw [List.takeWhile_cons_of_neg digit] at same
        refine Ends.ok (Or.inr ⟨(q, v), rfl, passing.stays ?_, same⟩)
        rw [shape, List.dropWhile_cons_of_neg digit]

theorem isSpace_nul : isSpace 0 = false := by decide

/-- A number is read as `scanInt` reads it, and one that is there takes up room. -/
theorem scanIntAt_ends (inside : p ≤ text.length) (enough : text.length < fuel) :
    Ends (scanIntAt (text ++ 0 :: rest) fuel p) fun read =>
      scanInt (text.drop p) =
          read.map (fun (negative, magnitude, q) => ⟨negative, magnitude, text.drop q⟩) ∧
        ∀ negative magnitude q, read = some (negative, magnitude, q) →
          p < q ∧ q ≤ text.length := by
  refine (scan_ends rest isSpace_nul inside enough).bind ?_
  rintro start spaces
  refine (signAt_ends spaces.inside).bind ?_
  rintro ⟨negative, first⟩ ⟨sign, behind, within⟩
  refine (numeral_ends within enough).bind ?_
  rintro ⟨next, magnitude⟩ ⟨digits, value⟩
  rw [spaces.rest] at sign
  have after := spaces.after
  simp only [scanInt, sign]
  by_cases none : next = first
  · rw [if_pos none, if_pos (digits.stuck_iff.mp none)]
    exact Ends.ok ⟨rfl, by simp⟩
  · rw [if_neg none, if_neg (mt digits.stuck_iff.mpr none), ← digits.rest, ← value]
    refine Ends.ok ⟨rfl, ?_⟩
    rintro _ _ _ ⟨⟩
    have later := digits.after
    exact ⟨by omega, digits.inside⟩

theorem strtolAt_ends (inside : p ≤ text.length) (enough : text.length < fuel) :
    Ends (strtolAt (text ++ 0 :: rest) fuel p) fun read =>
      strtol (text.drop p) = read.map (fun (value, q) => (value, text.drop q)) ∧
        ∀ value q, read = some (value, q) → p < q ∧ q ≤ text.length := by
  refine (scanIntAt_ends inside enough).bind ?_
  rintro (_ | ⟨negative, magnitude, q⟩) ⟨same, progress⟩
  · exact Ends.ok ⟨by rw [strtol, same]; rfl, by simp⟩
  · refine Ends.ok ⟨by rw [strtol, same]; rfl, ?_⟩
    rintro _ _ ⟨⟩
    exact progress negative magnitude q rfl

theorem strtoulAt_eq (inside : p ≤ text.length) (enough : text.length < fuel) :
    strtoulAt (text ++ 0 :: rest) fuel p = .ok (strtoul (text.drop p)) := by
  refine Ends.eq_ok ?_
  refine (scanIntAt_ends inside enough).bind ?_
  rintro (_ | ⟨negative, magnitude, q⟩) ⟨same, -⟩
  · exact Ends.ok (by rw [strtoul, same]; rfl)
  · rw [strtoul, same]
    simp only [Option.map_some]
    split
    · exact Ends.ok rfl
    · split
      · exact Ends.ok rfl
      · exact Ends.ok rfl

end Text

end IrHub.Theory.CMemory
