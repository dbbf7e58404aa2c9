/-
# Theory.Utf8 -- bytes read as UTF-8, whatever they are

`decode` is `TextDecoder.decode`: a byte order mark in front is dropped, and what belongs to no
character is read as U+FFFD.  Bytes survive it and `TextEncoder` when they are the UTF-8 of some
characters and no mark is in front (`utf8_filter_iff`).  Nothing but NUL is read as NUL.
-/
import IrHub.Theory.Utf16

namespace IrHub.Theory.Utf8

set_option autoImplicit false

open IrHub.Theory.Utf16

/-! ## Decoding -/

/-- A character that is under way: its bits so far, how many bytes it needs, and the bounds of
the next. -/
structure Decoder where
  codePoint : Nat
  needed : Nat
  lower : Nat
  upper : Nat
  deriving DecidableEq, Repr

def ready : Decoder := ⟨0, 0, 0x80, 0xBF⟩

def replacement : Char := Char.ofNat 0xFFFD

/-- A byte with no character under way. -/
def lead (b : Nat) : List Char × Decoder :=
  if b ≤ 0x7F then ([Char.ofNat b], ready)
  else if 0xC2 ≤ b ∧ b ≤ 0xDF then ([], ⟨b % 0x20, 1, 0x80, 0xBF⟩)
  else if 0xE0 ≤ b ∧ b ≤ 0xEF then
    ([], ⟨b % 0x10, 2, if b = 0xE0 then 0xA0 else 0x80, if b = 0xED then 0x9F else 0xBF⟩)
  else if 0xF0 ≤ b ∧ b ≤ 0xF4 then
    ([], ⟨b % 0x08, 3, if b = 0xF0 then 0x90 else 0x80, if b = 0xF4 then 0x8F else 0xBF⟩)
  else ([replacement], ready)

/-- One byte; one that does not fit is read again with no character under way. -/
def step (d : Decoder) (b : Nat) : List Char × Decoder :=
  if d.needed = 0 then lead b
  else if b < d.lower ∨ d.upper < b then (replacement :: (lead b).1, (lead b).2)
  else
    let codePoint := d.codePoint * 0x40 + b % 0x40
    if d.needed = 1 then ([Char.ofNat codePoint], ready)
    else ([], ⟨codePoint, d.needed - 1, 0x80, 0xBF⟩)

def run (d : Decoder) : List UInt8 → List Char
  | [] => if d.needed = 0 then [] else [replacement]
  | b :: bs => (step d b.toNat).1 ++ run (step d b.toNat).2 bs

/-- The byte order mark. -/
def mark : List UInt8 := [0xEF, 0xBB, 0xBF]

/-- The units of a character. -/
def unitsOf (c : Char) : List UInt16 :=
  if c.toNat < 0x10000 then [UInt16.ofNat c.toNat]
  else
    [UInt16.ofNat (0xD800 + (c.toNat - 0x10000) / 0x400),
      UInt16.ofNat (0xDC00 + (c.toNat - 0x10000) % 0x400)]

/-- The characters in bytes without a mark in front. -/
def characters (bytes : List UInt8) : List Char :=
  run ready (if mark.isPrefixOf bytes then bytes.drop 3 else bytes)

/-- `new TextDecoder().decode(bytes)` -/
def decode (bytes : List UInt8) : List UInt16 := (characters bytes).flatMap unitsOf

/-- The UTF-8 of characters. -/
def utf8 (cs : List Char) : List UInt8 := cs.flatMap String.utf8EncodeChar

/-! ## A character's bytes are read as the character -/

theorem run_lead (b : UInt8) (bs : List UInt8) :
    run ready (b :: bs) = (lead b.toNat).1 ++ run (lead b.toNat).2 bs := rfl

theorem run_next {d : Decoder} (more : 1 < d.needed) {b : UInt8}
    (fits : d.lower ≤ b.toNat ∧ b.toNat ≤ d.upper) (bs : List UInt8) :
    run d (b :: bs) =
      run ⟨d.codePoint * 0x40 + b.toNat % 0x40, d.needed - 1, 0x80, 0xBF⟩ bs := by
  rw [run, step, if_neg (by omega), if_neg (by omega), if_neg (by omega)]
  rfl

theorem run_last {d : Decoder} (last : d.needed = 1) {b : UInt8}
    (fits : d.lower ≤ b.toNat ∧ b.toNat ≤ d.upper) (bs : List UInt8) :
    run d (b :: bs) = Char.ofNat (d.codePoint * 0x40 + b.toNat % 0x40) :: run ready bs := by
  rw [run, step, if_neg (by omega), if_neg (by omega), if_pos last]
  rfl

theorem toNat_ofNat_small {n : Nat} (small : n < 256) : (UInt8.ofNat n).toNat = n :=
  Nat.mod_eq_of_lt small

theorem run_two {v : Nat} (least : 0x80 ≤ v) (most : v ≤ 0x7FF) (bs : List UInt8) :
    run ready (UInt8.ofNat (v / 64 % 0x20 + 0xC0) :: UInt8.ofNat (v % 0x40 + 0x80) :: bs) =
      Char.ofNat v :: run ready bs := by
  have first := toNat_ofNat_small (show v / 64 % 0x20 + 0xC0 < 256 by omega)
  have second := toNat_ofNat_small (show v % 0x40 + 0x80 < 256 by omega)
  rw [run_lead, first, lead, if_neg (by omega), if_pos ⟨by omega, by omega⟩, List.nil_append,
    run_last rfl (by rw [second]; dsimp only; omega), second]
  congr 2
  dsimp only
  omega

theorem run_three {v : Nat} (least : 0x800 ≤ v) (most : v ≤ 0xFFFF)
    (valid : v < 0xD800 ∨ 0xDFFF < v) (bs : List UInt8) :
    run ready (UInt8.ofNat (v / 4096 % 0x10 + 0xE0) :: UInt8.ofNat (v / 64 % 0x40 + 0x80) ::
      UInt8.ofNat (v % 0x40 + 0x80) :: bs) = Char.ofNat v :: run ready bs := by
  have first := toNat_ofNat_small (show v / 4096 % 0x10 + 0xE0 < 256 by omega)
  have second := toNat_ofNat_small (show v / 64 % 0x40 + 0x80 < 256 by omega)
  have third := toNat_ofNat_small (show v % 0x40 + 0x80 < 256 by omega)
  rw [run_lead, first, lead, if_neg (by omega), if_neg (by omega), if_pos ⟨by omega, by omega⟩,
    List.nil_append, run_next Nat.one_lt_two ?_, second, run_last rfl ?_, third]
  · congr 2
    dsimp only
    omega
  · rw [third]
    dsimp only
    omega
  · rw [second]
    dsimp only
    split <;> split <;> omega

theorem run_four {v : Nat} (least : 0x10000 ≤ v) (most : v < 0x110000) (bs : List UInt8) :
    run ready (UInt8.ofNat (v / 262144 % 0x08 + 0xF0) :: UInt8.ofNat (v / 4096 % 0x40 + 0x80) ::
      UInt8.ofNat (v / 64 % 0x40 + 0x80) :: UInt8.ofNat (v % 0x40 + 0x80) :: bs) =
        Char.ofNat v :: run ready bs := by
  have first := toNat_ofNat_small (show v / 262144 % 0x08 + 0xF0 < 256 by omega)
  have second := toNat_ofNat_small (show v / 4096 % 0x40 + 0x80 < 256 by omega)
  have third := toNat_ofNat_small (show v / 64 % 0x40 + 0x80 < 256 by omega)
  have fourth := toNat_ofNat_small (show v % 0x40 + 0x80 < 256 by omega)
  rw [run_lead, first, lead, if_neg (by omega), if_neg (by omega), if_neg (by omega),
    if_pos ⟨by omega, by omega⟩, List.nil_append,
    run_next (show 1 < 3 from by decide) ?_, second, run_next Nat.one_lt_two ?_, third,
    run_last rfl ?_, fourth]
  · congr 2
    dsimp only
    omega
  · rw [fourth]
    dsimp only
    omega
  · rw [third]
    dsimp only
    omega
  · rw [second]
    dsimp only
    split <;> split <;> omega

/-- The bytes of a character are read as the character. -/
theorem run_char (c : Char) (bs : List UInt8) :
    run ready (String.utf8EncodeChar c ++ bs) = c :: run ready bs := by
  have valid := c.valid
  have whole : c.val.toNat = c.toNat := rfl
  have back : Char.ofNat c.toNat = c := Char.ofNat_toNat c
  simp only [UInt32.isValidChar, Nat.isValidChar, whole] at valid
  unfold String.utf8EncodeChar
  dsimp only
  rw [whole]
  generalize c.toNat = v at valid back
  rw [← back]
  split
  · rename_i one
    rw [List.singleton_append, run_lead, toNat_ofNat_small (by omega), lead, if_pos one]
    rfl
  split
  · rename_i two
    exact run_two (by omega) two bs
  split
  · rename_i three
    exact run_three (by omega) three (by omega) bs
  · exact run_four (by omega) (by omega) bs

theorem run_utf8 (cs : List Char) : run ready (utf8 cs) = cs := by
  induction cs with
  | nil => rfl
  | cons c cs ih => rw [utf8, List.flatMap_cons, run_char, ← utf8, ih]

/-! ## What is written back -/

theorem toNat_ofNat_unit {n : Nat} (small : n < 0x10000) : (UInt16.ofNat n).toNat = n :=
  Nat.mod_eq_of_lt small

theorem isHigh_iff (u : UInt16) : isHigh u = true ↔ 0xD800 ≤ u.toNat ∧ u.toNat ≤ 0xDBFF := by
  simp only [isHigh, Bool.and_eq_true, decide_eq_true_eq, UInt16.le_iff_toNat_le]
  rfl

theorem isLow_iff (u : UInt16) : isLow u = true ↔ 0xDC00 ≤ u.toNat ∧ u.toNat ≤ 0xDFFF := by
  simp only [isLow, Bool.and_eq_true, decide_eq_true_eq, UInt16.le_iff_toNat_le]
  rfl

/-- A unit that begins no pair is a character. -/
theorem scalars_single {u : UInt16} (plain : isHigh u = false) (s : List UInt16) :
    scalars (u :: s) = single u :: scalars s := by
  cases s with
  | nil => rfl
  | cons v s => rw [scalars, plain, Bool.false_and, if_neg (by decide)]

theorem scalars_unitsOf (c : Char) (s : List UInt16) :
    scalars (unitsOf c ++ s) = c :: scalars s := by
  have valid : c.toNat < 0xD800 ∨ (0xDFFF < c.toNat ∧ c.toNat < 0x110000) := c.valid
  have back : Char.ofNat c.toNat = c := Char.ofNat_toNat c
  unfold unitsOf
  split
  · rename_i small
    have unit := toNat_ofNat_unit small
    have high : isHigh (UInt16.ofNat c.toNat) = false := by
      rw [Bool.eq_false_iff, ne_eq, isHigh_iff, unit]
      omega
    have low : isLow (UInt16.ofNat c.toNat) = false := by
      rw [Bool.eq_false_iff, ne_eq, isLow_iff, unit]
      omega
    rw [List.singleton_append, scalars_single high, single, high, low, unit, back]
    rfl
  · rename_i large
    have first := toNat_ofNat_unit
      (show 0xD800 + (c.toNat - 0x10000) / 0x400 < 0x10000 by omega)
    have second := toNat_ofNat_unit
      (show 0xDC00 + (c.toNat - 0x10000) % 0x400 < 0x10000 by omega)
    have surrogates : (isHigh (UInt16.ofNat (0xD800 + (c.toNat - 0x10000) / 0x400)) &&
        isLow (UInt16.ofNat (0xDC00 + (c.toNat - 0x10000) % 0x400))) = true := by
      rw [Bool.and_eq_true, isHigh_iff, isLow_iff, first, second]
      omega
    rw [List.cons_append, List.singleton_append, scalars, if_pos surrogates, pair, first, second,
      show 0x10000 + (0xD800 + (c.toNat - 0x10000) / 0x400 - 0xD800) * 0x400 +
        (0xDC00 + (c.toNat - 0x10000) % 0x400 - 0xDC00) = c.toNat by omega, back]

/-- **The units of characters are written as their UTF-8.** -/
theorem encode_unitsOf (cs : List Char) : encode (cs.flatMap unitsOf) = utf8 cs := by
  have read : scalars (cs.flatMap unitsOf) = cs := by
    induction cs with
    | nil => rfl
    | cons c cs ih => rw [List.flatMap_cons, scalars_unitsOf, ih]
  rw [encode, read, utf8]

theorem mark_eq : mark = String.utf8EncodeChar (Char.ofNat 0xFEFF) := by decide

theorem run_mark (bytes : List UInt8) :
    run ready (mark ++ bytes) = Char.ofNat 0xFEFF :: run ready bytes := by
  rw [mark_eq, run_char]

/-- Without a mark in front, UTF-8 is read as its characters. -/
theorem characters_utf8 {cs : List Char} (unmarked : mark.isPrefixOf (utf8 cs) = false) :
    characters (utf8 cs) = cs := by
  rw [characters, unmarked, if_neg (by decide), run_utf8]

/-- **What is read, some characters left out, and written back is the same when it was UTF-8
without a mark in front and nothing was left out.** -/
theorem utf8_filter_iff (keep : Char → Bool) (bytes : List UInt8) :
    utf8 ((characters bytes).filter keep) = bytes ↔
      ∃ cs, bytes = utf8 cs ∧ mark.isPrefixOf bytes = false ∧ ∀ c ∈ cs, keep c = true := by
  constructor
  · intro same
    have again : run ready bytes = (characters bytes).filter keep := by
      rw [← run_utf8 ((characters bytes).filter keep), same]
    have unmarked : mark.isPrefixOf bytes = false := by
      rw [Bool.eq_false_iff]
      intro marked
      obtain ⟨rest, whole⟩ := List.isPrefixOf_iff_prefix.mp marked
      have dropped : characters bytes = run ready rest := by
        rw [characters, if_pos marked, ← whole]
        rfl
      rw [dropped, ← whole, run_mark] at again
      have longer := congrArg List.length again
      have shorter := List.length_filter_le keep (run ready rest)
      rw [List.length_cons] at longer
      omega
    exact ⟨_, same.symm, unmarked, fun c member => (List.mem_filter.mp member).2⟩
  · rintro ⟨cs, rfl, unmarked, kept⟩
    rw [characters_utf8 unmarked, List.filter_eq_self.mpr kept]

/-- A byte of ASCII stands for its character alone. -/
theorem ascii_mem_utf8 {n : Nat} (ascii : n < 128) (cs : List Char) :
    UInt8.ofNat n ∈ utf8 cs ↔ ∃ c ∈ cs, c.toNat = n := by
  have byte : (UInt8.ofNat n).toNat = n := toNat_ofNat_small (by omega)
  rw [utf8, List.mem_flatMap]
  refine exists_congr fun c => and_congr_right fun _ => ?_
  rcases utf8_cases c with ⟨small, bytes⟩ | ⟨large, -, beyond⟩
  · rw [bytes, List.mem_singleton, ← UInt8.toNat_inj, byte, toNat_ofNat_small (by omega)]
    exact eq_comm
  · constructor
    · intro member
      have far := beyond _ member
      omega
    · omega

/-! ## Nothing is read as NUL but NUL -/

/-- What is under way becomes a character that is valid and is not NUL. -/
def Sound (d : Decoder) : Prop :=
  d.needed = 0 ∨
  (d.needed = 1 ∧ 2 ≤ d.codePoint ∧
    (d.codePoint < 0x360 ∨ (0x380 ≤ d.codePoint ∧ d.codePoint < 0x4400))) ∨
  (d.needed = 2 ∧
    ((d.codePoint = 0 ∧ d.lower = 0xA0 ∧ d.upper = 0xBF) ∨
      (1 ≤ d.codePoint ∧ d.codePoint ≤ 0x10F ∧ d.codePoint ≠ 13 ∧ d.lower = 0x80 ∧
        d.upper = 0xBF) ∨
      (d.codePoint = 13 ∧ d.lower = 0x80 ∧ d.upper = 0x9F))) ∨
  (d.needed = 3 ∧
    ((d.codePoint = 0 ∧ d.lower = 0x90 ∧ d.upper = 0xBF) ∨
      (1 ≤ d.codePoint ∧ d.codePoint ≤ 3 ∧ d.lower = 0x80 ∧ d.upper = 0xBF) ∨
      (d.codePoint = 4 ∧ d.lower = 0x80 ∧ d.upper = 0x8F)))

theorem sound_lead {b : Nat} (byte : b < 256) :
    Sound (lead b).2 ∧ ∀ c ∈ (lead b).1, c.toNat = 0 → b = 0 := by
  unfold lead
  split
  · rename_i ascii
    refine ⟨.inl rfl, fun c member null => ?_⟩
    rw [List.mem_singleton.mp member, toNat_ofNat (by simp only [Nat.isValidChar]; omega)] at null
    exact null
  split
  · refine ⟨.inr (.inl ⟨rfl, ?_, ?_⟩), by rintro c ⟨⟩⟩
    all_goals dsimp only; omega
  split
  · refine ⟨.inr (.inr (.inl ⟨rfl, ?_⟩)), by rintro c ⟨⟩⟩
    dsimp only
    split <;> split <;> omega
  split
  · refine ⟨.inr (.inr (.inr ⟨rfl, ?_⟩)), by rintro c ⟨⟩⟩
    dsimp only
    split <;> split <;> omega
  · refine ⟨.inl rfl, fun c member null => ?_⟩
    rw [List.mem_singleton.mp member] at null
    exact absurd null (by decide)

theorem sound_step {d : Decoder} (sound : Sound d) {b : Nat} (byte : b < 256) :
    Sound (step d b).2 ∧ ∀ c ∈ (step d b).1, c.toNat = 0 → b = 0 := by
  have begins := sound_lead byte
  unfold step
  split
  · exact begins
  split
  · refine ⟨begins.1, fun c member null => ?_⟩
    rcases List.mem_cons.mp member with rfl | member
    · exact absurd null (by decide)
    · exact begins.2 c member null
  · rename_i some_ fits
    unfold Sound at sound
    dsimp only
    split
    · refine ⟨.inl rfl, fun c member null => ?_⟩
      rw [List.mem_singleton.mp member, toNat_ofNat (by simp only [Nat.isValidChar]; omega)] at null
      omega
    · refine ⟨?_, by rintro c ⟨⟩⟩
      rename_i more
      rcases sound with done | ⟨one, -⟩ | ⟨two, begun⟩ | ⟨three, begun⟩
      · exact absurd done some_
      · exact absurd one more
      · refine .inr (.inl ⟨by dsimp only; omega, ?_⟩)
        dsimp only
        rcases begun with begun | begun | begun
        all_goals constructor <;> omega
      · refine .inr (.inr (.inl ⟨by dsimp only; omega, .inr (.inl ?_)⟩))
        dsimp only
        rcases begun with begun | begun | begun
        all_goals exact ⟨by omega, by omega, by omega, rfl, rfl⟩

theorem nul_run {bytes : List UInt8} (clean : 0 ∉ bytes) {d : Decoder} (sound : Sound d) :
    ∀ c ∈ run d bytes, c.toNat ≠ 0 := by
  induction bytes generalizing d with
  | nil =>
      intro c member
      rw [run] at member
      split at member
      · cases member
      · rw [List.mem_singleton.mp member]
        decide
  | cons b bytes ih =>
      obtain ⟨sound', emits⟩ := sound_step sound b.toNat_lt
      intro c member null
      rcases List.mem_append.mp member with here | later
      · have zero : b = 0 := UInt8.toNat_inj.mp (emits c here null)
        exact clean (zero ▸ List.mem_cons_self)
      · exact ih (fun inside => clean (List.mem_cons_of_mem _ inside)) sound' c later null

theorem nul_not_mem_decode {bytes : List UInt8} (clean : 0 ∉ bytes) : 0 ∉ decode bytes := by
  intro member
  obtain ⟨c, there, unit⟩ := List.mem_flatMap.mp member
  have some_ : c.toNat ≠ 0 := by
    refine nul_run ?_ (.inl rfl) c there
    split
    · exact fun inside => clean (List.mem_of_mem_drop inside)
    · exact clean
  have valid : c.toNat < 0xD800 ∨ (0xDFFF < c.toNat ∧ c.toNat < 0x110000) := c.valid
  have null : (0 : UInt16).toNat = 0 := rfl
  unfold unitsOf at unit
  split at unit
  · rename_i small
    have zero := congrArg UInt16.toNat (List.mem_singleton.mp unit)
    rw [toNat_ofNat_unit small] at zero
    exact some_ zero.symm
  · rename_i large
    rcases List.mem_cons.mp unit with same | second
    · have zero := congrArg UInt16.toNat same
      rw [toNat_ofNat_unit (by omega)] at zero
      omega
    · have zero := congrArg UInt16.toNat (List.mem_singleton.mp second)
      rw [toNat_ofNat_unit (by omega)] at zero
      omega

end IrHub.Theory.Utf8
