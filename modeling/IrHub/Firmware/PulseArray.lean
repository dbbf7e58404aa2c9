/-
# Firmware.PulseArray -- what the pulse loop reads, and what it takes for an array

The loop of `decode_ir_message` reads tokens: separators, then what `strtol`
reads (blanks, a sign, digits).  `Reads text tokens rest` is that reading without
the loop, and `decodePulses_reads` says the loop performs it until no token
follows or the array is full.

An array of the message is something narrower: elements with JSON blanks around
them, a comma between two of them, a bracket at the end.  The loop reads such an
array up to the first carriage return in front of a comma (`readArray_array`),
which `isSeparator` leaves out.

* `accepts_arrays_iff` -- when what the decoder accepts is an array and its value;
* `array_read_iff` -- when an array is read in full, or refused when it is too long.
-/
import IrHub.Firmware.Inbound
import IrHub.Theory.Json

namespace IrHub.Firmware.PulseArray

set_option autoImplicit false

open IrHub.Theory IrHub.Firmware.JsonHelper IrHub.Firmware.Inbound
open IrHub.Theory.Json (isWs isWs_digit)

/-! ## Tokens -/

/-- What one turn of the loop consumes. -/
structure Token where
  separators : List UInt8
  blanks : List UInt8
  sign : List UInt8
  digits : List UInt8
  separators_all : ∀ b ∈ separators, isSeparator b = true
  blanks_all : ∀ b ∈ blanks, isSpace b = true
  sign_cases : sign = [] ∨ sign = [45] ∨ sign = [43]
  digits_all : ∀ b ∈ digits, isDigit b = true
  digits_ne_nil : digits ≠ []

/-- The token as it stands in the text. -/
def Token.text (token : Token) : List UInt8 :=
  token.separators ++ token.blanks ++ token.sign ++ token.digits

/-- What `strtol` returns for it. -/
def Token.long (token : Token) : Int :=
  if token.sign = [45] then max (-2147483648) (-(ofDigits token.digits : Int))
  else min 2147483647 (ofDigits token.digits)

/-- What the loop stores: the cast of that to 16 bits. -/
def Token.value (token : Token) : UInt16 := UInt16.ofInt token.long

/-- No digit comes first: a numeral in front of `text` ends there. -/
def Stops (text : List UInt8) : Prop := ∀ b, text.head? = some b → isDigit b = false

/-- No token comes first. -/
def Stuck (text : List UInt8) : Prop := ∀ (token : Token) (rest : List UInt8), text ≠ token.text ++ rest

/-- `tokens` one after the other from `text`, each with all of its digits, and
what is left. -/
inductive Reads : List UInt8 → List Token → List UInt8 → Prop
  | done (text : List UInt8) : Reads text [] text
  | next (token : Token) {text rest : List UInt8} {tokens : List Token} :
      Stops text → Reads text tokens rest → Reads (token.text ++ text) (token :: tokens) rest

/-- A digit before the next closing bracket. -/
def DigitAhead (text : List UInt8) : Prop :=
  ∃ front b rest, text = front ++ b :: rest ∧ 93 ∉ front ∧ isDigit b = true

/-! ## One turn of the loop -/

theorem isSeparator_digit {b : UInt8} (digit : isDigit b = true) : isSeparator b = false := by
  have kept := dropWhile_separator_digit [] digit
  by_contra separator
  simp [Bool.eq_true_of_not_eq_false separator] at kept

theorem Token.digits_cons (token : Token) :
    ∃ b ds, token.digits = b :: ds ∧ isDigit b = true := by
  cases shape : token.digits with
  | nil => exact absurd shape token.digits_ne_nil
  | cons b ds => exact ⟨b, ds, rfl, token.digits_all b (by simp [shape])⟩

/-- The byte after separators and blanks is a sign or a digit. -/
theorem Token.numeral_head (token : Token) :
    ∃ b ds, token.sign ++ token.digits = b :: ds ∧ isSeparator b = false ∧ isSpace b = false := by
  obtain ⟨d, ds, shape, digit⟩ := token.digits_cons
  rcases token.sign_cases with sign | sign | sign
  · exact ⟨d, ds, by rw [sign, shape]; rfl, isSeparator_digit digit, digit_not_space digit⟩
  · exact ⟨45, token.digits, by rw [sign]; rfl, by decide, by decide⟩
  · exact ⟨43, token.digits, by rw [sign]; rfl, by decide, by decide⟩

theorem dropWhile_append_cons {p : UInt8 → Bool} {front : List UInt8} {b : UInt8}
    {rest : List UInt8} (head : p b = false) :
    (front ++ b :: rest).dropWhile p = front.dropWhile p ++ b :: rest := by
  rw [List.dropWhile_append]
  split
  · rename_i none
    rw [List.isEmpty_iff.mp none, List.dropWhile_cons_of_neg (by simp [head]), List.nil_append]
  · rfl

theorem dropWhile_append_of_head {p : UInt8 → Bool} {front : List UInt8} {b : UInt8}
    {rest : List UInt8} (all : ∀ x ∈ front, p x = true) (head : p b = false) :
    (front ++ b :: rest).dropWhile p = b :: rest := by
  refine dropWhile_run all ?_
  rintro _ ⟨⟩
  exact head

/-- After its own skip the loop stands on what is left of the blanks. -/
theorem Token.dropWhile_separators (token : Token) (rest : List UInt8) :
    ∃ blanks, (∀ b ∈ blanks, isSpace b = true) ∧
      (token.text ++ rest).dropWhile isSeparator =
        blanks ++ (token.sign ++ token.digits ++ rest) := by
  obtain ⟨b, ds, shape, separator, -⟩ := token.numeral_head
  refine ⟨token.blanks.dropWhile isSeparator, fun x member =>
    token.blanks_all x (List.dropWhile_sublist _ |>.subset member), ?_⟩
  have text : token.text ++ rest =
      token.separators ++ (token.blanks ++ (b :: ds ++ rest)) := by
    simp only [Token.text, List.append_assoc, ← shape]
  rw [text, List.dropWhile_append_of_pos token.separators_all, shape, List.cons_append]
  exact dropWhile_append_cons separator

theorem scanSign_token (token : Token) (rest : List UInt8) :
    scanSign (token.sign ++ token.digits ++ rest) =
      (decide (token.sign = [45]), token.digits ++ rest) := by
  obtain ⟨b, ds, shape, digit⟩ := token.digits_cons
  rcases token.sign_cases with sign | sign | sign
  · rw [sign, List.nil_append, shape, List.cons_append, scanSign_digit _ digit]
    simp
  · rw [sign]; rfl
  · rw [sign]; rfl

/-- `strtol` reads the whole token. -/
theorem strtol_token (token : Token) {rest : List UInt8} (stops : Stops rest) :
    strtol ((token.text ++ rest).dropWhile isSeparator) = some (token.long, rest) := by
  obtain ⟨blanks, spaces, skipped⟩ := token.dropWhile_separators rest
  obtain ⟨b, ds, shape, -, space⟩ := token.numeral_head
  have noBlank : (blanks ++ (token.sign ++ token.digits ++ rest)).dropWhile isSpace =
      token.sign ++ token.digits ++ rest := by
    rw [shape, List.cons_append]
    exact dropWhile_append_of_head spaces space
  have scanned : scanInt (blanks ++ (token.sign ++ token.digits ++ rest)) =
      some ⟨decide (token.sign = [45]), ofDigits token.digits, rest⟩ := by
    simp only [scanInt, noBlank, scanSign_token, takeWhile_run token.digits_all stops,
      dropWhile_run token.digits_all stops, token.digits_ne_nil, if_false]
  rw [skipped, strtol, scanned]
  simp only [Option.map_some, decide_eq_true_eq, Token.long]

theorem scanSign_cases (p : List UInt8) :
    ∃ sign, (sign = [] ∨ sign = [45] ∨ sign = [43]) ∧ p = sign ++ (scanSign p).2 ∧
      (scanSign p).1 = decide (sign = [45]) := by
  unfold scanSign
  split
  · exact ⟨[45], by simp, rfl, rfl⟩
  · exact ⟨[43], by simp, rfl, rfl⟩
  · exact ⟨[], by simp, rfl, rfl⟩

theorem stops_dropWhile (p : List UInt8) : Stops (p.dropWhile isDigit) := by
  intro b head
  by_contra digit
  have none := List.head?_dropWhile_not isDigit p
  rw [head] at none
  exact digit none

/-- And whatever `strtol` reads after the skip is a token. -/
theorem token_of_strtol {text rest : List UInt8} {long : Int}
    (read : strtol (text.dropWhile isSeparator) = some (long, rest)) :
    ∃ token : Token, text = token.text ++ rest ∧ token.long = long ∧ Stops rest := by
  let q := text.dropWhile isSeparator
  let r := q.dropWhile isSpace
  obtain ⟨sign, cases, signed, negative⟩ := scanSign_cases r
  obtain ⟨scanned, scan, value⟩ := Option.map_eq_some_iff.mp read
  simp only [scanInt] at scan
  split at scan
  · cases scan
  · rename_i digits
    cases scan
    obtain ⟨rfl, rfl⟩ := Prod.mk.inj value
    refine ⟨⟨text.takeWhile isSeparator, q.takeWhile isSpace, sign,
      (scanSign r).2.takeWhile isDigit, fun _ => List.mem_takeWhile_imp,
      fun _ => List.mem_takeWhile_imp, cases, fun _ => List.mem_takeWhile_imp, digits⟩,
      ?_, ?_, stops_dropWhile _⟩
    · calc text = text.takeWhile isSeparator ++ (q.takeWhile isSpace ++ r) := by
            rw [List.takeWhile_append_dropWhile, List.takeWhile_append_dropWhile]
        _ = _ := by
            conv => lhs; rw [signed, ← List.takeWhile_append_dropWhile (p := isDigit) (l := (scanSign r).2)]
            simp only [Token.text, List.append_assoc]
            rfl
    · have flag : (scanSign ((text.dropWhile isSeparator).dropWhile isSpace)).1 =
          decide (sign = [45]) := negative
      simp only [Token.long, flag, decide_eq_true_eq]
      rfl

/-- A token in front of any text can be taken with all of its digits. -/
theorem Token.extend (token : Token) (rest : List UInt8) :
    ∃ (longer : Token) (left : List UInt8),
      token.text ++ rest = longer.text ++ left ∧ Stops left := by
  refine ⟨⟨token.separators, token.blanks, token.sign, token.digits ++ rest.takeWhile isDigit,
    token.separators_all, token.blanks_all, token.sign_cases, ?_, by simp [token.digits_ne_nil]⟩,
    rest.dropWhile isDigit, ?_, stops_dropWhile rest⟩
  · intro b member
    rcases List.mem_append.mp member with inside | after
    · exact token.digits_all b inside
    · exact List.mem_takeWhile_imp after
  · simp only [Token.text, List.append_assoc, List.takeWhile_append_dropWhile]

/-- The end of the text and the bracket are no number. -/
theorem strtol_closed {p : List UInt8} (closed : p = [] ∨ p.head? = some 93) :
    strtol p = none := by
  rcases closed with rfl | head
  · rfl
  · cases p with
    | nil => rfl
    | cons b p =>
        cases head
        rfl

theorem dropWhile_closed {p : List UInt8} (closed : p = [] ∨ p.head? = some 93) :
    p.dropWhile isSeparator = p := by
  rcases closed with rfl | head
  · rfl
  · cases p with
    | nil => rfl
    | cons b p =>
        cases head
        rfl

/-- A turn that finds no token ends the loop. -/
theorem decodePulses_stuck {text : List UInt8} (stuck : Stuck text) (room : Nat) :
    (decodePulses room text).1 = [] := by
  cases room with
  | zero => rfl
  | succ room =>
      have none : strtol (text.dropWhile isSeparator) = none := by
        cases read : strtol (text.dropWhile isSeparator) with
        | none => rfl
        | some found =>
            obtain ⟨long, rest⟩ := found
            obtain ⟨token, shape, -, -⟩ := token_of_strtol read
            exact absurd shape (stuck token rest)
      simp only [decodePulses, none]
      split
      · rfl
      · split <;> rfl

/-- A turn that finds one stores its value. -/
theorem decodePulses_token (token : Token) {rest : List UInt8} (stops : Stops rest) (room : Nat) :
    decodePulses (room + 1) (token.text ++ rest) =
      (token.value :: (decodePulses room rest).1, (decodePulses room rest).2) := by
  have read := strtol_token token stops
  have open_ : ¬(token.text ++ rest = [] ∨ (token.text ++ rest).head? = some 93) := fun closed => by
    rw [dropWhile_closed closed, strtol_closed closed] at read
    cases read
  have open' : ¬((token.text ++ rest).dropWhile isSeparator = [] ∨
      ((token.text ++ rest).dropWhile isSeparator).head? = some 93) := fun closed => by
    rw [strtol_closed closed] at read
    cases read
  rw [decodePulses, if_neg open_]
  simp only [if_neg open', read]
  rfl

/-! ## The whole loop -/

/-- The tokens read come out as their values, in order, and the loop goes on from
what is left with the room that is left. -/
theorem decodePulses_reads {text rest : List UInt8} {tokens : List Token}
    (reads : Reads text tokens rest) (room : Nat) :
    decodePulses (tokens.length + room) text =
      (tokens.map Token.value ++ (decodePulses room rest).1, (decodePulses room rest).2) := by
  induction reads with
  | done text => simp
  | @next token text rest tokens stops reads ih =>
      rw [List.length_cons, Nat.add_right_comm, decodePulses_token token stops, ih]
      simp

/-- Every text is read until it has no further token, or `room` is used up. -/
theorem reads_exists (room : Nat) (text : List UInt8) :
    ∃ tokens rest, Reads text tokens rest ∧ tokens.length ≤ room ∧
      (tokens.length < room → Stuck rest) := by
  induction room generalizing text with
  | zero => exact ⟨[], text, .done text, by simp, by simp⟩
  | succ room ih =>
      by_cases stuck : Stuck text
      · exact ⟨[], text, .done text, by simp, fun _ => stuck⟩
      · simp only [Stuck, not_forall, not_not] at stuck
        obtain ⟨token, after, shape⟩ := stuck
        obtain ⟨longer, left, same, stops⟩ := token.extend after
        obtain ⟨tokens, rest, reads, fits, ends⟩ := ih left
        refine ⟨longer :: tokens, rest, ?_, by simpa using fits, fun short => ends ?_⟩
        · rw [shape, same]
          exact .next longer stops reads
        · simpa using short

theorem moreDigits_iff (text : List UInt8) : moreDigits text = true ↔ DigitAhead text := by
  rw [moreDigits, List.any_eq_true]
  constructor
  · rintro ⟨b, member, digit⟩
    obtain ⟨front, back, shape⟩ := List.append_of_mem member
    refine ⟨front, b, back ++ text.dropWhile (· != 93), ?_, ?_, digit⟩
    · conv => lhs; rw [← List.takeWhile_append_dropWhile (p := (· != 93)) (l := text), shape]
      simp
    · intro bracket
      have inside : (93 : UInt8) ∈ text.takeWhile (· != 93) := by rw [shape]; simp [bracket]
      simpa using List.mem_takeWhile_imp inside
  · rintro ⟨front, b, rest, rfl, before, digit⟩
    refine ⟨b, ?_, digit⟩
    have notBracket : b ≠ 93 := by rintro rfl; exact absurd digit (by decide)
    have clean : ∀ x ∈ front, (x != 93) = true := fun x member => by
      simp only [bne_iff_ne]
      rintro rfl
      exact before member
    rw [List.takeWhile_append_of_pos clean, List.mem_append]
    exact Or.inr (by simp [notBracket])

/-- `pulses` is all that can be read from `text`, and it fits. -/
def Lists (text : List UInt8) (pulses : List UInt16) : Prop :=
  ∃ tokens rest, Reads text tokens rest ∧ tokens.map Token.value = pulses ∧
    (tokens.length < irMaxPulses ∧ Stuck rest ∨ tokens.length = irMaxPulses ∧ ¬DigitAhead rest)

/-- A full array of tokens, and a digit still to come. -/
def Overlong (text : List UInt8) : Prop :=
  ∃ tokens rest, Reads text tokens rest ∧ tokens.length = irMaxPulses ∧ DigitAhead rest

/-- The reading of the array: its pulses and whether it was truncated. -/
def readArray (text : List UInt8) : List UInt16 × Bool :=
  let read := decodePulses irMaxPulses text
  (read.1, decide (irMaxPulses ≤ read.1.length) && moreDigits read.2)

/-- The loop and the scan after it, from the tokens. -/
theorem readArray_reads {text rest : List UInt8} {tokens : List Token}
    (reads : Reads text tokens rest) (fits : tokens.length ≤ irMaxPulses)
    (ends : tokens.length < irMaxPulses → Stuck rest) :
    (readArray text).1 = tokens.map Token.value ∧
      ((readArray text).2 = true ↔ tokens.length = irMaxPulses ∧ DigitAhead rest) := by
  obtain ⟨room, total⟩ := Nat.exists_eq_add_of_le fits
  have loop := decodePulses_reads reads room
  have none : (decodePulses room rest).1 = [] := by
    by_cases short : tokens.length < irMaxPulses
    · exact decodePulses_stuck (ends short) room
    · have full : room = 0 := by omega
      rw [full]; rfl
  rw [← total, none, List.append_nil] at loop
  refine ⟨by rw [readArray, loop], ?_⟩
  simp only [readArray, loop, List.length_map, Bool.and_eq_true, decide_eq_true_eq]
  constructor
  · rintro ⟨full, digits⟩
    have zero : room = 0 := by omega
    rw [zero, decodePulses, moreDigits_iff] at digits
    exact ⟨by omega, digits⟩
  · rintro ⟨full, digits⟩
    have zero : room = 0 := by omega
    rw [zero, decodePulses, moreDigits_iff]
    exact ⟨by omega, digits⟩

theorem lists_iff (text : List UInt8) (pulses : List UInt16) :
    Lists text pulses ↔ readArray text = (pulses, false) := by
  constructor
  · rintro ⟨tokens, rest, reads, rfl, short⟩
    have fits : tokens.length ≤ irMaxPulses := by rcases short with short | full <;> omega
    have ends : tokens.length < irMaxPulses → Stuck rest := fun less => by
      rcases short with short | full
      · exact short.2
      · omega
    obtain ⟨values, truncated⟩ := readArray_reads reads fits ends
    refine Prod.ext values (Bool.eq_false_iff.mpr fun flag => ?_)
    rcases truncated.mp flag with ⟨full, ahead⟩
    rcases short with short | all
    · omega
    · exact all.2 ahead
  · intro read
    obtain ⟨tokens, rest, reads, fits, ends⟩ := reads_exists irMaxPulses text
    obtain ⟨values, truncated⟩ := readArray_reads reads fits ends
    rw [read] at values truncated
    refine ⟨tokens, rest, reads, values.symm, ?_⟩
    by_cases short : tokens.length < irMaxPulses
    · exact Or.inl ⟨short, ends short⟩
    · have full : tokens.length = irMaxPulses := by omega
      exact Or.inr ⟨full, fun ahead => by simpa using truncated.mpr ⟨full, ahead⟩⟩

theorem overlong_iff (text : List UInt8) : Overlong text ↔ (readArray text).2 = true := by
  constructor
  · rintro ⟨tokens, rest, reads, full, ahead⟩
    exact (readArray_reads reads (by omega) (by omega)).2.mpr ⟨full, ahead⟩
  · intro flag
    obtain ⟨tokens, rest, reads, fits, ends⟩ := reads_exists irMaxPulses text
    obtain ⟨full, ahead⟩ := (readArray_reads reads fits ends).2.mp flag
    exact ⟨tokens, rest, reads, full, ahead⟩

theorem stuck_iff (text : List UInt8) : Stuck text ↔ (readArray text).1 = [] := by
  constructor
  · exact fun stuck => decodePulses_stuck stuck irMaxPulses
  · intro empty
    obtain ⟨tokens, rest, reads, fits, ends⟩ := reads_exists irMaxPulses text
    rw [(readArray_reads reads fits ends).1, List.map_eq_nil_iff] at empty
    subst empty
    cases reads
    exact ends (by decide)

/-- No token follows when `strtol` reads nothing after the skip. -/
theorem stuck_of_strtol {text : List UInt8} (none : strtol (text.dropWhile isSeparator) = none) :
    Stuck text := by
  intro token rest shape
  obtain ⟨longer, left, same, stops⟩ := token.extend rest
  rw [shape, same, strtol_token longer stops] at none
  cases none

/-! ## Arrays -/

/-- JSON blanks: spaces, tabs, line feeds and carriage returns. -/
abbrev Blanks := { text : List UInt8 // ∀ b ∈ text, isWs b = true }

/-- A numeral of an array with the blanks around it. -/
structure Element where
  before : Blanks
  digits : List UInt8
  after : Blanks
  digits_all : ∀ b ∈ digits, isDigit b = true
  digits_ne_nil : digits ≠ []
  bound : ofDigits digits ≤ 65535

def Element.text (e : Element) : List UInt8 := e.before.1 ++ e.digits ++ e.after.1

def Element.value (e : Element) : UInt16 := UInt16.ofNat (ofDigits e.digits)

/-- The elements after the first, each with its comma, the bracket and the rest. -/
def tailText (es : List Element) (rest : List UInt8) : List UInt8 :=
  (es.map Element.text).flatMap (fun y => 44 :: y) ++ 93 :: rest

/-- The array from behind its opening bracket, and the rest of the payload. -/
def arrayText (es : List Element) (rest : List UInt8) : List UInt8 :=
  commaSep (es.map Element.text) ++ 93 :: rest

/-- An array of unsigned 16-bit numerals, closed, with `pulses` in it. -/
def IsArray (text : List UInt8) (pulses : List UInt16) : Prop :=
  ∃ es rest, text = arrayText es rest ∧ pulses = es.map Element.value

/-- No carriage return between an element and the comma after it, as far as the
loop gets. -/
def NoReturn (es : List Element) : Prop :=
  ∀ (i : Nat) (inside : i < es.length), i + 1 < es.length → i + 1 < irMaxPulses →
    13 ∉ (es.get ⟨i, inside⟩).after.1

theorem arrayText_cons (e : Element) (es : List Element) (rest : List UInt8) :
    arrayText (e :: es) rest = e.text ++ tailText es rest := by
  simp [arrayText, tailText, commaSep]

theorem tailText_cons (e : Element) (es : List Element) (rest : List UInt8) :
    tailText (e :: es) rest = 44 :: (e.text ++ tailText es rest) := by
  simp [tailText]

theorem isWs_space {b : UInt8} (ws : isWs b = true) : isSpace b = true := by
  simp only [isWs, Bool.or_eq_true, beq_iff_eq] at ws
  rcases ws with ((rfl | rfl) | rfl) | rfl <;> decide

theorem isWs_separator {b : UInt8} (ws : isWs b = true) (notReturn : b ≠ 13) :
    isSeparator b = true := by
  simp only [isWs, Bool.or_eq_true, beq_iff_eq] at ws
  rcases ws with ((rfl | rfl) | rfl) | rfl
  · decide
  · decide
  · decide
  · exact absurd rfl notReturn

/-- The token of an element, behind separators. -/
def Element.token (e : Element) (separators : List UInt8)
    (all : ∀ b ∈ separators, isSeparator b = true) : Token :=
  ⟨separators, e.before.1, [], e.digits, all, fun b member => isWs_space (e.before.2 b member),
    Or.inl rfl, e.digits_all, e.digits_ne_nil⟩

theorem Element.token_value (e : Element) (separators : List UInt8)
    (all : ∀ b ∈ separators, isSeparator b = true) : (e.token separators all).value = e.value := by
  have bound := e.bound
  have noSign : ¬(e.token separators all).sign = [45] := by simp [Element.token]
  have long : (e.token separators all).long = (ofDigits e.digits : Int) := by
    rw [Token.long, if_neg noSign]
    simp only [Element.token]
    omega
  rw [Token.value, long, UInt16.ofInt, Element.value]
  congr 1
  omega

theorem stops_after (e : Element) (es : List Element) (rest : List UInt8) :
    Stops (e.after.1 ++ tailText es rest) := by
  intro b head
  cases shape : e.after.1 with
  | nil =>
      rw [shape, List.nil_append] at head
      cases es with
      | nil =>
          cases head
          decide
      | cons f es =>
          rw [tailText_cons] at head
          cases head
          decide
  | cons c cs =>
      rw [shape] at head
      cases head
      by_contra digit
      have ws := e.after.2 b (by simp [shape])
      rw [isWs_digit (Bool.eq_true_of_not_eq_false digit)] at ws
      cases ws

/-- The loop reads the elements up to `k` when no carriage return stands in front
of a comma before that. -/
theorem reads_elements (k : Nat) (e : Element) (es : List Element) (separators rest : List UInt8)
    (all : ∀ b ∈ separators, isSeparator b = true) (inside : k < (e :: es).length)
    (clean : ∀ (i : Nat) (before : i < k), 13 ∉ ((e :: es).get ⟨i, before.trans inside⟩).after.1) :
    ∃ tokens, tokens.map Token.value = ((e :: es).take (k + 1)).map Element.value ∧
      Reads (separators ++ (e.text ++ tailText es rest)) tokens
        (((e :: es).get ⟨k, inside⟩).after.1 ++ tailText ((e :: es).drop (k + 1)) rest) := by
  have shape : separators ++ (e.text ++ tailText es rest) =
      (e.token separators all).text ++ (e.after.1 ++ tailText es rest) := by
    simp [Element.text, Token.text, Element.token]
  induction k generalizing e es separators with
  | zero =>
      refine ⟨[e.token separators all], by simp [Element.token_value], ?_⟩
      rw [shape]
      exact .next _ (stops_after e es rest) (.done _)
  | succ k ih =>
      cases es with
      | nil => simp at inside
      | cons f es =>
          have noReturn : 13 ∉ e.after.1 := clean 0 (by omega)
          have comma : ∀ b ∈ e.after.1 ++ [44], isSeparator b = true := by
            intro b member
            rcases List.mem_append.mp member with blank | comma
            · exact isWs_separator (e.after.2 b blank) fun hit => noReturn (hit ▸ blank)
            · cases List.mem_singleton.mp comma
              decide
          obtain ⟨tokens, values, reads⟩ := ih f es (e.after.1 ++ [44]) comma (by simpa using inside)
            (fun i before => clean (i + 1) (by omega))
            (by simp [Element.text, Token.text, Element.token])
          refine ⟨e.token separators all :: tokens, ?_, ?_⟩
          · simp only [List.map_cons, Element.token_value, values, List.take_succ_cons]
          · rw [shape]
            refine .next _ (stops_after e (f :: es) rest) ?_
            rw [tailText_cons]
            simpa using reads

/-- A bracket or a comma behind blanks is no number. -/
theorem strtol_blanks {blanks : List UInt8} {b : UInt8} (rest : List UInt8)
    (spaces : ∀ x ∈ blanks, isSpace x = true) (ends : b = 93 ∨ b = 44) :
    strtol (blanks ++ b :: rest) = none := by
  have space : isSpace b = false := by rcases ends with rfl | rfl <;> decide
  have sign : scanSign (b :: rest) = (false, b :: rest) := by rcases ends with rfl | rfl <;> rfl
  have digit : isDigit b = false := by rcases ends with rfl | rfl <;> decide
  have noDigits : (b :: rest).takeWhile isDigit = [] := by simp [digit]
  rw [strtol, scanInt, dropWhile_append_of_head spaces space, sign]
  simp only [noDigits, if_true, Option.map_none]

/-- Nothing is read behind the last element. -/
theorem stuck_last (e : Element) (rest : List UInt8) : Stuck (e.after.1 ++ tailText [] rest) := by
  apply stuck_of_strtol
  simp only [tailText, List.map_nil, List.flatMap_nil, List.nil_append]
  rw [dropWhile_append_cons (by decide)]
  exact strtol_blanks rest (fun b member =>
    isWs_space (e.after.2 b (List.dropWhile_sublist _ |>.subset member))) (Or.inl rfl)

/-- Nothing is read behind a carriage return that a comma follows: the loop does
not skip the one and `strtol` not the other. -/
theorem stuck_return {e : Element} (hit : 13 ∈ e.after.1) (f : Element) (es : List Element)
    (rest : List UInt8) : Stuck (e.after.1 ++ tailText (f :: es) rest) := by
  obtain ⟨front, back, shape, before⟩ := List.eq_append_cons_of_mem hit
  have separators : ∀ b ∈ front, isSeparator b = true := fun b member =>
    isWs_separator (e.after.2 b (by simp [shape, member])) fun same => before (same ▸ member)
  have spaces : ∀ b ∈ 13 :: back, isSpace b = true := fun b member =>
    isWs_space (e.after.2 b (by rw [shape]; exact List.mem_append_right front member))
  apply stuck_of_strtol
  rw [tailText_cons, shape, List.append_assoc, List.cons_append,
    dropWhile_append_of_head separators (by decide)]
  have none : strtol (13 :: back ++ 44 :: (f.text ++ tailText es rest)) = none :=
    strtol_blanks _ spaces (Or.inr rfl)
  exact none

/-- An element still to come is a digit ahead. -/
theorem digitAhead_cons (e f : Element) (es : List Element) (rest : List UInt8) :
    DigitAhead (e.after.1 ++ tailText (f :: es) rest) := by
  obtain ⟨b, ds, shape, digit⟩ := (f.token [] (by simp)).digits_cons
  have digits : f.digits = b :: ds := shape
  refine ⟨e.after.1 ++ 44 :: f.before.1, b, ds ++ f.after.1 ++ tailText es rest, ?_, ?_, digit⟩
  · rw [tailText_cons, Element.text, digits]
    simp
  · intro bracket
    have noBracket : isWs 93 = false := by decide
    rcases List.mem_append.mp bracket with inside | inside
    · rw [e.after.2 93 inside] at noBracket
      cases noBracket
    · rcases List.mem_cons.mp inside with comma | blank
      · exact absurd comma (by decide)
      · rw [f.before.2 93 blank] at noBracket
        cases noBracket

/-- No digit comes behind the last element. -/
theorem digitAhead_last (e : Element) (rest : List UInt8) :
    ¬DigitAhead (e.after.1 ++ tailText [] rest) := by
  rw [← moreDigits_iff, moreDigits, tailText]
  have clean : ∀ b ∈ e.after.1, (b != 93) = true := by
    intro b member
    simp only [bne_iff_ne]
    rintro rfl
    exact absurd (e.after.2 93 member) (by decide)
  rw [List.takeWhile_append_of_pos clean]
  simp only [List.map_nil, List.flatMap_nil, List.nil_append, List.takeWhile_cons, bne_self_eq_false,
    Bool.false_eq_true, if_false, List.append_nil, List.any_eq_true, not_exists, not_and]
  intro b member digit
  have ws := e.after.2 b member
  rw [isWs_digit digit] at ws
  cases ws

/-- **The loop on an array**: with no carriage return in front of a comma the
elements come out, and more of them than fit are noticed. -/
theorem readArray_array (es : List Element) (rest : List UInt8) (nonempty : es ≠ [])
    (clean : NoReturn es) :
    readArray (arrayText es rest) =
      ((es.take irMaxPulses).map Element.value, decide (irMaxPulses < es.length)) := by
  obtain ⟨e, es, rfl⟩ := List.exists_cons_of_ne_nil nonempty
  have max : irMaxPulses = 800 := rfl
  rw [arrayText_cons]
  by_cases long : irMaxPulses < (e :: es).length
  · -- the array is full after 800 elements, with one still to come
    obtain ⟨tokens, values, reads⟩ := reads_elements 799 e es [] rest (by simp) (by omega)
      fun i before => clean i (by omega) (by omega) (by omega)
    rw [List.nil_append] at reads
    have count : tokens.length = irMaxPulses := by
      have length := congrArg List.length values
      simp only [List.length_map, List.length_take] at length
      omega
    obtain ⟨read, truncated⟩ := readArray_reads reads (by omega) (by omega)
    obtain ⟨f, fs, more⟩ : ∃ f fs, (e :: es).drop 800 = f :: fs :=
      List.exists_cons_of_ne_nil (by simp only [ne_eq, List.drop_eq_nil_iff]; omega)
    refine Prod.ext (read.trans values) ?_
    simp only [long, decide_true]
    refine truncated.mpr ⟨count, ?_⟩
    rw [more]
    exact digitAhead_cons _ f fs rest
  · -- the bracket is reached
    obtain ⟨tokens, values, reads⟩ := reads_elements es.length e es [] rest (by simp) (by simp)
      fun i before => clean i (by simp; omega) (by simp; omega) (by simp at long; omega)
    have bracket : (e :: es).drop (es.length + 1) = [] := by simp
    have whole : (e :: es).take (es.length + 1) = (e :: es).take irMaxPulses := by
      rw [List.take_of_length_le (by simp), List.take_of_length_le (by omega)]
    rw [List.nil_append, bracket] at reads
    rw [whole] at values
    have count : tokens.length = (e :: es).length := by
      have length := congrArg List.length values
      simp only [List.length_map, List.length_take] at length
      omega
    obtain ⟨read, truncated⟩ := readArray_reads reads (by omega) fun _ => stuck_last _ rest
    refine Prod.ext (read.trans values) ?_
    simp only [long, decide_false, Bool.eq_false_iff]
    intro flag
    exact digitAhead_last _ rest (truncated.mp flag).2

/-- With one, the loop stops there: what is read is shorter, and is not marked. -/
theorem readArray_return (es : List Element) (hit : ¬NoReturn es) :
    ∃ n, 0 < n ∧ n < es.length ∧ n < irMaxPulses ∧
      ∀ rest, readArray (arrayText es rest) = ((es.take n).map Element.value, false) := by
  classical
  have some : ∃ i, ∃ inside : i < es.length, i + 1 < es.length ∧ i + 1 < irMaxPulses ∧
      13 ∈ (es.get ⟨i, inside⟩).after.1 := by
    simp only [NoReturn, not_forall, not_not] at hit
    obtain ⟨i, inside, more, short, member⟩ := hit
    exact ⟨i, inside, more, short, member⟩
  -- the first of them
  let k := Nat.find some
  obtain ⟨inside, more, short, member⟩ := Nat.find_spec some
  have first : ∀ (i : Nat) (before : i < k), 13 ∉ (es.get ⟨i, before.trans inside⟩).after.1 :=
    fun i before earlier => Nat.find_min some before ⟨before.trans inside, by omega, by omega, earlier⟩
  obtain ⟨e, es, rfl⟩ := List.exists_cons_of_ne_nil (List.ne_nil_of_length_pos (by omega : 0 < es.length))
  refine ⟨k + 1, by omega, more, short, fun rest => ?_⟩
  obtain ⟨tokens, values, reads⟩ := reads_elements k e es [] rest (by simp) inside first
  have count : tokens.length = k + 1 := by
    have length := congrArg List.length values
    simp only [List.length_map, List.length_take] at length
    omega
  obtain ⟨f, fs, tail⟩ : ∃ f fs, (e :: es).drop (k + 1) = f :: fs :=
    List.exists_cons_of_ne_nil (by simp only [ne_eq, List.drop_eq_nil_iff]; omega)
  rw [List.nil_append, tail] at reads
  obtain ⟨read, truncated⟩ := readArray_reads reads (by omega) fun _ => stuck_return member f fs rest
  rw [arrayText_cons]
  refine Prod.ext (read.trans values) (Bool.eq_false_iff.mpr fun flag => ?_)
  have full := (truncated.mp flag).1
  omega

/-! ## What the decoder makes of a payload -/

/-- What follows the first `stop` after the first `key`. -/
def found (key : List UInt8) (stop : UInt8) (json : List UInt8) : Option (List UInt8) :=
  (strstr key json).bind fun p => (strchr p stop).map List.tail

theorem found_append {key : List UInt8} {stop : UInt8} {front text : List UInt8}
    (hit : found key stop front = some text) (back : List UInt8) :
    found key stop (front ++ back) = some (text ++ back) := by
  obtain ⟨p, key, stop⟩ := Option.bind_eq_some_iff.mp hit
  obtain ⟨q, there, rfl⟩ := Option.map_eq_some_iff.mp stop
  obtain ⟨before, rest, -, rfl, -⟩ := split_of_strchr there
  rw [found, strstr_append_some key back, Option.bind_some, strchr_append_some there back]
  rfl

/-- Behind a key that is there and text with no `stop`, it is the next `stop`. -/
theorem found_stop {key : List UInt8} {stop : UInt8} {front p : List UInt8}
    (hit : strstr key front = some p) (clean : ∀ b ∈ p, b ≠ 0 ∧ b ≠ stop) (back : List UInt8) :
    found key stop (front ++ stop :: back) = some back := by
  rw [found, strstr_append_some hit, Option.bind_some, strchr_append _ clean, strchr_cons_self]
  rfl

/-- The decoder reads the array behind the first bracket after the first `pulses`. -/
theorem decodeIrMessage_found (json : List UInt8) :
    decodeIrMessage json =
      match found pulsesKey 91 json with
      | none => (false, ⟨decodeCarrierFreq json, 1, false, []⟩)
      | some text => (decide (0 < (readArray text).1.length),
          ⟨decodeCarrierFreq json, 1, (readArray text).2, (readArray text).1⟩) := by
  rw [decodeIrMessage, found]
  cases strstr pulsesKey json with
  | none => rfl
  | some arr =>
      simp only [Option.bind_some]
      cases strchr arr 91 with
      | none => rfl
      | some bracket => rfl

theorem decodeIrMessage_some {json text : List UInt8} (there : found pulsesKey 91 json = some text) :
    decodeIrMessage json = (decide (0 < (readArray text).1.length),
      ⟨decodeCarrierFreq json, 1, (readArray text).2, (readArray text).1⟩) := by
  rw [decodeIrMessage_found, there]

theorem transmitted_eq_nil_iff (json : List UInt8) :
    transmitted json = [] ↔
      ((decodeIrMessage json).1 = true → (decodeIrMessage json).2.truncated = true) := by
  rw [transmitted]
  obtain ⟨ok, msg⟩ := decodeIrMessage json
  cases ok <;> simp

/-! ## Only arrays are accepted -/

/-- What is accepted is an array and its list, and without an array nothing gets
to the transmit queue. -/
def AcceptsArrays (json : List UInt8) : Prop :=
  ((decodeIrMessage json).1 = true → (decodeIrMessage json).2.truncated = false →
    ∃ text, found pulsesKey 91 json = some text ∧ IsArray text (decodeIrMessage json).2.pulses) ∧
  ((¬∃ text pulses, found pulsesKey 91 json = some text ∧ IsArray text pulses) →
    transmitted json = [])

/-- The array text is refused, or is an array that is read to its end. -/
def Faithful (text : List UInt8) : Prop :=
  Stuck text ∨ Overlong text ∨
    ∃ es rest, text = arrayText es rest ∧ es.length ≤ irMaxPulses ∧ NoReturn es

/-- An array that the loop reads with as many entries as it has is one it reads
to its end. -/
theorem noReturn_of_read {es : List Element} {rest : List UInt8}
    (read : (readArray (arrayText es rest)).1 = es.map Element.value) : NoReturn es := by
  by_contra hit
  obtain ⟨n, -, short, -, partly⟩ := readArray_return es hit
  have length := congrArg List.length read
  rw [partly] at length
  simp only [List.length_map, List.length_take] at length
  omega

theorem readArray_length (text : List UInt8) : (readArray text).1.length ≤ irMaxPulses := by
  obtain ⟨tokens, rest, reads, fits, ends⟩ := reads_exists irMaxPulses text
  rw [(readArray_reads reads fits ends).1, List.length_map]
  exact fits

/-- On the array behind the key, the two halves of acceptance. -/
theorem faithful_iff (text : List UInt8) :
    Faithful text ↔ ((readArray text).1 ≠ [] → (readArray text).2 = false →
      IsArray text (readArray text).1) := by
  rw [Faithful, stuck_iff, overlong_iff]
  constructor
  · rintro (empty | long | ⟨es, rest, rfl, fits, clean⟩) nonempty short
    · exact absurd empty nonempty
    · rw [long] at short
      cases short
    · refine ⟨es, rest, rfl, ?_⟩
      have some : es ≠ [] := by
        rintro rfl
        exact nonempty rfl
      rw [readArray_array es rest some clean, List.take_of_length_le fits]
  · intro accepts
    by_cases empty : (readArray text).1 = []
    · exact Or.inl empty
    · cases long : (readArray text).2 with
      | true => exact Or.inr (Or.inl rfl)
      | false =>
          obtain ⟨es, rest, shape, values⟩ := accepts empty long
          have fits := readArray_length text
          rw [values, List.length_map] at fits
          exact Or.inr (Or.inr ⟨es, rest, shape, fits, noReturn_of_read (shape ▸ values)⟩)

/-- **What is accepted is an array and its list exactly when** the text behind the
first bracket after the first `pulses` starts with no token, or has more tokens
than fit, or is an array with no carriage return in front of a comma. -/
theorem accepts_arrays_iff (json : List UInt8) :
    AcceptsArrays json ↔ ∀ text, found pulsesKey 91 json = some text → Faithful text := by
  rw [AcceptsArrays, transmitted_eq_nil_iff]
  cases there : found pulsesKey 91 json with
  | none => simp [decodeIrMessage_found, there]
  | some text =>
      simp only [decodeIrMessage_some there, Option.some.injEq, decide_eq_true_eq, forall_eq']
      rw [faithful_iff, ← List.ne_nil_iff_length_pos]
      constructor
      · rintro ⟨array, -⟩ nonempty short
        obtain ⟨_, rfl, isArray⟩ := array nonempty short
        exact isArray
      · intro array
        refine ⟨fun nonempty short => ⟨text, rfl, array nonempty short⟩, fun missing nonempty => ?_⟩
        by_contra short
        exact missing ⟨text, _, rfl, array nonempty (Bool.eq_false_of_not_eq_true short)⟩

/-- A payload cut off in its third pulse, which does not fit 16 bits either. -/
def cutPayload : List UInt8 := bytes "\x7b\"carrier_freq\":38000,\"pulses\":[9000,4500,70000"

/-- It is transmitted with 4464 for 70000. -/
theorem cut_accepted :
    decodeIrMessage cutPayload = (true, ⟨38000, 1, false, [9000, 4500, 4464]⟩) ∧
      transmitted cutPayload ≠ [] ∧ ¬AcceptsArrays cutPayload := by
  have decoded : decodeIrMessage cutPayload = (true, ⟨38000, 1, false, [9000, 4500, 4464]⟩) := by
    decide +kernel
  have there : found pulsesKey 91 cutPayload = some (bytes "9000,4500,70000") := by decide +kernel
  refine ⟨decoded, by rw [transmitted, decoded]; simp, fun accepts => ?_⟩
  obtain ⟨text, same, es, rest, shape, -⟩ := accepts.1 (by rw [decoded]) (by rw [decoded])
  rw [there, Option.some.injEq] at same
  subst same
  have bracket : (93 : UInt8) ∈ bytes "9000,4500,70000" := by rw [shape]; simp [arrayText]
  exact absurd bracket (by decide)

/-! ## Every array is read in full or refused -/

/-- The pulses member of an object: the blanks around its colon, and its elements. -/
structure PulsesMember where
  beforeColon : Blanks
  afterColon : Blanks
  elements : List Element
  elements_ne_nil : elements ≠ []

/-- The member up to its opening bracket. -/
def PulsesMember.opening (m : PulsesMember) : List UInt8 :=
  pulsesKey ++ m.beforeColon.1 ++ 58 :: m.afterColon.1

/-- The member between any two texts. -/
def PulsesMember.payload (m : PulsesMember) (front back : List UInt8) : List UInt8 :=
  front ++ m.opening ++ 91 :: arrayText m.elements back

/-- The array is read in full, or refused for its length. -/
def ReadInFull (m : PulsesMember) (json : List UInt8) : Prop :=
  (decodeIrMessage json).1 = true ∧
    (m.elements.length ≤ irMaxPulses →
      (decodeIrMessage json).2.pulses = m.elements.map Element.value ∧
        (decodeIrMessage json).2.truncated = false) ∧
    (irMaxPulses < m.elements.length →
      (decodeIrMessage json).2.truncated = true ∧ transmitted json = [])

theorem isWs_clean {b : UInt8} (ws : isWs b = true) : b ≠ 0 ∧ b ≠ 91 ∧ b ≠ 58 := by
  refine ⟨?_, ?_, ?_⟩ <;> (rintro rfl; exact absurd ws (by decide))

/-- No bracket stands in the member before its array. -/
theorem PulsesMember.opening_clean (m : PulsesMember) : ∀ b ∈ m.opening, b ≠ 0 ∧ b ≠ 91 := by
  have key : ∀ b ∈ pulsesKey, b ≠ 0 ∧ b ≠ 91 := by decide +kernel
  intro b member
  simp only [PulsesMember.opening, List.mem_append, List.mem_cons] at member
  rcases member with (name | blank) | rfl | blank
  · exact key b name
  · exact ⟨(isWs_clean (m.beforeColon.2 b blank)).1, (isWs_clean (m.beforeColon.2 b blank)).2.1⟩
  · decide
  · exact ⟨(isWs_clean (m.afterColon.2 b blank)).1, (isWs_clean (m.afterColon.2 b blank)).2.1⟩

/-- The array found is the member's own when the key does not occur before it. -/
theorem found_member (m : PulsesMember) {front : List UInt8}
    (first : strstr pulsesKey (front ++ pulsesKey) = some pulsesKey) (back : List UInt8) :
    found pulsesKey 91 (m.payload front back) = some (arrayText m.elements back) := by
  have key := strstr_append_some first (m.beforeColon.1 ++ 58 :: m.afterColon.1)
  have shape : front ++ m.opening = front ++ pulsesKey ++ (m.beforeColon.1 ++ 58 :: m.afterColon.1) := by
    simp [PulsesMember.opening]
  rw [← shape] at key
  refine found_stop key ?_ _
  simpa [PulsesMember.opening] using m.opening_clean

theorem Element.values_ne_nil {es : List Element} (nonempty : es ≠ []) :
    0 < (es.map Element.value).length := by
  rw [List.length_map]
  exact List.length_pos_iff.mpr nonempty

/-- **A pulse array is read in full, or refused when it is too long, exactly when**
no carriage return stands in front of a comma, as far as the loop gets: the
payload may have any text around the member, with no such key before it. -/
theorem array_read_iff (m : PulsesMember) (front back : List UInt8)
    (first : strstr pulsesKey (front ++ pulsesKey) = some pulsesKey) :
    ReadInFull m (m.payload front back) ↔ NoReturn m.elements := by
  have there := found_member m first back
  have some := Element.values_ne_nil m.elements_ne_nil
  rw [ReadInFull, transmitted_eq_nil_iff, decodeIrMessage_some there]
  constructor
  · rintro ⟨-, whole, refused⟩
    by_contra hit
    obtain ⟨n, -, short, less, read⟩ := readArray_return m.elements hit
    rw [read] at whole refused
    by_cases fits : m.elements.length ≤ irMaxPulses
    · have length := congrArg List.length (whole fits).1
      simp only [List.length_map, List.length_take] at length
      omega
    · cases (refused (by omega)).1
  · intro clean
    have max : 0 < irMaxPulses := by decide
    have read := readArray_array m.elements back m.elements_ne_nil clean
    rw [read]
    refine ⟨?_, fun fits => ⟨?_, ?_⟩, fun long => ⟨by simp [long], fun _ => by simp [long]⟩⟩
    · rw [List.length_map] at some
      simp only [List.length_map, List.length_take, decide_eq_true_eq]
      omega
    · rw [List.take_of_length_le fits]
    · simp [fits]

def noBlanks : Blanks := ⟨[], by simp⟩

/-- Blanks that are given as they stand. -/
def blanks (text : List UInt8) (all : text.all isWs = true) : Blanks :=
  ⟨text, List.all_eq_true.mp all⟩

/-- The pulse that leads a frame, and the pause behind it. -/
def leadPulse (before after : Blanks) : Element :=
  ⟨before, bytes "9000", after, List.all_eq_true.mp (by decide), by decide, by decide⟩

def leadPause (before after : Blanks) : Element :=
  ⟨before, bytes "4500", after, List.all_eq_true.mp (by decide), by decide, by decide⟩

/-- Two pulses, a carriage return before their comma. -/
def returnMember : PulsesMember :=
  ⟨noBlanks, noBlanks, [leadPulse noBlanks (blanks [13] (by decide)),
    leadPause (blanks [10] (by decide)) noBlanks], by simp⟩

/-- The second pulse is lost, and what is left is transmitted. -/
theorem return_shortens :
    ∃ (m : PulsesMember) (front back : List UInt8),
      strstr pulsesKey (front ++ pulsesKey) = some pulsesKey ∧
        m.elements.map Element.value = [9000, 4500] ∧
        transmitted (m.payload front back) = [⟨38000, 1, false, [9000]⟩] ∧
        ¬ReadInFull m (m.payload front back) := by
  have decoded : decodeIrMessage (returnMember.payload [123] [125]) =
      (true, ⟨38000, 1, false, [9000]⟩) := by decide +kernel
  refine ⟨returnMember, [123], [125], by decide +kernel, by decide +kernel,
    by simp [transmitted, decoded], fun whole => ?_⟩
  have pulses := (whole.2.1 (by decide)).1
  rw [decoded] at pulses
  exact absurd pulses (by decide)

/-- The same two pulses, with carriage returns anywhere but there. -/
def feedMember : PulsesMember :=
  ⟨blanks [32] (by decide), blanks [13, 10] (by decide),
    [leadPulse (blanks [13, 10] (by decide)) (blanks [10] (by decide)),
      leadPause (blanks [13, 9] (by decide)) (blanks [13] (by decide))], by simp⟩

theorem array_read_feed : ReadInFull feedMember (feedMember.payload [123] [125]) := by
  refine (array_read_iff feedMember [123] [125] (by decide +kernel)).mpr fun i inside more _ => ?_
  have only : i = 0 := by
    simp only [feedMember, List.length_cons, List.length_nil] at more
    omega
  subst only
  simp [feedMember, leadPulse, blanks]

end IrHub.Firmware.PulseArray
