/-
# Firmware.Members -- objects with further members around the two the decoder needs

`decode_ir_message` looks for its keys by their text, anywhere in the payload.
A `Message` is an object with the two members in either order and any further
members before, between and behind them, as texts without a NUL.

`ignored_iff` says when the further members are ignored: nothing before the own
colon or bracket spells the key and has a colon or bracket behind it, or what
follows that one reads as the same number or list.
-/
import IrHub.Firmware.PulseArray

namespace IrHub.Firmware.Members

set_option autoImplicit false

open IrHub.Theory IrHub.Firmware.JsonHelper IrHub.Firmware.PulseArray
open IrHub.Theory.Json (isWs isWs_digit)

/-! ## Objects -/

/-- The text of any further member; JSON text has no NUL. -/
abbrev Foreign := { text : List UInt8 // 0 ∉ text }

/-- The carrier frequency member of an object: the blanks around its colon. -/
structure CarrierMember where
  beforeColon : Blanks
  afterColon : Blanks
  carrierFreq : UInt32

/-- The member up to its colon. -/
def CarrierMember.opening (c : CarrierMember) : List UInt8 := carrierFreqKey ++ c.beforeColon.1

/-- The member behind its colon. -/
def CarrierMember.closing (c : CarrierMember) : List UInt8 :=
  c.afterColon.1 ++ decimal c.carrierFreq.toNat

/-- An object text with its two own members, the blanks around them, and further
members `before`, `between` and `behind` them. -/
structure Message where
  lead : Blanks
  trail : Blanks
  carrier : CarrierMember
  carrierLeft : Blanks
  carrierRight : Blanks
  pulses : PulsesMember
  pulsesLeft : Blanks
  pulsesRight : Blanks
  fits : pulses.elements.length ≤ irMaxPulses
  carrierFirst : Bool
  before : List Foreign
  between : List Foreign
  behind : List Foreign

namespace Message

def carrierText (o : Message) : List UInt8 :=
  o.carrierLeft.1 ++ o.carrier.opening ++ 58 :: (o.carrier.closing ++ o.carrierRight.1)

def pulsesText (o : Message) : List UInt8 :=
  o.pulsesLeft.1 ++ o.pulses.opening ++ 91 :: arrayText o.pulses.elements o.pulsesRight.1

def texts (members : List Foreign) : List (List UInt8) := members.map Subtype.val

/-- The members, in order. -/
def members (o : Message) : List (List UInt8) :=
  if o.carrierFirst then
    texts o.before ++ o.carrierText :: (texts o.between ++ o.pulsesText :: texts o.behind)
  else texts o.before ++ o.pulsesText :: (texts o.between ++ o.carrierText :: texts o.behind)

/-- The whole object. -/
def text (o : Message) : List UInt8 := o.lead.1 ++ 123 :: (commaSep o.members ++ 125 :: o.trail.1)

/-- The object without the further members. -/
def alone (o : Message) : Message := { o with before := [], between := [], behind := [] }

/-- The object up to a member that comes after `earlier` ones. -/
def upTo (o : Message) (earlier : List (List UInt8)) : List UInt8 :=
  o.lead.1 ++ 123 :: earlier.flatMap fun y => y ++ [44]

/-- The object behind a member that comes before `later` ones. -/
def onFrom (o : Message) (later : List (List UInt8)) : List UInt8 :=
  (later.flatMap fun y => 44 :: y) ++ 125 :: o.trail.1

def beforeCarrier (o : Message) : List (List UInt8) :=
  if o.carrierFirst then texts o.before
  else texts o.before ++ o.pulsesText :: texts o.between

def behindCarrier (o : Message) : List (List UInt8) :=
  if o.carrierFirst then texts o.between ++ o.pulsesText :: texts o.behind else texts o.behind

def beforePulses (o : Message) : List (List UInt8) :=
  if o.carrierFirst then texts o.before ++ o.carrierText :: texts o.between else texts o.before

def behindPulses (o : Message) : List (List UInt8) :=
  if o.carrierFirst then texts o.behind else texts o.between ++ o.carrierText :: texts o.behind

/-- The object up to the colon of the carrier frequency, and behind it. -/
def toColon (o : Message) : List UInt8 :=
  o.upTo o.beforeCarrier ++ o.carrierLeft.1 ++ o.carrier.opening

def fromColon (o : Message) : List UInt8 :=
  o.carrier.closing ++ (o.carrierRight.1 ++ o.onFrom o.behindCarrier)

/-- The object up to the bracket of the pulses, and behind it. -/
def toBracket (o : Message) : List UInt8 :=
  o.upTo o.beforePulses ++ o.pulsesLeft.1 ++ o.pulses.opening

def fromBracket (o : Message) : List UInt8 :=
  arrayText o.pulses.elements (o.pulsesRight.1 ++ o.onFrom o.behindPulses)

/-! ## An object is what stands before and behind each of its own members -/

theorem commaSep_split (earlier : List (List UInt8)) (member : List UInt8)
    (later : List (List UInt8)) :
    commaSep (earlier ++ member :: later) =
      (earlier.flatMap fun y => y ++ [44]) ++ member ++ later.flatMap fun y => 44 :: y := by
  induction earlier with
  | nil => simp [commaSep]
  | cons x earlier ih =>
      cases earlier with
      | nil => simp [commaSep]
      | cons y earlier =>
          rw [List.cons_append, List.cons_append, commaSep_cons_cons, ← List.cons_append, ih]
          simp

theorem arrayText_append (es : List Element) (front back : List UInt8) :
    arrayText es front ++ back = arrayText es (front ++ back) := by
  simp [arrayText]

theorem text_of_members {o : Message} {earlier later : List (List UInt8)} {member : List UInt8}
    (split : o.members = earlier ++ member :: later) :
    o.text = o.upTo earlier ++ member ++ o.onFrom later := by
  rw [text, split, commaSep_split, upTo, onFrom]
  simp

theorem text_colon (o : Message) : o.text = o.toColon ++ 58 :: o.fromColon := by
  have split : o.members = o.beforeCarrier ++ o.carrierText :: o.behindCarrier := by
    cases first : o.carrierFirst <;> simp [members, beforeCarrier, behindCarrier, first]
  rw [text_of_members split, carrierText, toColon, fromColon]
  simp

theorem text_bracket (o : Message) : o.text = o.toBracket ++ 91 :: o.fromBracket := by
  have split : o.members = o.beforePulses ++ o.pulsesText :: o.behindPulses := by
    cases first : o.carrierFirst <;> simp [members, beforePulses, behindPulses, first]
  rw [text_of_members split, pulsesText, toBracket, fromBracket, ← arrayText_append]
  simp

/-! ## Texts without a quote -/

/-- No NUL and no quote: no key starts here. -/
def Plain (text : List UInt8) : Prop := ∀ b ∈ text, b ≠ 0 ∧ b ≠ 34

theorem Plain.append {front back : List UInt8} (left : Plain front) (right : Plain back) :
    Plain (front ++ back) := by
  intro b member
  exact (List.mem_append.mp member).elim (left b) (right b)

theorem Plain.cons {b : UInt8} {back : List UInt8} (notNul : b ≠ 0) (notQuote : b ≠ 34)
    (right : Plain back) : Plain (b :: back) := by
  intro x member
  rcases List.mem_cons.mp member with rfl | inside
  · exact ⟨notNul, notQuote⟩
  · exact right x inside

theorem plain_blanks (blanks : Blanks) : Plain blanks.1 := by
  intro b member
  have ws := blanks.2 b member
  constructor <;> (rintro rfl; exact absurd ws (by decide))

theorem plain_digits {digits : List UInt8} (all : ∀ b ∈ digits, isDigit b = true) :
    Plain digits := by
  intro b member
  exact digit_ne_zero_quote (all b member)

theorem plain_element (e : Element) : Plain e.text :=
  ((plain_blanks e.before).append (plain_digits e.digits_all)).append (plain_blanks e.after)

theorem plain_array (es : List Element) {rest : List UInt8} (plain : Plain rest) :
    Plain (arrayText es rest) := by
  have tail : ∀ es : List Element, Plain (tailText es rest) := by
    intro es
    induction es with
    | nil => exact plain.cons (by decide) (by decide)
    | cons e es ih =>
        rw [tailText_cons]
        exact ((plain_element e).append ih).cons (by decide) (by decide)
  cases es with
  | nil => exact tail []
  | cons e es =>
      rw [arrayText_cons]
      exact (plain_element e).append (tail es)

theorem plain_closing (c : CarrierMember) : Plain c.closing :=
  (plain_blanks c.afterColon).append (plain_digits fun _ => isDigit_of_mem_decimal)

/-- Another member's key and plain text behind it are passed over. -/
theorem strstr_pass {c d x : UInt8} {cs ds front mid : List UInt8} (rest : List UInt8)
    (clear : Plain front) (word : Plain (d :: ds)) (other : d ≠ c) (behind : Plain (x :: mid))
    (stays : x ≠ c) :
    strstr (34 :: c :: cs) (front ++ 34 :: (d :: ds ++ 34 :: (x :: mid ++ rest))) =
      strstr (34 :: c :: cs) rest := by
  rw [strstr_append _ clear, List.cons_append, strstr_cons_cons_ne _ (by decide) other,
    ← List.cons_append, strstr_append _ word, List.cons_append,
    strstr_cons_cons_ne _ (by decide) stays, ← List.cons_append, strstr_append _ behind]

/-- Blanks and a colon, as what stands behind a key. -/
theorem colon_cons (blanks : Blanks) {c : UInt8} (letter : isWs c = false) (notColon : c ≠ 58)
    {rest : List UInt8} (plain : Plain rest) :
    ∃ x mid, blanks.1 ++ 58 :: rest = x :: mid ∧ x ≠ c ∧ Plain (x :: mid) := by
  have whole : Plain (blanks.1 ++ 58 :: rest) :=
    (plain_blanks blanks).append (plain.cons (by decide) (by decide))
  cases shape : blanks.1 with
  | nil =>
      rw [shape] at whole
      exact ⟨58, rest, rfl, Ne.symm notColon, whole⟩
  | cons x mid =>
      rw [shape] at whole
      refine ⟨x, mid ++ 58 :: rest, rfl, ?_, whole⟩
      rintro rfl
      rw [blanks.2 x (by simp [shape])] at letter
      cases letter

/-! ## The keys of the object alone -/

theorem plain_upTo (o : Message) : Plain (o.upTo []) :=
  (plain_blanks o.lead).append (Plain.cons (by decide) (by decide) (by simp [Plain]))

theorem strstr_pulses_alone (o : Message) :
    strstr pulsesKey o.alone.toBracket = some o.pulses.opening := by
  have key : pulsesKey = 34 :: 112 :: bytes "ulses\"" := by decide
  have own : strstr pulsesKey o.pulses.opening = some o.pulses.opening := by
    rw [PulsesMember.opening, List.append_assoc]
    exact strstr_prefix _ _ (by decide)
  cases first : o.carrierFirst with
  | false =>
      have shape : o.alone.toBracket = (o.upTo [] ++ o.pulsesLeft.1) ++ o.pulses.opening := by
        simp [toBracket, beforePulses, alone, first, upTo, texts]
      have plain : Plain (o.upTo [] ++ o.pulsesLeft.1) :=
        (plain_upTo o).append (plain_blanks o.pulsesLeft)
      rw [shape, key, strstr_append _ plain, ← key, own]
  | true =>
      have name : carrierFreqKey = 34 :: (99 :: bytes "arrier_freq" ++ [34]) := by decide
      have behind : Plain (o.carrier.closing ++ o.carrierRight.1 ++ 44 :: o.pulsesLeft.1) :=
        ((plain_closing o.carrier).append (plain_blanks o.carrierRight)).append
          ((plain_blanks o.pulsesLeft).cons (by decide) (by decide))
      obtain ⟨x, mid, colon, stays, plain⟩ := colon_cons o.carrier.beforeColon
        (by decide : isWs 112 = false) (by decide) behind
      have shape : o.alone.toBracket = (o.upTo [] ++ o.carrierLeft.1) ++
          34 :: (99 :: bytes "arrier_freq" ++ 34 :: (x :: mid ++ o.pulses.opening)) := by
        rw [← colon]
        simp [toBracket, beforePulses, alone, first, upTo, texts, carrierText,
          CarrierMember.opening, name]
      have word : Plain (99 :: bytes "arrier_freq") := by
        unfold Plain
        decide +kernel
      rw [shape, key, strstr_pass _ ((plain_upTo o).append (plain_blanks o.carrierLeft)) word
        (by decide) plain stays, ← key, own]

theorem strstr_carrier_alone (o : Message) :
    strstr carrierFreqKey o.alone.toColon = some o.carrier.opening := by
  have key : carrierFreqKey = 34 :: 99 :: bytes "arrier_freq\"" := by decide
  have own : strstr carrierFreqKey o.carrier.opening = some o.carrier.opening :=
    strstr_prefix _ _ (by decide)
  cases first : o.carrierFirst with
  | true =>
      have shape : o.alone.toColon = (o.upTo [] ++ o.carrierLeft.1) ++ o.carrier.opening := by
        simp [toColon, beforeCarrier, alone, first, upTo, texts]
      have plain : Plain (o.upTo [] ++ o.carrierLeft.1) :=
        (plain_upTo o).append (plain_blanks o.carrierLeft)
      rw [shape, key, strstr_append _ plain, ← key, own]
  | false =>
      have name : pulsesKey = 34 :: (112 :: bytes "ulses" ++ [34]) := by decide
      have behind : Plain (o.pulses.afterColon.1 ++ 91 ::
          arrayText o.pulses.elements (o.pulsesRight.1 ++ 44 :: o.carrierLeft.1)) :=
        (plain_blanks o.pulses.afterColon).append ((plain_array o.pulses.elements
          ((plain_blanks o.pulsesRight).append ((plain_blanks o.carrierLeft).cons (by decide)
            (by decide)))).cons (by decide) (by decide))
      obtain ⟨x, mid, colon, stays, plain⟩ := colon_cons o.pulses.beforeColon
        (by decide : isWs 99 = false) (by decide) behind
      have shape : o.alone.toColon = (o.upTo [] ++ o.pulsesLeft.1) ++
          34 :: (112 :: bytes "ulses" ++ 34 :: (x :: mid ++ o.carrier.opening)) := by
        rw [← colon]
        simp [toColon, beforeCarrier, alone, first, upTo, texts, pulsesText,
          PulsesMember.opening, name, arrayText]
      have word : Plain (112 :: bytes "ulses") := by
        unfold Plain
        decide +kernel
      rw [shape, key, strstr_pass _ ((plain_upTo o).append (plain_blanks o.pulsesLeft)) word
        (by decide) plain stays, ← key, own]

/-! ## No NUL before an own member -/

theorem Plain.noNul {text : List UInt8} (plain : Plain text) : 0 ∉ text := fun member =>
  (plain 0 member).1 rfl

theorem noNul_opening (m : PulsesMember) : 0 ∉ m.opening := fun member =>
  (m.opening_clean 0 member).1 rfl

theorem noNul_name (c : CarrierMember) : 0 ∉ c.opening := by
  have key : (0 : UInt8) ∉ carrierFreqKey := by decide +kernel
  simp only [CarrierMember.opening, List.mem_append, not_or]
  exact ⟨key, (plain_blanks c.beforeColon).noNul⟩

theorem noNul_carrierText (o : Message) : 0 ∉ o.carrierText := by
  have rest : Plain (58 :: (o.carrier.closing ++ o.carrierRight.1)) :=
    ((plain_closing o.carrier).append (plain_blanks o.carrierRight)).cons (by decide) (by decide)
  simp only [carrierText, List.mem_append, not_or]
  exact ⟨⟨(plain_blanks o.carrierLeft).noNul, noNul_name o.carrier⟩, rest.noNul⟩

theorem noNul_pulsesText (o : Message) : 0 ∉ o.pulsesText := by
  have rest : Plain (91 :: arrayText o.pulses.elements o.pulsesRight.1) :=
    (plain_array o.pulses.elements (plain_blanks o.pulsesRight)).cons (by decide) (by decide)
  simp only [pulsesText, List.mem_append, not_or]
  exact ⟨⟨(plain_blanks o.pulsesLeft).noNul, noNul_opening o.pulses⟩, rest.noNul⟩

theorem noNul_texts (members : List Foreign) : ∀ y ∈ texts members, 0 ∉ y := by
  intro y member
  obtain ⟨foreign, -, rfl⟩ := List.mem_map.mp member
  exact foreign.2

theorem noNul_upTo (o : Message) {earlier : List (List UInt8)} (clean : ∀ y ∈ earlier, 0 ∉ y) :
    0 ∉ o.upTo earlier := by
  simp only [upTo, List.mem_append, List.mem_cons, List.mem_flatMap, not_or, not_exists, not_and]
  exact ⟨(plain_blanks o.lead).noNul, by decide, fun y member => ⟨clean y member, by decide, by simp⟩⟩

/-- An own member among the further ones has no NUL either. -/
theorem noNul_split (before between : List Foreign) {own : List UInt8} (clean : 0 ∉ own) :
    ∀ y ∈ texts before ++ own :: texts between, 0 ∉ y := by
  intro y member
  simp only [List.mem_append, List.mem_cons] at member
  rcases member with early | rfl | late
  · exact noNul_texts before y early
  · exact clean
  · exact noNul_texts between y late

theorem noNul_toColon (o : Message) : 0 ∉ o.upTo o.beforeCarrier ++ o.carrierLeft.1 := by
  have earlier : ∀ y ∈ o.beforeCarrier, 0 ∉ y := by
    rw [beforeCarrier]
    cases o.carrierFirst with
    | true => exact noNul_texts o.before
    | false => exact noNul_split o.before o.between (noNul_pulsesText o)
  simp only [List.mem_append, not_or]
  exact ⟨noNul_upTo o earlier, (plain_blanks o.carrierLeft).noNul⟩

theorem noNul_toBracket (o : Message) : 0 ∉ o.upTo o.beforePulses ++ o.pulsesLeft.1 := by
  have earlier : ∀ y ∈ o.beforePulses, 0 ∉ y := by
    rw [beforePulses]
    cases o.carrierFirst with
    | true => exact noNul_split o.before o.between (noNul_carrierText o)
    | false => exact noNul_texts o.before
  simp only [List.mem_append, not_or]
  exact ⟨noNul_upTo o earlier, (plain_blanks o.pulsesLeft).noNul⟩

/-! ## Where the decoder looks -/

/-- A key that nothing before it spoils leads to its own `stop`. -/
theorem found_own {key : List UInt8} {stop : UInt8} {front blanks : List UInt8}
    (nonempty : key ≠ []) (clean : 0 ∉ front) (tail : 0 ∉ key ++ blanks)
    (none : found key stop (front ++ (key ++ blanks)) = none) (back : List UInt8) :
    found key stop (front ++ (key ++ blanks) ++ stop :: back) = some back := by
  obtain ⟨p, hit⟩ := strstr_exists nonempty clean blanks
  rw [found, hit, Option.bind_some, Option.map_eq_none_iff] at none
  obtain ⟨-, ends⟩ := prefix_of_strstr hit
  have noNul : 0 ∉ p := fun nul => by
    rcases List.mem_append.mp (ends.subset nul) with early | late
    · exact clean early
    · exact tail late
  have noStop := not_mem_of_strchr none noNul
  refine found_stop hit (fun b member => ⟨?_, ?_⟩) back
  · rintro rfl
    exact noNul member
  · rintro rfl
    exact noStop member

theorem found_colon (o : Message) (none : found carrierFreqKey 58 o.toColon = none) :
    found carrierFreqKey 58 o.text = some o.fromColon := by
  rw [toColon, CarrierMember.opening] at none
  rw [text_colon, toColon, CarrierMember.opening]
  exact found_own (by decide) (noNul_toColon o) (noNul_name o.carrier) none o.fromColon

theorem found_bracket (o : Message) (none : found pulsesKey 91 o.toBracket = none) :
    found pulsesKey 91 o.text = some o.fromBracket := by
  rw [toBracket, PulsesMember.opening, List.append_assoc pulsesKey] at none
  rw [text_bracket, toBracket, PulsesMember.opening, List.append_assoc pulsesKey]
  refine found_own (by decide) (noNul_toBracket o) ?_ none o.fromBracket
  simpa [PulsesMember.opening] using noNul_opening o.pulses

/-- The object alone is read from its own bracket and colon. -/
theorem found_alone (o : Message) :
    found carrierFreqKey 58 o.alone.toColon = none ∧ found pulsesKey 91 o.alone.toBracket = none := by
  have noColon : ∀ b ∈ o.carrier.opening, b ≠ 0 ∧ b ≠ 58 := by
    have key : ∀ b ∈ carrierFreqKey, b ≠ 0 ∧ b ≠ 58 := by decide +kernel
    intro b member
    rcases List.mem_append.mp member with name | blank
    · exact key b name
    · have clean := isWs_clean (o.carrier.beforeColon.2 b blank)
      exact ⟨clean.1, clean.2.2⟩
  constructor
  · have none := strchr_append [] noColon
    rw [List.append_nil] at none
    rw [found, strstr_carrier_alone, Option.bind_some, none]
    rfl
  · have none := strchr_append [] o.pulses.opening_clean
    rw [List.append_nil] at none
    rw [found, strstr_pulses_alone, Option.bind_some, none]
    rfl

/-! ## What it reads there -/

theorem decodeCarrierFreq_found (json : List UInt8) :
    decodeCarrierFreq json =
      match found carrierFreqKey 58 json with
      | none => irCarrierHz
      | some number => strtoul number := by
  rw [decodeCarrierFreq, found]
  cases strstr carrierFreqKey json with
  | none => rfl
  | some cf =>
      simp only [Option.bind_some]
      cases strchr cf 58 <;> rfl

theorem head_onFrom (o : Message) (later : List (List UInt8)) :
    ∃ b rest, o.onFrom later = b :: rest ∧ isDigit b = false := by
  cases later with
  | nil => exact ⟨125, o.trail.1, by simp [onFrom], by decide⟩
  | cons y later =>
      exact ⟨44, y ++ o.onFrom later, by simp [onFrom], by decide⟩

/-- Behind the own colon stands the own frequency. -/
theorem strtoul_fromColon (o : Message) : strtoul o.fromColon = o.carrier.carrierFreq := by
  have stops : Stops (o.carrierRight.1 ++ o.onFrom o.behindCarrier) := by
    intro b head
    cases shape : o.carrierRight.1 with
    | nil =>
        obtain ⟨x, rest, from_, digit⟩ := head_onFrom o o.behindCarrier
        rw [shape, List.nil_append, from_] at head
        cases head
        exact digit
    | cons x rest =>
        rw [shape] at head
        cases head
        by_contra digit
        have ws := o.carrierRight.2 b (by simp [shape])
        rw [isWs_digit (Bool.eq_true_of_not_eq_false digit)] at ws
        cases ws
  rw [fromColon, CarrierMember.closing, List.append_assoc]
  rw [strtoul_blanks _ fun b member => isWs_space (o.carrier.afterColon.2 b member)]
  exact strtoul_decimal o.carrier.carrierFreq stops

/-- What is read behind the own bracket, whatever stands behind the array. -/
theorem readArray_own (o : Message) :
    ∃ pulses, pulses ≠ [] ∧ ∀ rest, readArray (arrayText o.pulses.elements rest) = (pulses, false) := by
  by_cases clean : NoReturn o.pulses.elements
  · refine ⟨o.pulses.elements.map Element.value, ?_, fun rest => ?_⟩
    · simpa using o.pulses.elements_ne_nil
    · have fits := o.fits
      rw [readArray_array _ rest o.pulses.elements_ne_nil clean, List.take_of_length_le fits]
      simp [fits]
  · obtain ⟨n, pos, -, -, read⟩ := readArray_return o.pulses.elements clean
    refine ⟨(o.pulses.elements.take n).map Element.value, ?_, read⟩
    have nonempty := o.pulses.elements_ne_nil
    simp only [ne_eq, List.map_eq_nil_iff, List.take_eq_nil_iff, nonempty, or_false]
    omega

/-- The object without further members is read as it stands. -/
theorem decode_alone (o : Message) {pulses : List UInt16} (nonempty : pulses ≠ [])
    (own : ∀ rest, readArray (arrayText o.pulses.elements rest) = (pulses, false)) :
    decodeIrMessage o.alone.text = (true, ⟨o.carrier.carrierFreq, 1, false, pulses⟩) := by
  obtain ⟨colon, bracket⟩ := found_alone o
  have number : decodeCarrierFreq o.alone.text = o.carrier.carrierFreq := by
    rw [decodeCarrierFreq_found, found_colon o.alone colon]
    exact strtoul_fromColon o.alone
  have read : readArray o.alone.fromBracket = (pulses, false) := own _
  rw [decodeIrMessage_some (found_bracket o.alone bracket), number, read]
  simp [List.length_pos_iff.mpr nonempty]

/-! ## When the further members are ignored -/

/-- The decoder makes of the object what it makes of it without the further members. -/
def Ignored (o : Message) : Prop :=
  (decodeIrMessage o.text).1 = true ∧ decodeIrMessage o.text = decodeIrMessage o.alone.text

/-- A colon before the own one, behind text that spells the key, is followed by
the same number. -/
def FrequencyKept (o : Message) : Prop :=
  ∀ decoy, found carrierFreqKey 58 o.toColon = some decoy →
    strtoul (decoy ++ 58 :: o.fromColon) = o.carrier.carrierFreq

/-- A bracket before the own one, behind text that spells the key, is followed by
the same list. -/
def PulsesKept (o : Message) : Prop :=
  ∀ decoy, found pulsesKey 91 o.toBracket = some decoy →
    ∃ pulses, Lists (decoy ++ 91 :: o.fromBracket) pulses ∧ Lists o.fromBracket pulses

theorem frequencyKept_iff (o : Message) :
    FrequencyKept o ↔ decodeCarrierFreq o.text = o.carrier.carrierFreq := by
  rw [FrequencyKept, decodeCarrierFreq_found]
  cases there : found carrierFreqKey 58 o.toColon with
  | none =>
      rw [found_colon o there]
      exact ⟨fun _ => strtoul_fromColon o, fun _ _ none => by cases none⟩
  | some decoy =>
      rw [text_colon, found_append there]
      simp

theorem pulsesKept_iff (o : Message) {pulses : List UInt16}
    (own : ∀ rest, readArray (arrayText o.pulses.elements rest) = (pulses, false)) :
    PulsesKept o ↔
      ∃ text, found pulsesKey 91 o.text = some text ∧ readArray text = (pulses, false) := by
  have mine : readArray o.fromBracket = (pulses, false) := own _
  rw [PulsesKept]
  cases there : found pulsesKey 91 o.toBracket with
  | none =>
      rw [found_bracket o there]
      exact ⟨fun _ => ⟨_, rfl, mine⟩, fun _ _ none => by cases none⟩
  | some decoy =>
      rw [text_bracket, found_append there]
      simp only [Option.some.injEq, forall_eq', exists_eq_left', lists_iff, mine]
      constructor
      · rintro ⟨same, read, own⟩
        rw [read, ← own]
      · intro read
        exact ⟨pulses, read, rfl⟩

/-- **Further members are ignored exactly when** nothing before the own colon and
bracket leads the search to another number or another list. -/
theorem ignored_iff (o : Message) : Ignored o ↔ FrequencyKept o ∧ PulsesKept o := by
  obtain ⟨pulses, nonempty, own⟩ := readArray_own o
  rw [Ignored, decode_alone o nonempty own, frequencyKept_iff, pulsesKept_iff o own]
  constructor
  · rintro ⟨-, same⟩
    cases there : found pulsesKey 91 o.text with
    | none =>
        rw [decodeIrMessage_found, there] at same
        cases (Prod.mk.inj same).1
    | some text =>
        rw [decodeIrMessage_some there] at same
        simp only [Prod.mk.injEq, IrMessage.mk.injEq] at same
        obtain ⟨-, number, -, short, values⟩ := same
        exact ⟨number, text, rfl, Prod.ext values short⟩
  · rintro ⟨number, text, there, read⟩
    have decoded : decodeIrMessage o.text = (true, ⟨o.carrier.carrierFreq, 1, false, pulses⟩) := by
      rw [decodeIrMessage_some there, number, read]
      simp [List.length_pos_iff.mpr nonempty]
    rw [decoded]
    exact ⟨rfl, rfl⟩

theorem noNul_nested : (0 : UInt8) ∉ bytes "\"scene\":\x7b\"pulses\":[1]\x7d" := by
  decide +kernel

/-- `{"scene":{"pulses":[1]},"carrier_freq":36000,"pulses":[9000]}` -/
def scene : Message where
  lead := noBlanks
  trail := noBlanks
  carrier := ⟨noBlanks, noBlanks, 36000⟩
  carrierLeft := noBlanks
  carrierRight := noBlanks
  pulses := ⟨noBlanks, noBlanks, [leadPulse noBlanks noBlanks], by simp⟩
  pulsesLeft := noBlanks
  pulsesRight := noBlanks
  fits := by decide
  carrierFirst := true
  before := [⟨bytes "\"scene\":\x7b\"pulses\":[1]\x7d", noNul_nested⟩]
  between := []
  behind := []

/-- The array of the nested member is transmitted, not that of the object. -/
theorem scene_transmitted :
    scene.text = bytes "\x7b\"scene\":\x7b\"pulses\":[1]\x7d,\"carrier_freq\":36000,\"pulses\":[9000]\x7d" ∧
      decodeIrMessage scene.text = (true, ⟨36000, 1, false, [1]⟩) ∧
      decodeIrMessage scene.alone.text = (true, ⟨36000, 1, false, [9000]⟩) ∧ ¬Ignored scene := by
  have read : decodeIrMessage scene.text = (true, ⟨36000, 1, false, [1]⟩) := by decide +kernel
  have alone : decodeIrMessage scene.alone.text = (true, ⟨36000, 1, false, [9000]⟩) := by
    decide +kernel
  refine ⟨by decide +kernel, read, alone, fun ignored => ?_⟩
  rw [Ignored, read, alone] at ignored
  exact absurd ignored.2 (by decide)

end Message

end IrHub.Firmware.Members
