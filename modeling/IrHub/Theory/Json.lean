/-
# Theory.Json -- JSON values, `JSON.parse` and `JSON.stringify`

Text is UTF-8 and stays in its bytes: every character of the JSON grammar outside
a string is ASCII, and the contents of a string are kept as the bytes they have
(an escape `\u` contributes the UTF-8 form of its own code unit).

A number is a double (`Theory.Double`): the nearest one to the rational that its literal
denotes.  An infinity, which only a literal like `1e400` makes, is printed as `null`.

The members of an object are in the order in which ECMAScript has them: the indices of an
array, as numbers, and then the other names, as they came.

* `parse` accepts a whole text and gives its value.
* `stringify` is the text without white space.
* `parseValue_decimal`, `parseElements_numbers` and `parseChars_plain` say what
  the parser does on the numerals, lists and keys that printers write.

The stack of an engine, which ends `JSON.stringify` on deep nesting, is not part of this.
-/
import IrHub.Theory.Numeral

namespace IrHub.Theory

set_option autoImplicit false

open IrHub.Theory.Double (double infinity numeral)

inductive Json where
  | null
  | bool (b : Bool)
  | num (q : Rat)
  | str (s : List UInt8)
  | arr (items : List Json)
  | obj (members : List (List UInt8 × Json))

namespace Json

/-- The value of an own property, `none` for `undefined`. -/
def field (key : List UInt8) : Json → Option Json
  | .obj members => (members.find? fun member => member.1 == key).map (·.2)
  | _ => none

/-- JavaScript truthiness. -/
def truthy : Json → Bool
  | .null => false
  | .bool b => b
  | .num q => q ≠ 0
  | .str s => s ≠ []
  | .arr _ => true
  | .obj _ => true

/-- The index of an array that a name is. -/
def arrayIndex (key : List UInt8) : Option Nat :=
  let i := ofDigits key
  if key = decimal i ∧ i < 2 ^ 32 - 1 then some i else none

/-- A name is a smaller index than `i`. -/
def isBelow (i : Nat) (key : List UInt8) : Bool := (arrayIndex key).any (· < i)

/-- A later member of the same name replaces the value, not the place. -/
def setMember (members : List (List UInt8 × Json)) (key : List UInt8) (value : Json) :
    List (List UInt8 × Json) :=
  if members.any fun member => member.1 == key then
    members.map fun member => if member.1 == key then (key, value) else member
  else
    match arrayIndex key with
    | some i =>
        (members.takeWhile fun member => isBelow i member.1) ++
          (key, value) :: members.dropWhile fun member => isBelow i member.1
    | none => members ++ [(key, value)]

/-! ## Parsing -/

/-- JSON white space. -/
def isWs (b : UInt8) : Bool := b == 32 || b == 9 || b == 10 || b == 13

def skipWs (text : List UInt8) : List UInt8 := text.dropWhile isWs

/-- The UTF-8 form of one code unit. -/
def utf8 (u : Nat) : List UInt8 :=
  if u < 128 then [UInt8.ofNat u]
  else if u < 2048 then [UInt8.ofNat (192 + u / 64), UInt8.ofNat (128 + u % 64)]
  else [UInt8.ofNat (224 + u / 4096), UInt8.ofNat (128 + u / 64 % 64), UInt8.ofNat (128 + u % 64)]

def hexDigit (b : UInt8) : Option Nat :=
  if isDigit b then some (b.toNat - 48)
  else if 97 ≤ b ∧ b ≤ 102 then some (b.toNat - 87)
  else if 65 ≤ b ∧ b ≤ 70 then some (b.toNat - 55)
  else none

/-- The character of a two-character escape. -/
def unescape (b : UInt8) : Option UInt8 :=
  if b = 34 ∨ b = 92 ∨ b = 47 then some b
  else if b = 98 then some 8
  else if b = 102 then some 12
  else if b = 110 then some 10
  else if b = 114 then some 13
  else if b = 116 then some 9
  else none

/-- The contents of a string after its opening quote, and the rest after the
closing one. -/
def parseChars : List UInt8 → Option (List UInt8 × List UInt8)
  | [] => none
  | b :: rest =>
      if b = 34 then some ([], rest)
      else if b = 92 then
        match rest with
        | [] => none
        | e :: rest =>
            if e = 117 then
              match rest with
              | h₁ :: h₂ :: h₃ :: h₄ :: rest => do
                  let unit := 4096 * (← hexDigit h₁) + 256 * (← hexDigit h₂) +
                    16 * (← hexDigit h₃) + (← hexDigit h₄)
                  let (s, rest) ← parseChars rest
                  some (utf8 unit ++ s, rest)
              | _ => none
            else do
              let c ← unescape e
              let (s, rest) ← parseChars rest
              some (c :: s, rest)
      else if b < 32 then none
      else do
        let (s, rest) ← parseChars rest
        some (b :: s, rest)

/-- The digits after a decimal point, if there is one. -/
def parseFraction : List UInt8 → Option (List UInt8 × List UInt8)
  | 46 :: text =>
      let digits := text.takeWhile isDigit
      if digits = [] then none else some (digits, text.dropWhile isDigit)
  | text => some ([], text)

/-- The exponent, if there is one. -/
def parseExponent : List UInt8 → Option (Int × List UInt8)
  | [] => some (0, [])
  | e :: text =>
      if e = 101 ∨ e = 69 then
        let signed : Bool × List UInt8 := match text with
          | 45 :: text => (true, text)
          | 43 :: text => (false, text)
          | text => (false, text)
        let digits := signed.2.takeWhile isDigit
        if digits = [] then none
        else some (if signed.1 then -(ofDigits digits : Int) else ofDigits digits,
          signed.2.dropWhile isDigit)
      else some (0, e :: text)

/-- A number without its sign. -/
def parseUnsigned (text : List UInt8) : Option (Rat × List UInt8) :=
  let whole := text.takeWhile isDigit
  if whole = [] ∨ (whole.head? = some 48 ∧ 1 < whole.length) then none
  else do
    let (fraction, text) ← parseFraction (text.dropWhile isDigit)
    let (exponent, text) ← parseExponent text
    some ((ofDigits (whole ++ fraction) : Rat) * 10 ^ (exponent - fraction.length), text)

def parseNumber : List UInt8 → Option (Rat × List UInt8)
  | 45 :: text => (parseUnsigned text).map fun (q, rest) => (-q, rest)
  | text => parseUnsigned text

/-- The rest after a literal word. -/
def literal (word text : List UInt8) : Option (List UInt8) :=
  if word.isPrefixOf text then some (text.drop word.length) else none

/-- What a value starting with `b` can be. -/
def parseScalar (b : UInt8) (text : List UInt8) : Option (Json × List UInt8) :=
  if b = 34 then (parseChars text.tail).map fun (s, rest) => (.str s, rest)
  else if b = 116 then (literal (bytes "true") text).map fun rest => (.bool true, rest)
  else if b = 102 then (literal (bytes "false") text).map fun rest => (.bool false, rest)
  else if b = 110 then (literal (bytes "null") text).map fun rest => (.null, rest)
  else (parseNumber text).map fun (q, rest) => (.num (double q), rest)

mutual

/-- A value and the rest.  The fuel bounds the nesting of calls. -/
def parseValue : Nat → List UInt8 → Option (Json × List UInt8)
  | 0, _ => none
  | fuel + 1, text =>
      match skipWs text with
      | [] => none
      | b :: rest =>
          if b = 123 then
            if (skipWs rest).head? = some 125 then some (.obj [], (skipWs rest).tail)
            else (parseMembers fuel rest []).map fun (members, rest) => (.obj members, rest)
          else if b = 91 then
            if (skipWs rest).head? = some 93 then some (.arr [], (skipWs rest).tail)
            else (parseElements fuel rest).map fun (items, rest) => (.arr items, rest)
          else parseScalar b (b :: rest)

/-- The elements of an array from the first one to the closing bracket. -/
def parseElements : Nat → List UInt8 → Option (List Json × List UInt8)
  | 0, _ => none
  | fuel + 1, text => do
      let (item, text) ← parseValue fuel text
      match skipWs text with
      | [] => none
      | b :: rest =>
          if b = 93 then some ([item], rest)
          else if b = 44 then do
            let (items, rest) ← parseElements fuel rest
            some (item :: items, rest)
          else none

/-- The members of an object from the first one to the closing brace. -/
def parseMembers : Nat → List UInt8 → List (List UInt8 × Json) →
    Option (List (List UInt8 × Json) × List UInt8)
  | 0, _, _ => none
  | fuel + 1, text, members =>
      match skipWs text with
      | [] => none
      | b :: text =>
          if b = 34 then do
            let (key, text) ← parseChars text
            match skipWs text with
            | [] => none
            | b :: text =>
                if b = 58 then do
                  let (value, text) ← parseValue fuel text
                  let members := setMember members key value
                  match skipWs text with
                  | [] => none
                  | b :: rest =>
                      if b = 125 then some (members, rest)
                      else if b = 44 then parseMembers fuel rest members
                      else none
                else none
          else none

end

/-- `JSON.parse`.  Every byte of the text pays for two calls. -/
def parse (text : List UInt8) : Option Json :=
  match parseValue (2 * text.length + 2) text with
  | some (value, rest) => if skipWs rest = [] then some value else none
  | none => none

/-! ## Printing -/

/-- A number; an infinity has no text in JSON. -/
def numberText (q : Rat) : List UInt8 := if |q| < infinity then numeral q else bytes "null"

def hexText (n : Nat) : UInt8 := if n < 10 then UInt8.ofNat (48 + n) else UInt8.ofNat (87 + n)

/-- A character of a string, escaped where JSON requires it. -/
def escape (b : UInt8) : List UInt8 :=
  if b = 34 then [92, 34]
  else if b = 92 then [92, 92]
  else if b = 8 then [92, 98]
  else if b = 12 then [92, 102]
  else if b = 10 then [92, 110]
  else if b = 13 then [92, 114]
  else if b = 9 then [92, 116]
  else if b < 32 then [92, 117, 48, 48, hexText (b.toNat / 16), hexText (b.toNat % 16)]
  else [b]

def stringText (s : List UInt8) : List UInt8 := 34 :: s.flatMap escape ++ [34]

mutual

/-- `JSON.stringify` of a value. -/
def stringify : Json → List UInt8
  | .null => bytes "null"
  | .bool b => bytes (if b then "true" else "false")
  | .num q => numberText q
  | .str s => stringText s
  | .arr items => 91 :: commaSep (stringifyItems items) ++ [93]
  | .obj members => 123 :: commaSep (stringifyMembers members) ++ [125]

def stringifyItems : List Json → List (List UInt8)
  | [] => []
  | item :: items => stringify item :: stringifyItems items

def stringifyMembers : List (List UInt8 × Json) → List (List UInt8)
  | [] => []
  | (key, value) :: members => (stringText key ++ 58 :: stringify value) :: stringifyMembers members

end

/-! ## What the parser reads of printed text -/

theorem skipWs_of_head {b : UInt8} (head : isWs b = false) (rest : List UInt8) :
    skipWs (b :: rest) = b :: rest := by
  simp [skipWs, head]

/-- A string without quotes, escapes or control characters ends at its quote. -/
theorem parseChars_plain {s : List UInt8} (rest : List UInt8)
    (plain : ∀ b ∈ s, b ≠ 34 ∧ b ≠ 92 ∧ ¬b < 32) :
    parseChars (s ++ 34 :: rest) = some (s, rest) := by
  induction s with
  | nil =>
      unfold parseChars
      rfl
  | cons b s ih =>
      obtain ⟨noQuote, noEscape, noControl⟩ := plain b (by simp)
      have tail := ih fun c member => plain c (by simp [member])
      unfold parseChars
      simp only [List.cons_append, if_neg noQuote, if_neg noEscape, if_neg noControl, tail]
      rfl

/-- Where a printed number stops. -/
def EndsNumber (rest : List UInt8) : Prop :=
  ∀ b, rest.head? = some b → isDigit b = false ∧ b ≠ 46 ∧ b ≠ 101 ∧ b ≠ 69

theorem endsNumber_cons {b : UInt8} {rest : List UInt8}
    (stops : isDigit b = false ∧ b ≠ 46 ∧ b ≠ 101 ∧ b ≠ 69) : EndsNumber (b :: rest) := by
  intro c head
  rw [List.head?_cons] at head
  exact Option.some.inj head ▸ stops

theorem parseFraction_none {text : List UInt8} (noDot : text.head? ≠ some 46) :
    parseFraction text = some ([], text) := by
  unfold parseFraction
  split
  · exact absurd rfl noDot
  · rfl

theorem parseExponent_none {rest : List UInt8} (ends : EndsNumber rest) :
    parseExponent rest = some (0, rest) := by
  cases rest with
  | nil => rfl
  | cons b rest =>
      obtain ⟨-, -, notLower, notUpper⟩ := ends b rfl
      simp [parseExponent, notLower, notUpper]

/-- A numeral, by its digits before and behind the point and its exponent. -/
theorem parseUnsigned_parts {whole fraction tail more rest : List UInt8} {e : Int}
    (digits : ∀ b ∈ whole, isDigit b = true)
    (leading : ¬(whole = [] ∨ (whole.head? = some 48 ∧ 1 < whole.length)))
    (stops : ∀ b, tail.head? = some b → isDigit b = false)
    (point : parseFraction tail = some (fraction, more))
    (power : parseExponent more = some (e, rest)) :
    parseUnsigned (whole ++ tail) =
      some ((ofDigits (whole ++ fraction) : Rat) * 10 ^ (e - fraction.length), rest) := by
  simp only [parseUnsigned, takeWhile_run digits stops, dropWhile_run digits stops,
    if_neg leading, point, power, Option.bind_eq_bind, Option.bind_some]

theorem decimal_leading (n : Nat) :
    ¬(decimal n = [] ∨ ((decimal n).head? = some 48 ∧ 1 < (decimal n).length)) := by
  rintro (empty | ⟨zero, long⟩)
  · exact decimal_ne_nil n empty
  · obtain ⟨b, front, shape, -⟩ := decimal_cons n
    rw [shape, List.head?_cons, Option.some.injEq] at zero
    subst zero
    rw [shape, decimal_head_zero shape] at long
    simp at long

theorem parseUnsigned_decimal (n : Nat) (rest : List UInt8) (ends : EndsNumber rest) :
    parseUnsigned (decimal n ++ rest) = some ((n : Rat), rest) := by
  have noDot : rest.head? ≠ some 46 := fun dot => (ends 46 dot).2.1 rfl
  rw [parseUnsigned_parts (fun _ => isDigit_of_mem_decimal) (decimal_leading n)
    (fun b head => (ends b head).1) (parseFraction_none noDot) (parseExponent_none ends),
    List.append_nil, ofDigits_decimal]
  simp

theorem isWs_digit {b : UInt8} (digit : isDigit b = true) : isWs b = false := by
  simp only [isDigit, Bool.and_eq_true, decide_eq_true_eq] at digit
  simp only [isWs, Bool.or_eq_false_iff, beq_eq_false_iff_ne]
  grind

theorem parseValue_decimal {n : Nat} (small : n ≤ 2 ^ 53) (fuel : Nat) (rest : List UInt8)
    (ends : EndsNumber rest) :
    parseValue (fuel + 1) (decimal n ++ rest) = some (.num n, rest) := by
  obtain ⟨b, ds, shape, digit⟩ := decimal_cons n
  have range : 48 ≤ b ∧ b ≤ 57 := by
    simpa [isDigit] using digit
  have number : parseNumber (b :: (ds ++ rest)) = some ((n : Rat), rest) := by
    have unsigned := parseUnsigned_decimal n rest ends
    rw [shape, List.cons_append] at unsigned
    unfold parseNumber
    split
    · rename_i minus
      obtain ⟨rfl, -⟩ := List.cons.inj minus
      exact absurd range (by decide)
    · exact unsigned
  have notBrace : b ≠ 123 := by grind
  have notBracket : b ≠ 91 := by grind
  have notWord : b ≠ 34 ∧ b ≠ 116 ∧ b ≠ 102 ∧ b ≠ 110 := by grind
  rw [shape, List.cons_append, parseValue, skipWs_of_head (isWs_digit digit)]
  simp only [notBrace, notBracket, if_false, parseScalar, notWord, number, Option.map_some,
    Double.double_natCast small]

/-- The array of a list of numerals. -/
theorem parseElements_numbers {n : Nat} {ns : List Nat} (small : ∀ k ∈ n :: ns, k ≤ 2 ^ 53)
    (fuel : Nat) (rest : List UInt8) (enough : ns.length + 2 ≤ fuel) :
    parseElements fuel (commaSep ((n :: ns).map decimal) ++ 93 :: rest) =
      some ((n :: ns).map fun (k : Nat) => .num k, rest) := by
  induction ns generalizing n fuel with
  | nil =>
      obtain ⟨fuel, rfl⟩ := Nat.exists_eq_add_of_le enough
      have value := parseValue_decimal (small n List.mem_cons_self) fuel (93 :: rest)
        (endsNumber_cons (by decide))
      have bracket : isWs 93 = false := by decide
      rw [show [].length + 2 + fuel = (fuel + 1) + 1 by simp; omega]
      simp [parseElements, commaSep, value, skipWs_of_head bracket]
  | cons m ns ih =>
      obtain ⟨fuel, rfl⟩ : ∃ k, fuel = k + 2 := ⟨fuel - 2, by omega⟩
      have tail := ih (fun k member => small k (List.mem_cons_of_mem n member)) (fuel + 1)
        (by simp at enough; omega)
      have value := parseValue_decimal (small n List.mem_cons_self) fuel
        (44 :: (commaSep ((m :: ns).map decimal) ++ 93 :: rest)) (endsNumber_cons (by decide))
      have comma : isWs 44 = false := by decide
      simp only [List.map_cons] at tail value ⊢
      simp only [commaSep_cons_cons, List.append_assoc, List.cons_append]
      rw [parseElements]
      simp [value, skipWs_of_head comma, tail]

/-- One `"key":value` of an object, and the comma or the brace after it. -/
theorem parseMembers_member {fuel : Nat} {key text rest : List UInt8} {value : Json} {b : UInt8}
    (members : List (List UInt8 × Json)) (plain : ∀ c ∈ key, c ≠ 34 ∧ c ≠ 92 ∧ ¬c < 32)
    (read : parseValue fuel text = some (value, b :: rest)) (solid : isWs b = false) :
    parseMembers (fuel + 1) (34 :: (key ++ 34 :: 58 :: text)) members =
      if b = 125 then some (setMember members key value, rest)
      else if b = 44 then parseMembers fuel rest (setMember members key value)
      else none := by
  have quote : isWs 34 = false := by decide
  have colon : isWs 58 = false := by decide
  rw [parseMembers, skipWs_of_head quote]
  simp only [if_true, parseChars_plain _ plain, Option.bind_eq_bind, Option.bind_some,
    skipWs_of_head colon, read, skipWs_of_head solid]

theorem decimal_head (n : Nat) (rest : List UInt8) :
    ∃ b, isWs b = false ∧ b ≠ 93 ∧ ∃ tail, decimal n ++ rest = b :: tail := by
  obtain ⟨b, ds, shape, digit⟩ := decimal_cons n
  refine ⟨b, isWs_digit digit, ?_, ds ++ rest, by rw [shape, List.cons_append]⟩
  rintro rfl
  exact absurd digit (by decide)

theorem parseValue_numbers {ns : List Nat} (small : ∀ k ∈ ns, k ≤ 2 ^ 53) (fuel : Nat)
    (rest : List UInt8) (enough : ns.length < fuel) :
    parseValue (fuel + 1) (91 :: (commaSep (ns.map decimal) ++ 93 :: rest)) =
      some (.arr (ns.map fun (k : Nat) => .num k), rest) := by
  have bracket : isWs 91 = false := by decide
  cases ns with
  | nil =>
      have close : isWs 93 = false := by decide
      rw [parseValue, skipWs_of_head bracket]
      simp [commaSep, skipWs_of_head close]
  | cons n ns =>
      have shape : ∃ more, commaSep ((n :: ns).map decimal) ++ 93 :: rest = decimal n ++ more :=
        ⟨_, by rw [List.map_cons, commaSep, List.append_assoc]⟩
      obtain ⟨more, shape⟩ := shape
      obtain ⟨b, solid, notClose, tail, head⟩ := decimal_head n more
      have elements := parseElements_numbers small fuel rest enough
      rw [shape, head] at elements ⊢
      rw [parseValue, skipWs_of_head bracket]
      simp [skipWs_of_head solid, notClose, elements]

theorem parseValue_bool (b : Bool) (fuel : Nat) (rest : List UInt8) :
    parseValue (fuel + 1) (bytes (if b then "true" else "false") ++ rest) =
      some (.bool b, rest) := by
  cases b with
  | true =>
      have word : bytes "true" = [116, 114, 117, 101] := by decide
      simp [parseValue, word, skipWs, isWs, parseScalar, literal]
  | false =>
      have word : bytes "false" = [102, 97, 108, 115, 101] := by decide
      simp [parseValue, word, skipWs, isWs, parseScalar, literal]

/-- An object with a member, from its opening brace. -/
theorem parseValue_object (fuel : Nat) (text : List UInt8) :
    parseValue (fuel + 1) (123 :: 34 :: text) =
      (parseMembers fuel (34 :: text) []).map fun (members, rest) => (.obj members, rest) := by
  have brace : isWs 123 = false := by decide
  have quote : isWs 34 = false := by decide
  rw [parseValue, skipWs_of_head brace]
  simp [skipWs_of_head quote]

theorem numberText_natCast {n : Nat} (small : n < 10 ^ 15) : numberText n = decimal n := by
  rw [numberText, if_pos (Double.finite_natCast (by omega)).bounded, Double.numeral_natCast small]

theorem stringifyItems_numbers {ns : List Nat} (small : ∀ k ∈ ns, k < 10 ^ 15) :
    stringifyItems (ns.map fun (k : Nat) => .num k) = ns.map decimal := by
  induction ns with
  | nil => rfl
  | cons n ns ih =>
      have first := numberText_natCast (small n List.mem_cons_self)
      have rest := ih fun k member => small k (List.mem_cons_of_mem n member)
      simp [stringifyItems, stringify, first, rest]

end Json

end IrHub.Theory
