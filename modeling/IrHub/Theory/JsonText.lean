/-
# Theory.JsonText -- what is printed as JSON is read back

A `Layout` says which white space a printer puts between the tokens: none for
`JSON.stringify(v)`, a line for each item and a blank behind each colon for
`JSON.stringify(v, null, 2)`.

A value that a parser gives is well formed (`wellFormed_parse`): the names in an object are
distinct and in their order, and a number is a double.  In any layout the text of a well-formed
value is parsed to `revive` of that value, which has a `null` for every infinity
(`parse_stringify`), so to the value itself if its numbers are finite (`parse_render`).
-/
import IrHub.Theory.Json
import Mathlib.Data.List.Induction
import Mathlib.Data.List.TakeWhile
import Mathlib.Tactic.Ring

namespace IrHub.Theory.Json

set_option autoImplicit false

open IrHub.Theory.Double

/-! ## Numbers -/

theorem ofDigits_append (xs ys : List UInt8) :
    ofDigits (xs ++ ys) = ofDigits xs * 10 ^ ys.length + ofDigits ys := by
  induction ys using List.reverseRecOn with
  | nil => simp [ofDigits]
  | append_singleton ys b ih =>
      rw [← List.append_assoc, ofDigits_snoc, ih, ofDigits_snoc, List.length_append,
        List.length_singleton, Nat.pow_succ]
      ring

theorem ofDigits_zeros (n : Nat) : ofDigits (List.replicate n 48) = 0 := by
  induction n with
  | zero => rfl
  | succ n ih =>
      rw [List.replicate_succ', ofDigits_snoc, ih]
      rfl

theorem isDigit_zeros {n : Nat} {b : UInt8} (member : b ∈ List.replicate n 48) :
    isDigit b = true := by
  rw [List.eq_of_mem_replicate member]
  rfl

/-- The numeral of a positive number starts with another digit. -/
theorem decimal_head_ne {s : Nat} (positive : 0 < s) : (decimal s).head? ≠ some 48 := by
  intro head
  obtain ⟨b, ds, shape, -⟩ := decimal_cons s
  rw [shape, List.head?_cons, Option.some.injEq] at head
  subst head
  have value := ofDigits_decimal s
  rw [shape, decimal_head_zero shape] at value
  have zero : ofDigits [48] = 0 := rfl
  omega

theorem parseFraction_point {ds more : List UInt8} (digits : ∀ b ∈ ds, isDigit b = true)
    (some_ : ds ≠ []) (stops : ∀ b, more.head? = some b → isDigit b = false) :
    parseFraction (46 :: (ds ++ more)) = some (ds, more) := by
  simp only [parseFraction, takeWhile_run digits stops, dropWhile_run digits stops, if_neg some_]

theorem parseExponent_sign (e : Int) {rest : List UInt8} (ends : EndsNumber rest) :
    parseExponent (101 :: (if e < 0 then 45 else 43) :: (decimal e.natAbs ++ rest)) =
      some (e, rest) := by
  have stops : ∀ b, rest.head? = some b → isDigit b = false := fun b head => (ends b head).1
  by_cases negative : e < 0
  · simp [parseExponent, negative, takeWhile_decimal _ stops, dropWhile_decimal _ stops,
      decimal_ne_nil, ofDigits_decimal, abs_of_neg negative]
  · have positive : 0 ≤ e := by omega
    simp [parseExponent, negative, takeWhile_decimal _ stops, dropWhile_decimal _ stops,
      decimal_ne_nil, ofDigits_decimal, abs_of_nonneg positive]

theorem stops_point {rest : List UInt8} : ∀ b, (46 :: rest).head? = some b → isDigit b = false := by
  rintro b ⟨⟩
  rfl

theorem stops_power {rest : List UInt8} :
    ∀ b, (101 :: rest).head? = some b → isDigit b = false := by
  rintro b ⟨⟩
  rfl

/-- **A numeral is read as `s * 10 ^ p`.** -/
theorem parseUnsigned_positional {s : Nat} (positive : 0 < s) (p : Int) {rest : List UInt8}
    (ends : EndsNumber rest) :
    parseUnsigned (positional s p ++ rest) = some ((s : Rat) * 10 ^ p, rest) := by
  have digits : ∀ b ∈ decimal s, isDigit b = true := fun _ => isDigit_of_mem_decimal
  have value := ofDigits_decimal s
  have head := decimal_head_ne positive
  have some_ : 0 < (decimal s).length := List.length_pos_iff.mpr (decimal_ne_nil s)
  have noDot : rest.head? ≠ some 46 := fun dot => (ends 46 dot).2.1 rfl
  have stops : ∀ b, rest.head? = some b → isDigit b = false := fun b head => (ends b head).1
  unfold positional
  generalize decimal s = ds at digits value head some_
  dsimp only
  split
  · -- an integer
    rename_i integer
    obtain ⟨p, rfl⟩ := Int.eq_ofNat_of_zero_le integer.1
    have all : ∀ b ∈ ds ++ List.replicate p 48, isDigit b = true := by
      intro b member
      exact (List.mem_append.mp member).elim (digits b) isDigit_zeros
    have leading : ¬(ds ++ List.replicate p 48 = [] ∨
        ((ds ++ List.replicate p 48).head? = some 48 ∧ 1 < (ds ++ List.replicate p 48).length)) := by
      rintro (empty | ⟨zero, -⟩)
      · rw [(List.append_eq_nil_iff.mp empty).1] at some_
        exact absurd some_ (by decide)
      · rw [List.head?_append_of_ne_nil _ (List.length_pos_iff.mp some_)] at zero
        exact head zero
    rw [Int.toNat_natCast, parseUnsigned_parts all leading stops
      (parseFraction_none noDot) (parseExponent_none ends), List.append_nil, ofDigits_append,
      ofDigits_zeros, value, List.length_replicate]
    simp
  split
  · -- a point among the digits
    rename_i broken inside
    have front : 0 < (ds.take ((ds.length : Int) + p).toNat).length := by
      rw [List.length_take]
      omega
    have behind : (ds.drop ((ds.length : Int) + p).toNat).length = (-p).toNat := by
      rw [List.length_drop]
      omega
    have leading : ¬(ds.take ((ds.length : Int) + p).toNat = [] ∨
        ((ds.take ((ds.length : Int) + p).toNat).head? = some 48 ∧
          1 < (ds.take ((ds.length : Int) + p).toNat).length)) := by
      rintro (empty | ⟨zero, -⟩)
      · rw [empty] at front
        exact absurd front (by decide)
      · rw [List.head?_take, if_neg (by omega)] at zero
        exact head zero
    rw [List.append_assoc, List.cons_append, parseUnsigned_parts
      (fun b member => digits b (List.mem_of_mem_take member)) leading stops_point
      (parseFraction_point (fun b member => digits b (List.mem_of_mem_drop member))
        (List.length_pos_iff.mp (by omega)) stops) (parseExponent_none ends), List.take_append_drop,
      value, behind]
    have place : (0 : Int) - ((-p).toNat : Nat) = p := by omega
    rw [place]
  split
  · -- zeros behind the point
    rename_i broken outside near
    have all : ∀ b ∈ List.replicate (-((ds.length : Int) + p)).toNat 48 ++ ds, isDigit b = true := by
      intro b member
      exact (List.mem_append.mp member).elim isDigit_zeros (digits b)
    have whole : ∀ b ∈ ([48] : List UInt8), isDigit b = true := fun b member =>
      List.mem_singleton.mp member ▸ rfl
    have shape : (48 :: 46 :: (List.replicate (-((ds.length : Int) + p)).toNat 48 ++ ds)) ++ rest =
        [48] ++ 46 :: ((List.replicate (-((ds.length : Int) + p)).toNat 48 ++ ds) ++ rest) := by
      simp
    rw [shape, parseUnsigned_parts whole (by decide) stops_point
      (parseFraction_point all (by simp [List.length_pos_iff.mp some_]) stops)
      (parseExponent_none ends), ofDigits_append, ofDigits_append, ofDigits_zeros, value]
    have zero : ofDigits [48] = 0 := rfl
    have place : (0 : Int) -
        ((List.replicate (-((ds.length : Int) + p)).toNat 48 ++ ds).length : Nat) = p := by
      rw [List.length_append, List.length_replicate]
      omega
    rw [zero, place]
    simp
  · -- an exponent
    obtain ⟨d, ds, rfl⟩ := List.exists_cons_of_length_pos some_
    have leading : ¬([d] = [] ∨ (([d] : List UInt8).head? = some 48 ∧ 1 < [d].length)) := by simp
    have first : ∀ b ∈ [d], isDigit b = true := by
      intro b member
      rw [List.mem_singleton.mp member]
      exact digits d List.mem_cons_self
    have power := parseExponent_sign (((d :: ds).length : Int) + p - 1) ends
    have place : ((d :: ds).length : Int) + p - 1 - (ds.length : Nat) = p := by
      rw [List.length_cons]
      omega
    generalize ((d :: ds).length : Int) + p - 1 = e at power place
    cases ds with
    | nil =>
        have read := parseUnsigned_parts first leading stops_power
          (parseFraction_none (by simp)) power
        rw [List.append_nil, value, place] at read
        simpa using read
    | cons c ds =>
        have read := parseUnsigned_parts first leading stops_point
          (parseFraction_point (fun b member => digits b (List.mem_cons_of_mem d member))
            (List.cons_ne_nil c ds) stops_power) power
        simp only [List.singleton_append] at read
        rw [value, place] at read
        simpa using read

theorem positional_head (s : Nat) (p : Int) :
    ∃ b tail, positional s p = b :: tail ∧ isDigit b = true := by
  obtain ⟨d, ds, shape, digit⟩ := decimal_cons s
  unfold positional
  rw [shape]
  dsimp only
  split
  · exact ⟨d, _, rfl, digit⟩
  split
  · rename_i inside
    obtain ⟨n, positive⟩ : ∃ n, (((d :: ds).length : Int) + p).toNat = n + 1 :=
      ⟨(((d :: ds).length : Int) + p).toNat - 1, by omega⟩
    rw [positive]
    exact ⟨d, _, rfl, digit⟩
  split
  · exact ⟨48, _, rfl, rfl⟩
  · exact ⟨d, _, rfl, digit⟩

theorem numeral_head (q : Rat) :
    ∃ b tail, numeral q = b :: tail ∧ (b = 45 ∨ isDigit b = true) := by
  unfold numeral
  split
  · exact ⟨48, [], rfl, .inr rfl⟩
  · dsimp only
    split
    · exact ⟨45, _, rfl, .inl rfl⟩
    · obtain ⟨b, tail, shape, digit⟩ := positional_head (shortest |q|).1 (shortest |q|).2
      exact ⟨b, tail, by rw [List.nil_append, shape], .inr digit⟩

/-- **A number is read back.** -/
theorem parseNumber_numeral {q : Rat} (finite : IsFinite q) {rest : List UInt8}
    (ends : EndsNumber rest) :
    ∃ v, parseNumber (numeral q ++ rest) = some (v, rest) ∧ double v = q := by
  rcases lt_trichotomy q 0 with negative | rfl | positive
  · have abs : |q| = -q := abs_of_neg negative
    have exact : double |q| = |q| := by rw [abs]; exact finite.neg.exact
    have digits := shortest_pos (abs_pos.mpr negative.ne) exact
    have read := parseUnsigned_positional digits (shortest |q|).2 ends
    refine ⟨-((shortest |q|).1 * 10 ^ (shortest |q|).2), ?_, ?_⟩
    · rw [numeral, if_neg negative.ne]
      dsimp only
      rw [if_pos negative, List.singleton_append, List.cons_append, parseNumber, read]
      rfl
    · rw [double_neg, shortest_exact (abs_nonneg q) exact, abs, neg_neg]
  · refine ⟨0, ?_, by rw [double_of_nonneg le_rfl, magnitude_zero]⟩
    have read := parseUnsigned_decimal 0 rest ends
    have zero : decimal 0 = [48] := by decide
    rw [zero, Nat.cast_zero, List.singleton_append] at read
    exact read
  · have abs : |q| = q := abs_of_pos positive
    have digits := shortest_pos positive finite.exact
    have read := parseUnsigned_positional digits (shortest q).2 ends
    refine ⟨(shortest q).1 * 10 ^ (shortest q).2, ?_, shortest_exact positive.le finite.exact⟩
    rw [numeral, if_neg positive.ne', abs]
    dsimp only
    rw [if_neg positive.le.not_gt, List.nil_append]
    obtain ⟨b, tail, shape, digit⟩ := positional_head (shortest q).1 (shortest q).2
    rw [shape, List.cons_append] at read ⊢
    unfold parseNumber
    split
    · rename_i minus
      obtain ⟨rfl, -⟩ := List.cons.inj minus
      exact absurd digit (by decide)
    · exact read

/-! ## Strings -/

theorem hexDigit_hexText {n : Nat} (small : n < 16) : hexDigit (hexText n) = some n := by
  interval_cases n <;> decide

theorem parseChars_unescape {e c : UInt8} (known : unescape e = some c) (other : e ≠ 117)
    (rest : List UInt8) :
    parseChars (92 :: e :: rest) = (parseChars rest).map fun (s, rest) => (c :: s, rest) := by
  rw [parseChars.eq_def]
  simp only [show ¬(92 : UInt8) = 34 by decide, if_false, if_true, if_neg other, known,
    Option.bind_eq_bind, Option.bind_some]
  cases parseChars rest with
  | none => rfl
  | some read => rfl

theorem parseChars_unit {b : UInt8} (control : b < 32) (rest : List UInt8) :
    parseChars (92 :: 117 :: 48 :: 48 :: hexText (b.toNat / 16) :: hexText (b.toNat % 16) :: rest) =
      (parseChars rest).map fun (s, rest) => (b :: s, rest) := by
  have small : b.toNat < 32 := by simpa using UInt8.lt_iff_toNat_lt.mp control
  have zero : hexDigit 48 = some 0 := by decide
  have high := hexDigit_hexText (n := b.toNat / 16) (by omega)
  have low := hexDigit_hexText (n := b.toNat % 16) (by omega)
  have unit : 4096 * 0 + 256 * 0 + 16 * (b.toNat / 16) + b.toNat % 16 = b.toNat := by omega
  have character : utf8 b.toNat = [b] := by
    rw [utf8, if_pos (by omega), UInt8.ofNat_toNat]
  rw [parseChars.eq_def]
  simp only [show ¬(92 : UInt8) = 34 by decide, if_false, if_true, zero, high, low,
    Option.bind_eq_bind, Option.bind_some, unit, character]
  cases parseChars rest with
  | none => rfl
  | some read => rfl

/-- A character is read back, escaped or not. -/
theorem parseChars_escape (b : UInt8) (rest : List UInt8) :
    parseChars (escape b ++ rest) = (parseChars rest).map fun (s, rest) => (b :: s, rest) := by
  unfold escape
  split
  · rename_i quote
    subst quote
    exact parseChars_unescape (by decide) (by decide) rest
  split
  · rename_i backslash
    subst backslash
    exact parseChars_unescape (by decide) (by decide) rest
  split
  · rename_i backspace
    subst backspace
    exact parseChars_unescape (by decide) (by decide) rest
  split
  · rename_i feed
    subst feed
    exact parseChars_unescape (by decide) (by decide) rest
  split
  · rename_i newline
    subst newline
    exact parseChars_unescape (by decide) (by decide) rest
  split
  · rename_i carriage
    subst carriage
    exact parseChars_unescape (by decide) (by decide) rest
  split
  · rename_i tab
    subst tab
    exact parseChars_unescape (by decide) (by decide) rest
  split
  · rename_i control
    exact parseChars_unit control rest
  · rename_i noQuote noBackslash _ _ _ _ _ plain
    rw [List.singleton_append, parseChars.eq_def]
    simp only [if_neg noQuote, if_neg noBackslash, if_neg plain, Option.bind_eq_bind]
    cases parseChars rest with
    | none => rfl
    | some read => rfl

theorem parseChars_stringText (s rest : List UInt8) :
    parseChars (s.flatMap escape ++ 34 :: rest) = some (s, rest) := by
  induction s with
  | nil =>
      unfold parseChars
      rfl
  | cons b s ih => rw [List.flatMap_cons, List.append_assoc, parseChars_escape, ih, Option.map_some]

/-! ## Layouts -/

/-- White space in front of an item or a closing bracket at some depth, and behind a colon. -/
structure Layout where
  gap : Nat → List UInt8
  colon : List UInt8
  gap_blank : ∀ depth, ∀ b ∈ gap depth, isWs b = true
  colon_blank : ∀ b ∈ colon, isWs b = true

theorem isWs_nil : ∀ b ∈ ([] : List UInt8), isWs b = true :=
  fun _ member => absurd member List.not_mem_nil

/-- `JSON.stringify(v)` -/
def compact : Layout where
  gap _ := []
  colon := []
  gap_blank _ := isWs_nil
  colon_blank := isWs_nil

@[simp] theorem compact_gap (depth : Nat) : compact.gap depth = [] := rfl

@[simp] theorem compact_colon : compact.colon = [] := rfl

/-- `JSON.stringify(v, null, 2)` -/
def indented : Layout where
  gap depth := 10 :: List.replicate (2 * depth) 32
  colon := [32]
  gap_blank depth b member := by
    rcases List.mem_cons.mp member with rfl | blank
    · rfl
    · rw [List.eq_of_mem_replicate blank]
      rfl
  colon_blank b member := by
    rw [List.mem_singleton.mp member]
    rfl

mutual

/-- The text of a value at some depth. -/
def render (layout : Layout) (depth : Nat) : Json → List UInt8
  | .null => bytes "null"
  | .bool b => bytes (if b then "true" else "false")
  | .num q => numberText q
  | .str s => stringText s
  | .arr [] => [91, 93]
  | .arr (item :: items) =>
      91 :: (layout.gap (depth + 1) ++ (render layout (depth + 1) item ++
        (renderItems layout (depth + 1) items ++ (layout.gap depth ++ [93]))))
  | .obj [] => [123, 125]
  | .obj ((key, value) :: members) =>
      123 :: (layout.gap (depth + 1) ++ (stringText key ++ 58 :: (layout.colon ++
        (render layout (depth + 1) value ++
          (renderMembers layout (depth + 1) members ++ (layout.gap depth ++ [125]))))))

/-- The items behind the first one. -/
def renderItems (layout : Layout) (depth : Nat) : List Json → List UInt8
  | [] => []
  | item :: items =>
      44 :: (layout.gap depth ++ (render layout depth item ++ renderItems layout depth items))

def renderMembers (layout : Layout) (depth : Nat) : List (List UInt8 × Json) → List UInt8
  | [] => []
  | (key, value) :: members =>
      44 :: (layout.gap depth ++ (stringText key ++ 58 :: (layout.colon ++
        (render layout depth value ++ renderMembers layout depth members))))

end

mutual

/-- Without white space it is `stringify`. -/
theorem render_compact (depth : Nat) : ∀ v : Json, render compact depth v = stringify v
  | .null => rfl
  | .bool _ => rfl
  | .num _ => rfl
  | .str _ => rfl
  | .arr [] => rfl
  | .arr (item :: items) => by
      simp only [render, stringify, stringifyItems, commaSep, compact_gap, List.nil_append,
        render_compact (depth + 1) item, renderItems_compact (depth + 1) items, List.cons_append,
        List.append_assoc]
  | .obj [] => rfl
  | .obj ((key, value) :: members) => by
      simp only [render, stringify, stringifyMembers, commaSep, compact_gap, compact_colon,
        List.nil_append, render_compact (depth + 1) value, renderMembers_compact (depth + 1) members,
        List.cons_append, List.append_assoc]

theorem renderItems_compact (depth : Nat) : ∀ items : List Json,
    renderItems compact depth items = (stringifyItems items).flatMap fun text => 44 :: text
  | [] => rfl
  | item :: items => by
      simp only [renderItems, stringifyItems, compact_gap, List.nil_append, render_compact depth item,
        renderItems_compact depth items, List.flatMap_cons, List.cons_append]

theorem renderMembers_compact (depth : Nat) : ∀ members : List (List UInt8 × Json),
    renderMembers compact depth members =
      (stringifyMembers members).flatMap fun text => 44 :: text
  | [] => rfl
  | (key, value) :: members => by
      simp only [renderMembers, stringifyMembers, compact_gap, compact_colon, List.nil_append,
        render_compact depth value, renderMembers_compact depth members, List.flatMap_cons,
        List.cons_append, List.append_assoc]

end

/-! ## Values that have a text -/

/-- A name of an object comes before another one. -/
def precedes (key other : List UInt8) : Bool :=
  key != other && (arrayIndex other).all fun i => isBelow i key

/-- The names are distinct and in order. -/
def Ordered (members : List (List UInt8 × Json)) : Prop :=
  (members.map Prod.fst).Pairwise fun key other => precedes key other = true

section WellFormed

variable (number : Rat → Prop)

mutual

/-- The names in the objects are in order, and the numbers as they should be. -/
def WellFormed : Json → Prop
  | .num q => number q
  | .arr items => AllWellFormed items
  | .obj members => Ordered members ∧ MembersWellFormed members
  | _ => True

def AllWellFormed : List Json → Prop
  | [] => True
  | item :: items => WellFormed item ∧ AllWellFormed items

def MembersWellFormed : List (List UInt8 × Json) → Prop
  | [] => True
  | (_, value) :: members => WellFormed value ∧ MembersWellFormed members

end

end WellFormed

/-! ## Reading a text back -/

theorem skipWs_blank {blank rest : List UInt8} (all : ∀ b ∈ blank, isWs b = true) :
    skipWs (blank ++ rest) = skipWs rest :=
  List.dropWhile_append_of_pos all

/-- White space in front of a value does not matter. -/
theorem parseValue_blank {blank text : List UInt8} (all : ∀ b ∈ blank, isWs b = true) (fuel : Nat) :
    parseValue fuel (blank ++ text) = parseValue fuel text := by
  cases fuel with
  | zero => rfl
  | succ fuel => rw [parseValue, parseValue, skipWs_blank all]

theorem isWs_not {b c : UInt8} (blank : isWs b = true) (solid : isWs c = false) : b ≠ c := by
  rintro rfl
  rw [blank] at solid
  cases solid

/-- Where a value may stop: white space and separators end a number. -/
theorem endsNumber_blank {blank rest : List UInt8} (all : ∀ b ∈ blank, isWs b = true)
    (ends : EndsNumber rest) : EndsNumber (blank ++ rest) := by
  cases blank with
  | nil => exact ends
  | cons b blank =>
      have here := all b List.mem_cons_self
      refine endsNumber_cons ⟨?_, isWs_not here rfl, isWs_not here rfl, isWs_not here rfl⟩
      cases digit : isDigit b with
      | false => rfl
      | true =>
          rw [isWs_digit digit] at here
          cases here

theorem endsNumber_items (layout : Layout) (depth : Nat) (items : List Json) {rest : List UInt8}
    (ends : EndsNumber rest) : EndsNumber (renderItems layout depth items ++ rest) := by
  cases items with
  | nil => exact ends
  | cons item items => exact endsNumber_cons (by decide)

theorem endsNumber_members (layout : Layout) (depth : Nat) (members : List (List UInt8 × Json))
    {rest : List UInt8} (ends : EndsNumber rest) :
    EndsNumber (renderMembers layout depth members ++ rest) := by
  cases members with
  | nil => exact ends
  | cons member members => exact endsNumber_cons (by decide)

/-- How a text starts. -/
theorem render_head (layout : Layout) (depth : Nat) (v : Json) (rest : List UInt8) :
    ∃ b tail, render layout depth v ++ rest = b :: tail ∧ isWs b = false ∧ b ≠ 93 := by
  cases v with
  | null => exact ⟨110, _, rfl, rfl, by decide⟩
  | bool b => cases b <;> exact ⟨_, _, rfl, rfl, by decide⟩
  | str s => exact ⟨34, _, rfl, rfl, by decide⟩
  | arr items => cases items <;> exact ⟨91, _, rfl, rfl, by decide⟩
  | obj members => cases members <;> exact ⟨123, _, rfl, rfl, by decide⟩
  | num q =>
      rw [render, numberText]
      split
      · obtain ⟨b, tail, shape, sign⟩ := numeral_head q
        refine ⟨b, tail ++ rest, by rw [shape, List.cons_append], ?_, ?_⟩
        · rcases sign with rfl | digit
          · rfl
          · exact isWs_digit digit
        · rintro rfl
          exact absurd sign (by decide)
      · exact ⟨110, _, rfl, rfl, by decide⟩

theorem render_pos (layout : Layout) (depth : Nat) (v : Json) :
    0 < (render layout depth v).length := by
  obtain ⟨b, tail, shape, -⟩ := render_head layout depth v []
  rw [List.append_nil] at shape
  rw [shape]
  exact Nat.succ_pos _

/-- A member that comes after all the others is put behind them. -/
theorem setMember_new {members : List (List UInt8 × Json)} {key : List UInt8}
    (last : ∀ name ∈ members.map Prod.fst, precedes name key = true) (value : Json) :
    setMember members key value = members ++ [(key, value)] := by
  have before : ∀ member ∈ members, member.1 ≠ key ∧
      ∀ i, arrayIndex key = some i → isBelow i member.1 = true := by
    intro member inside
    have comes := last member.1 (List.mem_map_of_mem inside)
    rw [precedes, Bool.and_eq_true, bne_iff_ne] at comes
    refine ⟨comes.1, fun i index => ?_⟩
    have below := comes.2
    rwa [index, Option.all_some] at below
  have new : ¬(members.any fun member => member.1 == key) = true := by
    intro present
    obtain ⟨member, inside, same⟩ := List.any_eq_true.mp present
    exact (before member inside).1 (eq_of_beq same)
  rw [setMember, if_neg new]
  cases index : arrayIndex key with
  | none => rfl
  | some i =>
      have below : ∀ member ∈ members, isBelow i member.1 = true :=
        fun member inside => (before member inside).2 i index
      dsimp only
      rw [List.takeWhile_eq_self_iff.mpr below, List.dropWhile_eq_nil_iff.mpr below]

theorem parseScalar_number {b : UInt8} {tail : List UInt8}
    (sign : b = 45 ∨ isDigit b = true) {q : Rat} {rest : List UInt8}
    (number : parseNumber (b :: tail) = some (q, rest)) (fuel : Nat) :
    parseValue (fuel + 1) (b :: tail) = some (.num (double q), rest) := by
  have range : b = 45 ∨ 48 ≤ b ∧ b ≤ 57 := by
    simpa [isDigit] using sign
  have solid : isWs b = false := by
    rcases sign with rfl | digit
    · rfl
    · exact isWs_digit digit
  have notBrace : b ≠ 123 := by grind
  have notBracket : b ≠ 91 := by grind
  have notWord : b ≠ 34 ∧ b ≠ 116 ∧ b ≠ 102 ∧ b ≠ 110 := by grind
  rw [parseValue, skipWs_of_head solid]
  simp only [notBrace, notBracket, if_false, parseScalar, notWord, number, Option.map_some]

theorem parseValue_number {q : Rat} (finite : IsFinite q) (fuel : Nat) {rest : List UInt8}
    (ends : EndsNumber rest) :
    parseValue (fuel + 1) (numberText q ++ rest) = some (.num q, rest) := by
  obtain ⟨v, number, exact⟩ := parseNumber_numeral finite ends
  obtain ⟨b, tail, shape, sign⟩ := numeral_head q
  rw [shape, List.cons_append] at number
  rw [numberText, if_pos finite.bounded, shape, List.cons_append,
    parseScalar_number sign number fuel, exact]

theorem parseValue_string (s rest : List UInt8) (fuel : Nat) :
    parseValue (fuel + 1) (stringText s ++ rest) = some (.str s, rest) := by
  have quote : isWs 34 = false := rfl
  have text : stringText s ++ rest = 34 :: (s.flatMap escape ++ 34 :: rest) := by
    simp [stringText]
  rw [text, parseValue, skipWs_of_head quote]
  simp [parseScalar, parseChars_stringText]

theorem parseValue_null (rest : List UInt8) (fuel : Nat) :
    parseValue (fuel + 1) (bytes "null" ++ rest) = some (.null, rest) := by
  have word : bytes "null" = [110, 117, 108, 108] := by decide
  simp [parseValue, word, skipWs, isWs, parseScalar, literal]

mutual

/-- **The text of a value is read back**, in front of anything that ends a number. -/
theorem parseValue_render (layout : Layout) (depth : Nat) : ∀ (v : Json) (fuel : Nat)
    (rest : List UInt8), WellFormed IsFinite v → EndsNumber rest →
      (render layout depth v).length ≤ fuel →
      parseValue fuel (render layout depth v ++ rest) = some (v, rest)
  | v, 0, _, _, _, enough => absurd (render_pos layout depth v) (by omega)
  | .null, fuel + 1, rest, _, _, _ => parseValue_null rest fuel
  | .bool b, fuel + 1, rest, _, _, _ => parseValue_bool b fuel rest
  | .num q, fuel + 1, rest, finite, ends, _ => parseValue_number finite fuel ends
  | .str s, fuel + 1, rest, _, _, _ => parseValue_string s rest fuel
  | .arr items, fuel + 1, rest, wf, ends, enough => by
      have read := parseElements_render layout (depth + 1) items fuel (layout.gap depth)
        rest (layout.gap_blank depth)
      have bracket : isWs 91 = false := rfl
      have close : isWs 93 = false := rfl
      cases items with
      | nil =>
          rw [render, List.cons_append, parseValue, skipWs_of_head bracket]
          simp [skipWs_of_head close]
      | cons item items =>
          have read := read (List.cons_ne_nil item items) wf (by
            simp only [render, renderItems, List.length_cons, List.length_append] at enough ⊢
            omega)
          obtain ⟨b, tail, shape, solid, notClose⟩ := render_head layout (depth + 1) item
            (renderItems layout (depth + 1) items ++ (layout.gap depth ++ 93 :: rest))
          simp only [renderItems, List.tail_cons, List.append_assoc] at read
          simp only [render, List.cons_append, List.append_assoc]
          rw [parseValue, skipWs_of_head bracket]
          have first : (skipWs (layout.gap (depth + 1) ++ (render layout (depth + 1) item ++
              (renderItems layout (depth + 1) items ++ (layout.gap depth ++ 93 :: rest))))).head? =
                some b := by
            rw [skipWs_blank (layout.gap_blank _), shape, skipWs_of_head solid, List.head?_cons]
          simp [first, notClose, read]
  | .obj members, fuel + 1, rest, wf, ends, enough => by
      have read := parseMembers_render layout (depth + 1) members fuel (layout.gap depth)
        rest [] (layout.gap_blank depth)
      have brace : isWs 123 = false := rfl
      have close : isWs 125 = false := rfl
      have quote : isWs 34 = false := rfl
      cases members with
      | nil =>
          rw [render, List.cons_append, parseValue, skipWs_of_head brace]
          simp [skipWs_of_head close]
      | cons member members =>
          obtain ⟨key, value⟩ := member
          have read := read (List.cons_ne_nil _ members) wf.2 wf.1 (by
            simp only [render, renderMembers, List.length_cons, List.length_append] at enough ⊢
            omega)
          simp only [renderMembers, List.tail_cons, List.append_assoc, List.cons_append,
            List.nil_append] at read
          simp only [render, List.cons_append, List.append_assoc]
          rw [parseValue, skipWs_of_head brace]
          have first : (skipWs (layout.gap (depth + 1) ++ (stringText key ++ 58 :: (layout.colon ++
              (render layout (depth + 1) value ++ (renderMembers layout (depth + 1) members ++
                (layout.gap depth ++ 125 :: rest))))))).head? = some 34 := by
            rw [skipWs_blank (layout.gap_blank _), stringText, List.cons_append, List.cons_append,
              skipWs_of_head quote, List.head?_cons]
          simp [first, read]

theorem parseElements_render (layout : Layout) (depth : Nat) : ∀ (items : List Json) (fuel : Nat)
    (blank rest : List UInt8), (∀ b ∈ blank, isWs b = true) → items ≠ [] →
      AllWellFormed IsFinite items →
      (renderItems layout depth items).length ≤ fuel →
      parseElements fuel ((renderItems layout depth items).tail ++ (blank ++ 93 :: rest)) =
        some (items, rest)
  | [], _, _, _, _, some_, _, _ => absurd rfl some_
  | item :: items, 0, _, _, _, _, _, enough => absurd enough (by simp [renderItems])
  | item :: items, fuel + 1, blank, rest, all, _, wf, enough => by
      have comma : isWs 44 = false := rfl
      have close : isWs 93 = false := rfl
      simp only [renderItems, List.length_cons, List.length_append] at enough
      have read := parseValue_render layout depth item fuel
        (renderItems layout depth items ++ (blank ++ 93 :: rest)) wf.1
        (endsNumber_items layout depth items (endsNumber_blank all (endsNumber_cons (by decide))))
        (by omega)
      have more := parseElements_render layout depth items fuel blank rest all
      simp only [renderItems, List.tail_cons, List.append_assoc]
      rw [parseElements, parseValue_blank (layout.gap_blank depth), read]
      cases items with
      | nil => simp [renderItems, skipWs_blank all, skipWs_of_head close]
      | cons next items =>
          have more := more (List.cons_ne_nil next items) wf.2 (by omega)
          simp only [renderItems, List.tail_cons, List.append_assoc] at more
          simp [renderItems, skipWs_of_head comma, more]

theorem parseMembers_render (layout : Layout) (depth : Nat) :
    ∀ (members : List (List UInt8 × Json)) (fuel : Nat) (blank rest : List UInt8)
      (before : List (List UInt8 × Json)), (∀ b ∈ blank, isWs b = true) → members ≠ [] →
      MembersWellFormed IsFinite members → Ordered (before ++ members) →
      (renderMembers layout depth members).length ≤ fuel →
      parseMembers fuel ((renderMembers layout depth members).tail ++ (blank ++ 125 :: rest))
        before = some (before ++ members, rest)
  | [], _, _, _, _, _, some_, _, _, _ => absurd rfl some_
  | (key, value) :: members, 0, _, _, _, _, _, _, _, enough =>
      absurd enough (by simp [renderMembers])
  | (key, value) :: members, fuel + 1, blank, rest, before, all, _, wf, ordered, enough => by
      have quote : isWs 34 = false := rfl
      have colon : isWs 58 = false := rfl
      have comma : isWs 44 = false := rfl
      have close : isWs 125 = false := rfl
      simp only [renderMembers, List.length_cons, List.length_append] at enough
      have read := parseValue_render layout depth value fuel
        (renderMembers layout depth members ++ (blank ++ 125 :: rest)) wf.1
        (endsNumber_members layout depth members
          (endsNumber_blank all (endsNumber_cons (by decide)))) (by omega)
      have last : ∀ name ∈ before.map Prod.fst, precedes name key = true := by
        rw [Ordered, List.map_append, List.map_cons] at ordered
        exact fun name old => (List.pairwise_append.mp ordered).2.2 name old key List.mem_cons_self
      have more := parseMembers_render layout depth members fuel blank rest
        (before ++ [(key, value)]) all
      have text : stringText key ++ 58 :: (layout.colon ++ (render layout depth value ++
          (renderMembers layout depth members ++ (blank ++ 125 :: rest)))) =
          34 :: (key.flatMap escape ++ 34 :: (58 :: (layout.colon ++ (render layout depth value ++
            (renderMembers layout depth members ++ (blank ++ 125 :: rest)))))) := by
        simp [stringText]
      simp only [renderMembers, List.tail_cons, List.append_assoc, List.cons_append]
      rw [parseMembers, skipWs_blank (layout.gap_blank depth), text, skipWs_of_head quote]
      simp only [if_true, parseChars_stringText, Option.bind_eq_bind, Option.bind_some,
        skipWs_of_head colon, parseValue_blank layout.colon_blank, read, setMember_new last]
      cases members with
      | nil => simp [renderMembers, skipWs_blank all, skipWs_of_head close]
      | cons next members =>
          have more := more (List.cons_ne_nil next members) wf.2 (by
            rwa [List.append_assoc, List.singleton_append]) (by omega)
          simp only [renderMembers, List.tail_cons, List.append_assoc, List.cons_append,
            List.nil_append] at more
          simp [renderMembers, skipWs_of_head comma, more]

end

/-- The text of an object is between braces. -/
theorem render_object (layout : Layout) (depth : Nat) (member : List UInt8 × Json)
    (members : List (List UInt8 × Json)) :
    ∃ middle, render layout depth (.obj (member :: members)) = 123 :: (middle ++ [125]) := by
  obtain ⟨key, value⟩ := member
  refine ⟨layout.gap (depth + 1) ++ (stringText key ++ 58 :: (layout.colon ++
    (render layout (depth + 1) value ++
      (renderMembers layout (depth + 1) members ++ layout.gap depth)))), ?_⟩
  simp only [render, List.append_assoc, List.cons_append]

/-- **A printed value is parsed to itself**, in any layout. -/
theorem parse_render (layout : Layout) {v : Json} (wf : WellFormed IsFinite v) :
    parse (render layout 0 v) = some v := by
  have read := parseValue_render layout 0 v (2 * (render layout 0 v).length + 2) []
    wf nofun (by omega)
  rw [List.append_nil] at read
  rw [parse, read]
  rfl

/-! ## What becomes of the infinities -/

mutual

/-- A value that was printed and read again. -/
def revive : Json → Json
  | .num q => if |q| < infinity then .num q else .null
  | .arr items => .arr (reviveItems items)
  | .obj members => .obj (reviveMembers members)
  | v => v

def reviveItems : List Json → List Json
  | [] => []
  | item :: items => revive item :: reviveItems items

def reviveMembers : List (List UInt8 × Json) → List (List UInt8 × Json)
  | [] => []
  | (key, value) :: members => (key, revive value) :: reviveMembers members

end

theorem reviveItems_eq_map (items : List Json) : reviveItems items = items.map revive := by
  induction items with
  | nil => rfl
  | cons item items ih => rw [reviveItems, List.map_cons, ih]

mutual

/-- It has the same text. -/
theorem render_revive (layout : Layout) (depth : Nat) : ∀ v : Json,
    render layout depth (revive v) = render layout depth v
  | .null => rfl
  | .bool _ => rfl
  | .str _ => rfl
  | .num q => by
      rw [revive]
      split
      · rfl
      · rename_i infinite
        rw [render, render, numberText, if_neg infinite]
  | .arr [] => rfl
  | .arr (item :: items) => by
      simp only [revive, reviveItems, render, render_revive layout (depth + 1) item,
        renderItems_revive layout (depth + 1) items]
  | .obj [] => rfl
  | .obj ((key, value) :: members) => by
      simp only [revive, reviveMembers, render, render_revive layout (depth + 1) value,
        renderMembers_revive layout (depth + 1) members]

theorem renderItems_revive (layout : Layout) (depth : Nat) : ∀ items : List Json,
    renderItems layout depth (reviveItems items) = renderItems layout depth items
  | [] => rfl
  | item :: items => by
      simp only [reviveItems, renderItems, render_revive layout depth item,
        renderItems_revive layout depth items]

theorem renderMembers_revive (layout : Layout) (depth : Nat) :
    ∀ members : List (List UInt8 × Json),
      renderMembers layout depth (reviveMembers members) = renderMembers layout depth members
  | [] => rfl
  | (key, value) :: members => by
      simp only [reviveMembers, renderMembers, render_revive layout depth value,
        renderMembers_revive layout depth members]

end

theorem names_revive (members : List (List UInt8 × Json)) :
    (reviveMembers members).map Prod.fst = members.map Prod.fst := by
  induction members with
  | nil => rfl
  | cons member members ih => rw [reviveMembers, List.map_cons, List.map_cons, ih]

mutual

/-- Its numbers are finite. -/
theorem wellFormed_revive : ∀ {v : Json}, WellFormed IsDouble v → WellFormed IsFinite (revive v)
  | .null, _ => trivial
  | .bool _, _ => trivial
  | .str _, _ => trivial
  | .num q, exact => by
      rw [revive]
      split
      · rename_i bounded
        exact ⟨exact, bounded⟩
      · trivial
  | .arr _, wf => allWellFormed_revive wf
  | .obj members, wf =>
      ⟨by rw [Ordered, names_revive]; exact wf.1, membersWellFormed_revive wf.2⟩

theorem allWellFormed_revive : ∀ {items : List Json}, AllWellFormed IsDouble items →
    AllWellFormed IsFinite (reviveItems items)
  | [], _ => trivial
  | _ :: _, wf => ⟨wellFormed_revive wf.1, allWellFormed_revive wf.2⟩

theorem membersWellFormed_revive : ∀ {members : List (List UInt8 × Json)},
    MembersWellFormed IsDouble members → MembersWellFormed IsFinite (reviveMembers members)
  | [], _ => trivial
  | _ :: _, wf => ⟨wellFormed_revive wf.1, membersWellFormed_revive wf.2⟩

end

mutual

/-- Where all numbers are finite it is the value. -/
theorem revive_finite : ∀ {v : Json}, WellFormed IsFinite v → revive v = v
  | .null, _ => rfl
  | .bool _, _ => rfl
  | .str _, _ => rfl
  | .num _, finite => if_pos (IsFinite.bounded finite)
  | .arr _, wf => congrArg Json.arr (reviveItems_finite wf)
  | .obj _, wf => congrArg Json.obj (reviveMembers_finite wf.2)

theorem reviveItems_finite : ∀ {items : List Json}, AllWellFormed IsFinite items →
    reviveItems items = items
  | [], _ => rfl
  | item :: items, wf => by rw [reviveItems, revive_finite wf.1, reviveItems_finite wf.2]

theorem reviveMembers_finite : ∀ {members : List (List UInt8 × Json)},
    MembersWellFormed IsFinite members → reviveMembers members = members
  | [], _ => rfl
  | (key, value) :: members, wf => by
      rw [reviveMembers, revive_finite wf.1, reviveMembers_finite wf.2]

end

mutual

theorem revive_revive : ∀ v : Json, revive (revive v) = revive v
  | .null => rfl
  | .bool _ => rfl
  | .str _ => rfl
  | .num q => by
      simp only [revive]
      split
      · rename_i bounded
        rw [revive, if_pos bounded]
      · rfl
  | .arr items => congrArg Json.arr (reviveItems_revive items)
  | .obj members => congrArg Json.obj (reviveMembers_revive members)

theorem reviveItems_revive : ∀ items : List Json,
    reviveItems (reviveItems items) = reviveItems items
  | [] => rfl
  | item :: items => by
      rw [reviveItems, reviveItems, revive_revive item, reviveItems_revive items]

theorem reviveMembers_revive : ∀ members : List (List UInt8 × Json),
    reviveMembers (reviveMembers members) = reviveMembers members
  | [] => rfl
  | (key, value) :: members => by
      rw [reviveMembers, reviveMembers, revive_revive value, reviveMembers_revive members]

end

/-- **What is read of the text of a value**: all of it but its infinities. -/
theorem parse_stringify {v : Json} (wf : WellFormed IsDouble v) :
    parse (stringify v) = some (revive v) := by
  rw [← render_compact 0, ← render_revive]
  exact parse_render compact (wellFormed_revive wf)

/-! ## What a parser gives is well formed -/

theorem wellFormed_parseScalar {b : UInt8} {text rest : List UInt8} {v : Json}
    (read : parseScalar b text = some (v, rest)) : WellFormed IsDouble v := by
  unfold parseScalar at read
  split at read
  · obtain ⟨_, -, value⟩ := Option.map_eq_some_iff.mp read
    cases value
    trivial
  split at read
  · obtain ⟨_, -, value⟩ := Option.map_eq_some_iff.mp read
    cases value
    trivial
  split at read
  · obtain ⟨_, -, value⟩ := Option.map_eq_some_iff.mp read
    cases value
    trivial
  split at read
  · obtain ⟨_, -, value⟩ := Option.map_eq_some_iff.mp read
    cases value
    trivial
  · obtain ⟨⟨q, _⟩, -, value⟩ := Option.map_eq_some_iff.mp read
    cases value
    exact double_double q

theorem membersWellFormed_append {xs ys : List (List UInt8 × Json)}
    (first : MembersWellFormed IsDouble xs) (second : MembersWellFormed IsDouble ys) :
    MembersWellFormed IsDouble (xs ++ ys) := by
  induction xs with
  | nil => exact second
  | cons member xs ih => exact ⟨first.1, ih first.2⟩

theorem membersWellFormed_split {xs ys : List (List UInt8 × Json)}
    (wf : MembersWellFormed IsDouble (xs ++ ys)) :
    MembersWellFormed IsDouble xs ∧ MembersWellFormed IsDouble ys := by
  induction xs with
  | nil => exact ⟨trivial, wf⟩
  | cons member xs ih => exact ⟨⟨wf.1, (ih wf.2).1⟩, (ih wf.2).2⟩

theorem keys_replaced (members : List (List UInt8 × Json)) (key : List UInt8) (value : Json) :
    (members.map fun member => if member.1 == key then (key, value) else member).map Prod.fst =
      members.map Prod.fst := by
  rw [List.map_map]
  refine List.map_congr_left fun member _ => ?_
  show (if member.1 == key then (key, value) else member).1 = member.1
  split
  · rename_i same
    exact (eq_of_beq same).symm
  · rfl

theorem membersWellFormed_replaced {members : List (List UInt8 × Json)} {key : List UInt8}
    {value : Json} (wf : MembersWellFormed IsDouble members) (new : WellFormed IsDouble value) :
    MembersWellFormed IsDouble
      (members.map fun member => if member.1 == key then (key, value) else member) := by
  induction members with
  | nil => trivial
  | cons member members ih =>
      refine ⟨?_, ih wf.2⟩
      show WellFormed IsDouble (if member.1 == key then (key, value) else member).2
      split
      · exact new
      · exact wf.1

theorem arrayIndex_inj {key other : List UInt8} {i : Nat} (index : arrayIndex key = some i)
    (same : arrayIndex other = some i) : key = other := by
  have shape : ∀ {name : List UInt8}, arrayIndex name = some i → name = decimal i := by
    intro name index
    unfold arrayIndex at index
    dsimp only at index
    split at index
    · rename_i canonical
      obtain rfl := Option.some.inj index
      exact canonical.1
    · cases index
  rw [shape index, shape same]

/-- A new name is put where it belongs: behind the smaller indices, and a name that is no index
behind everything. -/
theorem ordered_insert {before after : List (List UInt8 × Json)} {key : List UInt8} {i : Nat}
    (ordered : Ordered (before ++ after)) (index : arrayIndex key = some i)
    (new : ∀ member ∈ before ++ after, member.1 ≠ key)
    (below : ∀ member ∈ before, isBelow i member.1 = true)
    (next : ∀ member, after.head? = some member → isBelow i member.1 = false) (value : Json) :
    Ordered (before ++ (key, value) :: after) := by
  rw [Ordered, List.map_append, List.pairwise_append] at ordered
  obtain ⟨front, back, across⟩ := ordered
  have first : ∀ name ∈ before.map Prod.fst, precedes name key = true := by
    intro name early
    obtain ⟨member, inside, rfl⟩ := List.mem_map.mp early
    rw [precedes, index, Option.all_some, below member inside, Bool.and_true, bne_iff_ne]
    exact new member (List.mem_append_left _ inside)
  have second : ∀ name ∈ after.map Prod.fst, precedes key name = true := by
    intro name late
    cases after with
    | nil => cases late
    | cons head tail =>
        have here : ∀ j, arrayIndex head.1 = some j → i < j := by
          intro j other
          have stays := next head rfl
          rw [isBelow, other, Option.any_some, decide_eq_false_iff_not] at stays
          refine lt_of_le_of_ne (not_lt.mp stays) ?_
          rintro rfl
          exact new head (List.mem_append_right _ List.mem_cons_self) (arrayIndex_inj other index)
        have later : ∀ j, arrayIndex name = some j → i < j := by
          intro j other
          rcases List.mem_cons.mp late with rfl | behind
          · exact here j other
          · have comes := List.rel_of_pairwise_cons back behind
            rw [precedes, other, Option.all_some, isBelow, Bool.and_eq_true, Option.any_eq_true]
              at comes
            obtain ⟨k, between, small⟩ := comes.2
            exact (here k between).trans (of_decide_eq_true small)
        have fresh : key ≠ name := by
          obtain ⟨member, inside, rfl⟩ := List.mem_map.mp late
          exact (new member (List.mem_append_right _ inside)).symm
        rw [precedes, Bool.and_eq_true, bne_iff_ne]
        refine ⟨fresh, ?_⟩
        cases other : arrayIndex name with
        | none => rfl
        | some j =>
            rw [Option.all_some, isBelow, index, Option.any_some, decide_eq_true_eq]
            exact later j other
  rw [Ordered, List.map_append, List.map_cons, List.pairwise_append]
  refine ⟨front, List.pairwise_cons.mpr ⟨second, back⟩, ?_⟩
  intro name early other late
  rcases List.mem_cons.mp late with rfl | late
  · exact first name early
  · exact across name early other late

theorem wellFormed_setMember {members : List (List UInt8 × Json)} {key : List UInt8} {value : Json}
    (wf : WellFormed IsDouble (.obj members)) (new : WellFormed IsDouble value) :
    WellFormed IsDouble (.obj (setMember members key value)) := by
  obtain ⟨ordered, all⟩ := wf
  unfold setMember
  split
  · exact ⟨by rw [Ordered, keys_replaced]; exact ordered, membersWellFormed_replaced all new⟩
  · rename_i absent
    have apart : ∀ member ∈ members, member.1 ≠ key := by
      intro member inside same
      exact absent (List.any_eq_true.mpr ⟨member, inside, beq_iff_eq.mpr same⟩)
    split
    · rename_i i index
      have whole : (members.takeWhile fun member => isBelow i member.1) ++
          (members.dropWhile fun member => isBelow i member.1) = members :=
        List.takeWhile_append_dropWhile
      rw [← whole] at all ordered
      obtain ⟨front, back⟩ := membersWellFormed_split all
      refine ⟨ordered_insert ordered index (by rwa [whole]) ?_ ?_ value,
        membersWellFormed_append front ⟨new, back⟩⟩
      · intro member inside
        have below := List.mem_takeWhile_imp inside
        exact below
      · intro member head
        have stays := List.head?_dropWhile_not (fun member => isBelow i member.1) members
        rw [head] at stays
        exact stays
    · rename_i noIndex
      refine ⟨?_, membersWellFormed_append all ⟨new, trivial⟩⟩
      rw [Ordered, List.map_append, List.map_singleton, List.pairwise_append]
      refine ⟨ordered, List.pairwise_singleton _ _, ?_⟩
      intro name inside other last
      obtain rfl : other = key := List.mem_singleton.mp last
      obtain ⟨member, there, rfl⟩ := List.mem_map.mp inside
      rw [precedes, noIndex, Option.all_none, Bool.and_true, bne_iff_ne]
      exact apart member there

theorem wellFormed_read (fuel : Nat) :
    (∀ {text rest v}, parseValue fuel text = some (v, rest) →
      WellFormed IsDouble v) ∧
    (∀ {text rest items}, parseElements fuel text = some (items, rest) →
      AllWellFormed IsDouble items) ∧
    (∀ {text rest before members}, WellFormed IsDouble (.obj before) →
      parseMembers fuel text before = some (members, rest) →
      WellFormed IsDouble (.obj members)) := by
  induction fuel with
  | zero => exact ⟨nofun, nofun, nofun⟩
  | succ fuel ih =>
      obtain ⟨value, elements, object⟩ := ih
      refine ⟨?_, ?_, ?_⟩
      · intro text rest v read
        rw [parseValue] at read
        split at read
        · cases read
        split at read
        · split at read
          · cases read
            exact ⟨List.Pairwise.nil, trivial⟩
          · obtain ⟨⟨members, _⟩, there, same⟩ := Option.map_eq_some_iff.mp read
            cases same
            have empty : WellFormed IsDouble (.obj []) := ⟨List.Pairwise.nil, trivial⟩
            exact object empty there
        split at read
        · split at read
          · cases read
            trivial
          · obtain ⟨⟨items, _⟩, there, same⟩ := Option.map_eq_some_iff.mp read
            cases same
            exact elements there
        · exact wellFormed_parseScalar read
      · intro text rest items read
        rw [parseElements] at read
        obtain ⟨⟨item, text'⟩, first, read⟩ := Option.bind_eq_some_iff.mp read
        dsimp only at read
        split at read
        · cases read
        split at read
        · cases read
          exact ⟨value first, trivial⟩
        split at read
        · obtain ⟨⟨more, _⟩, there, same⟩ := Option.bind_eq_some_iff.mp read
          cases same
          exact ⟨value first, elements there⟩
        · cases read
      · intro text rest before members wf read
        rw [parseMembers] at read
        split at read
        · cases read
        split at read
        · obtain ⟨⟨key, text'⟩, -, read⟩ := Option.bind_eq_some_iff.mp read
          dsimp only at read
          split at read
          · cases read
          split at read
          · obtain ⟨⟨v, text''⟩, first, read⟩ := Option.bind_eq_some_iff.mp read
            have wf' : WellFormed IsDouble (.obj (setMember before key v)) :=
              wellFormed_setMember wf (value first)
            dsimp only at read
            split at read
            · cases read
            split at read
            · cases read
              exact wf'
            split at read
            · exact object wf' read
            · cases read
          · cases read
        · cases read

/-- **`JSON.parse` gives a well-formed value.** -/
theorem wellFormed_parse {text : List UInt8} {v : Json} (read : parse text = some v) :
    WellFormed IsDouble v := by
  unfold parse at read
  split at read
  · rename_i value rest there
    split at read
    · cases read
      exact (wellFormed_read _).1 there
    · cases read
  · cases read

end IrHub.Theory.Json
