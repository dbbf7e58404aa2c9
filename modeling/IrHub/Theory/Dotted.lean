/-
# Theory.Dotted -- IPv4 addresses in dotted decimal

The notation over the codes of characters, so that it can be read off any string: of
bytes, or of other units.  `Address.ascii` and `Address.length_le` are what the notation
says of a string as a whole.
-/
import Mathlib.Data.List.Basic
import Mathlib.Tactic.Common

namespace IrHub.Theory.Dotted

set_option autoImplicit false

/-! ## The notation -/

def IsDigit (n : Nat) : Prop := 48 ≤ n ∧ n ≤ 57

/-- The number that digits write. -/
def value (digits : List Nat) : Nat := digits.foldl (fun acc n => 10 * acc + (n - 48)) 0

structure Octet (o : List Nat) : Prop where
  nonempty : 1 ≤ o.length
  short : o.length ≤ 3
  digits : ∀ n ∈ o, IsDigit n
  small : value o ≤ 255

/-- Four octets with dots between them, and not all zero. -/
structure Address (s : List Nat) : Prop where
  four : (s.splitOn 46).length = 4
  octets : ∀ o ∈ s.splitOn 46, Octet o
  nonzero : ∃ o ∈ s.splitOn 46, value o ≠ 0

/-! ## Splitting -/

section Split

variable {α β : Type} [BEq α] [LawfulBEq α] [BEq β] [LawfulBEq β]

/-- The first part, and a separator before each other one. -/
theorem eq_of_splitOn {d : α} {s o : List α} {os : List (List α)}
    (parts : s.splitOn d = o :: os) : s = o ++ os.flatMap (d :: ·) := by
  have joined : [d].intercalate (s.splitOn d) = s := List.intercalate_splitOn d
  rw [← joined, parts]
  clear parts joined
  induction os generalizing o with
  | nil => simp
  | cons p os ih =>
      rw [List.intercalate_cons_cons, ih (o := p)]
      simp

theorem splitOn_parts {d : α} {o : List α} {os : List (List α)}
    (apart : ∀ x ∈ o :: os, d ∉ x) : (o ++ os.flatMap (d :: ·)).splitOn d = o :: os := by
  induction os generalizing o with
  | nil => simpa using List.splitOn_eq_singleton (apart o List.mem_cons_self)
  | cons p os ih =>
      have rest := ih (o := p) fun x member => apart x (List.mem_cons_of_mem _ member)
      rw [List.flatMap_cons, List.cons_append,
        List.splitOn_append_cons_self_of_not_mem (apart o List.mem_cons_self), rest]

theorem splitOn_map {f : α → β} (injective : Function.Injective f) (d : α) (s : List α) :
    (s.map f).splitOn (f d) = (s.splitOn d).map (List.map f) := by
  induction s with
  | nil => simp
  | cons x s ih =>
      rw [List.map_cons, List.splitOn_cons_eq_if_modifyHead, List.splitOn_cons_eq_if_modifyHead, ih]
      by_cases separator : x = d
      · simp [separator]
      · have other : f x ≠ f d := fun same => separator (injective same)
        rw [if_neg (by simpa using other), if_neg (by simpa using separator)]
        cases s.splitOn d with
        | nil => rfl
        | cons o os => rfl

end Split

/-! ## Addresses -/

theorem Octet.dotless {o : List Nat} (octet : Octet o) : 46 ∉ o := by
  intro member
  have digit := (octet.digits 46 member).1
  omega

/-- An address and its octets. -/
theorem address_iff {o : List Nat} {os : List (List Nat)} (octets : ∀ x ∈ o :: os, Octet x)
    (four : os.length = 3) :
    Address (o ++ os.flatMap (46 :: ·)) ↔ ∃ x ∈ o :: os, value x ≠ 0 := by
  have parts := splitOn_parts (d := 46) fun x member => (octets x member).dotless
  constructor
  · intro address
    rw [← parts]
    exact address.nonzero
  · intro nonzero
    rw [← parts] at octets nonzero
    exact ⟨by rw [parts, List.length_cons, four], octets, nonzero⟩

theorem Address.parts {s : List Nat} (address : Address s) :
    ∃ o os, s = o ++ os.flatMap (46 :: ·) ∧ os.length = 3 ∧ ∀ x ∈ o :: os, Octet x := by
  obtain ⟨four, octets, -⟩ := address
  cases parts : s.splitOn 46 with
  | nil => exact absurd parts (List.splitOn_ne_nil 46 s)
  | cons o os =>
      rw [parts] at four octets
      exact ⟨o, os, eq_of_splitOn parts, by simpa using four, octets⟩

/-- An address is ASCII. -/
theorem Address.ascii {s : List Nat} (address : Address s) : ∀ n ∈ s, n < 128 := by
  obtain ⟨o, os, rfl, -, octets⟩ := address.parts
  have digit : ∀ x ∈ o :: os, ∀ n ∈ x, n < 128 := by
    intro x member n inside
    have bound := ((octets x member).digits n inside).2
    omega
  intro n member
  rw [List.mem_append, List.mem_flatMap] at member
  rcases member with first | ⟨x, later, inside⟩
  · exact digit o List.mem_cons_self n first
  · rcases List.mem_cons.mp inside with rfl | inside
    · decide
    · exact digit x (List.mem_cons_of_mem _ later) n inside

theorem Address.length_le {s : List Nat} (address : Address s) : s.length ≤ 15 := by
  obtain ⟨o, os, rfl, three, octets⟩ := address.parts
  obtain ⟨a, b, c, rfl⟩ := List.length_eq_three.mp three
  have first := (octets o (by simp)).short
  have second := (octets a (by simp)).short
  have third := (octets b (by simp)).short
  have fourth := (octets c (by simp)).short
  simp
  omega

end IrHub.Theory.Dotted
