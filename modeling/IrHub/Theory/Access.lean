/-
# Theory.Access -- code that may touch memory out of bounds

A computation over memory either ends with a value or faults: at the first read or
write outside the memory it was given, at a subtraction below zero, or when its loops
have used up their fuel.  Memory is the list of the cells that may be touched, and no
other: code that must not read past a terminator runs on memory that ends there.

`Ends c post` says that `c` does not fault and that its value satisfies `post`.  The rules
compose it along `do` (`Ends.bind`), and `loop_ends` is total correctness of a loop: an
invariant, and a measure below the fuel that every turn makes smaller.

Text in memory stands in front of a cell where every scan stops; `text ++ stop :: rest` is
the shape, and a pointer into it is a position up to that of `stop`.  What a scan has
left is `text.drop p` (`load_text`, `scan_ends`, `scanTo_ends`).
-/
import IrHub.Theory.Buffer
import Mathlib.Data.List.TakeWhile
import Mathlib.Data.Vector.Basic

namespace IrHub.Theory.Access

set_option autoImplicit false

universe u

/-- Why a computation did not end. -/
inductive Fault where
  | read (at_ : Nat)
  | write (at_ : Nat)
  | underflow
  | fuel
  deriving DecidableEq, Repr

abbrev Checked (α : Type u) := Except Fault α

/-! ## No fault -/

section Rules

variable {α β σ : Type u}

/-- `c` ends without a fault, in a value that satisfies `post`. -/
def Ends (c : Checked α) (post : α → Prop) : Prop := ∃ a, c = .ok a ∧ post a

theorem Ends.ok {a : α} {post : α → Prop} (holds : post a) : Ends (.ok a) post := ⟨a, rfl, holds⟩

theorem Ends.mono {c : Checked α} {post post' : α → Prop} (ends : Ends c post)
    (weaker : ∀ a, post a → post' a) : Ends c post' := by
  obtain ⟨a, value, holds⟩ := ends
  exact ⟨a, value, weaker a holds⟩

theorem Ends.bind {c : Checked α} {f : α → Checked β} {mid : α → Prop} {post : β → Prop}
    (first : Ends c mid) (next : ∀ a, mid a → Ends (f a) post) : Ends (c >>= f) post := by
  obtain ⟨a, value, holds⟩ := first
  rw [value]
  exact next a holds

/-- The value a computation ends in is the one it is known to have. -/
theorem Ends.eq_ok {c : Checked α} {a : α} (ends : Ends c (· = a)) : c = .ok a := by
  obtain ⟨_, value, rfl⟩ := ends
  exact value

/-! ## Loops -/

/-- Turns until one returns a value; `fuel` bounds their number. -/
def loop (turn : σ → Checked (σ ⊕ α)) : Nat → σ → Checked α
  | 0, _ => .error .fuel
  | fuel + 1, s => do
      match ← turn s with
      | .inl s => loop turn fuel s
      | .inr a => .ok a

/-- **Total correctness of a loop.**  A turn keeps the invariant and makes the measure
smaller, or it leaves with the postcondition. -/
theorem loop_ends {turn : σ → Checked (σ ⊕ α)} (Inv : σ → Prop) (measure : σ → Nat)
    {post : α → Prop}
    (turns : ∀ s, Inv s → Ends (turn s) fun next =>
      (∃ t, next = .inl t ∧ Inv t ∧ measure t < measure s) ∨ ∃ a, next = .inr a ∧ post a)
    (fuel : Nat) (s : σ) (inv : Inv s) (enough : measure s < fuel) :
    Ends (loop turn fuel s) post := by
  induction fuel generalizing s with
  | zero => omega
  | succ fuel ih =>
      rw [loop]
      refine (turns s inv).bind ?_
      rintro next (⟨t, rfl, kept, smaller⟩ | ⟨a, rfl, holds⟩)
      · exact ih t kept (by omega)
      · exact Ends.ok holds

end Rules

/-! ## Memory -/

section Memory

variable {α : Type}

def load (mem : List α) (p : Nat) : Checked α :=
  match mem[p]? with
  | some x => .ok x
  | none => .error (.read p)

/-- `data` at `p`: nothing is written unless all of it fits. -/
def store (mem : List α) (p : Nat) (data : List α) : Checked (List α) :=
  if p + data.length ≤ mem.length then .ok (writeAt mem p data) else .error (.write p)

/-- `a - b` in an unsigned type. -/
def sub (a b : Nat) : Checked Nat := if b ≤ a then .ok (a - b) else .error .underflow

theorem store_fits {mem data : List α} {p : Nat} (fits : p + data.length ≤ mem.length) :
    store mem p data = .ok (writeAt mem p data) := if_pos fits

theorem sub_le {a b : Nat} (le : b ≤ a) : sub a b = .ok (a - b) := if_pos le

/-- A position in the text, or at the cell behind it. -/
theorem load_text {text : List α} {stop : α} (rest : List α) {p : Nat} (inside : p ≤ text.length) :
    load (text ++ stop :: rest) p = .ok ((text.drop p).headD stop) := by
  rw [load]
  rcases Nat.lt_or_eq_of_le inside with before | rfl
  · rw [List.getElem?_append_left before, List.getElem?_eq_getElem before,
      List.drop_eq_getElem_cons before]
    rfl
  · simp

theorem load_front {text mem : List α} (holds : text <+: mem) {p : Nat}
    (inside : p < text.length) : load mem p = .ok text[p] := by
  obtain ⟨back, rfl⟩ := holds
  rw [load, List.getElem?_append_left inside, List.getElem?_eq_getElem inside]

/-- Memory after writes to its first `limit` cells only. -/
structure Within (limit : Nat) (before after : List α) : Prop where
  length : after.length = before.length
  beyond : after.drop limit = before.drop limit

theorem Within.refl (limit : Nat) (mem : List α) : Within limit mem mem := ⟨rfl, rfl⟩

theorem Within.trans {limit : Nat} {mem mem' mem'' : List α} (first : Within limit mem mem')
    (second : Within limit mem' mem'') : Within limit mem mem'' :=
  ⟨second.length.trans first.length, second.beyond.trans first.beyond⟩

/-- A store below the limit, at the end of what is known to be there. -/
theorem store_end {mem front data : List α} {limit : Nat} (holds : front <+: mem)
    (below : front.length + data.length ≤ limit) (fits : limit ≤ mem.length) :
    Ends (store mem front.length data) fun after =>
      front ++ data <+: after ∧ Within limit mem after := by
  obtain ⟨back, rfl⟩ := holds
  have whole : front.length + data.length ≤ (front ++ back).length := by omega
  have shape : writeAt (front ++ back) front.length data =
      front ++ data ++ back.drop data.length := by
    rw [writeAt, List.take_left, List.drop_append, List.drop_of_length_le (by omega),
      List.nil_append, Nat.add_sub_cancel_left]
  rw [store_fits whole, shape]
  refine Ends.ok ⟨List.prefix_append _ _, by rw [← shape, writeAt_length whole], ?_⟩
  rw [drop_skip _ (by rw [List.length_append]; exact below), drop_skip back (by omega),
    List.drop_drop, List.length_append]
  congr 1
  omega

end Memory

/-! ## Arrays -/

section Array

variable {α : Type} {n : Nat}

/-- `a[i]` of an array of `n` entries. -/
def fetch (a : List.Vector α n) (i : Nat) : Checked α :=
  if inside : i < n then .ok (a.get ⟨i, inside⟩) else .error (.read i)

/-- `a[i] = x` -/
def put (a : List.Vector α n) (i : Nat) (x : α) : Checked (List.Vector α n) :=
  if inside : i < n then .ok (a.set ⟨i, inside⟩ x) else .error (.write i)

/-- `memcpy(a + p, data, ..)` -/
def copyIn (a : List.Vector α n) (p : Nat) (data : List α) : Checked (List.Vector α n) :=
  if fits : p + data.length ≤ n then
    .ok ⟨writeAt a.toList p data, (writeAt_length (by simpa using fits)).trans a.toList_length⟩
  else .error (.write p)

/-- What is copied in behind the first `p` entries comes next. -/
theorem copyIn_next {a : List.Vector α n} {p : Nat} {data : List α} (fits : p + data.length ≤ n) :
    Ends (copyIn a p data) fun after =>
      after.toList.take (p + data.length) = a.toList.take p ++ data := by
  rw [copyIn, dif_pos fits]
  refine Ends.ok ?_
  have front : (a.toList.take p).length = p := by
    rw [List.length_take, List.Vector.toList_length]
    omega
  show (writeAt a.toList p data).take (p + data.length) = _
  exact List.take_left' (by rw [List.length_append, front])

/-- The entry at `i` is the next one after the first `i`. -/
theorem fetch_next {a : List.Vector α n} {i count : Nat} (before : i < count) (room : count ≤ n) :
    Ends (fetch a i) fun x =>
      (a.toList.take count).drop i = x :: (a.toList.take count).drop (i + 1) := by
  have inside : i < n := by omega
  have there : i < (a.toList.take count).length := by
    rw [List.length_take, List.Vector.toList_length]
    omega
  rw [fetch, dif_pos inside]
  refine Ends.ok ?_
  rw [List.drop_eq_getElem_cons there, List.getElem_take, List.Vector.get_eq_get_toList]
  rfl

/-- What is put behind the first `i` entries is the next one. -/
theorem put_next {a : List.Vector α n} {i : Nat} (inside : i < n) (x : α) :
    Ends (put a i x) fun after => after.toList.take (i + 1) = a.toList.take i ++ [x] := by
  rw [put, dif_pos inside]
  refine Ends.ok ?_
  have there : i < a.toList.length := by rwa [List.Vector.toList_length]
  have front : (a.toList.take i).length = i := List.length_take_of_le there.le
  rw [List.Vector.toList_set, List.take_set, List.take_succ_eq_append_getElem there,
    List.set_append_right _ _ front.le, front, Nat.sub_self]
  rfl

end Array

/-! ## Scans -/

section Scan

variable {α : Type} (goesOn : α → Bool)

/-- One turn of `while (goesOn(*p)) p++;` -/
def advance (mem : List α) (p : Nat) : Checked (Nat ⊕ Nat) := do
  let x ← load mem p
  if goesOn x then .ok (.inl (p + 1)) else .ok (.inr p)

/-- `while (goesOn(*p)) p++;` -/
def scan (mem : List α) (fuel p : Nat) : Checked Nat := loop (advance goesOn mem) fuel p

/-- `while (p < end && goesOn(*p)) p++;` -/
def scanTo (mem : List α) (limit fuel p : Nat) : Checked Nat :=
  loop (fun p => if p < limit then advance goesOn mem p else .ok (.inr p)) fuel p

/-- A scan of `text` that started at `p` is at `q`, with the same still to pass. -/
structure Passing (text : List α) (p q : Nat) : Prop where
  after : p ≤ q
  inside : q ≤ text.length
  same : (text.drop q).dropWhile goesOn = (text.drop p).dropWhile goesOn

/-- It has passed what there was to pass. -/
structure Passed (text : List α) (p q : Nat) : Prop where
  after : p ≤ q
  inside : q ≤ text.length
  rest : text.drop q = (text.drop p).dropWhile goesOn

variable {goesOn} {text mem : List α} {p q : Nat}

theorem Passing.stays (passing : Passing goesOn text p q)
    (stuck : (text.drop q).dropWhile goesOn = text.drop q) : Passed goesOn text p q :=
  ⟨passing.after, passing.inside, stuck.symm.trans passing.same⟩

/-- Nothing was passed exactly when there was nothing to pass. -/
theorem Passed.stuck_iff (passed : Passed goesOn text p q) :
    q = p ↔ (text.drop p).takeWhile goesOn = [] := by
  have parts : ((text.drop p).takeWhile goesOn ++ (text.drop p).dropWhile goesOn).length =
      (text.drop p).length := congrArg List.length List.takeWhile_append_dropWhile
  have after := passed.after
  have inside := passed.inside
  rw [← passed.rest, List.length_append, List.length_drop, List.length_drop] at parts
  rw [← List.length_eq_zero_iff]
  omega

/-- One turn inside the text. -/
theorem Passing.advance (passing : Passing goesOn text p q) (inText : q < text.length)
    (there : load mem q = .ok text[q]) :
    Ends (advance goesOn mem q) fun next =>
      (∃ t, next = .inl t ∧ Passing goesOn text p t ∧ text.length - t < text.length - q) ∨
        ∃ a, next = .inr a ∧ Passed goesOn text p a := by
  have shape := List.drop_eq_getElem_cons inText
  have after := passing.after
  rw [Access.advance, there]
  cases passes : goesOn text[q] with
  | true =>
      have more : (text.drop (q + 1)).dropWhile goesOn = (text.drop p).dropWhile goesOn := by
        rw [← passing.same, shape, List.dropWhile_cons_of_pos passes]
      exact ⟨.inl (q + 1), by simp [bind, Except.bind, passes],
        Or.inl ⟨q + 1, rfl, ⟨by omega, inText, more⟩, by omega⟩⟩
  | false =>
      have stuck : (text.drop q).dropWhile goesOn = text.drop q := by
        rw [shape, List.dropWhile_cons_of_neg (by simp [passes])]
      exact ⟨.inr q, by simp [bind, Except.bind, passes], Or.inr ⟨q, rfl, passing.stays stuck⟩⟩

/-- A scan ends in the text or at the stop behind it. -/
theorem scan_ends {stop : α} (rest : List α) (stops : goesOn stop = false) {fuel : Nat}
    (inside : p ≤ text.length) (enough : text.length < fuel) :
    Ends (scan goesOn (text ++ stop :: rest) fuel p) (Passed goesOn text p) := by
  refine loop_ends (Passing goesOn text p) (fun q => text.length - q)
    (fun q passing => ?_) fuel p ⟨Nat.le_refl p, inside, rfl⟩ (by omega)
  have there : load (text ++ stop :: rest) q = .ok ((text.drop q).headD stop) :=
    load_text rest passing.inside
  by_cases inText : q < text.length
  · rw [List.drop_eq_getElem_cons inText, List.headD_cons] at there
    exact passing.advance inText there
  · have atStop : text.drop q = [] := List.drop_of_length_le (by omega)
    rw [atStop, List.headD_nil] at there
    refine ⟨.inr q, by simp [Access.advance, there, bind, Except.bind, stops],
      Or.inr ⟨q, rfl, passing.stays ?_⟩⟩
    rw [atStop, List.dropWhile_nil]

/-- A bounded scan does the same and never looks behind the text. -/
theorem scanTo_ends (holds : text <+: mem) {fuel : Nat} (inside : p ≤ text.length)
    (enough : text.length < fuel) :
    Ends (scanTo goesOn mem text.length fuel p) (Passed goesOn text p) := by
  refine loop_ends (Passing goesOn text p) (fun q => text.length - q)
    (fun q passing => ?_) fuel p ⟨Nat.le_refl p, inside, rfl⟩ (by omega)
  by_cases inText : q < text.length
  · rw [if_pos inText]
    exact passing.advance inText (load_front holds inText)
  · rw [if_neg inText]
    refine Ends.ok (Or.inr ⟨q, rfl, passing.stays ?_⟩)
    rw [List.drop_of_length_le (by omega), List.dropWhile_nil]

end Scan

end IrHub.Theory.Access
