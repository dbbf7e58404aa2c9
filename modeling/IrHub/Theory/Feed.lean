/-
# Theory.Feed -- a replica that is told the latest value

A value changes.  Its changes wait in a queue that loses its oldest when it is full; from there
they go on their way, as does the value itself when it is read, and what arrives is put in the
replica.  What arrives replaces what was there (`Overwrites`).

A queue that loses changes cannot bring a replica through every value.  It brings it to the
latest one: `Current` says that all that is waiting and on its way, once arrived, leaves the
replica at the value.  A change makes it so and everything else keeps it so, in whatever order.
-/
import Mathlib.Data.List.Basic

namespace IrHub.Theory

set_option autoImplicit false

/-- `air` is on its way, the oldest first. -/
structure Feed (α β : Type*) where
  value : α
  queue : List α
  air : List α
  replica : β

namespace Feed

variable {α β : Type*}

/-- The value changes; a queue of `cap` places loses its oldest when it is full. -/
def publish (cap : Nat) (a : α) (f : Feed α β) : Feed α β :=
  { f with
    value := a
    queue := (if f.queue.length = cap then f.queue.drop 1 else f.queue) ++ [a] }

/-- The oldest change goes on its way. -/
def send (f : Feed α β) : Feed α β :=
  { f with queue := f.queue.drop 1, air := f.air ++ f.queue.take 1 }

/-- The value itself goes on its way. -/
def read (f : Feed α β) : Feed α β := { f with air := f.air ++ [f.value] }

/-- What arrives replaces what was there. -/
def Overwrites (put : β → α → β) : Prop := ∀ r s a, put r a = put s a

/-- The replica once all has arrived. -/
def told (put : β → α → β) (f : Feed α β) : β := (f.air ++ f.queue).foldl put f.replica

structure Current (put : β → α → β) (f : Feed α β) : Prop where
  newest : ∀ a, f.queue.getLast? = some a → a = f.value
  told : ∀ r, f.told put = put r f.value

variable {put : β → α → β} {f : Feed α β}

/-- The last to arrive is what stays. -/
theorem foldl_last (overwrites : Overwrites put) {sent : List α} {a : α}
    (last : sent.getLast? = some a) (r s : β) : sent.foldl put r = put s a := by
  obtain ⟨before, rfl⟩ := List.getLast?_eq_some_iff.mp last
  rw [List.foldl_append]
  exact overwrites _ _ _

/-- **A change is the last to arrive**, whatever was lost or out of date before. -/
theorem Current.publish (overwrites : Overwrites put) (cap : Nat) (a : α) (f : Feed α β) :
    Current put (f.publish cap a) where
  newest b last := by
    rw [Feed.publish, List.getLast?_concat] at last
    exact (Option.some.inj last).symm
  told r := by
    refine foldl_last overwrites ?_ _ _
    rw [Feed.publish, ← List.append_assoc, List.getLast?_concat]

theorem Current.send (current : Current put f) : Current put f.send where
  newest a last := by
    refine current.newest a ?_
    obtain ⟨before, rest⟩ := List.getLast?_eq_some_iff.mp last
    have whole : f.queue = f.queue.take 1 ++ (before ++ [a]) := by
      rw [← rest]
      exact (List.take_append_drop 1 f.queue).symm
    rw [whole, ← List.append_assoc, List.getLast?_concat]
  told r := by
    refine Eq.trans ?_ (current.told r)
    rw [Feed.told, Feed.told, Feed.send, List.append_assoc, List.take_append_drop]

theorem Current.read (overwrites : Overwrites put) (current : Current put f) :
    Current put f.read where
  newest := current.newest
  told r := by
    refine foldl_last overwrites ?_ _ _
    cases last : f.queue.getLast? with
    | none =>
        have empty : f.queue = [] := List.getLast?_eq_none_iff.mp last
        rw [Feed.read, empty, List.append_nil, List.getLast?_concat]
    | some a =>
        obtain rfl := current.newest a last
        rw [Feed.read, List.getLast?_append, last]
        rfl

theorem Current.arrive (current : Current put f) {a : α} {rest : List α}
    (first : f.air = a :: rest) :
    Current put { f with air := rest, replica := put f.replica a } where
  newest := current.newest
  told r := by
    refine Eq.trans ?_ (current.told r)
    rw [Feed.told, Feed.told, first]
    rfl

/-- With nothing on its way the replica is at the value. -/
theorem Current.quiet (current : Current put f) (landed : f.air = []) (sent : f.queue = [])
    (r : β) : f.replica = put r f.value := by
  have whole := current.told r
  rwa [Feed.told, landed, sent] at whole

end Feed

end IrHub.Theory
