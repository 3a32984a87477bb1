/-!
# The slot of a result

A slot holds the result of one unit, or tells that it is still being computed, or that
the computation was given up.  The first published result stays.
-/

namespace PathFacts

/-- The state of a slot. -/
inductive Slot (α : Type) where
  /-- Some caller owns the slot and computes the result. -/
  | pending
  | ready (result : α)
  /-- The owner gave up before there was a result. -/
  | abandoned
deriving DecidableEq, Inhabited

namespace Slot

variable {α : Type}

/-- The result, if there is one. -/
def result? : Slot α → Option α
  | ready r => some r
  | _ => none

/-- Whether the owner gave up. -/
def isAbandoned : Slot α → Bool
  | abandoned => true
  | _ => false

/-- Stores a result unless there is one; the stored one comes first. -/
def publish (r : α) : Slot α → α × Slot α
  | ready existing => (existing, ready existing)
  | _ => (r, ready r)

/-- Takes an abandoned slot over; the flag tells whether the caller owns it now. -/
def takeOver : Slot α → Bool × Slot α
  | abandoned => (true, pending)
  | s => (false, s)

/-- Gives a slot up that has no result. -/
def giveUp : Slot α → Slot α
  | pending => abandoned
  | s => s

/-! ## Laws -/

theorem result?_publish (s : Slot α) (r : α) :
    (s.publish r).2.result? = some (s.publish r).1 := by
  cases s <;> rfl

theorem publish_of_result? {s : Slot α} {r : α} (h : s.result? = some r) (r' : α) :
    s.publish r' = (r, s) := by
  cases s <;> simp_all [result?, publish]

end Slot
end PathFacts
