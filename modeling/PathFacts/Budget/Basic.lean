/-!
# A budget of waiting callers

A `Budget` bounds how many callers may wait at once for the computation of another one.
A permit is one unit of it; it is given back when the wait ends.  `Permits` keeps the
permits of one budget under the numbers of the attempts that took them.
-/

namespace PathFacts

/-- How many permits there are and how many are taken. -/
structure Budget where
  limit : Nat
  inUse : Nat := 0
deriving DecidableEq, Inhabited

namespace Budget

/-- Takes a permit, unless all are taken. -/
def acquire? (b : Budget) : Option Budget :=
  if b.inUse < b.limit then some { b with inUse := b.inUse + 1 } else none

/-- Gives a permit back. -/
def release (b : Budget) : Budget := { b with inUse := b.inUse - 1 }

@[simp] theorem limit_release (b : Budget) : b.release.limit = b.limit := rfl

theorem release_of_acquire? {b b' : Budget} (h : b.acquire? = some b') : b'.release = b := by
  unfold acquire? at h
  split at h
  · cases h; rfl
  · cases h

end Budget

/-- A budget and, by number of attempt, whether the permit of that attempt is held. -/
structure Permits where
  budget : Budget
  held : Array Bool := #[]
deriving DecidableEq

namespace Permits

/-- Tries to take a permit; the attempt has the next number also when it is refused. -/
def acquire (p : Permits) : Bool × Permits :=
  match p.budget.acquire? with
  | some budget => (true, ⟨budget, p.held.push true⟩)
  | none => (false, { p with held := p.held.push false })

/-- Gives the permit of attempt `i` back, if it is held. -/
def release (p : Permits) (i : Nat) : Bool × Permits :=
  if p.held[i]?.getD false then
    (true, ⟨p.budget.release, p.held.modify i fun _ => false⟩)
  else
    (false, p)

end Permits
end PathFacts
