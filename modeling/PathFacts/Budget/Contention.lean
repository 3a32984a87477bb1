import PathFacts.Budget.Basic

/-!
# Taking permits under contention

Callers that share a budget take a permit in two atomic steps: they load the number of
permits in use, and exchange it for one more if it is still the number that they saw.
The exchange may fail although the number is the same; the caller then tries again with
the number that it found.  A caller that sees the budget full takes no permit.
-/

namespace PathFacts.Budget

/-- Where a caller stands. -/
inductive Acquirer where
  | idle
  /-- The caller saw `seen` permits in use, which is below the limit. -/
  | trying (seen : Nat)
  | holding
  /-- The caller saw `seen` permits in use, which is the limit or above. -/
  | refused (seen : Nat)
deriving DecidableEq, Inhabited

/-- An atomic step of a caller. -/
inductive Action where
  | load
  /-- One exchange; `spurious` makes it fail on an equal number. -/
  | exchange (spurious : Bool)
  | drop
deriving DecidableEq

/-- Where a caller stands that saw `seen` permits in use. -/
def Acquirer.ofSeen (b : Budget) (seen : Nat) : Acquirer :=
  if seen < b.limit then .trying seen else .refused seen

/-- One atomic step; a step that does not fit where the caller stands changes nothing. -/
def Acquirer.step (action : Action) (caller : Acquirer) (b : Budget) : Acquirer × Budget :=
  match action, caller with
  | .load, .idle => (ofSeen b b.inUse, b)
  | .load, .refused _ => (ofSeen b b.inUse, b)
  | .exchange spurious, .trying seen =>
    if b.inUse = seen && !spurious then (.holding, { b with inUse := seen + 1 })
    else (ofSeen b b.inUse, b)
  | .drop, .holding => (.idle, b.release)
  | _, _ => (caller, b)

/-- A budget and the callers that share it. -/
structure Crowd where
  budget : Budget
  callers : Array Acquirer

namespace Crowd

/-- Lets caller `i` make a step. -/
def step (c : Crowd) (move : Nat × Action) : Crowd :=
  match c.callers[move.1]? with
  | none => c
  | some caller =>
    let (caller, budget) := caller.step move.2 c.budget
    ⟨budget, c.callers.setIfInBounds move.1 caller⟩

/-- Lets the callers make steps in the given order. -/
def run (c : Crowd) (moves : List (Nat × Action)) : Crowd := moves.foldl step c

/-- Number of permits that callers hold. -/
def live (c : Crowd) : Nat := c.callers.count .holding

end Crowd
end PathFacts.Budget
