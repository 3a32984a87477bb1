import PathFacts.Budget.Contention
import PathFacts.Cache.System

/-!
# Calls that contend for permits

In a `CallSystem` a call takes its permit in one step.  In a `ContendedSystem` it takes it as a
`Budget.Acquirer` does, by a load and by exchanges that may fail, and other calls may move between
any two of these steps.  A call that got its permit goes on to wait, and one that was refused goes
on to compute.  The permit is dropped by the step with which the call stops waiting.
-/

namespace PathFacts

open Budget (Acquirer Action Crowd)

namespace Phase

variable {α : Type}

/-- Whether a call in this phase is about to take a permit. -/
def isQueueing : Phase α → Bool
  | queueing _ => true
  | _ => false

/-- Whether the next step of a call in this phase gives its permit back. -/
def givesBack : Phase α → Bool
  | served _ | inheriting _ => true
  | _ => false

/-- Where a call that queues for slot `j` goes on, once its attempt to take a permit is over. -/
def afterAttempt (j : Nat) : Acquirer → Option (Phase α)
  | .holding => some (waiting j)
  | .refused _ => some (computing (.bystander j))
  | .idle | .trying _ => none

end Phase

/-- Number of calls that are in their waiting phase. -/
def CallSystem.waitingCalls {α : Type} (s : CallSystem α) : Nat :=
  s.calls.countP fun call => call.phase.holdsPermit

/-- A system of calls, and where each of them stands with the budget. -/
structure ContendedSystem (α : Type) where
  system : CallSystem α
  acquirers : Array Acquirer := #[]

/-- One atomic step. -/
inductive ContendedMove (α : Type) where
  /-- A move that takes no permit. -/
  | ordinary (move : Move α)
  /-- Call `i` makes a step to take a permit. -/
  | acquire (i : Nat) (action : Action)
deriving DecidableEq

namespace ContendedSystem

variable {α : Type}

/-- A system without calls whose callers may take `limit` permits to wait. -/
def ofLimit (limit : Nat) : ContendedSystem α := { system := { cache := .ofLimit limit } }

/-- The budget and those who share it. -/
def crowd (s : ContendedSystem α) : Crowd := ⟨s.system.cache.budget, s.acquirers⟩

/-- The calls with the budget as a crowd left it. -/
def withBudget (s : ContendedSystem α) (c : Crowd) : CallSystem α :=
  { s.system with cache := { s.system.cache with budget := c.budget } }

/-- Call `i`, which queues for slot `j`, makes a step to take a permit. -/
def attempt (s : ContendedSystem α) (i : Nat) (call : Call α) (j : Nat) (action : Action) :
    ContendedSystem α :=
  let crowd := s.crowd.step (i, action)
  let system := s.withBudget crowd
  match crowd.callers[i]?.bind (Phase.afterAttempt j) with
  | some p => ⟨system.enter i call p, crowd.callers⟩
  | none => ⟨system, crowd.callers⟩

/-- Makes a move; a move that does not fit the state changes nothing. -/
def step (s : ContendedSystem α) : ContendedMove α → ContendedSystem α
  | .acquire i action =>
    match s.system.calls[i]? with
    | some ⟨key, .queueing j, number⟩ => s.attempt i ⟨key, .queueing j, number⟩ j action
    | _ => s
  | .ordinary (.call key) => ⟨s.system.step (.call key), s.acquirers.push .idle⟩
  | .ordinary (.advance i) =>
    match s.system.calls[i]? with
    | none => s
    | some call =>
      if call.phase.isQueueing then s
      else if call.phase.givesBack then
        ⟨s.system.step (.advance i), (s.crowd.step (i, .drop)).callers⟩
      else ⟨s.system.step (.advance i), s.acquirers⟩
  | .ordinary move => ⟨s.system.step move, s.acquirers⟩

/-- Makes moves in the given order. -/
def run (s : ContendedSystem α) (moves : List (ContendedMove α)) : ContendedSystem α :=
  moves.foldl step s

end ContendedSystem
end PathFacts
