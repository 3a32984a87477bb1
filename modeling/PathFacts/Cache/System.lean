import PathFacts.Cache.Call

/-!
# Many calls at once

A `CallSystem` is a cache with all the calls that were ever made to it.  A `Move` is one
atomic step of one call, the end of a computation, or the removal of a container; a run is
any sequence of moves, so it stands for every way in which the calls can interleave.

`CallSystem.together` is one such run, in which the calls take turns.
-/

namespace PathFacts

/-- One call: what it asks for, what it does next, and the number of its last
computation. -/
structure Call (α : Type) where
  key : Key
  phase : Phase α := .start
  computation : Option Nat := none
deriving DecidableEq

/-- A cache with all the calls made to it. -/
structure CallSystem (α : Type) where
  cache : Cache α
  calls : Array (Call α) := #[]
  /-- Number of computations that were started. -/
  started : Nat := 0

/-- One atomic step. -/
inductive Move (α : Type) where
  /-- A new call is made. -/
  | call (key : Key)
  /-- Call `i` makes its next step. -/
  | advance (i : Nat)
  /-- The computation of call `i` ends, with a result or without. -/
  | finish (i : Nat) (outcome : Option α)
  | forget (container : ContainerId)
  | forgetAll
deriving DecidableEq

namespace CallSystem

variable {α : Type}

/-- Puts a call into a phase; a computation that starts gets the next number. -/
def enter (s : CallSystem α) (i : Nat) (call : Call α) (p : Phase α) : CallSystem α :=
  match p with
  | .computing _ =>
    { s with
      calls := s.calls.setIfInBounds i { call with phase := p, computation := some s.started }
      started := s.started + 1 }
  | _ => { s with calls := s.calls.setIfInBounds i { call with phase := p } }

/-- Makes a move; a move that does not fit the state changes nothing. -/
def step (s : CallSystem α) : Move α → CallSystem α
  | .call key => { s with calls := s.calls.push { key := key } }
  | .advance i =>
    match s.calls[i]? with
    | none => s
    | some call =>
      match call.phase.advance? call.key s.cache with
      | none => s
      | some (p, cache) => { s with cache := cache }.enter i call p
  | .finish i outcome =>
    match s.calls[i]? with
    | some ⟨key, .computing role, number⟩ =>
      { s with calls := s.calls.setIfInBounds i ⟨key, Phase.afterCompute role outcome, number⟩ }
    | _ => s
  | .forget container => { s with cache := s.cache.forget container }
  | .forgetAll => { s with cache := s.cache.forgetAll }

/-- Makes moves in the given order. -/
def run (s : CallSystem α) (moves : List (Move α)) : CallSystem α := moves.foldl step s

/-! ## Taking turns -/

/-- The move that call `i` can make: its next step, or the end of its computation with the
outcome that belongs to the computation's number. -/
def turn (outcome : Nat → Option α) (s : CallSystem α) (i : Nat) : Move α :=
  match s.calls[i]? with
  | some ⟨_, .computing _, number⟩ => .finish i (number.bind outcome)
  | _ => .advance i

/-- Lets every call make a move, `rounds` times. -/
def takeTurns (outcome : Nat → Option α) : (rounds : Nat) → CallSystem α → CallSystem α
  | 0, s => s
  | rounds + 1, s =>
    takeTurns outcome rounds
      ((List.range s.calls.size).foldl (fun s i => s.step (turn outcome s i)) s)

/-- Makes `n` calls for one key that take turns until all are over.  Each round of twelve
moves ends at least one call. -/
def together (c : Cache α) (key : Key) (n : Nat) (outcome : Nat → Option α) : CallSystem α :=
  takeTurns outcome (12 * (n + 1))
    (run { cache := c } (List.replicate n (.call key)))

/-- The results of the calls that are over, in the order of the calls. -/
def results (s : CallSystem α) : List α :=
  s.calls.toList.filterMap fun call => match call.phase with
    | .returned r => some r
    | _ => none

/-- Number of calls that failed. -/
def failures (s : CallSystem α) : Nat :=
  s.calls.toList.countP fun call => match call.phase with
    | .failed => true
    | _ => false

end CallSystem
end PathFacts
