import PathFacts.Cache.Basic

/-!
# Calls to the cache

A call asks for one key and computes the result where there is none.  It moves through
phases; every move is one atomic step on the shared state.

* The caller that makes the slot owns it and computes.
* A later caller takes the result, or takes an abandoned slot over.
* Otherwise it waits, if the budget has a permit.  It checks the slot again and again and
  leaves with the result, or as the new owner of an abandoned slot.
* Without a permit it computes on its own; the result that is published first is the one
  that everybody gets.
* A caller for an earlier generation computes and shares nothing.

An owner whose computation fails abandons the slot.
-/

namespace PathFacts

/-- On whose behalf a call computes. -/
inductive Role where
  /-- The result is not shared. -/
  | outsider
  /-- The call owns the slot. -/
  | owner (slot : Nat)
  /-- Another call owns the slot, and this one was refused a permit to wait for it. -/
  | bystander (slot : Nat)
deriving DecidableEq, Inhabited

/-- What a call does next. -/
inductive Phase (α : Type) where
  /-- Looks the container up. -/
  | start
  /-- Looks the unit up on a shelf. -/
  | atShelf (shelf : Nat)
  /-- Reads a slot that was there. -/
  | atSlot (slot : Nat)
  /-- Tries to take over a slot that had no result. -/
  | unserved (slot : Nat)
  /-- Asks for a permit to wait. -/
  | queueing (slot : Nat)
  /-- Holds a permit and checks the slot. -/
  | waiting (slot : Nat)
  /-- Holds a permit, saw the slot abandoned, and tries to take it over. -/
  | bereft (slot : Nat)
  /-- Holds a permit and the result, and gives the permit back. -/
  | served (result : α)
  /-- Holds a permit, owns the slot, and gives the permit back. -/
  | inheriting (slot : Nat)
  | computing (role : Role)
  /-- Publishes what it computed. -/
  | publishing (slot : Nat) (result : α)
  /-- Its computation failed, and it gives the slot up. -/
  | abandoning (slot : Nat)
  | returned (result : α)
  | failed
deriving DecidableEq, Inhabited

namespace Phase

variable {α : Type}

/-- Whether a call in this phase holds a permit. -/
def holdsPermit : Phase α → Bool
  | waiting _ | bereft _ | served _ | inheriting _ => true
  | _ => false

/-- The next atomic step of a call for `k`; none while it computes and when it is over. -/
def advance? (k : Key) (c : Cache α) : Phase α → Option (Phase α × Cache α)
  | start =>
    match c.openShelf k.container k.generation with
    | (none, c) => some (computing .outsider, c)
    | (some i, c) => some (atShelf i, c)
  | atShelf i =>
    match c.openSlot i k.unit with
    | ((j, true), c) => some (computing (.owner j), c)
    | ((j, false), c) => some (atSlot j, c)
  | atSlot j =>
    match (c.slot j).result? with
    | some r => some (returned r, c)
    | none => some (unserved j, c)
  | unserved j =>
    match c.takeOver j with
    | (true, c) => some (computing (.owner j), c)
    | (false, c) => some (queueing j, c)
  | queueing j =>
    match c.budget.acquire? with
    | some budget => some (waiting j, { c with budget := budget })
    | none => some (computing (.bystander j), c)
  | waiting j =>
    match c.slot j with
    | .ready r => some (served r, c)
    | .abandoned => some (bereft j, c)
    | .pending => some (waiting j, c)
  | bereft j =>
    match c.takeOver j with
    | (true, c) => some (inheriting j, c)
    | (false, c) => some (waiting j, c)
  | served r => some (returned r, { c with budget := c.budget.release })
  | inheriting j => some (computing (.owner j), { c with budget := c.budget.release })
  | publishing j r =>
    let (stored, c) := c.publish j r
    some (returned stored, c)
  | abandoning j => some (failed, c.giveUp j)
  | computing _ | returned _ | failed => none

/-- The phase after a computation that gave a result, or failed. -/
def afterCompute : Role → Option α → Phase α
  | .outsider, some r => returned r
  | .owner j, some r => publishing j r
  | .bystander j, some r => publishing j r
  | .owner j, none => abandoning j
  | .outsider, none => failed
  | .bystander _, none => failed

/-- Whether a call alone can get no further: it computes, is over, or waits for a slot
that is still pending. -/
def isAtRest (c : Cache α) : Phase α → Bool
  | computing _ | returned _ | failed => true
  | waiting j => (c.slot j).result?.isNone && !(c.slot j).isAbandoned
  | _ => false

/-- Lets a call move until it is at rest, for at most `fuel` moves. -/
def settle (k : Key) : (fuel : Nat) → Phase α → Cache α → Phase α × Cache α
  | 0, p, c => (p, c)
  | fuel + 1, p, c =>
    if p.isAtRest c then (p, c)
    else match p.advance? k c with
      | none => (p, c)
      | some (p, c) => settle k fuel p c

end Phase

namespace Cache

variable {α : Type}

/-- Begins a call while no other call moves.  From its start, a call alone is at rest
after eight moves. -/
def begin (c : Cache α) (k : Key) : Phase α × Cache α := Phase.settle k 8 .start c

/-- Ends a computation of a call while no other call moves. -/
def conclude (c : Cache α) (k : Key) (role : Role) (outcome : Option α) : Phase α × Cache α :=
  Phase.settle k 1 (Phase.afterCompute role outcome) c

/-- The result for `k`, computed where there is none, while no other call moves; none if
the call waits for a slot that is pending. -/
def obtain (c : Cache α) (k : Key) (compute : Unit → α) : Option α × Cache α :=
  match c.begin k with
  | (.returned r, c) => (some r, c)
  | (.computing role, c) =>
    match c.conclude k role (some (compute ())) with
    | (.returned r, c) => (some r, c)
    | (_, c) => (none, c)
  | (_, c) => (none, c)

end Cache
end PathFacts
