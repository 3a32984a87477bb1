import PathFacts.Budget.Basic
import PathFacts.Cache.Slot
import PathFacts.Identity

/-!
# The cache of results

Results are kept by container and unit.  All results of a container stand on one shelf,
which belongs to one generation of the container: a look-up for a later generation puts a
new, empty shelf in its place, and a look-up for an earlier one finds nothing.

A caller that has reached a shelf or a slot keeps working on it also after it was put
away.  Shelves and slots therefore have numbers of their own and are never removed; only
the container forgets them.

Every function of this module is one atomic step on the shared state.
-/

namespace PathFacts

open Std (ExtTreeMap)

/-- What a caller asks for. -/
structure Key where
  container : ContainerId
  generation : UInt64
  unit : UnitId
deriving DecidableEq, Inhabited

/-- The results of one container at one generation. -/
structure Shelf where
  generation : UInt64
  /-- The number of the slot of each unit. -/
  slots : ExtTreeMap UnitId Nat := ∅
deriving DecidableEq

instance : Inhabited Shelf := ⟨⟨0, ∅⟩⟩

/-- The shared state of the cache. -/
structure Cache (α : Type) where
  /-- The number of the shelf of each container. -/
  containers : ExtTreeMap ContainerId Nat := ∅
  shelves : Array Shelf := #[]
  slots : Array (Slot α) := #[]
  budget : Budget

namespace Cache

variable {α : Type}

/-- An empty cache whose callers may take `limit` permits to wait. -/
def ofLimit (limit : Nat) : Cache α := { budget := ⟨limit, 0⟩ }

instance : Inhabited (Cache α) := ⟨ofLimit 0⟩

/-! ## Shelves -/

/-- The shelf with number `i`. -/
def shelf (c : Cache α) (i : Nat) : Shelf := c.shelves[i]?.getD default

/-- Puts a new shelf up for a container. -/
def putShelf (c : Cache α) (container : ContainerId) (generation : UInt64) : Nat × Cache α :=
  let i := c.shelves.size
  (i, { c with
    containers := c.containers.insert container i
    shelves := c.shelves.push { generation := generation } })

/-- The shelf for a container at a generation; none if the container has a later one. -/
def openShelf (c : Cache α) (container : ContainerId) (generation : UInt64) :
    Option Nat × Cache α :=
  match c.containers[container]? with
  | none => let (i, c) := c.putShelf container generation; (some i, c)
  | some i =>
    if (c.shelf i).generation < generation then
      let (i, c) := c.putShelf container generation; (some i, c)
    else if (c.shelf i).generation = generation then (some i, c)
    else (none, c)

/-! ## Slots -/

/-- The slot with number `i`. -/
def slot (c : Cache α) (i : Nat) : Slot α := c.slots[i]?.getD .pending

/-- Replaces the slot with number `i`. -/
def setSlot (c : Cache α) (i : Nat) (s : Slot α) : Cache α :=
  { c with slots := c.slots.setIfInBounds i s }

/-- The slot of a unit on a shelf; the flag tells whether it was made just now, and so
belongs to the caller. -/
def openSlot (c : Cache α) (i : Nat) (u : UnitId) : (Nat × Bool) × Cache α :=
  match (c.shelf i).slots[u]? with
  | some j => ((j, false), c)
  | none =>
    let j := c.slots.size
    ((j, true), { c with
      slots := c.slots.push .pending
      shelves := c.shelves.modify i fun s => { s with slots := s.slots.insert u j } })

/-- Stores a result in a slot unless it has one; the stored one comes first. -/
def publish (c : Cache α) (i : Nat) (r : α) : α × Cache α :=
  let (stored, s) := (c.slot i).publish r
  (stored, c.setSlot i s)

/-- Takes an abandoned slot over; the flag tells whether the caller owns it now. -/
def takeOver (c : Cache α) (i : Nat) : Bool × Cache α :=
  let (mine, s) := (c.slot i).takeOver
  (mine, c.setSlot i s)

/-- Gives a slot up that has no result. -/
def giveUp (c : Cache α) (i : Nat) : Cache α := c.setSlot i (c.slot i).giveUp

/-! ## Whole containers -/

/-- Forgets the results of a container. -/
def forget (c : Cache α) (container : ContainerId) : Cache α :=
  { c with containers := c.containers.erase container }

/-- Forgets all results. -/
def forgetAll (c : Cache α) : Cache α := { c with containers := ∅ }

/-- Number of containers with a shelf. -/
def size (c : Cache α) : Nat := c.containers.size

/-- Whether no container has a shelf. -/
def isEmpty (c : Cache α) : Bool := c.containers.isEmpty

/-- The slot that holds what `k` asks for, if the container is at that generation. -/
def slotOf? (c : Cache α) (k : Key) : Option Nat := do
  let i ← c.containers[k.container]?
  if (c.shelf i).generation = k.generation then (c.shelf i).slots[k.unit]? else none

/-- The result for `k`, if it is there; nothing is computed. -/
def lookup (c : Cache α) (k : Key) : Option α := do
  let i ← c.slotOf? k
  (c.slot i).result?

end Cache
end PathFacts
