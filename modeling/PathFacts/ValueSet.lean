import PathFacts.Constant

/-!
# Possible values

The constants that an expression was seen to have: none yet, exactly one, several, or
a set given up because a value without a constant was seen.  Giving up is final.
-/

namespace PathFacts

open Std (ExtTreeSet)

/-- The constants seen so far. -/
inductive ValueSet where
  | empty
  | one (value : Constant)
  | many (values : ExtTreeSet Constant)
  /-- A value without a constant was seen. -/
  | unbounded
deriving DecidableEq

namespace ValueSet

instance : Inhabited ValueSet := ⟨empty⟩

/-- Whether the set was given up. -/
def isUnbounded : ValueSet → Bool
  | unbounded => true
  | _ => false

/-- The constants that are kept; none where nothing was seen or the set was given up. -/
def toSet : ValueSet → ExtTreeSet Constant
  | one c => {c}
  | many cs => cs
  | empty | unbounded => ∅

/-- The kept constants in order. -/
def toList (s : ValueSet) : List Constant := s.toSet.toList

/-- Whether `c` is kept. -/
def contains (s : ValueSet) (c : Constant) : Bool :=
  match s with
  | one own => own == c
  | many cs => cs.contains c
  | empty | unbounded => false

/-- Number of kept constants. -/
def size : ValueSet → Nat
  | one _ => 1
  | many cs => cs.size
  | empty | unbounded => 0

/-- Whether no constant is kept. -/
def isEmpty (s : ValueSet) : Bool := s.size == 0

/-- Adds a constant; nothing changes once the set was given up. -/
def insert (s : ValueSet) (c : Constant) : ValueSet :=
  match s with
  | unbounded => unbounded
  | empty => one c
  | one own => if own = c then one own else many (({own} : ExtTreeSet Constant).insert c)
  | many cs => many (cs.insert c)

/-- Adds what one observation tells: a constant, or that there is none. -/
def observe (s : ValueSet) : Option Constant → ValueSet
  | some c => s.insert c
  | none => unbounded

/-! ## Laws -/

@[simp] theorem insert_unbounded (c : Constant) : unbounded.insert c = unbounded := rfl

@[simp] theorem observe_unbounded (o : Option Constant) : unbounded.observe o = unbounded := by
  cases o <;> rfl

end ValueSet
end PathFacts
