import PathFacts.Identity
import PathFacts.ValueType.Basic

/-!
# Memory at a program point

A `Memory` is what the interpreter knows on one path: the type of each variable, the
facet that a variable's declared type carries, the type of each variable's facets, and
the name of the variable that tells whether assertions are disabled.  A variable that
is not listed can have any value.

`Memory.refined` is the type that a pushed value contributes to an expression: for a
variable that carries a facet, the variable's own type met with what the facet tells.
-/

namespace PathFacts

open Std (ExtTreeMap)

/-- A facet of one variable. -/
structure FacetKey where
  owner : Variable
  facet : Facet
deriving DecidableEq, Inhabited

instance : Ord FacetKey := ⟨compareLex (compareOn FacetKey.owner) (compareOn FacetKey.facet)⟩

instance : Std.TransOrd FacetKey := inferInstanceAs
  (Std.TransCmp (compareLex (compareOn FacetKey.owner) (compareOn FacetKey.facet)))

instance : Std.LawfulEqOrd FacetKey where
  eq_of_compare {a b} h := by
    simp only [compare, compareLex, Ordering.then_eq_eq] at h
    cases a; cases b
    exact congr (congrArg FacetKey.mk (Std.LawfulEqOrd.eq_of_compare (α := Variable) h.1))
      (Std.LawfulEqOrd.eq_of_compare (α := Facet) h.2)

/-- A value that the interpreter pushes for an expression. -/
inductive Pushed where
  /-- A value fully described by its type. -/
  | typed (type : ValueType)
  /-- The value stored in an interpreter variable. -/
  | stored (name : Variable)
  /-- A new container whose facet holds the value of `inner`. -/
  | wrapped (facet : Facet) (inner : Variable)
  /-- The call broke its declared contract on this path. -/
  | contractFailure
deriving DecidableEq, Inhabited

/-- The variable that is pushed, if one is. -/
def Pushed.variable? : Pushed → Option Variable
  | stored x => some x
  | _ => none

/-- What is known on one path. -/
structure Memory where
  types : ExtTreeMap Variable ValueType := ∅
  facets : ExtTreeMap Variable Facet := ∅
  facetTypes : ExtTreeMap FacetKey ValueType := ∅
  assertionsFlag : Option Variable := none
deriving DecidableEq

namespace Memory

instance : Inhabited Memory := ⟨{}⟩

/-! ## Construction -/

/-- Gives `x` the type `t`. -/
def setType (m : Memory) (x : Variable) (t : ValueType) : Memory :=
  { m with types := m.types.insert x t }

/-- Declares that `x` carries `f`. -/
def setFacet (m : Memory) (x : Variable) (f : Facet) : Memory :=
  { m with facets := m.facets.insert x f }

/-- Gives the facet `f` of `x` the type `t`. -/
def setFacetType (m : Memory) (x : Variable) (f : Facet) (t : ValueType) : Memory :=
  { m with facetTypes := m.facetTypes.insert ⟨x, f⟩ t }

/-- Names the variable that tells whether assertions are disabled. -/
def setAssertionsFlag (m : Memory) (x : Variable) : Memory :=
  { m with assertionsFlag := some x }

/-! ## Queries -/

/-- The type of a variable; top when nothing is known. -/
def typeOfVariable (m : Memory) (x : Variable) : ValueType := m.types[x]?.getD .top

/-- The facet that a variable carries. -/
def facetOf (m : Memory) (x : Variable) : Option Facet := m.facets[x]?

/-- The type of the facet `f` of `x`; top when nothing is known. -/
def facetType (m : Memory) (x : Variable) (f : Facet) : ValueType :=
  m.facetTypes[(⟨x, f⟩ : FacetKey)]?.getD .top

/-- The type of a pushed value before refinement. -/
def typeOf (m : Memory) : Pushed → ValueType
  | .typed t => t
  | .stored x => m.typeOfVariable x
  | .wrapped _ _ => .notNull
  | .contractFailure => .bottom

/-- What the facet of a variable tells about the variable.  That the facet can be read
does not tell that its owner is not null, so nullability is dropped. -/
def facetKnowledge (m : Memory) (x : Variable) (f : Facet) : ValueType :=
  let known := ValueType.ofFacet f (m.facetType x f)
  if known.isReference then known.forgetNullability else known

/-- The type of a pushed value, refined by what its facet tells. -/
def refined (m : Memory) (v : Pushed) : ValueType :=
  match v with
  | .typed t => t
  | .contractFailure => .bottom
  | .wrapped f inner => ValueType.notNull.meet (.ofFacet f (m.typeOfVariable inner))
  | .stored x =>
    match m.facetOf x with
    | none => m.typeOfVariable x
    | some f =>
      if (m.typeOfVariable x).isReference then (m.typeOfVariable x).meet (m.facetKnowledge x f)
      else m.typeOfVariable x

/-- Whether assertions are disabled at this point, where that can be proved. -/
def assertionsDisabled (m : Memory) : Option Bool := do
  let flag ← m.assertionsFlag
  (m.typeOfVariable flag).bool?

/-! ## Laws of the queries -/

@[simp] theorem typeOfVariable_setType (m : Memory) (x y : Variable) (t : ValueType) :
    (m.setType x t).typeOfVariable y = if x = y then t else m.typeOfVariable y := by
  simp only [typeOfVariable, setType, Std.ExtTreeMap.getElem?_insert, Std.compare_eq_iff_eq]
  split <;> rfl

@[simp] theorem facetOf_setType (m : Memory) (x y : Variable) (t : ValueType) :
    (m.setType x t).facetOf y = m.facetOf y := rfl

@[simp] theorem facetOf_setFacet (m : Memory) (x y : Variable) (f : Facet) :
    (m.setFacet x f).facetOf y = if x = y then some f else m.facetOf y := by
  simp only [facetOf, setFacet, Std.ExtTreeMap.getElem?_insert, Std.compare_eq_iff_eq]

end Memory
end PathFacts
