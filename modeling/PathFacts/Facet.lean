/-!
# Facets of a value

A facet is a derived part of an object that the interpreter tracks as a variable of
its own: the length of an array, the size of a collection, the value inside a box or
inside an optional.
-/

namespace PathFacts

/-- A derived part of an object. -/
inductive Facet where
  | arrayLength
  | stringLength
  | collectionSize
  /-- The primitive value inside a boxed object. -/
  | unboxed
  /-- The content of an optional-like container. -/
  | optionalContent
deriving DecidableEq, Inhabited

namespace Facet

/-- Whether the facet is a length or a size rather than a wrapped value. -/
def isSize : Facet → Bool
  | arrayLength | stringLength | collectionSize => true
  | unboxed | optionalContent => false

/-- The facet as it is written after a qualifier. -/
def text : Facet → String
  | arrayLength => "length"
  | stringLength => "length()"
  | collectionSize => "size()"
  | unboxed => "value"
  | optionalContent => "optionalValue"

/-- Place of a facet in the order of facets. -/
def rank : Facet → Nat
  | arrayLength => 0
  | stringLength => 1
  | collectionSize => 2
  | unboxed => 3
  | optionalContent => 4

instance : Ord Facet := ⟨compareOn rank⟩

instance : Std.TransOrd Facet := inferInstanceAs (Std.TransCmp (compareOn rank))

instance : Std.LawfulEqOrd Facet where
  eq_of_compare {a b} h := by
    have hr : a.rank = b.rank := Std.LawfulEqOrd.eq_of_compare h
    cases a <;> cases b <;> simp_all [rank]

end Facet
end PathFacts
