import PathFacts.Memory
import PathFacts.ValueSet

/-!
# What was seen of one expression

A `Evidence` collects the observations of one expression over all visited paths: the
join of the refined types, the possible constants, and whether a contract was broken.
The type starts at bottom and, once it is top, no observation is looked at any more;
the constants keep their own end, `ValueSet.unbounded`.
-/

namespace PathFacts

/-- Everything seen of one expression. -/
structure Evidence where
  type : ValueType := .bottom
  constants : ValueSet := .empty
  mayFail : Bool := false
deriving DecidableEq

namespace Evidence

instance : Inhabited Evidence := ⟨{}⟩

/-- A broken contract was seen; this is never taken back. -/
def markFailure (p : Evidence) : Evidence := { p with mayFail := true }

/-- Joins a type to what was seen. -/
def joinType (p : Evidence) (t : ValueType) : Evidence :=
  if p.type.isTop then p else { p with type := p.type.join t }

/-- Joins the refined type of `v` under `m`. -/
def observeType (p : Evidence) (m : Memory) (v : Pushed) : Evidence :=
  p.joinType (m.refined v)

/-- Adds the constant that `v` has under `m`, or gives the constants up. -/
def observeConstant (p : Evidence) (m : Memory) (v : Pushed) : Evidence :=
  { p with constants := p.constants.observe (m.typeOf v).constant? }

/-- Adds all that the push of `v` under `m` tells. -/
def observe (p : Evidence) (m : Memory) (v : Pushed) : Evidence :=
  (p.observeType m v).observeConstant m v

end Evidence
end PathFacts
