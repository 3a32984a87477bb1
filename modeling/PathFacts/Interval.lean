/-!
# Closed intervals of 64-bit integers

`Interval` keeps two bounds as they are given, also in the wrong order; an interval
with `upper < lower` contains nothing.  `Interval.between` puts the bounds in order.
-/

namespace PathFacts

/-- The integers from `lower` to `upper`, both included. -/
structure Interval where
  lower : Int64
  upper : Int64
deriving DecidableEq, Inhabited

namespace Interval

/-- The interval between two bounds given in any order. -/
def between (a b : Int64) : Interval := if a ≤ b then ⟨a, b⟩ else ⟨b, a⟩

/-- The interval of one integer. -/
def singleton (v : Int64) : Interval := ⟨v, v⟩

/-- The interval of all 64-bit integers. -/
def full : Interval := ⟨Int64.minValue, Int64.maxValue⟩

/-- The integers that can be a length or a size. -/
def sizes : Interval := ⟨0, Int64.maxValue⟩

/-- Whether `v` lies between the bounds. -/
def contains (r : Interval) (v : Int64) : Bool := decide (r.lower ≤ v) && decide (v ≤ r.upper)

/-- The only member, if the bounds are equal. -/
def single? (r : Interval) : Option Int64 := if r.lower = r.upper then some r.lower else none

/-- The smallest interval around both. -/
def join (a b : Interval) : Interval := ⟨min a.lower b.lower, max a.upper b.upper⟩

/-- The common part, if the bounds leave one. -/
def meet? (a b : Interval) : Option Interval :=
  if max a.lower b.lower ≤ min a.upper b.upper then
    some ⟨max a.lower b.lower, min a.upper b.upper⟩
  else
    none

/-- Whether the bounds are in order, so that the interval has a member. -/
def Ordered (r : Interval) : Prop := r.lower ≤ r.upper

instance (r : Interval) : Decidable r.Ordered := inferInstanceAs (Decidable (_ ≤ _))

/-- The interval as it is shown: its only member, or both bounds, in braces. -/
def text (r : Interval) : String :=
  match r.single? with
  | some v => "\x7b" ++ toString v.toInt ++ "\x7d"
  | none => "\x7b" ++ toString r.lower.toInt ++ ".." ++ toString r.upper.toInt ++ "\x7d"

/-! ## Membership -/

theorem contains_iff {r : Interval} {v : Int64} :
    r.contains v = true ↔ r.lower ≤ v ∧ v ≤ r.upper := by
  simp [contains]

@[simp] theorem contains_singleton {v w : Int64} : (singleton v).contains w = true ↔ w = v := by
  rw [contains_iff]
  exact ⟨fun h => Int64.le_antisymm h.2 h.1, fun h => h ▸ ⟨Int64.le_refl w, Int64.le_refl w⟩⟩

end Interval
end PathFacts
