import Std.Data.ExtTreeMap

/-!
# Identities

Expressions, analysed units and containers are known by number, interpreter
variables by name.  The collector never looks inside them; it only tells them apart
and, where an answer lists several, orders them.
-/

namespace PathFacts

/-! ## Names and numbers

A number is the place of a node in the arena of its kind, counted from zero.  The program
keeps it in 32 bits.  An arena holds fewer than 2^32 nodes, so no number that is given out
is ever cut, and the numbers here need no bound. -/

/-- An expression of the program. -/
structure ExprId where
  index : Nat
deriving DecidableEq, Inhabited

/-- An analysed unit: a method, an initializer, a constructor or a whole class. -/
structure UnitId where
  index : Nat
deriving DecidableEq, Inhabited

/-- A container of units, usually one source file. -/
structure ContainerId where
  index : Nat
deriving DecidableEq, Inhabited

/-- An interpreter variable: a local, a field or a derived facet. -/
structure Variable where
  name : String
deriving DecidableEq, Inhabited

/-! ## Order -/

instance : Ord ExprId := ⟨compareOn ExprId.index⟩
instance : Ord UnitId := ⟨compareOn UnitId.index⟩
instance : Ord ContainerId := ⟨compareOn ContainerId.index⟩
instance : Ord Variable := ⟨compareOn Variable.name⟩

instance : Std.TransOrd ExprId := inferInstanceAs (Std.TransCmp (compareOn ExprId.index))
instance : Std.TransOrd UnitId := inferInstanceAs (Std.TransCmp (compareOn UnitId.index))
instance : Std.TransOrd ContainerId :=
  inferInstanceAs (Std.TransCmp (compareOn ContainerId.index))
instance : Std.TransOrd Variable := inferInstanceAs (Std.TransCmp (compareOn Variable.name))

instance : Std.LawfulEqOrd ExprId where
  eq_of_compare {a b} h := by
    cases a; cases b
    exact congrArg _ (Std.LawfulEqOrd.eq_of_compare (α := Nat) h)

instance : Std.LawfulEqOrd UnitId where
  eq_of_compare {a b} h := by
    cases a; cases b
    exact congrArg _ (Std.LawfulEqOrd.eq_of_compare (α := Nat) h)

instance : Std.LawfulEqOrd ContainerId where
  eq_of_compare {a b} h := by
    cases a; cases b
    exact congrArg _ (Std.LawfulEqOrd.eq_of_compare (α := Nat) h)

instance : Std.LawfulEqOrd Variable where
  eq_of_compare {a b} h := by
    cases a; cases b
    exact congrArg _ (Std.LawfulEqOrd.eq_of_compare (α := String) h)

/-! ## Text -/

/-- How messages name an expression. -/
def ExprId.text (e : ExprId) : String := "expr#" ++ toString e.index

/-- How messages name a unit. -/
def UnitId.text (u : UnitId) : String := "unit#" ++ toString u.index

/-- How messages name a container. -/
def ContainerId.text (c : ContainerId) : String := "container#" ++ toString c.index

/-- A variable is shown by its bare name. -/
def Variable.text (v : Variable) : String := v.name

end PathFacts
