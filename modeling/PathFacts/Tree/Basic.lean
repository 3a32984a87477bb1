import PathFacts.Constant
import PathFacts.Identity

/-!
# Program trees

A `Tree` holds what the collector has to know of a program: expressions with their
parents, parentheses and conditionals; the units that contain them; and containers,
each with a count of its modifications.

Trees grow by building steps only.  Identities are handed out per kind in ascending
order, and a step may mention identities that were not handed out yet: a missing
expression has no parent, no shape and no unit, and a missing unit has no container.
-/

namespace PathFacts

/-- Shape of an expression, as far as collecting facts is concerned. -/
inductive Shape where
  | plain
  | parenthesized (inner : ExprId)
  | conditional (condition : ExprId)
deriving DecidableEq, Inhabited

/-- Kind of an analysed unit. -/
inductive UnitKind where
  | method
  | initializer
  | constructor
  /-- All initializers of a class, with each constructor run on top of them. -/
  | wholeClass
deriving DecidableEq, Inhabited

/-- The first statement of a constructor body. -/
inductive Chaining where
  /-- A call of another constructor of the same class. -/
  | sibling
  /-- A call of a constructor of the base class. -/
  | base
  /-- No such call is written. -/
  | implicit
deriving DecidableEq, Inhabited

/-- A declared constructor. -/
structure Constructor where
  /-- The unit of the body; a constructor without source has none. -/
  body : Option UnitId
  chaining : Chaining
  /-- Where no call is written, whether the implied one may have side effects. -/
  impureBase : Bool
deriving DecidableEq, Inhabited

/-- Whether a run of the constructor may start from the memories at the end of the
initializers.  A sibling call runs the initializers elsewhere, and an implied base
call with side effects may spoil them. -/
def Constructor.startsFromInitializers (c : Constructor) : Bool :=
  match c.chaining with
  | .sibling => false
  | .base => true
  | .implicit => !c.impureBase

/-- An expression of the tree. -/
structure ExprEntry where
  shape : Shape
  parent : Option ExprId := none
  owner : Option UnitId
  /-- The value known when the program is compiled. -/
  constant : Option Constant := none
deriving DecidableEq, Inhabited

/-- A unit of the tree. -/
structure UnitEntry where
  kind : UnitKind
  container : ContainerId
  /-- The class whose run covers this unit. -/
  coveredBy : Option UnitId := none
  constructors : List Constructor := []
deriving DecidableEq, Inhabited

/-- A program, as far as the collector sees it. -/
structure Tree where
  exprs : Array ExprEntry := #[]
  units : Array UnitEntry := #[]
  /-- The number of modifications of each container, modulo `2 ^ 64`. -/
  containers : Array UInt64 := #[]
deriving DecidableEq, Inhabited

namespace Tree

/-! ## Look-up -/

/-- The expression with identity `e`. -/
def expr? (t : Tree) (e : ExprId) : Option ExprEntry := t.exprs[e.index]?

/-- The unit with identity `u`. -/
def unit? (t : Tree) (u : UnitId) : Option UnitEntry := t.units[u.index]?

/-- The direct parent of an expression. -/
def parent? (t : Tree) (e : ExprId) : Option ExprId := (t.expr? e).bind (·.parent)

/-- The shape of an expression. -/
def shape? (t : Tree) (e : ExprId) : Option Shape := (t.expr? e).map (·.shape)

/-- What stands between the parentheses of `e`. -/
def inner? (t : Tree) (e : ExprId) : Option ExprId :=
  match t.shape? e with
  | some (.parenthesized inner) => some inner
  | _ => none

/-- The condition of `e`. -/
def condition? (t : Tree) (e : ExprId) : Option ExprId :=
  match t.shape? e with
  | some (.conditional condition) => some condition
  | _ => none

/-- Whether `e` is an expression in parentheses. -/
def isParenthesized (t : Tree) (e : ExprId) : Bool := (t.inner? e).isSome

/-- Whether `e` is a conditional. -/
def isConditional (t : Tree) (e : ExprId) : Bool := (t.condition? e).isSome

/-- The value of `e` known when the program is compiled. -/
def constant? (t : Tree) (e : ExprId) : Option Constant := (t.expr? e).bind (·.constant)

/-- The kind of a unit. -/
def kind? (t : Tree) (u : UnitId) : Option UnitKind := (t.unit? u).map (·.kind)

/-- The constructors of a class, in the order of declaration. -/
def constructors (t : Tree) (u : UnitId) : List Constructor :=
  ((t.unit? u).map (·.constructors)).getD []

/-- The container of a unit. -/
def container? (t : Tree) (u : UnitId) : Option ContainerId := (t.unit? u).map (·.container)

/-- The unit whose run covers `e`: its own unit, or the class that covers that one. -/
def context? (t : Tree) (e : ExprId) : Option UnitId := do
  let u ← (t.expr? e).bind (·.owner)
  let node ← t.unit? u
  return node.coveredBy.getD u

/-- How often a container was modified; a missing one never was. -/
def revision (t : Tree) (c : ContainerId) : UInt64 := t.containers[c.index]?.getD 0

/-! ## Building -/

/-- Appends an expression. -/
def appendExpr (t : Tree) (node : ExprEntry) : ExprId × Tree :=
  (⟨t.exprs.size⟩, { t with exprs := t.exprs.push node })

/-- Appends a unit. -/
def appendUnit (t : Tree) (node : UnitEntry) : UnitId × Tree :=
  (⟨t.units.size⟩, { t with units := t.units.push node })

/-- Puts an expression under a parent; a missing expression is left missing. -/
def attach (t : Tree) (child parent : ExprId) : Tree :=
  { t with exprs := t.exprs.modify child.index fun node => { node with parent := some parent } }

/-- Declares a constructor of a class; a missing class is left missing. -/
def declare (t : Tree) (cls : UnitId) (c : Constructor) : Tree :=
  { t with units := t.units.modify cls.index fun node =>
      { node with constructors := node.constructors ++ [c] } }

/-- The container for members of a class; the first one where the class is missing. -/
def memberContainer (t : Tree) (cls : UnitId) : ContainerId := (t.container? cls).getD ⟨0⟩

/-- A new container. -/
def newContainer (t : Tree) : ContainerId × Tree :=
  (⟨t.containers.size⟩, { t with containers := t.containers.push 0 })

/-- Counts a modification of a container; a missing one is left missing. -/
def revise (t : Tree) (c : ContainerId) : Tree :=
  { t with containers := t.containers.modify c.index (· + 1) }

/-- A unit that stands for itself. -/
def newUnit (t : Tree) (c : ContainerId) (kind : UnitKind) : UnitId × Tree :=
  t.appendUnit { kind := kind, container := c }

/-- A class. -/
def newClass (t : Tree) (c : ContainerId) : UnitId × Tree := t.newUnit c .wholeClass

/-- An initializer of a class. -/
def newInitializer (t : Tree) (cls : UnitId) : UnitId × Tree :=
  t.appendUnit ⟨.initializer, t.memberContainer cls, some cls, []⟩

/-- A constructor of a class, with a body. -/
def newConstructor (t : Tree) (cls : UnitId) (chaining : Chaining) (impureBase : Bool) :
    UnitId × Tree :=
  let (body, t) := t.appendUnit ⟨.constructor, t.memberContainer cls, some cls, []⟩
  (body, t.declare cls ⟨some body, chaining, impureBase⟩)

/-- A constructor of a class, without a body. -/
def newBodilessConstructor (t : Tree) (cls : UnitId) : Tree :=
  t.declare cls ⟨none, .implicit, false⟩

/-- A plain expression. -/
def newExpr (t : Tree) (u : UnitId) : ExprId × Tree := t.appendExpr ⟨.plain, none, some u, none⟩

/-- A literal. -/
def newLiteral (t : Tree) (u : UnitId) (c : Constant) : ExprId × Tree :=
  t.appendExpr ⟨.plain, none, some u, some c⟩

/-- Parentheses around `inner`, in the same unit and with the same constant. -/
def newParentheses (t : Tree) (inner : ExprId) : ExprId × Tree :=
  let (id, t) := t.appendExpr
    ⟨.parenthesized inner, none, (t.expr? inner).bind (·.owner), t.constant? inner⟩
  (id, t.attach inner id)

/-- A conditional, in the unit of its condition. -/
def newConditional (t : Tree) (condition thenBranch elseBranch : ExprId) : ExprId × Tree :=
  let (id, t) := t.appendExpr
    ⟨.conditional condition, none, (t.expr? condition).bind (·.owner), none⟩
  (id, ((t.attach condition id).attach thenBranch id).attach elseBranch id)

/-! ## Building steps -/

/-- One building step. -/
inductive Step where
  | container
  | unit (container : ContainerId) (kind : UnitKind)
  | wholeClass (container : ContainerId)
  | initializer (cls : UnitId)
  | constructor (cls : UnitId) (chaining : Chaining) (impureBase : Bool)
  | bodiless (cls : UnitId)
  | expr (owner : UnitId)
  | literal (owner : UnitId) (value : Constant)
  | parenthesized (inner : ExprId)
  | conditional (condition thenBranch elseBranch : ExprId)
  | attach (child parent : ExprId)
  | revise (container : ContainerId)
deriving DecidableEq

/-- Applies a step; the number of the identity that it hands out comes first. -/
def apply (t : Tree) : Step → Option Nat × Tree
  | .container => let (c, t) := t.newContainer; (some c.index, t)
  | .unit c kind => let (u, t) := t.newUnit c kind; (some u.index, t)
  | .wholeClass c => let (u, t) := t.newClass c; (some u.index, t)
  | .initializer k => let (u, t) := t.newInitializer k; (some u.index, t)
  | .constructor k chaining impure =>
    let (u, t) := t.newConstructor k chaining impure; (some u.index, t)
  | .bodiless k => (none, t.newBodilessConstructor k)
  | .expr u => let (e, t) := t.newExpr u; (some e.index, t)
  | .literal u c => let (e, t) := t.newLiteral u c; (some e.index, t)
  | .parenthesized inner => let (e, t) := t.newParentheses inner; (some e.index, t)
  | .conditional c a b => let (e, t) := t.newConditional c a b; (some e.index, t)
  | .attach child parent => (none, t.attach child parent)
  | .revise c => (none, t.revise c)

/-- The tree after a list of steps. -/
def build (steps : List Step) : Tree := steps.foldl (fun t s => (t.apply s).2) {}

end Tree
end PathFacts
