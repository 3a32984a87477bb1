import PathFacts.Tree.Basic

/-!
# Walks through a program tree

Upward walks follow parents, downward walks follow parentheses.  A tree without cycles
of parents has no walk upwards that is longer than the number of its expressions, and
no walk downwards that ends is longer either, so that number bounds every walk.

`Tree.feedsInto?` answers which conditional takes over the values of an expression: the
nearest ancestor that is not a parenthesis, if it is a conditional and the expression
does not stand in its condition.  `Tree.feedChain` repeats the step.
-/

namespace PathFacts.Tree

/-! ## Upwards -/

/-- At most `n` ancestors of `e`, nearest first. -/
def ancestorsUpTo (t : Tree) : Nat → ExprId → List ExprId
  | 0, _ => []
  | n + 1, e =>
    match t.parent? e with
    | none => []
    | some p => p :: t.ancestorsUpTo n p

/-- The ancestors of `e`, nearest first. -/
def ancestors (t : Tree) (e : ExprId) : List ExprId := t.ancestorsUpTo t.exprs.size e

/-- The nearest ancestor that is not a parenthesis. -/
def enclosing? (t : Tree) (e : ExprId) : Option ExprId :=
  (t.ancestors e).find? fun p => !t.isParenthesized p

/-- Whether a walk upwards from `e` meets the condition of `conditional` before it meets
`conditional` itself. -/
def inCondition (t : Tree) (conditional e : ExprId) : Bool :=
  match t.condition? conditional with
  | none => false
  | some condition =>
    (e :: t.ancestors e).find? (fun x => x == condition || x == conditional) == some condition

/-- The conditional that takes over the values of `e`: the one of which `e` is a branch. -/
def feedsInto? (t : Tree) (e : ExprId) : Option ExprId :=
  (t.enclosing? e).filter fun p => t.isConditional p && !t.inCondition p e

/-- `e` and at most `n` conditionals that take over its values. -/
def feedChainUpTo (t : Tree) : Nat → ExprId → List ExprId
  | 0, e => [e]
  | n + 1, e =>
    match t.feedsInto? e with
    | none => [e]
    | some p => e :: t.feedChainUpTo n p

/-- `e` and all conditionals that take over its values, innermost first. -/
def feedChain (t : Tree) (e : ExprId) : List ExprId := t.feedChainUpTo t.exprs.size e

/-- No expression is an ancestor of itself. -/
def Acyclic (t : Tree) : Prop :=
  ∀ e : ExprId, ¬ Relation.TransGen (fun x p => t.parent? x = some p) e e

/-! ## Downwards -/

/-- Goes through at most `n` parentheses. -/
def unwrapUpTo (t : Tree) : Nat → ExprId → ExprId
  | 0, e => e
  | n + 1, e =>
    match t.inner? e with
    | none => e
    | some inner => t.unwrapUpTo n inner

/-- What stands inside all the parentheses of `e`, where going inwards ends. -/
def unwrap (t : Tree) (e : ExprId) : ExprId := t.unwrapUpTo t.exprs.size e

/-- What stands inside all the parentheses of `e`; none if going inwards never ends. -/
def unwrap? (t : Tree) (e : ExprId) : Option ExprId :=
  if t.isParenthesized (t.unwrap e) then none else some (t.unwrap e)

end PathFacts.Tree
