import PathFacts.Evidence
import PathFacts.RunStatus
import PathFacts.Tree.Walks

/-!
# Facts of one unit

A `Body` holds what one analysis of a unit saw of its expressions, in two views.  The
primary view assumes nothing about assertions, or that they are enabled.  The other view
assumes that they are disabled.  The two are shared until an observation is made where
the flag is provably true or provably false; from then on they are kept apart.

`Body.record` adds one push.  A branch of a conditional passes the value on to the
conditional, as a push of its own that chooses its views anew; a branch about which
nothing is known any more passes nothing on, and neither does a broken contract.
-/

namespace PathFacts

open Std (ExtTreeMap)

/-- What was seen, by expression. -/
abbrev Findings := ExtTreeMap ExprId Evidence

/-- The two views of a unit. -/
inductive View where
  | primary
  | disabled
deriving DecidableEq, Inhabited

/-- What an analysis saw of the expressions of one unit. -/
structure Body where
  primary : Findings := ∅
  /-- The view with assertions disabled; `none` while the views are shared. -/
  disabled : Option Findings := none
  status : RunStatus := .ok
deriving DecidableEq

namespace Body

/-- An analysis that ended with `status` and saw nothing. -/
def ofStatus (status : RunStatus) : Body := { status := status }

instance : Inhabited Body := ⟨{}⟩

/-! ## Views -/

/-- Whether the views are kept apart. -/
def hasDiverged (b : Body) : Bool := b.disabled.isSome

/-- The facts of a view. -/
def view (b : Body) : View → Findings
  | .primary => b.primary
  | .disabled => b.disabled.getD b.primary

/-- Replaces the facts of a view; while the views are shared, that is the primary view. -/
def setView (b : Body) (v : View) (facts : Findings) : Body :=
  match v, b.disabled with
  | .disabled, some _ => { b with disabled := some facts }
  | _, _ => { b with primary := facts }

/-- What was seen of `e` in a view. -/
def evidenceIn (b : Body) (v : View) (e : ExprId) : Option Evidence := (b.view v)[e]?

/-- Changes the point of `e` in a view; an expression that was not seen yet starts as an
empty point. -/
def update (b : Body) (v : View) (e : ExprId) (f : Evidence → Evidence) : Body :=
  b.setView v ((b.view v).alter e fun p => some (f (p.getD {})))

/-- Keeps the views apart from now on. -/
def diverge (b : Body) : Body := { b with disabled := some (b.view .disabled) }

/-- The primary facts with the views shared again. -/
def primaryOnly (b : Body) : Body := { b with disabled := none }

/-! ## Recording -/

/-- Adds a push for the first expression of `chain` to one view, after `passOn` has passed
it on; a broken contract is only marked. -/
def observeIn (v : View) (e : ExprId) (m : Memory) (value : Pushed) (passOn : Body → Body)
    (b : Body) : Body :=
  let b := b.update v e id
  match value with
  | .contractFailure => b.update v e Evidence.markFailure
  | value =>
    let saturated := (b.evidenceIn v e).any (·.type.isTop)
    let b := if saturated then b else passOn b
    b.update v e (·.observe m value)

/-- Adds a push for the first expression of a chain; each expression passes it on to the
next.  A provable flag chooses one view and keeps the views apart; otherwise the push goes
to the primary view, and then to the other one if by then the views are kept apart. -/
def recordChain (m : Memory) (value : Pushed) : List ExprId → Body → Body
  | [], b => b
  | e :: rest, b =>
    match m.assertionsDisabled with
    | some true => observeIn .disabled e m value (recordChain m value rest) b.diverge
    | some false => observeIn .primary e m value (recordChain m value rest) b.diverge
    | none =>
      let b := observeIn .primary e m value (recordChain m value rest) b
      if b.hasDiverged then observeIn .disabled e m value (recordChain m value rest) b else b

/-- Records that `value` was pushed for `e` under `m`. -/
def record (t : Tree) (e : ExprId) (m : Memory) (value : Pushed) (b : Body) : Body :=
  recordChain m value (t.feedChain e) b

/-! ## Queries -/

/-- What the primary view saw of `e`. -/
def evidence? (b : Body) (e : ExprId) : Option Evidence := b.evidenceIn .primary e

/-- Number of expressions in the primary view. -/
def size (b : Body) : Nat := b.primary.size

/-- Whether the primary view saw no expression. -/
def isEmpty (b : Body) : Bool := b.primary.isEmpty

/-- Whether the primary view saw `e`. -/
def tracks (b : Body) (e : ExprId) : Bool := (b.evidence? e).isSome

/-- Whether the call `e` was seen and never broke its contract. -/
def cannotFail (b : Body) (e : ExprId) : Bool := (b.evidence? e).any (!·.mayFail)

/-- The possible constants of `e`; none where they are not known. -/
def possibleConstants (b : Body) (e : ExprId) : List Constant :=
  ((b.evidence? e).map (·.constants.toList)).getD []

/-- The type of `e` in a view; top where `e` was not seen. -/
def typeIn (b : Body) (v : View) (e : ExprId) : ValueType :=
  ((b.evidenceIn v e).map (·.type)).getD .top

/-- The type of `e`. -/
def type (b : Body) (e : ExprId) : ValueType := b.typeIn .primary e

/-- The type of `e` when assertions are disabled. -/
def typeIgnoringAssertions (b : Body) (e : ExprId) : ValueType := b.typeIn .disabled e

/-- All expressions of either view, in ascending order. -/
def seen (b : Body) : List ExprId :=
  (b.primary.keys ++ (b.view .disabled).keys).mergeSort (fun x y => x.index ≤ y.index)
    |>.eraseReps

end Body

/-- Queries by expression that the caller got wrong. -/
inductive QueryError where
  /-- Facts are kept for what stands inside the parentheses. -/
  | parenthesized (e : ExprId)
deriving DecidableEq

/-- The text of a query error. -/
def QueryError.message : QueryError → String
  | .parenthesized e =>
    "Expression " ++ e.text ++ " is parenthesized; query the deparenthesized expression"

/-- Whether `e` was seen; an expression in parentheses is refused, because facts are
kept for what stands inside. -/
def Body.wasSeen (b : Body) (t : Tree) (e : ExprId) : Except QueryError Bool :=
  if t.isParenthesized e then .error (.parenthesized e) else .ok (b.tracks e)

end PathFacts
