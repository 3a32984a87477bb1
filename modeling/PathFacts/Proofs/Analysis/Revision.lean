import PathFacts.Analysis

/-!
# Modifications do not change an analysis

A tree counts the modifications of its containers, and the count is all that changes with
`Tree.revise`.  Analyses walk expressions and units, so they come out the same before and
after (`Analysis.ofUnit_revise`): the count says when results are thrown away, not what they
are.
-/

namespace PathFacts

variable (t : Tree) (c : ContainerId)

/-! ## Look-up and walks -/

namespace Tree

@[simp] theorem exprs_revise : (t.revise c).exprs = t.exprs := rfl

@[simp] theorem parent?_revise (e : ExprId) : (t.revise c).parent? e = t.parent? e := rfl

@[simp] theorem inner?_revise (e : ExprId) : (t.revise c).inner? e = t.inner? e := rfl

@[simp] theorem condition?_revise (e : ExprId) :
    (t.revise c).condition? e = t.condition? e := rfl

@[simp] theorem isParenthesized_revise (e : ExprId) :
    (t.revise c).isParenthesized e = t.isParenthesized e := rfl

@[simp] theorem isConditional_revise (e : ExprId) :
    (t.revise c).isConditional e = t.isConditional e := rfl

@[simp] theorem constant?_revise (e : ExprId) : (t.revise c).constant? e = t.constant? e := rfl

@[simp] theorem kind?_revise (u : UnitId) : (t.revise c).kind? u = t.kind? u := rfl

@[simp] theorem constructors_revise (u : UnitId) :
    (t.revise c).constructors u = t.constructors u := rfl

theorem ancestorsUpTo_revise (n : Nat) (e : ExprId) :
    (t.revise c).ancestorsUpTo n e = t.ancestorsUpTo n e := by
  induction n generalizing e with
  | zero => rfl
  | succ n ih =>
    rw [ancestorsUpTo, ancestorsUpTo, parent?_revise]
    simp only [ih]

@[simp] theorem ancestors_revise (e : ExprId) : (t.revise c).ancestors e = t.ancestors e := by
  rw [ancestors, ancestorsUpTo_revise, exprs_revise]
  rfl

@[simp] theorem inCondition_revise (p e : ExprId) :
    (t.revise c).inCondition p e = t.inCondition p e := by
  simp only [inCondition, condition?_revise, ancestors_revise]

@[simp] theorem feedsInto?_revise (e : ExprId) : (t.revise c).feedsInto? e = t.feedsInto? e := by
  simp only [feedsInto?, enclosing?, ancestors_revise, isParenthesized_revise,
    isConditional_revise, inCondition_revise]

theorem feedChainUpTo_revise (n : Nat) (e : ExprId) :
    (t.revise c).feedChainUpTo n e = t.feedChainUpTo n e := by
  induction n generalizing e with
  | zero => rfl
  | succ n ih =>
    rw [feedChainUpTo, feedChainUpTo, feedsInto?_revise]
    simp only [ih]

@[simp] theorem feedChain_revise (e : ExprId) : (t.revise c).feedChain e = t.feedChain e := by
  rw [feedChain, feedChainUpTo_revise, exprs_revise]
  rfl

theorem unwrapUpTo_revise (n : Nat) (e : ExprId) :
    (t.revise c).unwrapUpTo n e = t.unwrapUpTo n e := by
  induction n generalizing e with
  | zero => rfl
  | succ n ih =>
    rw [unwrapUpTo, unwrapUpTo, inner?_revise]
    simp only [ih]

@[simp] theorem unwrap_revise (e : ExprId) : (t.revise c).unwrap e = t.unwrap e := by
  rw [unwrap, unwrapUpTo_revise, exprs_revise]
  rfl

end Tree

/-! ## Recording and analysing -/

@[simp] theorem Body.record_revise (e : ExprId) (m : Memory) (value : Pushed) (b : Body) :
    b.record (t.revise c) e m value = b.record t e m value := by
  rw [record, Tree.feedChain_revise]
  rfl

@[simp] theorem Recorder.observe_revise : observe (t.revise c) = observe t := by
  funext r event
  cases event with
  | push e value memory span =>
    cases span with
    | none => rw [observe, observe, Body.record_revise]
    | some span => rfl
  | initializerEnd isStatic memory => cases isStatic <;> rfl

@[simp] theorem Recorder.observeAll_revise (r : Recorder) (events : List Event) :
    r.observeAll (t.revise c) events = r.observeAll t events := by
  rw [observeAll, observe_revise]
  rfl

namespace Analysis

@[simp] theorem stitch_revise (i : Interpreter) : stitch i (t.revise c) = stitch i t := by
  funext ends s k
  unfold stitch
  simp only [Recorder.observeAll_revise]

theorem ofUnit_revise (i : Interpreter) (stitching : Bool) (u : UnitId) :
    ofUnit i (t.revise c) stitching u = ofUnit i t stitching u := by
  simp only [ofUnit, stitchAll, Recorder.observeAll_revise, Tree.kind?_revise,
    Tree.constructors_revise, stitch_revise]

end Analysis
end PathFacts
