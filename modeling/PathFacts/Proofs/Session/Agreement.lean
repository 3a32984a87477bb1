import PathFacts.Proofs.Session.Modifications
import PathFacts.Proofs.Tree.Parentheses
import PathFacts.Proofs.ValueType.Membership

/-!
# Queries agree

The queries of a session look at parentheses in different ways: the type and the value of an
expression are those of what stands inside all its parentheses, while its interval asks first for
a constant of the expression as it is written.  In a tree whose parentheses were put around
expressions that were there already this makes no difference, and an integral value is the whole
interval (`Session.answers_agree`).

The two facts behind this are that parentheses share unit and constant with what stands between
them (`Tree.Transparent`), and that the only value of a type, if it is integral, is all of its
interval (`ValueType.integers?_of_constant?`).
-/

namespace PathFacts

/-! ## Replies -/

/-- Where the reply to a question for a value is integral, it is the reply to the question for
an interval. -/
theorem Query.replyFrom_integers_of_constant {t : Tree} (ht : t.Transparent)
    {facts : ExprId → Option Body} {e : ExprId} {c : Constant} {v : Int64}
    (hc : (Query.constant e).replyFrom t facts = .constant (some c)) (hv : c.integer? = some v) :
    (Query.integers e).replyFrom t facts = .integers (some (.singleton v)) := by
  rw [replyFrom, ht.constant?_unwrap] at hc
  rw [replyFrom]
  cases hknown : t.constant? e with
  | some own =>
    rw [hknown] at hc
    dsimp only at hc
    have hown : own = c := by
      split at hc
      · cases hc
      · exact Option.some.inj (Reply.constant.inj hc)
    rw [Option.bind_some, hown, hv]
  | none =>
    rw [hknown] at hc
    have hproved := (Option.filter_eq_some_iff.1 (Reply.constant.inj hc)).1
    obtain ⟨b, hb, htype⟩ := Option.bind_eq_some_iff.1 hproved
    rw [Option.bind_none, replyFrom.typeOf, hb, Option.map_some, Option.getD_some,
      ValueType.integers?_of_constant? htype hv]

theorem Tree.transparent_revise (t : Tree) (c : ContainerId) :
    (t.revise c).Transparent ↔ t.Transparent :=
  ⟨fun h => ⟨h.index_lt, h.owner, h.constant⟩, fun h => ⟨h.index_lt, h.owner, h.constant⟩⟩

namespace Session

variable {s : Session} {e : ExprId}

/-! ## Sessions over transparent trees -/

theorem valueType_unwrap (ht : s.tree.Transparent) (e : ExprId) :
    s.valueType (s.tree.unwrap e) = s.valueType e := by
  rw [valueType, ht.unwrap_unwrap]
  rfl

theorem integers?_unwrap (ht : s.tree.Transparent) (e : ExprId) :
    s.integers? (s.tree.unwrap e) = s.integers? e := by
  rw [integers?, ht.constant?_unwrap, valueType_unwrap ht]
  rfl

theorem constant?_unwrap (ht : s.tree.Transparent) (e : ExprId) :
    s.constant? (s.tree.unwrap e) = s.constant? e := by
  rw [constant?, ht.unwrap_unwrap]
  rfl

theorem transparent_performAll (h : s.Coherent) (ht : s.tree.Transparent) (qs : List Query) :
    (performAll qs s).2.tree.Transparent := by
  rw [(parts_performAll h qs).2.2]
  exact (Query.foldl_modify Tree.Transparent
    (fun t c => propext (Tree.transparent_revise t c)) s.tree qs).mpr ht

theorem unwrap_performAll (h : s.Coherent) (qs : List Query) (e : ExprId) :
    (performAll qs s).2.tree.unwrap e = s.tree.unwrap e := by
  rw [(parts_performAll h qs).2.2]
  exact Query.foldl_modify (·.unwrap e) (fun t c => t.unwrap_revise c e) s.tree qs

/-- Queries agree, whatever was asked and done before.  Let a tree be built so that parentheses
are put only around expressions that are there.  What stands inside all parentheses of an
expression is in no parentheses itself and belongs to the same unit, and every query about the
one is answered as about the other.  And an integral value that a session answers with at one
moment is the whole interval that it answers with at any other. -/
theorem answers_agree {steps : List Tree.Step}
    (hsteps : Tree.EachStep Tree.Step.EnclosesKnown {} steps) {i : Interpreter}
    {settings : Settings} (hs : start? i (.build steps) settings = .ok s) (qs : List Query)
    (e : ExprId) :
    let t := Tree.build steps
    let now := (performAll qs s).2
    t.inner? (t.unwrap e) = none ∧ t.context? (t.unwrap e) = t.context? e ∧
      now.valueType (t.unwrap e) = now.valueType e ∧
      now.integers? (t.unwrap e) = now.integers? e ∧
      now.constant? (t.unwrap e) = now.constant? e ∧
      ∀ (qs' : List Query) (c : Constant) (v : Int64), (now.constant? e).1 = some c →
        c.integer? = some v → ((performAll qs' s).2.integers? e).1 = some (.singleton v) := by
  intro t now
  have ht : t.Transparent := Tree.transparent_build hsteps
  obtain ⟨hcoherent, htree, -⟩ := start?_spec hs
  have htransparent : now.tree.Transparent := transparent_performAll hcoherent (htree ▸ ht) qs
  have hunwrap : now.tree.unwrap e = t.unwrap e := by
    rw [unwrap_performAll hcoherent, htree]
  refine ⟨ht.inner?_unwrap e, ht.context?_unwrap e, ?_, ?_, ?_, ?_⟩
  · rw [← hunwrap, valueType_unwrap htransparent]
  · rw [← hunwrap, integers?_unwrap htransparent]
  · rw [← hunwrap, constant?_unwrap htransparent]
  · intro qs' c v hc hv
    -- both answers are given from the program as it was first
    have hconstant : Reply.constant (now.constant? e).1 = _ :=
      reply_after_performAll hcoherent qs (.constant e)
    have hintegers : Reply.integers ((performAll qs' s).2.integers? e).1 = _ :=
      reply_after_performAll hcoherent qs' (.integers e)
    rw [hc] at hconstant
    rw [Query.replyFrom_integers_of_constant (htree ▸ ht) hconstant.symm hv] at hintegers
    exact Reply.integers.inj hintegers

/-- A method with the literal `'a'` in two pairs of parentheses and another expression in one; the
expressions are numbered from the inside out. -/
def nestedParentheses : List Tree.Step :=
  [.container, .unit ⟨0⟩ .method, .literal ⟨0⟩ (.char 'a'), .parenthesized ⟨0⟩,
    .parenthesized ⟨1⟩, .expr ⟨0⟩, .parenthesized ⟨3⟩]

/-- A run that pushes the interval from `7` to `7` for the other expression. -/
def onlySeven : Interpreter :=
  ({} : Interpreter).setScript ⟨0⟩ [.push ⟨3⟩ (.typed (.range ⟨7, 7⟩)) {} none]

/-- A session about `nestedParentheses` answers with the value `'a'` for the outer parentheses and
with `7` for the others, each from another source, and each is all of the interval later on. -/
theorem answers_agree_of_nested_parentheses :
    let qs : List Query := [.resolve ⟨4⟩, .revise ⟨0⟩]
    let qs' : List Query := [.forget ⟨0⟩]
    ∃ s, Tree.EachStep Tree.Step.EnclosesKnown {} nestedParentheses ∧
      start? onlySeven (.build nestedParentheses) (.standard 4) = .ok s ∧
      ((performAll qs s).2.constant? ⟨2⟩).1 = some (.char 'a') ∧
      ((performAll qs' s).2.integers? ⟨2⟩).1 = some ⟨97, 97⟩ ∧
      ((performAll qs s).2.constant? ⟨4⟩).1 = some (.int 7) ∧
      ((performAll qs' s).2.integers? ⟨4⟩).1 = some ⟨7, 7⟩ := by
  intro qs qs'
  have hsteps : Tree.EachStep Tree.Step.EnclosesKnown {} nestedParentheses := by decide
  have hstart : start? onlySeven (.build nestedParentheses) (.standard 4) = .ok _ := rfl
  obtain ⟨-, -, -, -, -, hliteral⟩ := answers_agree hsteps hstart qs ⟨2⟩
  obtain ⟨-, -, -, -, -, hproved⟩ := answers_agree hsteps hstart qs ⟨4⟩
  refine ⟨_, hsteps, hstart, ?char, hliteral qs' _ _ ?char rfl, ?seven,
    hproved qs' _ _ ?seven rfl⟩
  case char => decide +kernel
  case seven => decide +kernel

end Session
end PathFacts
