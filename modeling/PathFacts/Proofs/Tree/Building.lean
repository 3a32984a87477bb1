import PathFacts.Tree.Basic

/-!
# Trees step by step

What a building step does to a tree is said by two equations.  An entry, but for its parent, is
made once and never changes (`Tree.node?_apply`), and the parent of an expression is the one
that the last step about it gave (`Tree.parent?_apply`).  Nobody has to open a step after that:
shapes, units and constants are read off the entry.

`Tree.EachStep` says that every step fulfils a condition in the tree that it is applied to.  What
a tree keeps under such steps it keeps to the end (`Tree.EachStep.invariant`).
-/

namespace PathFacts

/-- The entry without its parent. -/
def ExprEntry.detached (node : ExprEntry) : ExprEntry := { node with parent := none }

namespace Tree

/-! ## Parts of a step -/

namespace Step

/-- The expressions that a step mentions. -/
def operands : Step → List ExprId
  | .parenthesized inner => [inner]
  | .conditional condition thenBranch elseBranch => [condition, thenBranch, elseBranch]
  | .attach child parent => [child, parent]
  | _ => []

/-- The expressions that a step gives a parent. -/
def children : Step → List ExprId
  | .parenthesized inner => [inner]
  | .conditional condition thenBranch elseBranch => [condition, thenBranch, elseBranch]
  | .attach child _ => [child]
  | _ => []

/-- The parent that a step gives: the one that it names, or else the expression that it adds. -/
def parentIn (t : Tree) : Step → ExprId
  | .attach _ parent => parent
  | _ => ⟨t.exprs.size⟩

/-- The entry that a step adds. -/
def newNode? (t : Tree) : Step → Option ExprEntry
  | .expr u => some ⟨.plain, none, some u, none⟩
  | .literal u c => some ⟨.plain, none, some u, some c⟩
  | .parenthesized inner =>
    some ⟨.parenthesized inner, none, (t.expr? inner).bind (·.owner), t.constant? inner⟩
  | .conditional condition _ _ =>
    some ⟨.conditional condition, none, (t.expr? condition).bind (·.owner), none⟩
  | _ => none

theorem mem_operands_of_mem_children {s : Step} {x : ExprId} (h : x ∈ s.children) :
    x ∈ s.operands := by
  cases s with
  | attach child parent =>
    rw [List.mem_singleton.1 h]
    exact List.mem_cons_self
  | _ => exact h

end Step

/-! ## Entries -/

/-- The entry of an expression, but for its parent. -/
def node? (t : Tree) (e : ExprId) : Option ExprEntry := (t.expr? e).map .detached

variable {t : Tree} {s : Step} {e p : ExprId}

theorem shape?_eq (t : Tree) (e : ExprId) : t.shape? e = (t.node? e).map (·.shape) := by
  rw [shape?, node?, Option.map_map]
  rfl

theorem constant?_eq (t : Tree) (e : ExprId) : t.constant? e = (t.node? e).bind (·.constant) := by
  rw [constant?, node?, Option.bind_map]
  rfl

theorem owner_eq (t : Tree) (e : ExprId) :
    (t.expr? e).bind (·.owner) = (t.node? e).bind (·.owner) := by
  rw [node?, Option.bind_map]
  rfl

theorem inner?_eq_some_iff : t.inner? p = some e ↔ t.shape? p = some (.parenthesized e) := by
  rw [inner?]
  split <;> simp_all

theorem condition?_eq_some_iff : t.condition? p = some e ↔ t.shape? p = some (.conditional e) := by
  rw [condition?]
  split <;> simp_all

theorem index_lt_of_node? {node : ExprEntry} (h : t.node? e = some node) :
    e.index < t.exprs.size := by
  obtain ⟨node, hnode, -⟩ := Option.map_eq_some_iff.1 h
  exact (Array.getElem?_eq_some_iff.1 hnode).1

theorem index_lt_of_shape? {shape : Shape} (h : t.shape? e = some shape) :
    e.index < t.exprs.size := by
  rw [shape?_eq] at h
  obtain ⟨node, hnode, -⟩ := Option.map_eq_some_iff.1 h
  exact index_lt_of_node? hnode

theorem index_lt_of_inner? (h : t.inner? p = some e) : p.index < t.exprs.size :=
  index_lt_of_shape? (inner?_eq_some_iff.1 h)

theorem node?_appendExpr (t : Tree) (node : ExprEntry) (e : ExprId) :
    (t.appendExpr node).2.node? e =
      if e = ⟨t.exprs.size⟩ then some node.detached else t.node? e := by
  rw [node?, expr?, appendExpr]
  by_cases h : e = ⟨t.exprs.size⟩
  · rw [if_pos h, h, Array.getElem?_push_size]
    rfl
  · have hindex : e.index ≠ t.exprs.size := by
      intro heq
      exact h (congrArg ExprId.mk heq)
    rw [if_neg h, Array.getElem?_push, if_neg hindex]
    rfl

@[simp] theorem node?_attach (t : Tree) (child parent e : ExprId) :
    (t.attach child parent).node? e = t.node? e := by
  rw [node?, expr?, attach, Array.getElem?_modify, node?, expr?]
  split
  · rw [Option.map_map]
    rfl
  · rfl

theorem node?_newParentheses (t : Tree) (inner e : ExprId) :
    (t.newParentheses inner).2.node? e =
      if e = ⟨t.exprs.size⟩ then (Step.parenthesized inner).newNode? t else t.node? e := by
  rw [newParentheses]
  exact (node?_attach _ _ _ _).trans (node?_appendExpr t _ e)

theorem node?_newConditional (t : Tree) (condition a b e : ExprId) :
    (t.newConditional condition a b).2.node? e =
      if e = ⟨t.exprs.size⟩ then (Step.conditional condition a b).newNode? t
      else t.node? e := by
  rw [newConditional]
  dsimp only
  rw [node?_attach, node?_attach, node?_attach]
  exact node?_appendExpr t _ e

theorem node?_size (t : Tree) : t.node? ⟨t.exprs.size⟩ = none := by
  rw [node?, expr?, Array.getElem?_eq_none (Nat.le_refl _)]
  rfl

/-- A step adds the entry that it describes and leaves all others as they were, but for their
parents. -/
theorem node?_apply (t : Tree) (s : Step) (e : ExprId) :
    (t.apply s).2.node? e = if e = ⟨t.exprs.size⟩ then s.newNode? t else t.node? e := by
  -- a step that adds no expression leaves the next number free
  have hnone : ∀ t' : Tree, t'.exprs = t.exprs →
      t'.node? e = if e = ⟨t.exprs.size⟩ then none else t.node? e := by
    intro t' hexprs
    have hsame : t'.node? e = t.node? e := by rw [node?, expr?, hexprs, node?, expr?]
    split
    · rename_i h
      rw [hsame, h, node?_size]
    · exact hsame
  cases s with
  | expr u => exact node?_appendExpr t _ e
  | literal u c => exact node?_appendExpr t _ e
  | parenthesized inner => exact node?_newParentheses t inner e
  | conditional condition a b => exact node?_newConditional t condition a b e
  | attach child parent =>
    rw [apply, node?_attach]
    exact hnone t rfl
  | _ => exact hnone _ rfl

/-- What is known of an expression stays known. -/
theorem node?_apply_of_lt (h : e.index < t.exprs.size) : (t.apply s).2.node? e = t.node? e := by
  have hne : e ≠ ⟨t.exprs.size⟩ := by
    rintro rfl
    exact Nat.lt_irrefl _ h
  rw [node?_apply, if_neg hne]

theorem shape?_apply_of_lt (h : e.index < t.exprs.size) :
    (t.apply s).2.shape? e = t.shape? e := by
  rw [shape?_eq, node?_apply_of_lt h, shape?_eq]

theorem shape?_apply_self (t : Tree) (s : Step) :
    (t.apply s).2.shape? ⟨t.exprs.size⟩ = (s.newNode? t).map (·.shape) := by
  rw [shape?_eq, node?_apply, if_pos rfl]

/-! ## The number of expressions -/

theorem size_le_apply (t : Tree) (s : Step) : t.exprs.size ≤ (t.apply s).2.exprs.size := by
  cases s with
  | expr _ | literal _ _ | parenthesized _ | conditional _ _ _ | attach _ _ =>
    simp [apply, newExpr, newLiteral, newParentheses, newConditional, appendExpr, attach]
  | _ => exact Nat.le_refl _

/-! ## Parents -/

theorem parent?_appendExpr (t : Tree) {node : ExprEntry} (h : node.parent = none) (e : ExprId) :
    (t.appendExpr node).2.parent? e = t.parent? e := by
  rw [parent?, expr?, appendExpr, Array.getElem?_push, parent?, expr?]
  split
  · rename_i hindex
    rw [Option.bind_some, h, hindex, Array.getElem?_eq_none (Nat.le_refl _)]
    rfl
  · rfl

theorem parent?_attach (t : Tree) (child parent e : ExprId) :
    (t.attach child parent).parent? e =
      if e = child ∧ child.index < t.exprs.size then some parent else t.parent? e := by
  rw [parent?, expr?, attach, Array.getElem?_modify, parent?, expr?]
  by_cases h : e = child
  · subst h
    by_cases hsize : e.index < t.exprs.size
    · simp [hsize]
    · simp [hsize]
  · have hindex : child.index ≠ e.index := by
      intro heq
      exact h (congrArg ExprId.mk heq).symm
    rw [if_neg hindex, if_neg fun h' => h h'.1]

/-- A step that mentions only expressions of the tree gives its children their parent and leaves
all others as they were. -/
theorem parent?_apply (h : ∀ x ∈ s.children, x.index < t.exprs.size) (e : ExprId) :
    (t.apply s).2.parent? e = if e ∈ s.children then some (s.parentIn t) else t.parent? e := by
  cases s with
  | expr u => exact parent?_appendExpr t rfl e
  | literal u c => exact parent?_appendExpr t rfl e
  | attach child parent =>
    have hchild : child.index < t.exprs.size := h child List.mem_cons_self
    rw [apply, parent?_attach]
    simp [Step.children, Step.parentIn, hchild]
  | parenthesized inner =>
    have hinner : inner.index < t.exprs.size := h inner List.mem_cons_self
    rw [apply, newParentheses]
    dsimp only
    rw [parent?_attach, parent?_appendExpr t rfl]
    have hsize := Nat.lt_succ_of_lt hinner
    simp [Step.children, Step.parentIn, appendExpr, hsize]
  | conditional condition a b =>
    have hlt : ∀ x ∈ [condition, a, b], x.index < t.exprs.size + 1 :=
      fun x hx => Nat.lt_succ_of_lt (h x hx)
    simp only [List.mem_cons, List.not_mem_nil, or_false, forall_eq_or_imp, forall_eq] at hlt
    rw [apply, newConditional]
    dsimp only
    rw [parent?_attach, parent?_attach, parent?_attach, parent?_appendExpr t rfl]
    simp only [attach, appendExpr, Array.size_modify, Array.size_push, hlt, and_true,
      Step.children, Step.parentIn, List.mem_cons, List.not_mem_nil, or_false]
    by_cases hc : e = condition <;> by_cases ha : e = a <;> by_cases hb : e = b <;>
      simp [hc, ha, hb]
  | _ => rfl

/-! ## Whole buildings -/

/-- Whether every step fulfils a condition in the tree that it is applied to. -/
def EachStep (P : Tree → Step → Prop) : Tree → List Step → Prop
  | _, [] => True
  | t, s :: steps => P t s ∧ EachStep P (t.apply s).2 steps

instance decidableEachStep (P : Tree → Step → Prop) [∀ t s, Decidable (P t s)] :
    ∀ (t : Tree) (steps : List Step), Decidable (EachStep P t steps)
  | _, [] => .isTrue trivial
  | t, s :: steps =>
    haveI := decidableEachStep P (t.apply s).2 steps
    inferInstanceAs (Decidable (P t s ∧ EachStep P (t.apply s).2 steps))

/-- The tree after further steps. -/
def extend (t : Tree) (steps : List Step) : Tree := steps.foldl (fun t s => (t.apply s).2) t

theorem build_append (before after : List Step) :
    build (before ++ after) = (build before).extend after := by
  rw [build, List.foldl_append]
  rfl

variable {P Q : Tree → Step → Prop} {steps before after : List Step}

theorem EachStep.imp (h : EachStep P t steps) (hPQ : ∀ t s, P t s → Q t s) :
    EachStep Q t steps := by
  induction steps generalizing t with
  | nil => trivial
  | cons s steps ih => exact ⟨hPQ t s h.1, ih h.2⟩

theorem eachStep_append : EachStep P t (before ++ after) ↔
    EachStep P t before ∧ EachStep P (t.extend before) after := by
  induction before generalizing t with
  | nil => exact (iff_of_eq (true_and _)).symm
  | cons s before ih =>
    show P t s ∧ EachStep P (t.apply s).2 (before ++ after) ↔
      (P t s ∧ EachStep P (t.apply s).2 before) ∧ EachStep P ((t.apply s).2.extend before) after
    rw [ih, and_assoc]

/-- What every step keeps, the whole building keeps. -/
theorem EachStep.invariant (Inv : Tree → Prop) (h : EachStep P t steps) (hinit : Inv t)
    (hstep : ∀ t s, P t s → Inv t → Inv (t.apply s).2) : Inv (t.extend steps) := by
  induction steps generalizing t with
  | nil => exact hinit
  | cons s steps ih => exact ih h.2 (hstep t s h.1 hinit)

end Tree
end PathFacts
