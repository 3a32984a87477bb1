import PathFacts.Proofs.Tree.Chains
import PathFacts.Proofs.Tree.Parentheses

/-!
# Branches of conditionals

A tree remembers the condition of a conditional, but not its branches: which expressions feed a
conditional is found by two walks upwards.  For a tree that was built in order, so that every step
fits the tree it is applied to (`Tree.Step.Fits`), the answer is the expected one, and it is said
in terms of what stands inside of parentheses: an expression feeds a conditional exactly if inside
all its parentheses stands what stands inside all those of a branch (`Tree.feedsInto?_iff_branch`).

Two facts about parents carry the argument, and every step keeps them.  Parents and parentheses
agree (`Tree.Linked`): the one expression under a pair of parentheses is the one between them.
And a conditional is the parent of its three operands and of nothing else
(`Tree.IsConditionalOf`).
-/

namespace PathFacts.Tree

open Relation (TransGen ReflTransGen)

variable {t : Tree} {s : Step} {c e p x y condition a b : ExprId}

/-! ## Steps in order -/

/-- The expressions that a step puts another expression under by name. -/
def Step.hosts : Step → List ExprId
  | .attach _ parent => [parent]
  | _ => []

/-- Whether a step fits a tree: all that it mentions is there, it gives a parent only to
expressions without one and only once, and only a plain expression is named as a parent. -/
structure Step.Fits (t : Tree) (s : Step) : Prop where
  operands : ∀ x ∈ s.operands, x.index < t.exprs.size
  nodup : s.children.Nodup
  orphans : ∀ x ∈ s.children, t.parent? x = none
  hosts : ∀ x ∈ s.hosts, t.shape? x = some .plain

instance (t : Tree) (s : Step) : Decidable (s.Fits t) :=
  decidable_of_iff ((∀ x ∈ s.operands, x.index < t.exprs.size) ∧ s.children.Nodup ∧
      (∀ x ∈ s.children, t.parent? x = none) ∧ ∀ x ∈ s.hosts, t.shape? x = some .plain)
    ⟨fun h => ⟨h.1, h.2.1, h.2.2.1, h.2.2.2⟩, fun h => ⟨h.operands, h.nodup, h.orphans, h.hosts⟩⟩

theorem Step.Fits.enclosesKnown (h : s.Fits t) : s.EnclosesKnown t := by
  intro x hx
  cases s with
  | parenthesized inner => exact h.operands x hx
  | _ => cases hx

theorem Step.Fits.parent?_apply (h : s.Fits t) (e : ExprId) :
    (t.apply s).2.parent? e = if e ∈ s.children then some (s.parentIn t) else t.parent? e :=
  Tree.parent?_apply (fun x hx => h.operands x (Step.mem_operands_of_mem_children hx)) e

/-- A parent that was given stays. -/
theorem Step.Fits.parent?_apply_of_some (h : s.Fits t) (hp : t.parent? e = some p) :
    (t.apply s).2.parent? e = some p := by
  have hchild : e ∉ s.children := by
    intro he
    rw [h.orphans e he] at hp
    cases hp
  rw [h.parent?_apply, if_neg hchild, hp]

/-- A step puts its children under a plain expression or under the one that it adds, and if those
are parentheses, then around the child. -/
theorem Step.Fits.shape?_parentIn (h : s.Fits t) (hchild : e ∈ s.children) :
    (t.apply s).2.shape? (s.parentIn t) = some .plain ∨
      s.parentIn t = ⟨t.exprs.size⟩ ∧ ∃ shape, (t.apply s).2.shape? (s.parentIn t) = some shape ∧
        ∀ x, shape = .parenthesized x → x = e := by
  cases s with
  | parenthesized inner =>
    obtain rfl := List.mem_singleton.1 hchild
    refine Or.inr ⟨rfl, .parenthesized e, shape?_apply_self t _, ?_⟩
    intro x hx
    cases hx
    rfl
  | conditional k a b => exact Or.inr ⟨rfl, .conditional k, shape?_apply_self t _, nofun⟩
  | attach child parent =>
    have hplain : t.shape? parent = some .plain := h.hosts parent List.mem_cons_self
    left
    rw [Step.parentIn, shape?_apply_of_lt (index_lt_of_shape? hplain), hplain]
  | _ => cases hchild

/-! ## Parents and parentheses -/

/-- Parents are expressions of the tree, and parents and parentheses agree. -/
structure Linked (t : Tree) : Prop where
  parent_lt : ∀ {e p}, t.parent? e = some p → p.index < t.exprs.size
  parent_of_inner : ∀ {e p}, t.inner? p = some e → t.parent? e = some p
  inner_of_parent : ∀ {e p}, t.parent? e = some p → t.isParenthesized p = true →
    t.inner? p = some e

theorem linked_empty : Linked {} := by
  have hparent : ∀ e : ExprId, parent? {} e = none := fun _ => rfl
  constructor
  · intro e p h
    rw [hparent] at h
    cases h
  · intro e p h
    cases h
  · intro e p h
    rw [hparent] at h
    cases h

theorem isParenthesized_eq_true_iff :
    t.isParenthesized p = true ↔ ∃ x, t.shape? p = some (.parenthesized x) := by
  rw [isParenthesized, Option.isSome_iff_exists]
  simp only [inner?_eq_some_iff]

theorem Linked.apply (ht : t.Linked) (hs : s.Fits t) : (t.apply s).2.Linked := by
  constructor
  · intro e p h
    rw [hs.parent?_apply] at h
    split at h
    · rename_i hchild
      cases h
      rcases hs.shape?_parentIn hchild with hplain | ⟨-, shape, hshape, -⟩
      · exact index_lt_of_shape? hplain
      · exact index_lt_of_shape? hshape
    · exact Nat.lt_of_lt_of_le (ht.parent_lt h) (size_le_apply t s)
  · intro e p h
    rcases inner?_apply_cases h with ⟨rfl, rfl⟩ | ⟨-, hinner⟩
    · rw [hs.parent?_apply]
      exact if_pos List.mem_cons_self
    · exact hs.parent?_apply_of_some (ht.parent_of_inner hinner)
  · intro e p h hp
    obtain ⟨x, hx⟩ := isParenthesized_eq_true_iff.1 hp
    rw [hs.parent?_apply] at h
    split at h
    · rename_i hchild
      cases h
      rcases hs.shape?_parentIn hchild with hplain | ⟨-, shape, hshape, hsame⟩
      · rw [hplain] at hx
        cases hx
      · rw [hshape] at hx
        rw [inner?_eq_some_iff, hshape, Option.some.inj hx, hsame x (Option.some.inj hx)]
    · have hlt := ht.parent_lt h
      rw [inner?_apply_of_lt hlt]
      refine ht.inner_of_parent h (isParenthesized_eq_true_iff.2 ⟨x, ?_⟩)
      rwa [← shape?_apply_of_lt hlt]

/-! ## Operands of a conditional -/

/-- `c` is the conditional with this condition and these branches, and the parent of nothing
else. -/
structure IsConditionalOf (t : Tree) (c condition a b : ExprId) : Prop where
  condition_eq : t.condition? c = some condition
  parent_iff : ∀ {x}, t.parent? x = some c ↔ x = condition ∨ x = a ∨ x = b
  condition_ne : condition ≠ a ∧ condition ≠ b

theorem isConditionalOf_apply_conditional (ht : t.Linked)
    (hs : (Step.conditional condition a b).Fits t) :
    (t.apply (.conditional condition a b)).2.IsConditionalOf ⟨t.exprs.size⟩ condition a b := by
  refine ⟨?_, ?_, ?_⟩
  · rw [condition?_eq_some_iff, shape?_apply_self]
    rfl
  · intro x
    -- nobody was under the new expression before it was there
    have hnone : t.parent? x ≠ some ⟨t.exprs.size⟩ := fun h => Nat.lt_irrefl _ (ht.parent_lt h)
    have hmem : x ∈ (Step.conditional condition a b).children ↔
        x = condition ∨ x = a ∨ x = b := by
      simp [Step.children]
    rw [hs.parent?_apply, ← hmem]
    split
    · rename_i h
      exact iff_of_true rfl h
    · rename_i h
      exact iff_of_false hnone h
  · have hnodup : [condition, a, b].Nodup := hs.nodup
    simp only [List.nodup_cons, List.mem_cons, List.not_mem_nil, or_false, not_or] at hnodup
    exact hnodup.1

/-- Later steps put nothing under a conditional. -/
theorem IsConditionalOf.apply (h : t.IsConditionalOf c condition a b) (hs : s.Fits t) :
    (t.apply s).2.IsConditionalOf c condition a b := by
  have hshape := condition?_eq_some_iff.1 h.condition_eq
  have hlt := index_lt_of_shape? hshape
  have hshape' : (t.apply s).2.shape? c = some (.conditional condition) := by
    rw [shape?_apply_of_lt hlt, hshape]
  refine ⟨condition?_eq_some_iff.2 hshape', ?_, h.condition_ne⟩
  intro x
  rw [hs.parent?_apply, ← h.parent_iff]
  split
  · rename_i hchild
    have hne : s.parentIn t ≠ c := by
      rintro rfl
      rcases hs.shape?_parentIn hchild with hplain | ⟨hnew, -⟩
      · rw [hshape'] at hplain
        cases hplain
      · rw [hnew] at hlt
        exact Nat.lt_irrefl _ hlt
    rw [hs.orphans x hchild]
    simp [hne]
  · rfl

/-- Every conditional of a tree that was built in order has its operands, at the end as when it
was added. -/
theorem isConditionalOf_build {before after : List Step}
    (h : EachStep Step.Fits {} (before ++ .conditional condition a b :: after)) :
    (build (before ++ .conditional condition a b :: after)).IsConditionalOf
      ⟨(build before).exprs.size⟩ condition a b := by
  obtain ⟨hbefore, hs, hafter⟩ := eachStep_append.1 h
  have hlinked : (build before).Linked :=
    hbefore.invariant Linked linked_empty fun _ _ hs ht => ht.apply hs
  rw [build_append]
  exact hafter.invariant (IsConditionalOf · _ condition a b)
    (isConditionalOf_apply_conditional hlinked hs) fun _ _ hs h => h.apply hs

/-! ## The nearest expression around parentheses -/

/-- `p` stands around `x` with nothing but parentheses between. -/
def Wraps (t : Tree) : ExprId → ExprId → Prop := ReflTransGen fun x p => t.inner? p = some x

theorem Acyclic.enclosing?_of_parent (ht : t.Acyclic) (h : t.parent? e = some p) :
    t.enclosing? e = if t.isParenthesized p then t.enclosing? p else some p := by
  rw [enclosing?, ht.ancestors_of_parent h, List.find?_cons]
  cases hp : t.isParenthesized p <;> simp [enclosing?]

theorem exists_of_find?_ancestorsUpTo (hlinked : t.Linked) {n : Nat}
    (h : (t.ancestorsUpTo n x).find? (fun p => !t.isParenthesized p) = some c) :
    ∃ y, t.Wraps x y ∧ t.parent? y = some c := by
  induction n generalizing x with
  | zero => cases h
  | succ n ih =>
    cases hparent : t.parent? x with
    | none => simp [ancestorsUpTo, hparent] at h
    | some p =>
      simp only [ancestorsUpTo, hparent, List.find?_cons] at h
      cases hp : t.isParenthesized p with
      | false =>
        rw [hp] at h
        cases h
        exact ⟨x, .refl, hparent⟩
      | true =>
        rw [hp] at h
        obtain ⟨y, hy, hyc⟩ := ih h
        exact ⟨y, hy.head (hlinked.inner_of_parent hparent hp), hyc⟩

/-- The nearest ancestor that is no parenthesis is the parent of the outermost parentheses. -/
theorem enclosing?_eq_some_iff (hlinked : t.Linked) (ht : t.Acyclic) :
    t.enclosing? x = some c ↔
      t.isParenthesized c = false ∧ ∃ y, t.Wraps x y ∧ t.parent? y = some c := by
  constructor
  · intro h
    refine ⟨?_, exists_of_find?_ancestorsUpTo hlinked h⟩
    simpa using List.find?_some h
  · rintro ⟨hc, y, hy, hparent⟩
    induction hy using ReflTransGen.head_induction_on with
    | refl => simp [ht.enclosing?_of_parent hparent, hc]
    | head h _ ih =>
      have hp := isParenthesized_eq_true_iff.2 ⟨_, inner?_eq_some_iff.1 h⟩
      rw [ht.enclosing?_of_parent (hlinked.parent_of_inner h), if_pos hp, ih]

/-! ## What feeds a conditional -/

/-- `x` stands inside of `p`, at any depth. -/
def Inside (t : Tree) : ExprId → ExprId → Prop := TransGen fun x p => t.parent? x = some p

theorem Wraps.parents (hlinked : t.Linked) (h : t.Wraps x y) :
    ReflTransGen (fun x p => t.parent? x = some p) x y :=
  ReflTransGen.mono (fun _ _ hinner => hlinked.parent_of_inner hinner) _ _ h

theorem Wraps.unwrap_eq (ht : t.Transparent) (h : t.Wraps x y) : t.unwrap x = t.unwrap y := by
  induction h with
  | refl => rfl
  | tail _ hinner ih => rw [ih, ht.unwrap_of_inner? hinner]

/-- The outermost parentheses around an expression are told by what stands inside them. -/
theorem wraps_iff_unwrap_eq (ht : t.Transparent) (hlinked : t.Linked)
    (hc : t.isParenthesized c = false) (hy : t.parent? y = some c) :
    t.Wraps x y ↔ t.unwrap x = t.unwrap y := by
  refine ⟨Wraps.unwrap_eq ht, fun h => ?_⟩
  have hunique : Relator.RightUnique fun x p => t.inner? p = some x := fun z p q hp hq =>
    Option.some.inj ((hlinked.parent_of_inner hp).symm.trans (hlinked.parent_of_inner hq))
  have hx := ht.reflTransGen_unwrap x
  rw [h] at hx
  rcases ReflTransGen.total_of_right_unique hunique hx (ht.reflTransGen_unwrap y) with hxy | hyx
  · exact hxy
  · rcases hyx.cases_head with rfl | ⟨p, hp, -⟩
    · exact .refl
    · -- the parent of `y` is no parenthesis
      have hpc : p = c := Option.some.inj ((hlinked.parent_of_inner hp).symm.trans hy)
      rw [← hpc, isParenthesized, hp] at hc
      cases hc

/-- Two operands of an expression are the same if an expression stands in both. -/
theorem Acyclic.eq_of_common (ht : t.Acyclic)
    (hx : ReflTransGen (fun x p => t.parent? x = some p) e x)
    (hy : ReflTransGen (fun x p => t.parent? x = some p) e y)
    (hxc : t.parent? x = some c) (hyc : t.parent? y = some c) : x = y := by
  have hstep : ∀ {x y}, t.parent? x = some c → t.parent? y = some c →
      ReflTransGen (fun x p => t.parent? x = some p) x y → x = y := by
    intro x y hxc hyc hxy
    rcases hxy.cases_head with rfl | ⟨p, hp, hpy⟩
    · rfl
    · obtain rfl : p = c := Option.some.inj (hp.symm.trans hxc)
      exact absurd (TransGen.tail' hpy hyc) (ht p)
  have hunique : Relator.RightUnique fun x p => t.parent? x = some p :=
    fun _ _ _ hp hq => Option.some.inj (hp.symm.trans hq)
  rcases ReflTransGen.total_of_right_unique hunique hx hy with hxy | hyx
  · exact hstep hxc hyc hxy
  · exact (hstep hyc hxc hyx).symm

namespace IsConditionalOf

theorem isParenthesized_eq_false (h : t.IsConditionalOf c condition a b) :
    t.isParenthesized c = false := by
  have hshape := condition?_eq_some_iff.1 h.condition_eq
  rw [isParenthesized, inner?, hshape]
  rfl

theorem isConditional (h : t.IsConditionalOf c condition a b) : t.isConditional c = true := by
  rw [Tree.isConditional, h.condition_eq]
  rfl

/-- Of the expressions that a conditional is nearest around, those in the condition are told by
the operand that they stand in. -/
theorem inCondition_eq (h : t.IsConditionalOf c condition a b) (hlinked : t.Linked)
    (ht : t.Acyclic) (hxy : t.Wraps x y) (hy : t.parent? y = some c) :
    t.inCondition c x = (y == condition) := by
  have hk : t.parent? condition = some c := h.parent_iff.2 (Or.inl rfl)
  have hkc : condition ≠ c := by
    rintro rfl
    exact ht condition (.single hk)
  rw [inCondition, h.condition_eq]
  dsimp only
  induction hxy using ReflTransGen.head_induction_on with
  | refl =>
    have hyc : y ≠ c := by
      rintro rfl
      exact ht y (.single hy)
    rw [ht.ancestors_of_parent hy, List.find?_cons]
    by_cases hyk : y = condition
    · simp [hyk]
    · have hpass : (y == condition || y == c) = false := by simp [hyk, hyc]
      rw [hpass]
      simp [hyk, hkc.symm]
  | @head x z hinner hzy ih =>
    have hparent := hlinked.parent_of_inner hinner
    -- `x` stands in parentheses, and so is neither the condition nor the conditional
    have hxk : x ≠ condition := by
      rintro rfl
      have hzc : z = c := Option.some.inj (hparent.symm.trans hk)
      have hfalse := h.isParenthesized_eq_false
      rw [← hzc, isParenthesized, hinner] at hfalse
      cases hfalse
    have hxc : x ≠ c := by
      rintro rfl
      exact ht x (TransGen.head' hparent ((Wraps.parents hlinked hzy).tail hy))
    have hpass : (x == condition || x == c) = false := by simp [hxk, hxc]
    rw [List.find?_cons, hpass, ht.ancestors_of_parent hparent]
    exact ih

/-- A conditional is fed by what stands in no more than parentheses inside a branch. -/
theorem feedsInto?_eq_some_iff (h : t.IsConditionalOf c condition a b) (hlinked : t.Linked)
    (ht : t.Acyclic) :
    t.feedsInto? x = some c ↔ ∃ y, t.Wraps x y ∧ (y = a ∨ y = b) := by
  rw [feedsInto?, Option.filter_eq_some_iff, enclosing?_eq_some_iff hlinked ht]
  constructor
  · rintro ⟨⟨-, y, hxy, hy⟩, hfeeds⟩
    rw [h.isConditional, Bool.true_and, h.inCondition_eq hlinked ht hxy hy] at hfeeds
    rcases h.parent_iff.1 hy with rfl | hbranch
    · simp at hfeeds
    · exact ⟨y, hxy, hbranch⟩
  · rintro ⟨y, hxy, hbranch⟩
    have hy : t.parent? y = some c := h.parent_iff.2 (Or.inr hbranch)
    have hne : y ≠ condition := by
      rcases hbranch with rfl | rfl
      · exact h.condition_ne.1.symm
      · exact h.condition_ne.2.symm
    refine ⟨⟨h.isParenthesized_eq_false, y, hxy, hy⟩, ?_⟩
    rw [h.isConditional, Bool.true_and, h.inCondition_eq hlinked ht hxy hy]
    simp [hne]

/-- What feeds a conditional, in terms of what stands inside of parentheses. -/
theorem feedsInto?_iff_unwrap (h : t.IsConditionalOf c condition a b)
    (htransparent : t.Transparent) (hlinked : t.Linked) (ht : t.Acyclic) :
    t.feedsInto? x = some c ↔ t.unwrap x = t.unwrap a ∨ t.unwrap x = t.unwrap b := by
  have hwraps : ∀ {y}, y = a ∨ y = b → (t.Wraps x y ↔ t.unwrap x = t.unwrap y) := fun hy =>
    wraps_iff_unwrap_eq htransparent hlinked h.isParenthesized_eq_false
      (h.parent_iff.2 (Or.inr hy))
  rw [h.feedsInto?_eq_some_iff hlinked ht, ← hwraps (Or.inl rfl), ← hwraps (Or.inr rfl)]
  constructor
  · rintro ⟨y, hxy, rfl | rfl⟩
    · exact Or.inl hxy
    · exact Or.inr hxy
  · rintro (hxa | hxb)
    · exact ⟨a, hxa, Or.inl rfl⟩
    · exact ⟨b, hxb, Or.inr rfl⟩

/-- The condition and all that stands in it do not feed the conditional. -/
theorem not_feeds_of_inside_condition (h : t.IsConditionalOf c condition a b)
    (hlinked : t.Linked) (ht : t.Acyclic) (hx : x = condition ∨ t.Inside x condition) :
    t.feedsInto? x ≠ some c := by
  rw [Ne, h.feedsInto?_eq_some_iff hlinked ht]
  rintro ⟨y, hxy, hbranch⟩
  have hup : ReflTransGen (fun x p => t.parent? x = some p) x condition := by
    rcases hx with rfl | hx
    · exact .refl
    · exact hx.to_reflTransGen
  have hsame : y = condition := ht.eq_of_common (Wraps.parents hlinked hxy) hup
    (h.parent_iff.2 (Or.inr hbranch)) (h.parent_iff.2 (Or.inl rfl))
  rcases hbranch with rfl | rfl
  · exact h.condition_ne.1 hsame.symm
  · exact h.condition_ne.2 hsame.symm

/-- What stands deeper in a branch than in parentheses does not feed the conditional. -/
theorem not_feeds_of_inside_branch (h : t.IsConditionalOf c condition a b)
    (htransparent : t.Transparent) (hlinked : t.Linked) (ht : t.Acyclic)
    (hbranch : y = a ∨ y = b) (hx : t.Inside x (t.unwrap y)) : t.feedsInto? x ≠ some c := by
  rw [Ne, h.feedsInto?_eq_some_iff hlinked ht]
  rintro ⟨z, hxz, hz⟩
  have hy : ReflTransGen (fun x p => t.parent? x = some p) (t.unwrap y) y :=
    Wraps.parents hlinked (htransparent.reflTransGen_unwrap y)
  have hsame : z = y := ht.eq_of_common (Wraps.parents hlinked hxz)
    (hx.to_reflTransGen.trans hy) (h.parent_iff.2 (Or.inr hz)) (h.parent_iff.2 (Or.inr hbranch))
  have hunwrap : ReflTransGen (fun x p => t.parent? x = some p) (t.unwrap x) x :=
    Wraps.parents hlinked (htransparent.reflTransGen_unwrap x)
  rw [hxz.unwrap_eq htransparent, hsame] at hunwrap
  -- `x` would stand inside of what stands inside of `x`
  exact ht x (hx.trans_left hunwrap)

end IsConditionalOf

/-- Which expressions feed a conditional.  In a tree that is built in order and whose parents form
no cycle, an expression feeds the conditional with the branches `a` and `b` exactly if inside all
its parentheses stands what stands inside those of `a` or of `b`.  So neither the condition nor
anything in it does, and nothing that stands deeper in a branch.  All walks end by themselves:
the number of expressions cuts none of them off. -/
theorem feedsInto?_iff_branch {before after : List Step}
    (h : EachStep Step.Fits {} (before ++ .conditional condition a b :: after))
    (hacyclic : (build (before ++ .conditional condition a b :: after)).Acyclic) :
    let t := build (before ++ .conditional condition a b :: after)
    let c := ((build before).newConditional condition a b).1
    (∀ x, t.feedsInto? x = some c ↔ t.unwrap x = t.unwrap a ∨ t.unwrap x = t.unwrap b) ∧
      (∀ x, x = condition ∨ t.Inside x condition → t.feedsInto? x ≠ some c) ∧
      (∀ x, t.Inside x (t.unwrap a) ∨ t.Inside x (t.unwrap b) → t.feedsInto? x ≠ some c) ∧
      (∀ x, t.inner? (t.unwrap x) = none) ∧
      ∀ n, t.exprs.size ≤ n →
        ∀ x, t.unwrapUpTo n x = t.unwrap x ∧ t.ancestorsUpTo n x = t.ancestors x := by
  intro t c
  have htransparent : t.Transparent :=
    transparent_build (h.imp fun _ _ hs => hs.enclosesKnown)
  have hlinked : t.Linked := h.invariant Linked linked_empty fun _ _ hs ht => ht.apply hs
  have hc : t.IsConditionalOf c condition a b := isConditionalOf_build h
  refine ⟨?_, ?_, ?_, htransparent.inner?_unwrap, ?_⟩
  · intro x
    exact hc.feedsInto?_iff_unwrap htransparent hlinked hacyclic
  · intro x hx
    exact hc.not_feeds_of_inside_condition hlinked hacyclic hx
  · rintro x (hx | hx)
    · exact hc.not_feeds_of_inside_branch htransparent hlinked hacyclic (Or.inl rfl) hx
    · exact hc.not_feeds_of_inside_branch htransparent hlinked hacyclic (Or.inr rfl) hx
  · intro n hn x
    exact ⟨htransparent.unwrapUpTo_of_size_le hn x, hacyclic.ancestorsUpTo_of_size_le hn x⟩

/-- The conditional `(k) ? (-n) : ((b))`, with the operand `2` in the branch `3` and the branch
`5` in two pairs of parentheses: `3` and `5` feed it, the condition and the operand do not. -/
theorem feedsInto?_iff_branch_of_parentheses :
    let before : List Step := [.container, .unit ⟨0⟩ .method, .expr ⟨0⟩, .parenthesized ⟨0⟩,
      .expr ⟨0⟩, .expr ⟨0⟩, .attach ⟨2⟩ ⟨3⟩, .parenthesized ⟨3⟩, .expr ⟨0⟩, .parenthesized ⟨5⟩,
      .parenthesized ⟨6⟩]
    let after : List Step := [.parenthesized ⟨8⟩]
    let t := build (before ++ .conditional ⟨1⟩ ⟨4⟩ ⟨7⟩ :: after)
    EachStep Step.Fits {} (before ++ .conditional ⟨1⟩ ⟨4⟩ ⟨7⟩ :: after) ∧ t.Acyclic ∧
      t.feedsInto? ⟨3⟩ = some ⟨8⟩ ∧ t.feedsInto? ⟨5⟩ = some ⟨8⟩ ∧
      t.feedsInto? ⟨0⟩ ≠ some ⟨8⟩ ∧ t.feedsInto? ⟨2⟩ ≠ some ⟨8⟩ := by
  intro before after t
  have hsteps : EachStep Step.Fits {} (before ++ .conditional ⟨1⟩ ⟨4⟩ ⟨7⟩ :: after) := by decide
  have hacyclic : t.Acyclic := acyclic_of_parents_later (by decide)
  obtain ⟨hiff, hcondition, hdeeper, -⟩ := feedsInto?_iff_branch hsteps hacyclic
  have hoperand : t.Inside ⟨2⟩ (t.unwrap ⟨4⟩) := .single (by decide)
  refine ⟨hsteps, hacyclic, (hiff _).2 (Or.inl (by decide)), (hiff _).2 (Or.inr (by decide)),
    hcondition _ (Or.inr (.single (by decide))), hdeeper _ (Or.inl hoperand)⟩

end PathFacts.Tree
