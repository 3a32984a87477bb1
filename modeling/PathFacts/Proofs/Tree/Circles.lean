import PathFacts.Proofs.Tree.Branches

/-!
# Parentheses in a circle

Parentheses remember what stands between them, and that has a parent of its own.  Where an
expression is mentioned before it is there, the two come apart: the parentheses enclose it, and
it has no parent.  So parentheses can stand inside themselves though no expression is its own
ancestor, and then going inwards has no end.

It ends everywhere else (`Tree.exists_unwrapUpTo_iff`), and then within as many steps as there
are expressions, which `Tree.unwrap?` tells (`Tree.unwrap?_eq_some_iff`).  A circle has a link
that breaks any given order (`Tree.Circular.exists_link`): one goes to a number that was not
handed out when the parentheses were made, and one to an expression with another parent or none.
-/

namespace PathFacts.Tree

open Relation (TransGen ReflTransGen)

variable {t : Tree} {steps : List Step} {e p x y r : ExprId} {n m : Nat}

/-! ## Where going inwards ends -/

/-- Whether `e` stands inside itself. -/
def Circular (t : Tree) (e : ExprId) : Prop := TransGen (fun x p => t.inner? p = some x) e e

theorem isParenthesized_eq_false_iff : t.isParenthesized e = false ↔ t.inner? e = none := by
  rw [isParenthesized, Option.isSome_eq_false_iff, Option.isNone_iff_eq_none]

/-- Once it ended, going on changes nothing. -/
theorem unwrapUpTo_of_le (h : t.inner? (t.unwrapUpTo n e) = none) (hle : n ≤ m) :
    t.unwrapUpTo m e = t.unwrapUpTo n e := by
  induction n generalizing e m with
  | zero => exact unwrapUpTo_of_none h m
  | succ n ih =>
    cases hinner : t.inner? e with
    | none => rw [unwrapUpTo_of_none hinner, unwrapUpTo_of_none hinner]
    | some x =>
      obtain ⟨m, rfl⟩ : ∃ k, m = k + 1 := ⟨m - 1, by omega⟩
      rw [unwrapUpTo_of_inner? hinner n] at h ⊢
      rw [unwrapUpTo_of_inner? hinner m]
      exact ih h (Nat.le_of_succ_le_succ hle)

/-- A walk inwards that does not take all its steps ended before. -/
theorem inner?_unwrapUpTo_of_length_le (h : (follow t.inner? (n + 1) e).length ≤ n) :
    t.inner? (t.unwrapUpTo n e) = none := by
  induction n generalizing e with
  | zero =>
    cases hinner : t.inner? e with
    | none => exact hinner
    | some x =>
      rw [follow_of_some hinner] at h
      exact absurd h (Nat.not_succ_le_zero _)
  | succ n ih =>
    cases hinner : t.inner? e with
    | none => rwa [unwrapUpTo_of_none hinner]
    | some x =>
      rw [follow_of_some hinner] at h
      rw [unwrapUpTo_of_inner? hinner]
      exact ih (Nat.le_of_succ_le_succ h)

/-- Where no circle stands inside, the number of expressions is bound enough. -/
theorem inner?_unwrap_of_forall (h : ∀ x, t.Wraps x e → ¬ t.Circular x) :
    t.inner? (t.unwrap e) = none := by
  have hnodup : (e :: follow t.inner? (t.exprs.size + 1) e).Nodup := by
    refine nodup_follow_of_forall fun x hx hcircle => ?_
    refine h x ?_ (Relation.transGen_swap.1 hcircle)
    rcases List.mem_cons.1 hx with rfl | hx
    · exact .refl
    · exact (Relation.transGen_swap.1 (transGen_of_mem_follow hx)).to_reflTransGen
  refine inner?_unwrapUpTo_of_length_le ?_
  exact length_follow_le_of_nodup (fun _ _ hinner => index_lt_of_inner? hinner) hnodup

/-- Outside a circle there are only parentheses. -/
theorem Circular.exists_inner? (hcircle : t.Circular x) (hx : t.Wraps x e) :
    ∃ p, t.inner? e = some p ∧ t.Wraps x p := by
  rcases hx.cases_tail with rfl | ⟨p, hp, hinner⟩
  · obtain ⟨p, hp, hinner⟩ := TransGen.tail'_iff.1 hcircle
    exact ⟨p, hinner, hp⟩
  · exact ⟨p, hinner, hp⟩

/-- Going inwards to a circle never ends. -/
theorem Circular.isParenthesized_unwrapUpTo (hcircle : t.Circular x) (hx : t.Wraps x e) (n : Nat) :
    t.isParenthesized (t.unwrapUpTo n e) = true := by
  obtain ⟨p, hinner, hp⟩ := hcircle.exists_inner? hx
  induction n generalizing e p with
  | zero =>
    rw [isParenthesized, unwrapUpTo, hinner]
    rfl
  | succ n ih =>
    obtain ⟨p', hinner', hp'⟩ := hcircle.exists_inner? hp
    rw [unwrapUpTo_of_inner? hinner]
    exact ih hp p' hinner' hp'

/-- Going inwards ends unless it comes to a circle. -/
theorem exists_unwrapUpTo_iff :
    (∃ n, t.isParenthesized (t.unwrapUpTo n e) = false) ↔
      ∀ x, t.Wraps x e → ¬ t.Circular x := by
  constructor
  · rintro ⟨n, hn⟩ x hx hcircle
    rw [hcircle.isParenthesized_unwrapUpTo hx n] at hn
    cases hn
  · intro h
    exact ⟨t.exprs.size, isParenthesized_eq_false_iff.2 (inner?_unwrap_of_forall h)⟩

/-- `Tree.unwrap?` tells where going inwards ends. -/
theorem unwrap?_eq_some_iff :
    t.unwrap? e = some r ↔ ∃ n, t.unwrapUpTo n e = r ∧ t.isParenthesized r = false := by
  rw [unwrap?]
  constructor
  · intro h
    split at h
    · cases h
    · rename_i hbare
      cases h
      exact ⟨t.exprs.size, rfl, Bool.eq_false_iff.2 hbare⟩
  · rintro ⟨n, rfl, hn⟩
    have hsize := inner?_unwrap_of_forall (exists_unwrapUpTo_iff.1 ⟨n, hn⟩)
    have hsame : t.unwrap e = t.unwrapUpTo n e := by
      rcases Nat.le_total n t.exprs.size with hle | hle
      · exact unwrapUpTo_of_le (isParenthesized_eq_false_iff.1 hn) hle
      · exact (unwrapUpTo_of_le hsize hle).symm
    rw [hsame, hn]
    rfl

/-! ## How a circle comes about -/

/-- A chain whose links are all of one kind. -/
theorem transGen_of_links {L R : ExprId → ExprId → Prop} (h : TransGen L x e)
    (hR : ∀ y p, ReflTransGen L x y → L y p → ReflTransGen L p e → R y p) : TransGen R x e := by
  induction h with
  | single hlink => exact .single (hR _ _ .refl hlink .refl)
  | tail hchain hlink ih =>
    refine TransGen.tail (ih fun y p hy hyp hp => hR y p hy hyp (hp.tail hlink)) ?_
    exact hR _ _ hchain.to_reflTransGen hlink .refl

/-- A relation without cycles does not hold all along a circle. -/
theorem Circular.exists_link {R : ExprId → ExprId → Prop} (hR : ∀ e, ¬ TransGen R e e)
    (h : t.Circular x) :
    ∃ y p, t.inner? p = some y ∧ ¬ R y p ∧ t.Wraps x y ∧ t.Wraps p x := by
  by_contra hnone
  refine hR x (transGen_of_links h fun y p hy hyp hp => ?_)
  by_contra hbroken
  exact hnone ⟨y, p, hyp, hbroken, hy, hp⟩

/-- Parentheses were made around what stands between them, and have the number that was then
handed out. -/
theorem exists_step_of_inner? (h : (build steps).inner? p = some e) :
    ∃ before after, steps = before ++ .parenthesized e :: after ∧
      p = ⟨(build before).exprs.size⟩ := by
  induction steps using List.reverseRecOn with
  | nil => cases h
  | append_singleton steps s ih =>
    rw [build_append] at h
    rcases inner?_apply_cases h with ⟨rfl, rfl⟩ | ⟨-, hinner⟩
    · exact ⟨steps, [], rfl, rfl⟩
    · obtain ⟨before, after, rfl, rfl⟩ := ih hinner
      exact ⟨before, after ++ [s], by simp, rfl⟩

/-- On a circle stand parentheses that were made around a number not handed out by then. -/
theorem Circular.exists_step (h : (build steps).Circular x) :
    ∃ before y after, steps = before ++ .parenthesized y :: after ∧
      (build before).exprs.size ≤ y.index ∧
      (build steps).Wraps x y ∧ (build steps).Wraps ⟨(build before).exprs.size⟩ x := by
  obtain ⟨y, p, hinner, hlate, hy, hp⟩ :=
    h.exists_link (R := fun y p => y.index < p.index)
      (not_transGen_of_index_lt fun _ _ hlt => hlt)
  obtain ⟨before, after, hsteps, rfl⟩ := exists_step_of_inner? hinner
  exact ⟨before, y, after, hsteps, Nat.le_of_not_lt hlate, hy, hp⟩

/-- In a tree whose parents form no cycle, going inwards ends unless it comes to a circle of
parentheses, and `Tree.unwrap?` tells where it ends.  A circle comes about only if parentheses
are made around a number that was not handed out by then, and the parentheses on it are not all
parents of what stands between them. -/
theorem unwrapping_ends_unless_circular (ht : (build steps).Acyclic) :
    (∀ e, (∃ n, (build steps).isParenthesized ((build steps).unwrapUpTo n e) = false) ↔
      ∀ x, (build steps).Wraps x e → ¬ (build steps).Circular x) ∧
    (∀ e r, (build steps).unwrap? e = some r ↔
      ∃ n, (build steps).unwrapUpTo n e = r ∧ (build steps).isParenthesized r = false) ∧
    (∀ x, (build steps).Circular x →
      (∃ before y after, steps = before ++ .parenthesized y :: after ∧
        (build before).exprs.size ≤ y.index ∧
        (build steps).Wraps x y ∧ (build steps).Wraps ⟨(build before).exprs.size⟩ x) ∧
      ∃ y p, (build steps).inner? p = some y ∧ (build steps).parent? y ≠ some p ∧
        (build steps).Wraps x y ∧ (build steps).Wraps p x) ∧
    (EachStep Step.EnclosesKnown {} steps →
      ∀ e, ∃ n, (build steps).isParenthesized ((build steps).unwrapUpTo n e) = false) := by
  refine ⟨fun e => exists_unwrapUpTo_iff, fun e r => unwrap?_eq_some_iff, ?_, ?_⟩
  · intro x hcircle
    exact ⟨hcircle.exists_step, hcircle.exists_link ht⟩
  · intro hknown e
    have hbare := (transparent_build hknown).inner?_unwrap e
    exact ⟨(build steps).exprs.size, isParenthesized_eq_false_iff.2 hbare⟩

/-- Parentheses around an expression that comes after them, and parentheses around those. -/
def earlyParentheses : List Step :=
  [.container, .unit ⟨0⟩ .method, .parenthesized ⟨1⟩, .expr ⟨0⟩, .parenthesized ⟨0⟩]

/-- Mentioning an expression early is not enough for a circle. -/
theorem unwrapping_ends_of_early_parentheses :
    (build earlyParentheses).Acyclic ∧
      (∀ x, (build earlyParentheses).Wraps x ⟨2⟩ → ¬ (build earlyParentheses).Circular x) ∧
      (build earlyParentheses).unwrap? ⟨2⟩ = some ⟨1⟩ := by
  have ht : (build earlyParentheses).Acyclic := acyclic_of_parents_later (by decide)
  obtain ⟨hends, hunwrap, -⟩ := unwrapping_ends_unless_circular ht
  exact ⟨ht, (hends ⟨2⟩).1 ⟨2, by decide⟩, (hunwrap ⟨2⟩ ⟨1⟩).2 ⟨2, by decide⟩⟩

/-- Parentheses around others that come after them, and are put around the first ones. -/
def crossedParentheses : List Step :=
  [.container, .unit ⟨0⟩ .method, .parenthesized ⟨1⟩, .parenthesized ⟨0⟩]

/-- No expression is its own ancestor, and still going inwards never ends. -/
theorem no_end_of_crossed_parentheses :
    (build crossedParentheses).Acyclic ∧
      ¬ ∃ n, (build crossedParentheses).isParenthesized
        ((build crossedParentheses).unwrapUpTo n ⟨0⟩) = false := by
  have hcircle : (build crossedParentheses).Circular ⟨0⟩ :=
    .tail (.single (b := ⟨1⟩) (by decide)) (by decide)
  refine ⟨acyclic_of_parents_later (by decide), ?_⟩
  intro hends
  exact exists_unwrapUpTo_iff.1 hends ⟨0⟩ .refl hcircle

end PathFacts.Tree
