import PathFacts.Proofs.Tree.Building
import PathFacts.Tree.Walks
import Mathlib.Logic.Relation

/-!
# Parentheses of a program tree

A tree whose parentheses were put around expressions that were there already is `Transparent`:
parentheses come after what stands between them, and share its unit and its constant.  All
steps keep that (`Tree.Transparent.apply`), because neither unit nor constant of an expression
is ever changed.

In such a tree going inwards ends, at an expression that is in no parentheses
(`Tree.Transparent.inner?_unwrap`), and what is asked of an expression may be asked of that one
as well (`Tree.Transparent.constant?_unwrap`, `Tree.Transparent.context?_unwrap`).
-/

namespace PathFacts.Tree

open Relation (ReflTransGen)

variable {t : Tree} {s : Step} {e p : ExprId}

/-! ## Going inwards -/

theorem unwrapUpTo_of_none (h : t.inner? e = none) (n : Nat) : t.unwrapUpTo n e = e := by
  cases n with
  | zero => rfl
  | succ n => rw [unwrapUpTo, h]

theorem unwrapUpTo_of_inner? (h : t.inner? p = some e) (n : Nat) :
    t.unwrapUpTo (n + 1) p = t.unwrapUpTo n e := by
  rw [unwrapUpTo, h]

theorem unwrap_of_none (h : t.inner? e = none) : t.unwrap e = e := unwrapUpTo_of_none h _

/-! ## Transparent trees -/

/-- Parentheses come after what stands between them, and share its unit and its constant. -/
structure Transparent (t : Tree) : Prop where
  index_lt : ∀ {p e}, t.inner? p = some e → e.index < p.index
  owner : ∀ {p e}, t.inner? p = some e →
    (t.expr? p).bind (·.owner) = (t.expr? e).bind (·.owner)
  constant : ∀ {p e}, t.inner? p = some e → t.constant? p = t.constant? e

namespace Transparent

/-- Nothing can be unwrapped more often than its number says. -/
theorem unwrapUpTo_of_index_le (ht : t.Transparent) {n m : Nat} (he : e.index ≤ n) (hm : n ≤ m) :
    t.unwrapUpTo m e = t.unwrapUpTo n e := by
  induction n generalizing e m with
  | zero =>
    cases h : t.inner? e with
    | none => rw [unwrapUpTo_of_none h, unwrapUpTo_of_none h]
    | some inner =>
      have hlt := ht.index_lt h
      omega
  | succ n ih =>
    cases h : t.inner? e with
    | none => rw [unwrapUpTo_of_none h, unwrapUpTo_of_none h]
    | some inner =>
      obtain ⟨m, rfl⟩ : ∃ k, m = k + 1 := ⟨m - 1, by omega⟩
      have hlt := ht.index_lt h
      rw [unwrapUpTo_of_inner? h, unwrapUpTo_of_inner? h]
      exact ih (by omega) (by omega)

/-- The number of expressions is bound enough for going inwards. -/
theorem unwrapUpTo_of_size_le (ht : t.Transparent) {n : Nat} (hn : t.exprs.size ≤ n)
    (e : ExprId) : t.unwrapUpTo n e = t.unwrap e := by
  cases h : t.inner? e with
  | none => rw [unwrapUpTo_of_none h, unwrap_of_none h]
  | some inner =>
    have hlt := index_lt_of_inner? h
    exact ht.unwrapUpTo_of_index_le (Nat.le_of_lt hlt) hn

/-- What stands inside all parentheses stands inside those of the inner expression. -/
theorem unwrap_of_inner? (ht : t.Transparent) (h : t.inner? p = some e) :
    t.unwrap p = t.unwrap e := by
  rw [← ht.unwrapUpTo_of_size_le (Nat.le_succ _), unwrapUpTo_of_inner? h]
  rfl

/-- What holds of every expression in no parentheses, and of parentheses with what stands between
them, holds of all expressions. -/
theorem induction_inward (ht : t.Transparent) {motive : ExprId → Prop}
    (bare : ∀ e, t.inner? e = none → motive e)
    (wrapped : ∀ p e, t.inner? p = some e → motive e → motive p) (e : ExprId) : motive e := by
  generalize hn : e.index = n
  induction n using Nat.strongRecOn generalizing e with
  | ind n ih =>
    cases hinner : t.inner? e with
    | none => exact bare e hinner
    | some inner =>
      have hlt : inner.index < n := hn ▸ ht.index_lt hinner
      exact wrapped e inner hinner (ih _ hlt inner rfl)

/-- Going inwards ends at an expression that is in no parentheses. -/
theorem inner?_unwrap (ht : t.Transparent) (e : ExprId) : t.inner? (t.unwrap e) = none := by
  induction e using ht.induction_inward with
  | bare e h => rwa [unwrap_of_none h]
  | wrapped p e h ih => rwa [ht.unwrap_of_inner? h]

@[simp] theorem unwrap_unwrap (ht : t.Transparent) (e : ExprId) :
    t.unwrap (t.unwrap e) = t.unwrap e :=
  unwrap_of_none (ht.inner?_unwrap e)

/-- Going inwards takes one pair of parentheses after the other. -/
theorem reflTransGen_unwrap (ht : t.Transparent) (e : ExprId) :
    ReflTransGen (fun x p => t.inner? p = some x) (t.unwrap e) e := by
  induction e using ht.induction_inward with
  | bare e h => rw [unwrap_of_none h]
  | wrapped p e h ih =>
    rw [ht.unwrap_of_inner? h]
    exact ih.tail h

theorem constant?_unwrap (ht : t.Transparent) (e : ExprId) :
    t.constant? (t.unwrap e) = t.constant? e := by
  induction e using ht.induction_inward with
  | bare e h => rw [unwrap_of_none h]
  | wrapped p e h ih => rw [ht.unwrap_of_inner? h, ih, ht.constant h]

/-- Parentheses belong to the unit that covers what stands inside them. -/
theorem context?_unwrap (ht : t.Transparent) (e : ExprId) :
    t.context? (t.unwrap e) = t.context? e := by
  induction e using ht.induction_inward with
  | bare e h => rw [unwrap_of_none h]
  | wrapped p e h ih => rw [ht.unwrap_of_inner? h, ih, context?, context?, ht.owner h]

end Transparent

/-! ## Building transparent trees -/

/-- The expression that a step puts parentheses around. -/
def Step.enclosed : Step → List ExprId
  | .parenthesized inner => [inner]
  | _ => []

/-- Whether a step puts parentheses around nothing but an expression of the tree. -/
def Step.EnclosesKnown (t : Tree) (s : Step) : Prop := ∀ x ∈ s.enclosed, x.index < t.exprs.size

instance (t : Tree) (s : Step) : Decidable (s.EnclosesKnown t) :=
  inferInstanceAs (Decidable (∀ x ∈ s.enclosed, x.index < t.exprs.size))

theorem transparent_empty : Transparent {} := by
  have hnone : ∀ p : ExprId, inner? {} p = none := fun _ => rfl
  constructor <;>
  · intro p e h
    rw [hnone] at h
    cases h

/-- Only a step that puts parentheses around an expression adds parentheses. -/
theorem eq_parenthesized_of_inner?_apply
    (h : (t.apply s).2.inner? ⟨t.exprs.size⟩ = some e) : s = .parenthesized e := by
  rw [inner?_eq_some_iff, shape?_apply_self] at h
  cases s <;> simp_all [Step.newNode?]

theorem inner?_apply_of_lt (h : p.index < t.exprs.size) : (t.apply s).2.inner? p = t.inner? p := by
  rw [inner?, shape?_apply_of_lt h, inner?]

/-- The parentheses after a step are the new ones or those that were there before. -/
theorem inner?_apply_cases (h : (t.apply s).2.inner? p = some e) :
    (p = ⟨t.exprs.size⟩ ∧ s = .parenthesized e) ∨
      (p.index < t.exprs.size ∧ t.inner? p = some e) := by
  by_cases hp : p = ⟨t.exprs.size⟩
  · subst hp
    exact Or.inl ⟨rfl, eq_parenthesized_of_inner?_apply h⟩
  · rw [inner?_eq_some_iff, shape?_eq, node?_apply, if_neg hp, ← shape?_eq] at h
    exact Or.inr ⟨index_lt_of_shape? h, inner?_eq_some_iff.2 h⟩

theorem Transparent.apply (ht : t.Transparent) (hs : s.EnclosesKnown t) :
    (t.apply s).2.Transparent := by
  -- unit and constant are parts of the entry, which is copied once and kept from then on
  have hentry : ∀ {p e}, (t.apply s).2.inner? p = some e → e.index < p.index ∧
      ((t.apply s).2.node? p).bind (·.owner) = ((t.apply s).2.node? e).bind (·.owner) ∧
      ((t.apply s).2.node? p).bind (·.constant) =
        ((t.apply s).2.node? e).bind (·.constant) := by
    intro p e h
    rcases inner?_apply_cases h with ⟨rfl, rfl⟩ | ⟨hlt, hinner⟩
    · have he : e.index < t.exprs.size := hs e List.mem_cons_self
      refine ⟨he, ?_⟩
      rw [node?_apply_of_lt he, node?_apply, if_pos rfl, Step.newNode?, Option.bind_some,
        Option.bind_some, owner_eq, constant?_eq]
      exact ⟨rfl, rfl⟩
    · have he := ht.index_lt hinner
      rw [node?_apply_of_lt hlt, node?_apply_of_lt (Nat.lt_trans he hlt), ← owner_eq, ← owner_eq,
        ← constant?_eq, ← constant?_eq]
      exact ⟨he, ht.owner hinner, ht.constant hinner⟩
  constructor
  · exact fun h => (hentry h).1
  · intro p e h
    rw [owner_eq, owner_eq]
    exact (hentry h).2.1
  · intro p e h
    rw [constant?_eq, constant?_eq]
    exact (hentry h).2.2

/-- A tree is transparent if parentheses were put only around expressions that were there. -/
theorem transparent_build {steps : List Step} (h : EachStep Step.EnclosesKnown {} steps) :
    (build steps).Transparent :=
  h.invariant Transparent transparent_empty fun _ _ hs ht => ht.apply hs

end PathFacts.Tree
