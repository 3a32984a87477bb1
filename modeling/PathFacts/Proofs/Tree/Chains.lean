import PathFacts.Tree.Walks
import Mathlib.Data.List.Nodup
import Mathlib.Data.List.Perm.Subperm
import Mathlib.Data.List.Range
import Mathlib.Logic.Relation

/-!
# Chains of conditionals

The upward walks of a tree are bounded by the number of its expressions.  This file shows
that the bound cuts nothing off where parents form no cycle: whatever takes steps upwards
visits no expression twice and leaves only expressions of the tree, so it stops in time.

* `follow` is the walk along any partial function, cut off after a number of steps;
  `mem_follow_iff` says that it visits exactly what can be reached.
* `Tree.feedChain_eq` unfolds the chain of the conditionals that take over the values of
  an expression, and `Tree.mem_feedChain_iff` says that the chain holds exactly what the
  expression reaches.
-/

namespace PathFacts

open Relation (TransGen ReflTransGen)

/-! ## Following a partial function -/

/-- The expressions that at most `n` steps of `f` visit after `e`. -/
def follow (f : ExprId → Option ExprId) : Nat → ExprId → List ExprId
  | 0, _ => []
  | n + 1, e =>
    match f e with
    | none => []
    | some p => p :: follow f n p

section Follow

variable {f : ExprId → Option ExprId} {size n : Nat}

theorem follow_of_none {e : ExprId} (h : f e = none) (n : Nat) : follow f n e = [] := by
  cases n with
  | zero => rfl
  | succ n => simp [follow, h]

theorem follow_of_some {e p : ExprId} (h : f e = some p) (n : Nat) :
    follow f (n + 1) e = p :: follow f n p := by
  simp [follow, h]

theorem isChain_follow (n : Nat) (e : ExprId) :
    List.IsChain (fun x y => f x = some y) (e :: follow f n e) := by
  induction n generalizing e with
  | zero => simp [follow]
  | succ n ih =>
    cases h : f e with
    | none => simp [follow_of_none h]
    | some p =>
      rw [follow_of_some h, List.isChain_cons_cons]
      exact ⟨h, ih p⟩

/-- Later expressions of a walk are reached from earlier ones. -/
theorem pairwise_follow (n : Nat) (e : ExprId) :
    (e :: follow f n e).Pairwise (TransGen fun x y => f x = some y) :=
  ((isChain_follow n e).imp fun _ _ h => TransGen.single h).pairwise

theorem transGen_of_mem_follow {e x : ExprId} (h : x ∈ follow f n e) :
    TransGen (fun x y => f x = some y) e x :=
  List.rel_of_pairwise_cons (pairwise_follow n e) h

/-- Whatever a walk leaves again has a next expression. -/
theorem exists_next_of_mem_dropLast {e x : ExprId} (h : x ∈ (e :: follow f n e).dropLast) :
    ∃ y, f x = some y := by
  induction n generalizing e with
  | zero => simp [follow] at h
  | succ n ih =>
    cases hf : f e with
    | none => simp [follow_of_none hf] at h
    | some p =>
      rw [follow_of_some hf, List.dropLast_cons_cons, List.mem_cons] at h
      rcases h with rfl | h
      · exact ⟨p, hf⟩
      · exact ih h

/-- A walk that meets no cycle visits nothing twice. -/
theorem nodup_follow_of_forall {e : ExprId}
    (h : ∀ x ∈ e :: follow f n e, ¬ TransGen (fun x y => f x = some y) x x) :
    (e :: follow f n e).Nodup := by
  refine (pairwise_follow n e).imp_of_mem ?_
  rintro x y hx - hxy rfl
  exact h x hx hxy

variable (hsize : ∀ x y, f x = some y → x.index < size)
  (hf : ∀ e, ¬ TransGen (fun x y => f x = some y) e e)

include hf in
theorem nodup_follow (n : Nat) (e : ExprId) : (e :: follow f n e).Nodup :=
  nodup_follow_of_forall fun x _ => hf x

include hsize in
/-- A walk that visits nothing twice takes at most one step from each expression of the tree. -/
theorem length_follow_le_of_nodup {e : ExprId} (hnodup : (e :: follow f n e).Nodup) :
    (follow f n e).length ≤ size := by
  set left := (e :: follow f n e).dropLast with hleft
  have hleftNodup : (left.map ExprId.index).Nodup := by
    refine hnodup.sublist (List.dropLast_sublist _) |>.map ?_
    rintro ⟨i⟩ ⟨j⟩ h
    exact congrArg ExprId.mk h
  have hsub : left.map ExprId.index ⊆ List.range size := by
    intro i hi
    obtain ⟨x, hx, rfl⟩ := List.mem_map.1 hi
    obtain ⟨y, hy⟩ := exists_next_of_mem_dropLast hx
    exact List.mem_range.2 (hsize x y hy)
  calc (follow f n e).length = (left.map ExprId.index).length := by simp [hleft]
    _ ≤ (List.range size).length := (hleftNodup.subperm hsub).length_le
    _ = size := List.length_range

include hsize hf in
theorem length_follow_le (n : Nat) (e : ExprId) : (follow f n e).length ≤ size :=
  length_follow_le_of_nodup hsize (nodup_follow hf n e)

/-- A walk that stopped before its last step is not changed by taking that step away. -/
theorem follow_succ_of_length_le {e : ExprId} (h : (follow f (n + 1) e).length ≤ n) :
    follow f (n + 1) e = follow f n e := by
  induction n generalizing e with
  | zero => simpa [follow] using h
  | succ n ih =>
    cases hf : f e with
    | none => rw [follow_of_none hf, follow_of_none hf]
    | some p =>
      rw [follow_of_some hf] at h ⊢
      rw [follow_of_some hf, ih (by simpa using h)]

include hsize hf in
/-- The number of expressions is bound enough for a walk. -/
theorem follow_of_size_le (hn : size ≤ n) (e : ExprId) : follow f n e = follow f size e := by
  induction n, hn using Nat.le_induction with
  | base => rfl
  | succ n hn ih =>
    rw [follow_succ_of_length_le ((length_follow_le hsize hf (n + 1) e).trans hn), ih]

include hsize hf in
/-- A walk that is long enough continues as the walk from the next expression. -/
theorem follow_eq (hn : size ≤ n) {e p : ExprId} (h : f e = some p) :
    follow f n e = p :: follow f n p := by
  rw [← follow_succ_of_length_le ((length_follow_le hsize hf (n + 1) e).trans hn),
    follow_of_some h]

include hsize hf in
/-- A walk that is long enough visits exactly what can be reached. -/
theorem mem_follow_iff (hn : size ≤ n) {e x : ExprId} :
    x ∈ follow f n e ↔ TransGen (fun x y => f x = some y) e x := by
  refine ⟨transGen_of_mem_follow, fun h => ?_⟩
  induction h using TransGen.head_induction_on with
  | single h => simp [follow_eq hsize hf hn h]
  | head h _ ih => simp [follow_eq hsize hf hn h, ih]

end Follow

namespace Tree

variable {t : Tree} {e x y : ExprId}

/-! ## Parents -/

theorem ancestorsUpTo_eq_follow (t : Tree) (n : Nat) (e : ExprId) :
    t.ancestorsUpTo n e = follow t.parent? n e := by
  induction n generalizing e with
  | zero => rfl
  | succ n ih =>
    cases h : t.parent? e with
    | none => simp [ancestorsUpTo, h, follow_of_none h]
    | some p => simp [ancestorsUpTo, h, follow_of_some h, ih]

theorem index_lt_of_parent? (h : t.parent? x = some y) : x.index < t.exprs.size := by
  obtain ⟨node, hnode, -⟩ := Option.bind_eq_some_iff.1 h
  exact (Array.getElem?_eq_some_iff.1 hnode).1

/-- The ancestors of an expression go on as those of its parent. -/
theorem Acyclic.ancestors_of_parent (ht : t.Acyclic) (h : t.parent? e = some x) :
    t.ancestors e = x :: t.ancestors x := by
  rw [ancestors, ancestorsUpTo_eq_follow, ancestors, ancestorsUpTo_eq_follow,
    follow_eq (fun _ _ => index_lt_of_parent?) ht le_rfl h]

/-- The number of expressions is bound enough for going upwards. -/
theorem Acyclic.ancestorsUpTo_of_size_le (ht : t.Acyclic) {n : Nat} (hn : t.exprs.size ≤ n)
    (e : ExprId) : t.ancestorsUpTo n e = t.ancestors e := by
  rw [ancestors, ancestorsUpTo_eq_follow, ancestorsUpTo_eq_follow]
  exact follow_of_size_le (fun _ _ => index_lt_of_parent?) ht hn e

/-- What leads only to later expressions forms no cycle. -/
theorem not_transGen_of_index_lt {R : ExprId → ExprId → Prop}
    (h : ∀ x y, R x y → x.index < y.index) (e : ExprId) : ¬ TransGen R e e := by
  have hpath : ∀ {x y}, TransGen R x y → x.index < y.index := by
    intro x y hxy
    induction hxy with
    | single hlast => exact h _ _ hlast
    | tail _ hlast ih => exact ih.trans (h _ _ hlast)
  exact fun he => absurd (hpath he) (lt_irrefl _)

/-- Parents that come later than their children form no cycle. -/
theorem acyclic_of_parents_later
    (h : ∀ i : Fin t.exprs.size, (t.exprs[i].parent).all fun p => decide (i.val < p.index)) :
    t.Acyclic := by
  refine not_transGen_of_index_lt fun x y hxy => ?_
  have hx := index_lt_of_parent? hxy
  have hparent : t.exprs[x.index].parent = some y := by
    simpa [parent?, expr?, Array.getElem?_eq_getElem hx] using hxy
  simpa [hparent] using h ⟨x.index, hx⟩

/-- The tree of `c ? a : b`, where the four expressions are numbered in this order. -/
def ternary : Tree :=
  .build [.container, .unit ⟨0⟩ .method, .expr ⟨0⟩, .expr ⟨0⟩, .expr ⟨0⟩,
    .conditional ⟨0⟩ ⟨1⟩ ⟨2⟩]

theorem ternary_acyclic : ternary.Acyclic := acyclic_of_parents_later (by decide)

/-! ## Conditionals that take over a value -/

/-- The values of `x` are taken over by the conditional `y`. -/
def Feeds (t : Tree) (x y : ExprId) : Prop := t.feedsInto? x = some y

/-- `y` is `x` itself or takes over its values in one or more steps. -/
def Reaches (t : Tree) : ExprId → ExprId → Prop := ReflTransGen t.Feeds

/-- A conditional that takes over a value stands above it. -/
theorem Feeds.parent (h : t.Feeds x y) : TransGen (fun x p => t.parent? x = some p) x y := by
  have henc : t.enclosing? x = some y := (Option.filter_eq_some_iff.1 h).1
  have hmem : y ∈ t.ancestors x := List.mem_of_find?_eq_some henc
  rw [ancestors, ancestorsUpTo_eq_follow] at hmem
  exact transGen_of_mem_follow hmem

theorem Feeds.index_lt (h : t.Feeds x y) : x.index < t.exprs.size := by
  obtain ⟨p, hp, -⟩ := TransGen.head'_iff.1 h.parent
  exact index_lt_of_parent? hp

/-- Where parents form no cycle, neither do the conditionals that take over values. -/
theorem Acyclic.feeds (h : t.Acyclic) (e : ExprId) : ¬ TransGen t.Feeds e e :=
  fun he => h e (he.lift' id fun _ _ hxy => Feeds.parent hxy)

theorem reaches_iff_of_none (h : t.feedsInto? e = none) : t.Reaches e x ↔ e = x := by
  constructor
  · intro hx
    rcases hx.cases_head with rfl | ⟨p, hp, -⟩
    · rfl
    · exact absurd (h.symm.trans hp) (Option.some_ne_none p).symm
  · rintro rfl
    exact .refl

/-- An expression reaches itself and what its conditional reaches. -/
theorem reaches_iff_of_feeds (h : t.Feeds e y) : t.Reaches e x ↔ e = x ∨ t.Reaches y x := by
  constructor
  · intro hx
    rcases hx.cases_head with rfl | ⟨p, hp, hpx⟩
    · exact Or.inl rfl
    · obtain rfl : y = p := Option.some.inj (h.symm.trans hp)
      exact Or.inr hpx
  · rintro (rfl | hyx)
    · exact .refl
    · exact .head h hyx

theorem feedChainUpTo_eq_follow (t : Tree) (n : Nat) (e : ExprId) :
    t.feedChainUpTo n e = e :: follow t.feedsInto? n e := by
  induction n generalizing e with
  | zero => rfl
  | succ n ih =>
    cases h : t.feedsInto? e with
    | none => simp [feedChainUpTo, h, follow_of_none h]
    | some p => simp [feedChainUpTo, h, follow_of_some h, ih]

/-- A chain starts with its own expression. -/
theorem exists_feedChain_eq_cons (t : Tree) (e : ExprId) :
    ∃ rest, t.feedChain e = e :: rest :=
  ⟨_, feedChainUpTo_eq_follow t _ e⟩

theorem feedChain_of_none (h : t.feedsInto? e = none) : t.feedChain e = [e] := by
  rw [feedChain, feedChainUpTo_eq_follow, follow_of_none h]

/-- The chain of a branch goes on as the chain of its conditional. -/
theorem feedChain_of_feeds (ht : t.Acyclic) (h : t.Feeds e x) :
    t.feedChain e = e :: t.feedChain x := by
  rw [feedChain, feedChainUpTo_eq_follow, feedChain, feedChainUpTo_eq_follow,
    follow_eq (fun _ _ => Feeds.index_lt) ht.feeds le_rfl h]

theorem nodup_feedChain (ht : t.Acyclic) (e : ExprId) : (t.feedChain e).Nodup := by
  rw [feedChain, feedChainUpTo_eq_follow]
  exact nodup_follow ht.feeds _ e

/-- The chain of `e` holds exactly what `e` reaches. -/
theorem mem_feedChain_iff (ht : t.Acyclic) : x ∈ t.feedChain e ↔ t.Reaches e x := by
  rw [feedChain, feedChainUpTo_eq_follow, List.mem_cons,
    mem_follow_iff (fun _ _ => Feeds.index_lt) ht.feeds le_rfl, Reaches,
    Relation.reflTransGen_iff_eq_or_transGen]
  exact Iff.rfl

end Tree
end PathFacts
