import PathFacts.Proofs.Body.Run

/-!
# Recording only adds

One call of `Body.record` may observe the same expression many times, in either view.  Whatever
it does, it takes nothing away: `Body.evidenceIn_record_cases` lists the three things that can
happen to one expression in one view, and everything here is read off that list.

* `Body.record_only_adds` says where a push may add, and what it has to leave alone.
* `Body.growsTo_recordAll` says that evidence grows along every run.
* `Body.record_record` says that a push recorded twice leaves the very same body as once.  What
  the second call reaches, the first has reached before it, because a call takes nothing away
  that is top; so the second one observes again what was observed already.
-/

namespace PathFacts.Body

open Relation (ReflTransGen)

variable {t : Tree} {b c : Body} {m : Memory} {value : Pushed} {e x : ExprId} {v : View}

/-! ## Bodies and what they show -/

theorem view_eq_of_evidenceIn (h : ∀ x, b.evidenceIn v x = c.evidenceIn v x) :
    b.view v = c.view v :=
  Std.ExtTreeMap.ext_getElem? h

/-- The disabled view is either shared or a view of its own. -/
theorem disabled_eq (b : Body) :
    b.disabled = if b.hasDiverged then some (b.view .disabled) else none := by
  obtain ⟨primary, disabled, status⟩ := b
  cases disabled <;> rfl

/-- A body is no more than its status, its two views and whether they are kept apart. -/
theorem eq_of_evidenceIn (hstatus : b.status = c.status) (hdiv : b.hasDiverged = c.hasDiverged)
    (h : ∀ v x, b.evidenceIn v x = c.evidenceIn v x) : b = c := by
  have hprimary : b.primary = c.primary := view_eq_of_evidenceIn (h .primary)
  have hdisabled : b.disabled = c.disabled := by
    rw [disabled_eq, disabled_eq, hdiv, view_eq_of_evidenceIn (h .disabled)]
  cases b
  cases c
  simp_all

/-! ## What one push can do -/

/-- All that a push can do to one expression in one view: nothing; an observation, if the
expression takes over the pushed value and the push counts in the view; or a mark, if the
contract of that very expression was broken. -/
theorem evidenceIn_record_cases (ht : t.Acyclic) (b : Body) (e : ExprId) (m : Memory)
    (value : Pushed) (v : View) (x : ExprId) :
    (b.record t e m value).evidenceIn v x = b.evidenceIn v x ∨
      m.countsIn v = true ∧ value ≠ .contractFailure ∧ t.Reaches e x ∧
        (b.record t e m value).evidenceIn v x =
          some (((b.evidenceIn v x).getD {}).observe m value) ∨
      m.countsIn v = true ∧ value = .contractFailure ∧ e = x ∧
        (b.record t e m value).evidenceIn v x = some ((b.evidenceIn v x).getD {}).markFailure := by
  by_cases hfail : value = .contractFailure
  · rw [hfail, evidenceIn_record_failure]
    split
    · rename_i h
      exact Or.inr (Or.inr ⟨h.1, rfl, h.2, rfl⟩)
    · exact Or.inl rfl
  · rw [evidenceIn_record ht hfail]
    split
    · rename_i h
      have hreach : t.Reaches e x := (Tree.mem_feedChain_iff ht).1 (mem_of_mem_reached h.2)
      exact Or.inr (Or.inl ⟨h.1, hfail, hreach, rfl⟩)
    · exact Or.inl rfl

/-- A push leaves a view alone in which it does not count. -/
theorem evidenceIn_record_of_not_counts (ht : t.Acyclic) (b : Body) (e : ExprId)
    (hcounts : m.countsIn v = false) (value : Pushed) (x : ExprId) :
    (b.record t e m value).evidenceIn v x = b.evidenceIn v x := by
  rcases evidenceIn_record_cases ht b e m value v x with h | ⟨h, -⟩ | ⟨h, -⟩
  · exact h
  · simp [hcounts] at h
  · simp [hcounts] at h

/-- What was seen of an expression is seen after a push as well. -/
theorem isSome_evidenceIn_record (ht : t.Acyclic) (e : ExprId) (m : Memory) (value : Pushed)
    (h : (b.evidenceIn v x).isSome = true) :
    ((b.record t e m value).evidenceIn v x).isSome = true := by
  rcases evidenceIn_record_cases ht b e m value v x with h' | ⟨-, -, -, h'⟩ | ⟨-, -, -, h'⟩
  · rwa [h']
  · rw [h', Option.isSome_some]
  · rw [h', Option.isSome_some]

/-- Evidence grows with a push. -/
theorem growsTo_record (ht : t.Acyclic) (b : Body) (e : ExprId) (m : Memory) (value : Pushed)
    (v : View) (x : ExprId) :
    ((b.evidenceIn v x).getD {}).GrowsTo (((b.record t e m value).evidenceIn v x).getD {}) := by
  rcases evidenceIn_record_cases ht b e m value v x with h | ⟨-, -, -, h⟩ | ⟨-, -, -, h⟩
  · rw [h]
    exact Evidence.growsTo_refl _
  · rw [h]
    exact Evidence.growsTo_observe _ m value
  · rw [h]
    exact Evidence.growsTo_markFailure _

/-- No other contract is marked than that of the expression itself. -/
theorem mayFail_record_of_ne (ht : t.Acyclic) (b : Body) (m : Memory) (value : Pushed) (v : View)
    (hx : x ≠ e) :
    (((b.record t e m value).evidenceIn v x).getD {}).mayFail =
      ((b.evidenceIn v x).getD {}).mayFail := by
  rcases evidenceIn_record_cases ht b e m value v x with h | ⟨-, -, -, h⟩ | ⟨-, -, hex, -⟩
  · rw [h]
  · rw [h, Option.getD_some, Evidence.mayFail_observe]
  · exact absurd hex.symm hx

/-- Evidence grows along every run. -/
theorem growsTo_recordAll (ht : t.Acyclic) (ps : List Push) (b : Body) (v : View) (x : ExprId) :
    ((b.evidenceIn v x).getD {}).GrowsTo (((recordAll t ps b).evidenceIn v x).getD {}) := by
  induction ps generalizing b with
  | nil => exact Evidence.growsTo_refl _
  | cons p ps ih =>
    exact (growsTo_record ht b p.target p.memory p.value v x).trans (ih (p.record t b))

/-- A push only adds, and only where it may.  In both views nothing that was seen gets lost,
evidence grows, and only `e` and what takes over its values in any number of steps can change,
a mark of a broken contract only at `e`.  A flag that is provably true keeps the push out of
the primary view, one that is provably false out of the view with assertions disabled, which
from then on is kept apart.  A broken contract changes no other expression. -/
theorem record_only_adds (ht : t.Acyclic) (b : Body) (e : ExprId) (m : Memory)
    (value : Pushed) :
    let c := b.record t e m value
    (∀ v x, (b.evidenceIn v x).isSome = true → (c.evidenceIn v x).isSome = true) ∧
    (∀ v x, ¬ ReflTransGen (fun y z => t.feedsInto? y = some z) e x →
      c.evidenceIn v x = b.evidenceIn v x) ∧
    (∀ v x, ((b.evidenceIn v x).getD {}).GrowsTo ((c.evidenceIn v x).getD {})) ∧
    (∀ v x, x ≠ e →
      ((c.evidenceIn v x).getD {}).mayFail = ((b.evidenceIn v x).getD {}).mayFail) ∧
    (m.assertionsDisabled = some true → c.primary = b.primary) ∧
    (m.assertionsDisabled = some false → c.disabled = some (b.disabled.getD b.primary)) ∧
    (value = .contractFailure → ∀ v x, x ≠ e → c.evidenceIn v x = b.evidenceIn v x) ∧
    c.hasDiverged = (b.hasDiverged || m.assertionsDisabled.isSome) ∧ c.status = b.status := by
  intro c
  have hdiv : c.hasDiverged = (b.hasDiverged || m.assertionsDisabled.isSome) :=
    hasDiverged_record ht b e m value
  refine ⟨?_, ?_, ?_, ?_, ?_, ?_, ?_, hdiv, status_record t e m value b⟩
  · intro v x h
    exact isSome_evidenceIn_record ht e m value h
  · intro v x hx
    rcases evidenceIn_record_cases ht b e m value v x with h | ⟨-, -, hreach, -⟩ | ⟨-, -, hex, -⟩
    · exact h
    · exact absurd hreach hx
    · exact absurd (hex ▸ ReflTransGen.refl) hx
  · exact growsTo_record ht b e m value
  · intro v x hx
    exact mayFail_record_of_ne ht b m value v hx
  · intro hflag
    have hcounts : m.countsIn .primary = false := by simp [Memory.countsIn, hflag]
    exact view_eq_of_evidenceIn (evidenceIn_record_of_not_counts ht b e hcounts value)
  · intro hflag
    have hcounts : m.countsIn .disabled = false := by simp [Memory.countsIn, hflag]
    have hview : c.view .disabled = b.view .disabled :=
      view_eq_of_evidenceIn (evidenceIn_record_of_not_counts ht b e hcounts value)
    rw [disabled_eq, hdiv, hflag, Option.isSome_some, Bool.or_true, if_pos rfl, hview, view]
  · intro hfail v x hx
    rcases evidenceIn_record_cases ht b e m value v x with h | ⟨-, hne, -⟩ | ⟨-, -, hex, -⟩
    · exact h
    · exact absurd hfail hne
    · exact absurd hex.symm hx

/-- Three pushes for a branch.  The first counts only where assertions are disabled, the second
only where they are not, and the third breaks a contract: the primary view, the other view and
the conditional `3` are left alone in turn, and the condition `0` throughout. -/
theorem record_only_adds_of_three_pushes :
    let a := ofStatus .ok
    let b := a.record Tree.ternary ⟨1⟩ (.knownFlag true) (.typed (.constant (.int 5)))
    let c := b.record Tree.ternary ⟨1⟩ (.knownFlag false) (.typed (.constant (.bool true)))
    let d := c.record Tree.ternary ⟨1⟩ {} .contractFailure
    Tree.ternary.Acyclic ∧ b.primary = a.primary ∧ b.hasDiverged = true ∧
      c.disabled = some (b.disabled.getD b.primary) ∧ (c.evidenceIn .primary ⟨3⟩).isSome = true ∧
      (∀ v, d.evidenceIn v ⟨3⟩ = c.evidenceIn v ⟨3⟩) ∧
      (∀ v, ((c.evidenceIn v ⟨1⟩).getD {}).GrowsTo ((d.evidenceIn v ⟨1⟩).getD {})) ∧
      ∀ v, b.evidenceIn v ⟨0⟩ = a.evidenceIn v ⟨0⟩ := by
  intro a b c d
  have ht : Tree.ternary.Acyclic := Tree.ternary_acyclic
  obtain ⟨-, hframe, -, -, hprimary, -, -, hdiv, -⟩ :=
    record_only_adds ht a ⟨1⟩ (.knownFlag true) (.typed (.constant (.int 5)))
  obtain ⟨-, -, -, -, -, hdisabled, -⟩ :=
    record_only_adds ht b ⟨1⟩ (.knownFlag false) (.typed (.constant (.bool true)))
  obtain ⟨-, -, hgrows, -, -, -, hfailure, -⟩ :=
    record_only_adds ht c ⟨1⟩ {} .contractFailure
  have hcondition : ¬ ReflTransGen (fun y z => Tree.ternary.feedsInto? y = some z) ⟨1⟩ ⟨0⟩ :=
    fun h => absurd ((Tree.mem_feedChain_iff ht).2 h) (by decide)
  exact ⟨ht, hprimary (by decide), hdiv.trans (by decide), hdisabled (by decide), by decide,
    fun v => hfailure rfl v ⟨3⟩ (by decide), fun v => hgrows v ⟨1⟩,
    fun v => hframe v ⟨0⟩ hcondition⟩

/-! ## The same push again -/

/-- A push reaches no further after another one. -/
theorem mem_reached_of_record (ht : t.Acyclic) {l : List ExprId}
    (h : x ∈ (b.record t e m value).reached m l) : x ∈ b.reached m l := by
  refine reached_anti (fun u z _ => ?_) h
  rw [topIn_iff, topIn_iff]
  exact ValueType.eq_top_of_le (growsTo_record ht b e m value u z).type_le

/-- Recording a push again changes nothing. -/
theorem record_record (ht : t.Acyclic) (b : Body) (e : ExprId) (m : Memory) (value : Pushed) :
    (b.record t e m value).record t e m value = b.record t e m value := by
  refine eq_of_evidenceIn (status_record t e m value _) ?_ ?_
  · rw [hasDiverged_record ht, hasDiverged_record ht, Bool.or_assoc, Bool.or_self]
  · intro v x
    by_cases hfail : value = .contractFailure
    · rw [hfail, evidenceIn_record_failure, evidenceIn_record_failure]
      split
      · rw [Option.getD_some, Evidence.markFailure_markFailure]
      · rfl
    · rw [evidenceIn_record ht hfail]
      split
      · -- reached again, so reached and observed by the first call
        rename_i h
        have hfirst : x ∈ b.reached m (t.feedChain e) := mem_reached_of_record ht h.2
        rw [evidenceIn_record ht hfail, if_pos ⟨h.1, hfirst⟩, Option.getD_some,
          Evidence.observe_observe]
      · rfl

/-- With the views kept apart, the first call takes the branch `1` to `top` in one of them, so
that the second one passes nothing on there. -/
theorem record_record_of_topped_branch :
    let b := (ofStatus .ok).record Tree.ternary ⟨1⟩ (.knownFlag true)
      (.typed (.constant (.bool true)))
    let c := b.record Tree.ternary ⟨1⟩ {} (.typed (.constant (.int 1)))
    Tree.ternary.Acyclic ∧ c.topIn .disabled ⟨1⟩ = true ∧ c.topIn .primary ⟨1⟩ = false ∧
      c.record Tree.ternary ⟨1⟩ {} (.typed (.constant (.int 1))) = c := by
  intro b c
  have ht : Tree.ternary.Acyclic := Tree.ternary_acyclic
  exact ⟨ht, by decide, by decide, record_record ht b ⟨1⟩ {} (.typed (.constant (.int 1)))⟩

end PathFacts.Body
