import PathFacts.Proofs.Body.Constants

/-!
# What the primary view owes to pushes that do not count in it

Pushes under a flag that is provably true do not count in the primary view.  Taking them out
of a run leaves the presence, the type and the contract of every expression in that view as
they were (`Body.summaryIn_of_filter`), but not always its constants: such a push can make a
branch top in the *other* view, and a later push that counts in both is then held back in
both.  `Body.primary_evidence_eq_of_filter_iff` tells exactly when the two runs agree, and
`Body.primary_evidence_shows_other_view` is a run where they do not.
-/

namespace PathFacts

section Filter

variable {t : Tree} {v : View} {x : ExprId} {ps : List Push} {p : Push}

/-- The pushes that count in a view. -/
def countingIn (v : View) (ps : List Push) : List Push := ps.filter (·.countsIn v)

theorem flows_countingIn (t : Tree) (v w : View) (x : ExprId) (ps : List Push) :
    flows t w x (countingIn v ps) = (flows t w x ps).filter (·.countsIn v) := by
  rw [flows, flows, countingIn, List.filter_filter, List.filter_filter]
  exact List.filter_congr fun p _ => Bool.and_comm _ _

/-- A run without some of its pushes is not above the whole run. -/
theorem flowType_countingIn_le (t : Tree) (v w : View) (x : ExprId) (ps : List Push) :
    flowType t w x (countingIn v ps) ≤ flowType t w x ps := by
  refine ValueType.joinAll_mono (List.map_subset _ ?_)
  rw [flows_countingIn]
  exact List.filter_subset_self _

/-- What is held back among fewer pushes is held back among all of them. -/
theorem HeldBack.of_counting (h : HeldBack t (countingIn v ps) p x) : HeldBack t ps p x := by
  obtain ⟨z, hpz, hzx, htop⟩ := h
  refine ⟨z, hpz, hzx, fun w hw => ?_⟩
  exact ValueType.eq_top_of_le (flowType_countingIn_le t v w z ps) (htop w hw)

/-- Taking out pushes that do not count only lets more pushes pass. -/
theorem PassedOn.of_counting (h : PassedOn t v x ps p) : PassedOn t v x (countingIn v ps) p := by
  obtain ⟨before, after, rfl, hcounts, hflow, hfree⟩ := h
  refine ⟨countingIn v before, countingIn v after, ?_, hcounts, hflow, ?_⟩
  · rw [countingIn, List.filter_append, List.filter_cons_of_pos (by exact hcounts)]
    rfl
  · intro hheld
    exact hfree hheld.of_counting

end Filter

namespace Body

variable {t : Tree}

/-- Presence, type and contract in a view do not depend on pushes that do not count there. -/
theorem summaryIn_of_filter (ht : t.Acyclic) (status : RunStatus) (ps : List Push) (v : View)
    (x : ExprId) :
    (recordAll t (countingIn v ps) (ofStatus status)).summaryIn v x =
      (recordAll t ps (ofStatus status)).summaryIn v x := by
  rw [summaryIn_run ht, summaryIn_run ht, countingIn, List.foldl_filter]
  congr 1
  funext s p
  rw [Push.tally, Push.touches]
  cases p.countsIn v <;> simp

/-- Taking the pushes under a provably true flag out of a run leaves the primary evidence of
`x` as it was exactly if some push passed on to `x` had no constant, or if every push that is
then passed on has a constant that was passed on before. -/
theorem primary_evidence_eq_of_filter_iff (ht : t.Acyclic) (status : RunStatus)
    (ps : List Push) (x : ExprId) :
    let b := recordAll t ps (ofStatus status)
    let kept := ps.filter fun p => p.memory.assertionsDisabled ≠ some true
    let c := recordAll t kept (ofStatus status)
    (b.tracks x = c.tracks x ∧ b.type x = c.type x ∧ b.cannotFail x = c.cannotFail x) ∧
    (b.evidence? x = c.evidence? x ↔
      (∃ p, PassedOn t .primary x ps p ∧ p.constant? = none) ∨
        ∀ p, PassedOn t .primary x kept p →
          ∃ q, PassedOn t .primary x ps q ∧ q.constant? = p.constant?) := by
  intro b kept c
  have hkept : kept = countingIn .primary ps := by
    refine List.filter_congr fun p _ => ?_
    rw [Bool.eq_iff_iff, decide_eq_true_iff, Push.countsIn_primary_iff]
  have hsum : b.summaryIn .primary x = c.summaryIn .primary x := by
    have h := summaryIn_of_filter ht status ps .primary x
    rw [← hkept] at h
    exact h.symm
  refine ⟨queries_of_summaryIn_eq hsum, ?_⟩
  obtain ⟨os, hos, hmem⟩ := constants_run ht status ps .primary x
  obtain ⟨os', hos', hmem'⟩ := constants_run ht status kept .primary x
  have hsub : ∀ o, o ∈ os → o ∈ os' := by
    intro o ho
    obtain ⟨p, hp, hpo⟩ := (hmem o).1 ho
    exact (hmem' o).2 ⟨p, hkept ▸ hp.of_counting, hpo⟩
  have hconstants : b.evidence? x = c.evidence? x ↔ none ∈ os ∨ ∀ o, o ∈ os' → o ∈ os := by
    rw [evidence?, evidence?, evidenceIn_eq_iff hsum, hos, hos', ValueSet.ofObservations_eq_iff]
    constructor
    · rintro (⟨h, -⟩ | ⟨-, h', hsame⟩)
      · exact Or.inl h
      · refine Or.inr fun o ho => ?_
        obtain ⟨d, rfl⟩ := Option.ne_none_iff_exists'.1 (ne_of_mem_of_not_mem ho h')
        exact (hsame d).2 ho
    · rintro (h | h)
      · exact Or.inl ⟨h, hsub none h⟩
      · by_cases hnone : none ∈ os
        · exact Or.inl ⟨hnone, hsub none hnone⟩
        · exact Or.inr ⟨hnone, fun h' => hnone (h none h'), fun d => ⟨hsub _, h _⟩⟩
  rw [hconstants, hmem]
  refine or_congr_right ⟨fun h p hp => ?_, fun h o ho => ?_⟩
  · exact (hmem _).1 (h _ ((hmem' _).2 ⟨p, hp, rfl⟩))
  · obtain ⟨p, hp, rfl⟩ := (hmem' o).1 ho
    exact (hmem _).2 (h p hp)

/-- A run where nothing is held back: the push under a provably true flag leaves no trace in
the primary view. -/
theorem primary_evidence_eq_of_unknown_value :
    let ps : List Push := [⟨⟨1⟩, .knownFlag true, .typed .null⟩, ⟨⟨1⟩, {}, .typed .top⟩]
    let kept := ps.filter fun p => p.memory.assertionsDisabled ≠ some true
    Tree.ternary.Acyclic ∧
      ((∃ p, PassedOn Tree.ternary .primary ⟨3⟩ ps p ∧ p.constant? = none) ∨
        ∀ p, PassedOn Tree.ternary .primary ⟨3⟩ kept p →
          ∃ q, PassedOn Tree.ternary .primary ⟨3⟩ ps q ∧ q.constant? = p.constant?) := by
  intro ps kept
  exact ⟨Tree.ternary_acyclic,
    (primary_evidence_eq_of_filter_iff Tree.ternary_acyclic .ok ps ⟨3⟩).2.1 (by decide)⟩

/-- A branch that is top in the view with assertions disabled, because of a push that counts
only there, and in the primary view as well.  The value `5` is held back in both; without
that push it is not. -/
theorem primary_evidence_shows_other_view :
    let ps : List Push := [⟨⟨1⟩, .knownFlag true, .typed .top⟩,
      ⟨⟨1⟩, .knownFlag false, .typed (.constant (.bool true))⟩,
      ⟨⟨1⟩, .knownFlag false, .typed (.constant (.int 1))⟩,
      ⟨⟨1⟩, {}, .typed (.constant (.int 5))⟩]
    let kept := ps.filter fun p => p.memory.assertionsDisabled ≠ some true
    let b := recordAll Tree.ternary ps (ofStatus .ok)
    let c := recordAll Tree.ternary kept (ofStatus .ok)
    Tree.ternary.Acyclic ∧ b.evidence? ⟨3⟩ ≠ c.evidence? ⟨3⟩ ∧
      b.possibleConstants ⟨3⟩ = [.int 1, .bool true] ∧
      c.possibleConstants ⟨3⟩ = [.int 1, .int 5, .bool true] := by
  intro ps kept b c
  exact ⟨Tree.ternary_acyclic, by decide, by decide, by decide⟩

end Body
end PathFacts
