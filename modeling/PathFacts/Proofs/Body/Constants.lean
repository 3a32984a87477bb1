import PathFacts.Proofs.Body.Run

/-!
# Constants after a run

Unlike types, the constants of a conditional depend on what was held back at its branches:
a branch that is top already passes nothing on, and the constant of a later push may then be
missing from the conditional.  This file says exactly which pushes a conditional is passed
(`PassedOn`) and what constants follow from them (`Body.mem_possibleConstants_run_iff`).

* `Body.possibleConstants_sound_iff` tells for which runs the possible constants of an
  expression cover all values that flow to it.
* `Body.possibleConstants_misses_a_value` is a run for which they do not.
-/

namespace PathFacts

open Relation (TransGen)

/-- Whether a push is held back on its way to `x` after the pushes `before`: something
below `x` is top already, in each view that the push counts in. -/
def HeldBack (t : Tree) (before : List Push) (p : Push) (x : ExprId) : Prop :=
  ∃ z, t.Reaches p.target z ∧ TransGen t.Feeds z x ∧
    ∀ v, p.countsIn v = true → flowType t v z before = .top

/-- Whether `p` is a push of the run `ps` that flows to `x`, counts in a view and was not
held back. -/
def PassedOn (t : Tree) (v : View) (x : ExprId) (ps : List Push) (p : Push) : Prop :=
  ∃ before after, ps = before ++ p :: after ∧ p.countsIn v = true ∧ p.flowsTo t x = true ∧
    ¬ HeldBack t before p x

section PassedOn

variable {t : Tree} {v : View} {x : ExprId} {ps : List Push} {p q : Push}

theorem not_passedOn_nil : ¬ PassedOn t v x [] p := by
  rintro ⟨before, after, h, -⟩
  exact absurd h (by simp)

/-- The last push of a run is passed on or not, and changes nothing about the others. -/
theorem passedOn_append_singleton :
    PassedOn t v x (ps ++ [q]) p ↔
      PassedOn t v x ps p ∨
        (p = q ∧ q.countsIn v = true ∧ q.flowsTo t x = true ∧ ¬ HeldBack t ps q x) := by
  constructor
  · rintro ⟨before, after, h, hp⟩
    rcases List.eq_nil_or_concat after with rfl | ⟨after, r, rfl⟩
    · obtain ⟨rfl, hqp⟩ := List.append_inj' h rfl
      obtain rfl := List.singleton_inj.1 hqp
      exact Or.inr ⟨rfl, hp⟩
    · have h' : ps ++ [q] = (before ++ p :: after) ++ [r] := by simpa using h
      obtain ⟨hps, -⟩ := List.append_inj' h' rfl
      exact Or.inl ⟨before, after, hps, hp⟩
  · rintro (⟨before, after, rfl, hp⟩ | ⟨rfl, hp⟩)
    · exact ⟨before, after ++ [q], by simp, hp⟩
    · exact ⟨ps, [], rfl, hp⟩

/-- Nothing is held back before anything flows: the first push that flows to `x` in a view
is passed on. -/
theorem exists_passedOn (ht : t.Acyclic) (hp : p ∈ flows t v x ps) :
    ∃ q, PassedOn t v x ps q := by
  induction ps using List.reverseRecOn generalizing p with
  | nil => exact absurd hp List.not_mem_nil
  | append_singleton ps q ih =>
    by_cases hps : flows t v x ps = []
    · have hflows : flows t v x (ps ++ [q]) = flows t v x [q] := by
        rw [flows, List.filter_append, ← flows, hps]
        rfl
      rw [hflows, flows, List.mem_filter, List.mem_singleton, Bool.and_eq_true] at hp
      obtain ⟨rfl, hcounts, hflow⟩ := hp
      refine ⟨p, passedOn_append_singleton.2 (Or.inr ⟨rfl, hcounts, hflow, ?_⟩)⟩
      rintro ⟨z, -, hzx, htop⟩
      have hnone : flows t v z ps = [] := by
        refine List.eq_nil_iff_forall_not_mem.2 fun r hr => ?_
        rw [flows, List.mem_filter, Bool.and_eq_true] at hr
        have hrx : r ∈ flows t v x ps := by
          rw [flows, List.mem_filter, Bool.and_eq_true]
          exact ⟨hr.1, hr.2.1, Push.flowsTo_of_transGen ht hr.2.2 hzx⟩
        exact absurd hrx (by simp [hps])
      have htop' := htop v hcounts
      rw [flowType, hnone] at htop'
      exact absurd htop' (by decide)
    · obtain ⟨r, hr⟩ := List.exists_mem_of_ne_nil _ hps
      obtain ⟨q', hq'⟩ := ih hr
      exact ⟨q', passedOn_append_singleton.2 (Or.inl hq')⟩

end PassedOn

namespace Body

variable {t : Tree}

section Run

variable (ht : t.Acyclic) (status : RunStatus) (ps : List Push) (v : View) (x : ExprId)

include ht

/-- After a run, a push reaches what it flows to unless it is held back. -/
theorem mem_reached_run_iff {p : Push} :
    x ∈ (recordAll t ps (ofStatus status)).reached p.memory (t.feedChain p.target) ↔
      t.Reaches p.target x ∧ ¬ HeldBack t ps p x := by
  have hsat : ∀ z, (recordAll t ps (ofStatus status)).saturated p.memory z = true ↔
      ∀ v, p.countsIn v = true → flowType t v z ps = .top := by
    intro z
    rw [saturated_iff]
    simp only [topIn_iff, seenType_run ht status]
    rfl
  rw [mem_reached_feedChain_iff ht, HeldBack]
  simp only [← hsat, not_exists, not_and, Bool.not_eq_true]

/-- The constants of an expression after a run are those of the pushes passed on to it. -/
theorem constants_run :
    ∃ os : List (Option Constant),
      (((recordAll t ps (ofStatus status)).evidenceIn v x).getD {}).constants =
        .ofObservations os ∧
      ∀ o, o ∈ os ↔ ∃ p, PassedOn t v x ps p ∧ p.constant? = o := by
  induction ps using List.reverseRecOn with
  | nil =>
    refine ⟨[], ?_, fun o => ?_⟩
    · cases v <;> simp [evidenceIn, view, ofStatus]
    · simp [not_passedOn_nil]
  | append_singleton ps q ih =>
    obtain ⟨os, hos, hmem⟩ := ih
    set b := recordAll t ps (ofStatus status) with hb
    have hrec : recordAll t (ps ++ [q]) (ofStatus status) = q.record t b := recordAll_append ..
    rw [hrec, Push.record]
    by_cases hfail : q.value = .contractFailure
    · have hpass : ∀ p, PassedOn t v x (ps ++ [q]) p ↔ PassedOn t v x ps p := fun p =>
        passedOn_append_singleton.trans
          (or_iff_left fun h => ((Push.flowsTo_iff ht).1 h.2.2.1).1 hfail)
      refine ⟨os, ?_, by simpa only [hpass] using hmem⟩
      rw [hfail, evidenceIn_record_failure]
      split
      · rw [Option.getD_some, Evidence.constants_markFailure, hos]
      · exact hos
    · have hreached := mem_reached_run_iff ht status ps x (p := q)
      rw [evidenceIn_record ht hfail]
      split
      · rename_i h
        obtain ⟨hreach, hfree⟩ := hreached.1 h.2
        have hflow : q.flowsTo t x = true := (Push.flowsTo_iff ht).2 ⟨hfail, hreach⟩
        have hlast : ∀ p, PassedOn t v x (ps ++ [q]) p ↔ PassedOn t v x ps p ∨ p = q := fun p =>
          passedOn_append_singleton.trans
            (or_congr_right (and_iff_left ⟨h.1, hflow, hfree⟩))
        refine ⟨os ++ [q.constant?], ?_, fun o => ?_⟩
        · rw [Option.getD_some, Evidence.constants_observe, hos,
            ValueSet.ofObservations_append]
          rfl
        · simp only [List.mem_append, List.mem_singleton, hmem, hlast]
          constructor
          · rintro (⟨p, hp, rfl⟩ | rfl)
            · exact ⟨p, Or.inl hp, rfl⟩
            · exact ⟨q, Or.inr rfl, rfl⟩
          · rintro ⟨p, hp | rfl, rfl⟩
            · exact Or.inl ⟨p, hp, rfl⟩
            · exact Or.inr rfl
      · rename_i h
        have hsame : ∀ p, PassedOn t v x (ps ++ [q]) p ↔ PassedOn t v x ps p := fun p =>
          passedOn_append_singleton.trans (or_iff_left fun hq =>
            h ⟨hq.2.1, hreached.2 ⟨((Push.flowsTo_iff ht).1 hq.2.2.1).2, hq.2.2.2⟩⟩)
        exact ⟨os, hos, by simpa only [hsame] using hmem⟩

/-- The possible constants of an expression are those of the pushes passed on to it, if all
of these have one; otherwise there are none. -/
theorem mem_possibleConstants_run_iff {c : Constant} :
    c ∈ (recordAll t ps (ofStatus status)).possibleConstants x ↔
      (∀ p, PassedOn t .primary x ps p → p.constant? ≠ none) ∧
        ∃ p, PassedOn t .primary x ps p ∧ p.constant? = some c := by
  obtain ⟨os, hos, hmem⟩ := constants_run ht status ps .primary x
  have hlist : (recordAll t ps (ofStatus status)).possibleConstants x =
      (ValueSet.ofObservations os).toList := by
    rw [← hos, possibleConstants, evidence?]
    cases (recordAll t ps (ofStatus status)).evidenceIn .primary x <;> rfl
  have hnone : (∀ p, PassedOn t .primary x ps p → p.constant? ≠ none) ↔ none ∉ os := by
    rw [hmem, not_exists]
    exact forall_congr' fun p => not_and.symm
  rw [hlist, ValueSet.mem_toList, hnone, ← hmem]
  by_cases h : none ∈ os
  · rw [ValueSet.ofObservations_eq_unbounded_iff.2 h]
    simp [h]
  · rw [ValueSet.mem_toSet_ofObservations h]
    simp [h]

end Run

/-- The possible constants of `x` are sound, that is they are none or cover every value that
flows to `x`, exactly if some push passed on to `x` has no constant, or else each push that
flows to `x` has the constant of one that was passed on. -/
theorem possibleConstants_sound_iff (ht : t.Acyclic) (status : RunStatus) (ps : List Push)
    (x : ExprId) :
    ((recordAll t ps (ofStatus status)).possibleConstants x ≠ [] →
      ∀ p ∈ ps, p.memory.assertionsDisabled ≠ some true → p.flowsTo t x = true →
        ∃ c ∈ (recordAll t ps (ofStatus status)).possibleConstants x, p.constant? = some c) ↔
    ((∀ p, PassedOn t .primary x ps p → p.constant? ≠ none) →
      ∀ p ∈ ps, p.memory.assertionsDisabled ≠ some true → p.flowsTo t x = true →
        ∃ q, PassedOn t .primary x ps q ∧ q.constant? = p.constant?) := by
  have hflows : ∀ p ∈ ps, p.memory.assertionsDisabled ≠ some true → p.flowsTo t x = true →
      ∃ q, PassedOn t .primary x ps q := by
    intro p hp hflag hflow
    refine exists_passedOn ht (p := p) ?_
    rw [flows, List.mem_filter, hflow, Bool.and_true]
    exact ⟨hp, Push.countsIn_primary_iff.2 hflag⟩
  constructor
  · intro h hall p hp hflag hflow
    obtain ⟨q, hq⟩ := hflows p hp hflag hflow
    obtain ⟨c, hc⟩ := Option.ne_none_iff_exists'.1 (hall q hq)
    have hmem := (mem_possibleConstants_run_iff ht status ps x).2 ⟨hall, q, hq, hc⟩
    obtain ⟨d, hd, hpd⟩ := h (List.ne_nil_of_mem hmem) p hp hflag hflow
    obtain ⟨-, r, hr, hrd⟩ := (mem_possibleConstants_run_iff ht status ps x).1 hd
    exact ⟨r, hr, hrd.trans hpd.symm⟩
  · intro h hne p hp hflag hflow
    obtain ⟨c, hc⟩ := List.exists_mem_of_ne_nil _ hne
    obtain ⟨hall, -⟩ := (mem_possibleConstants_run_iff ht status ps x).1 hc
    obtain ⟨q, hq, hqp⟩ := h hall p hp hflag hflow
    obtain ⟨d, hd⟩ := Option.ne_none_iff_exists'.1 (hall q hq)
    exact ⟨d, (mem_possibleConstants_run_iff ht status ps x).2 ⟨hall, q, hq, hd⟩,
      hqp.symm.trans hd⟩

/-- A run where a push is held back, but has a constant that was passed on before. -/
theorem possibleConstants_sound_of_repeated_value :
    let ps : List Push := [⟨⟨1⟩, {}, .typed (.constant (.bool true))⟩,
      ⟨⟨1⟩, {}, .typed (.constant (.int 1))⟩, ⟨⟨1⟩, {}, .typed (.constant (.int 1))⟩]
    Tree.ternary.Acyclic ∧
      ((∀ p, PassedOn Tree.ternary .primary ⟨3⟩ ps p → p.constant? ≠ none) →
        ∀ p ∈ ps, p.memory.assertionsDisabled ≠ some true → p.flowsTo Tree.ternary ⟨3⟩ = true →
          ∃ q, PassedOn Tree.ternary .primary ⟨3⟩ ps q ∧ q.constant? = p.constant?) := by
  intro ps
  exact ⟨Tree.ternary_acyclic,
    (possibleConstants_sound_iff Tree.ternary_acyclic .ok ps ⟨3⟩).1 (by decide)⟩

/-- A branch that is top after two values keeps the third one, `5`, from the conditional,
whose possible constants stay at `1` and `true`. -/
theorem possibleConstants_misses_a_value :
    let ps : List Push := [⟨⟨1⟩, {}, .typed (.constant (.bool true))⟩,
      ⟨⟨1⟩, {}, .typed (.constant (.int 1))⟩, ⟨⟨1⟩, {}, .typed (.constant (.int 5))⟩]
    let b := recordAll Tree.ternary ps (ofStatus .ok)
    Tree.ternary.Acyclic ∧ b.possibleConstants ⟨3⟩ = [.int 1, .bool true] ∧
      ¬ (b.possibleConstants ⟨3⟩ ≠ [] →
        ∀ p ∈ ps, p.memory.assertionsDisabled ≠ some true → p.flowsTo Tree.ternary ⟨3⟩ = true →
          ∃ c ∈ b.possibleConstants ⟨3⟩, p.constant? = some c) := by
  intro ps b
  exact ⟨Tree.ternary_acyclic, by decide, by decide⟩

end Body
end PathFacts
