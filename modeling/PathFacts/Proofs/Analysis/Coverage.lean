import PathFacts.Proofs.Analysis.Views

/-!
# What an analysis covers

However an analysis comes by its facts, from one run or from a class with its constructors, the
type that it finds for an expression is above every value that its completed runs delivered
there (`Analysis.type_le_of_delivered`).  Values pushed where assertions are provably disabled
are left out, because types speak of the primary view.
-/

namespace PathFacts.Analysis

variable {i : Interpreter} {t : Tree} {stitching : Bool} {u : UnitId}

/-- A run that is not completed leaves its status and no facts. -/
theorem body_of_failed_run (h : (i.script u).status ≠ .ok) :
    (ofUnit? i t stitching (some u)).body = .ofStatus (i.script u).status := by
  have hrun : ¬ (i.run u []).status.isOk = true := by
    rwa [run_status, RunStatus.isOk, beq_iff_eq]
  show (ofUnit i t stitching u).body = _
  unfold ofUnit
  simp only [hrun]
  rw [run_status]
  rfl

theorem status_of_completed (h : (ofUnit? i t stitching (some u)).body.status = .ok) :
    (i.script u).status = .ok := by
  by_contra hfail
  rw [body_of_failed_run hfail] at h
  exact hfail h

/-- The types after a completed analysis are those after one run of everything delivered. -/
theorem type_of_completed (ht : t.Acyclic) (hok : (i.script u).status = .ok) (x : ExprId) :
    (ofUnit? i t stitching (some u)).body.type x =
      (Body.recordAll t (delivered i t stitching u) (.ofStatus .ok)).type x := by
  cases hclass : runsConstructors t stitching u with
  | false => rw [body_of_single_run hok hclass]
  | true =>
    rw [body_of_stitched_run hok hclass, delivered, if_pos hclass]
    exact (Body.queries_of_summaryIn_eq ((agrees_stitchAll ht i u).kept x)).2.1

/-- The type of an expression covers every value that flows to it from a delivered push. -/
theorem type_le_of_delivered (ht : t.Acyclic)
    (hok : (ofUnit? i t stitching (some u)).body.status = .ok) {p : Push}
    (hp : p ∈ delivered i t stitching u) (hflag : p.memory.assertionsDisabled ≠ some true)
    {x : ExprId} (hflow : p.flowsTo t x = true) :
    p.type ≤ (ofUnit? i t stitching (some u)).body.type x := by
  rw [type_of_completed ht (status_of_completed hok)]
  exact Body.type_le_typeIn_of_flowsTo ht .ok _ .primary x hp (Push.countsIn_primary_iff.2 hflag)
    hflow

end PathFacts.Analysis
