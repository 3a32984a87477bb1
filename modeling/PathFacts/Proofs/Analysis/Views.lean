import PathFacts.Proofs.Analysis.Stitching

/-!
# The second view after an analysis

A unit whose constructors are not stitched is answered with what was recorded, in both views.
A class whose constructors are stitched is answered with a snapshot, and a snapshot has the
primary view only.  What is then said of an expression with assertions disabled is what the
primary view says of it, although values may have been pushed that count in the other view
alone.

* `Analysis.ignoring_assertions_covers_iff` tells exactly which pushed values the type with
  assertions disabled still covers.
* `Analysis.ignoring_assertions_lost_by_class` is a class for which it covers too little.
-/

namespace PathFacts

/-! ## What is said of an expression after one run -/

section Run

variable {t : Tree} {p : Push} {ps : List Push} {v : View} {x : ExprId}

/-- A value flows at least to the expression that it is pushed for. -/
theorem Push.flowsTo_target (t : Tree) (h : p.value ≠ .contractFailure) :
    p.flowsTo t p.target = true := by
  obtain ⟨rest, hrest⟩ := t.exists_feedChain_eq_cons p.target
  have hfail : p.isFailure = false := by
    rw [← Bool.not_eq_true, Push.isFailure_iff]
    exact h
  rw [Push.flowsTo, hfail, hrest]
  simp

theorem Push.touches_of_flowsTo (hcounts : p.countsIn v = true) (hflow : p.flowsTo t x = true) :
    p.touches t v x = true := by
  rw [Push.touches, hcounts, hflow]
  rfl

/-- Whatever flows to an expression in a view is below the join of all that does. -/
theorem type_le_flowType (hp : p ∈ ps) (hcounts : p.countsIn v = true)
    (hflow : p.flowsTo t x = true) : p.type ≤ flowType t v x ps := by
  have hflows : p ∈ flows t v x ps := by
    rw [flows, List.mem_filter, Bool.and_eq_true]
    exact ⟨hp, hcounts, hflow⟩
  exact ValueType.joinAll_le_iff.1 (le_refl (flowType t v x ps)) _
    (List.mem_map.2 ⟨p, hflows, rfl⟩)

namespace Body

variable (ht : t.Acyclic) (status : RunStatus) (ps : List Push) (v : View) (x : ExprId)

include ht

/-- The type after a run, also where nothing was seen. -/
theorem typeIn_run_eq :
    (recordAll t ps (ofStatus status)).typeIn v x =
      if ps.any (·.touches t v x) then flowType t v x ps else .top := by
  have hseen := isSome_evidenceIn_run ht status ps v x
  split
  · rename_i htouched
    exact typeIn_run ht status ps v x (hseen.trans htouched)
  · rename_i htouched
    have hnone : (recordAll t ps (ofStatus status)).evidenceIn v x = none := by
      rw [← Option.not_isSome_iff_eq_none, hseen]
      exact htouched
    rw [typeIn, hnone]
    rfl

/-- A value is covered wherever it flows, in every view in which it counts. -/
theorem type_le_typeIn_of_flowsTo {p : Push} (hp : p ∈ ps) (hcounts : p.countsIn v = true)
    (hflow : p.flowsTo t x = true) :
    p.type ≤ (recordAll t ps (ofStatus status)).typeIn v x := by
  have htouched : ps.any (·.touches t v x) = true :=
    List.any_eq_true.2 ⟨p, hp, Push.touches_of_flowsTo hcounts hflow⟩
  rw [typeIn_run_eq ht, if_pos htouched]
  exact type_le_flowType hp hcounts hflow

/-- A pushed value is covered in every view in which it counts. -/
theorem type_le_typeIn_run {p : Push} (hp : p ∈ ps) (hvalue : p.value ≠ .contractFailure)
    (hcounts : p.countsIn v = true) :
    p.type ≤ (recordAll t ps (ofStatus status)).typeIn v p.target :=
  type_le_typeIn_of_flowsTo ht status ps v p.target hp hcounts (Push.flowsTo_target t hvalue)

end Body

end Run

/-! ## What an analysis answers with -/

namespace Body

variable {b : Body}

@[simp] theorem hasDiverged_primaryOnly (b : Body) : b.primaryOnly.hasDiverged = false := rfl

/-- While the views are shared, assertions make no difference. -/
theorem typeIgnoringAssertions_of_shared (h : b.hasDiverged = false) (x : ExprId) :
    b.typeIgnoringAssertions x = b.type x := by
  rw [typeIgnoringAssertions, type, typeIn, typeIn, evidenceIn_eq_of_shared h]

end Body

namespace Analysis

/-- Whether an analysis runs the constructors of `u`. -/
def runsConstructors (t : Tree) (stitching : Bool) (u : UnitId) : Bool :=
  stitching && t.kind? u == some .wholeClass

/-- The pushes behind an analysis of `u`: those of its own run and, where constructors are
run, those of each constructor whose run is completed. -/
def delivered (i : Interpreter) (t : Tree) (stitching : Bool) (u : UnitId) : List Push :=
  if runsConstructors t stitching u then stitchedPushes i t u
  else (i.script u).pushes [i.emptyMemory]

variable {i : Interpreter} {t : Tree} {s : Stitching} {stitching : Bool} {u : UnitId}

/-- Running a constructor leaves a snapshot behind, or the snapshot that was there. -/
theorem hasDiverged_best_stitch (h : s.best.hasDiverged = false) (ends : List Memory)
    (c : Constructor) : (stitch i t ends s c).best.hasDiverged = false := by
  unfold stitch
  split
  · exact h
  · dsimp only
    split
    · exact Body.hasDiverged_primaryOnly _
    · exact h

theorem hasDiverged_best_foldl (h : s.best.hasDiverged = false) (ends : List Memory)
    (cs : List Constructor) : (cs.foldl (stitch i t ends) s).best.hasDiverged = false := by
  induction cs generalizing s with
  | nil => exact h
  | cons c cs ih => exact ih (hasDiverged_best_stitch h ends c)

theorem hasDiverged_best_stitchAll (i : Interpreter) (t : Tree) (u : UnitId) (r : Recorder) :
    (stitchAll i t u r).best.hasDiverged = false :=
  hasDiverged_best_foldl (Body.hasDiverged_primaryOnly _) _ _

section Completed

variable (hok : (i.script u).status = .ok)

include hok

/-- Without constructors, a completed analysis answers with one run of its pushes. -/
theorem body_of_single_run (h : runsConstructors t stitching u = false) :
    (ofUnit? i t stitching (some u)).body =
      Body.recordAll t (delivered i t stitching u) (.ofStatus .ok) := by
  have hcond : (stitching && t.kind? u == some .wholeClass) = false := h
  have hrun : (i.run u []).status.isOk = true := by rw [run_status, hok]; rfl
  have hrec := Recorder.observeAll_replay t {} [i.emptyMemory] (i.script u)
  show (ofUnit i t stitching u).body = _
  unfold ofUnit delivered
  simp only [hrun, hcond, h, if_true, Bool.false_eq_true, if_false]
  rw [run_events]
  exact congrArg Recorder.body hrec

/-- With constructors, a completed analysis answers with the last snapshot. -/
theorem body_of_stitched_run (h : runsConstructors t stitching u = true) :
    (ofUnit? i t stitching (some u)).body =
      (stitchAll i t u (Recorder.observeAll t {} (i.run u []).events)).best := by
  have hcond : (stitching && t.kind? u == some .wholeClass) = true := h
  have hrun : (i.run u []).status.isOk = true := by rw [run_status, hok]; rfl
  show (ofUnit i t stitching u).body = _
  unfold ofUnit
  simp only [hrun, hcond, if_true]

/-- With constructors, types are those that the pushes come to in the primary view, whether
or not assertions are disabled. -/
theorem typeIgnoringAssertions_of_stitched_run (ht : t.Acyclic)
    (h : runsConstructors t stitching u = true) (x : ExprId) :
    (ofUnit? i t stitching (some u)).body.typeIgnoringAssertions x =
      (Body.recordAll t (delivered i t stitching u) (.ofStatus .ok)).typeIn .primary x := by
  have hagrees := agrees_stitchAll ht i u
  rw [body_of_stitched_run hok h, delivered, if_pos h,
    Body.typeIgnoringAssertions_of_shared (hasDiverged_best_stitchAll i t u _)]
  exact (Body.queries_of_summaryIn_eq (hagrees.kept x)).2.1

end Completed

/-- Which pushed values the type with assertions disabled covers after a completed analysis.
All that count in that view are covered, except where constructors were run: there a value
pushed under a flag that is provably true is covered only if the primary view has not seen
the expression at all, or if what the primary view joined from the other pushes happens to be
above it. -/
theorem ignoring_assertions_covers_iff (ht : t.Acyclic) (hok : (i.script u).status = .ok)
    {p : Push} (hp : p ∈ delivered i t stitching u) (hvalue : p.value ≠ .contractFailure)
    (hflag : p.memory.assertionsDisabled ≠ some false) :
    p.memory.refined p.value ≤
        (ofUnit? i t stitching (some u)).body.typeIgnoringAssertions p.target ↔
      (stitching = true ∧ t.kind? u = some .wholeClass →
        p.memory.assertionsDisabled = some true →
        (∃ q ∈ delivered i t stitching u, q.memory.assertionsDisabled ≠ some true ∧
          (q.flowsTo t p.target = true ∨ q.value = .contractFailure ∧ q.target = p.target)) →
        p.memory.refined p.value ≤ .joinAll
          (((delivered i t stitching u).filter fun q =>
              q.memory.assertionsDisabled ≠ some true ∧ q.flowsTo t p.target = true).map
            fun q => q.memory.refined q.value)) := by
  have hruns : runsConstructors t stitching u = true ↔
      stitching = true ∧ t.kind? u = some .wholeClass := by
    rw [runsConstructors, Bool.and_eq_true, beq_iff_eq]
  rw [← hruns]
  cases hclass : runsConstructors t stitching u with
  | false =>
    have hcovered : p.type ≤
        (ofUnit? i t stitching (some u)).body.typeIgnoringAssertions p.target := by
      rw [body_of_single_run hok hclass]
      exact Body.type_le_typeIn_run ht .ok _ .disabled hp hvalue
        (Push.countsIn_disabled_iff.2 hflag)
    exact ⟨fun _ h => absurd h Bool.false_ne_true, fun _ => hcovered⟩
  | true =>
    rw [typeIgnoringAssertions_of_stitched_run hok ht hclass]
    have hprimary : flowType t .primary p.target (delivered i t stitching u) =
        .joinAll (((delivered i t stitching u).filter fun q =>
            q.memory.assertionsDisabled ≠ some true ∧ q.flowsTo t p.target = true).map
          fun q => q.memory.refined q.value) := by
      rw [flowType, flows]
      simp only [← Push.countsIn_primary_iff, Bool.decide_and, Bool.decide_eq_true]
      rfl
    have hseen : (delivered i t stitching u).any (·.touches t .primary p.target) = true ↔
        ∃ q ∈ delivered i t stitching u, q.memory.assertionsDisabled ≠ some true ∧
          (q.flowsTo t p.target = true ∨ q.value = .contractFailure ∧ q.target = p.target) := by
      rw [List.any_eq_true]
      simp only [Push.touches, Bool.and_eq_true, Bool.or_eq_true, Push.breaks_iff,
        Push.countsIn_primary_iff]
    rw [← hseen, ← hprimary]
    constructor
    · intro h _ _ htouched
      rw [Body.typeIn_run_eq ht, if_pos htouched] at h
      exact h
    · intro h
      by_cases htrue : p.memory.assertionsDisabled = some true
      · rw [Body.typeIn_run_eq ht]
        split
        · rename_i htouched
          exact h rfl htrue htouched
        · exact le_top
      · exact Body.type_le_typeIn_run ht .ok _ .primary hp hvalue
          (Push.countsIn_primary_iff.2 htrue)

/-- A class with one expression and no constructor. -/
def classOfOne : Tree := .build [.container, .wholeClass ⟨0⟩, .expr ⟨0⟩]

/-- A run that pushes `5` where assertions are disabled and `1` where they are not. -/
def flaggedRun : Interpreter :=
  ({} : Interpreter).setScript ⟨0⟩
    [.push ⟨0⟩ (.typed (.constant (.int 5))) (.knownFlag true) none,
      .push ⟨0⟩ (.typed (.constant (.int 1))) (.knownFlag false) none]

/-- Without constructors to be run, the value `5` of `flaggedRun` is covered. -/
theorem ignoring_assertions_covers_without_stitching :
    let p : Push := ⟨⟨0⟩, .knownFlag true, .typed (.constant (.int 5))⟩
    classOfOne.Acyclic ∧ (flaggedRun.script ⟨0⟩).status = .ok ∧
      p ∈ delivered flaggedRun classOfOne false ⟨0⟩ ∧
      p.memory.refined p.value ≤
        (ofUnit? flaggedRun classOfOne false (some ⟨0⟩)).body.typeIgnoringAssertions p.target := by
  intro p
  have hacyclic : classOfOne.Acyclic := Tree.acyclic_of_parents_later (by decide)
  have hp : p ∈ delivered flaggedRun classOfOne false ⟨0⟩ := by decide
  refine ⟨hacyclic, by decide, hp, ?_⟩
  refine (ignoring_assertions_covers_iff hacyclic (by decide) hp (by decide) (by decide)).2 ?_
  exact fun h => absurd h.1 Bool.false_ne_true

/-- The same run with constructors to be run, although the class has none: the answer for
disabled assertions is `1`, which does not cover `5`. -/
theorem ignoring_assertions_lost_by_class :
    let p : Push := ⟨⟨0⟩, .knownFlag true, .typed (.constant (.int 5))⟩
    let b := (ofUnit? flaggedRun classOfOne true (some ⟨0⟩)).body
    classOfOne.Acyclic ∧ (flaggedRun.script ⟨0⟩).status = .ok ∧
      p ∈ delivered flaggedRun classOfOne true ⟨0⟩ ∧ p.value ≠ .contractFailure ∧
      p.memory.assertionsDisabled ≠ some false ∧
      b.typeIgnoringAssertions p.target = .constant (.int 1) ∧
      ¬ p.memory.refined p.value ≤ b.typeIgnoringAssertions p.target := by
  intro p b
  have htype : b.typeIgnoringAssertions p.target = .constant (.int 1) := by decide
  refine ⟨Tree.acyclic_of_parents_later (by decide), by decide, by decide, by decide,
    by decide, htype, ?_⟩
  rw [htype]
  decide

end Analysis
end PathFacts
