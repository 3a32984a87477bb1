import PathFacts.Analysis
import PathFacts.Proofs.Body.Run

/-!
# Classes with their constructors

The facts of a class come from several runs that share one recorder, and a constructor whose
run is not completed is rolled back to a snapshot that has lost the second view.  Nothing of
this shows in the primary view: presence, types and contracts are those of *one* run of
pushes, `stitchedPushes`, to which each completed run contributes its own
(`Analysis.facts_of_class`).

`Stitching.Agrees` is the invariant.  Next to the agreement itself it keeps that types ascend
in the recorder and in the snapshot, without which the next push could not be tallied.
-/

namespace PathFacts

/-! ## Scripts -/

namespace Script

/-- How a run of a script ends. -/
def status : Script → RunStatus
  | [] => .ok
  | .stop status :: _ => status
  | .push _ _ _ _ :: rest => Script.status rest
  | .pushFromSeeds _ _ :: rest => Script.status rest
  | .initializerEnd _ _ :: rest => Script.status rest

/-- The pushes for whole expressions that a run from `entries` makes before it ends. -/
def pushes (entries : List Memory) : Script → List Push
  | [] => []
  | .stop _ :: _ => []
  | .push e value memory none :: rest => ⟨e, memory, value⟩ :: Script.pushes entries rest
  | .push _ _ _ (some _) :: rest => Script.pushes entries rest
  | .pushFromSeeds e value :: rest =>
    entries.map (⟨e, ·, value⟩) ++ Script.pushes entries rest
  | .initializerEnd _ _ :: rest => Script.pushes entries rest

/-- The memories at the ends of the instance initializers that a run comes by. -/
def initializerEnds : Script → List Memory
  | [] => []
  | .stop _ :: _ => []
  | .push _ _ _ _ :: rest => Script.initializerEnds rest
  | .pushFromSeeds _ _ :: rest => Script.initializerEnds rest
  | .initializerEnd true _ :: rest => Script.initializerEnds rest
  | .initializerEnd false memory :: rest => memory :: Script.initializerEnds rest

theorem status_replay (entries : List Memory) (s : Script) :
    (s.replay entries).status = s.status := by
  induction s with
  | nil => rfl
  | cons step rest ih => cases step <;> first | rfl | exact ih

end Script

/-- The script of a unit; empty where it has none. -/
def Interpreter.script (i : Interpreter) (u : UnitId) : Script := i.scripts[u]?.getD []

/-! ## Recorders -/

namespace Recorder

theorem observeAll_append (t : Tree) (r : Recorder) (es fs : List Event) :
    r.observeAll t (es ++ fs) = (r.observeAll t es).observeAll t fs :=
  List.foldl_append

theorem observeAll_pushes (t : Tree) (r : Recorder) (e : ExprId) (value : Pushed)
    (entries : List Memory) :
    r.observeAll t (entries.map (.push e value · none)) =
      { r with body := Body.recordAll t (entries.map (⟨e, ·, value⟩)) r.body } := by
  induction entries generalizing r with
  | nil => rfl
  | cons m entries ih => exact ih (r.observe t (.push e value m none))

/-- A recorder takes the pushes and the ends of initializers in, one after the other. -/
theorem observeAll_replay (t : Tree) (r : Recorder) (entries : List Memory) (s : Script) :
    r.observeAll t (s.replay entries).events =
      ⟨Body.recordAll t (s.pushes entries) r.body, r.initializerEnds ++ s.initializerEnds⟩ := by
  induction s generalizing r with
  | nil =>
    rw [Script.initializerEnds, List.append_nil]
    rfl
  | cons step rest ih =>
    cases step with
    | stop status =>
      rw [Script.initializerEnds, List.append_nil]
      rfl
    | push e value memory span =>
      cases span with
      | none => exact ih (r.observe t (.push e value memory none))
      | some span => exact ih r
    | pushFromSeeds e value =>
      have hrest := ih { r with body := Body.recordAll t (entries.map (⟨e, ·, value⟩)) r.body }
      rw [Script.pushes, Body.recordAll_append, Script.initializerEnds]
      rw [Script.replay, observeAll_append, observeAll_pushes, hrest]
    | initializerEnd isStatic memory =>
      cases isStatic with
      | true => exact ih r
      | false =>
        have hrest := ih { r with initializerEnds := r.initializerEnds ++ [memory] }
        rw [List.append_assoc, List.singleton_append] at hrest
        exact hrest

end Recorder

/-! ## Constructors -/

/-- What the run of a constructor contributes to the facts of its class, where `ends` are
the memories at the ends of the initializers: its pushes, if it has a body and the run is
completed. -/
def Interpreter.contribution (i : Interpreter) (ends : List Memory) (c : Constructor) :
    List Push :=
  match c.body with
  | none => []
  | some u =>
    if (i.script u).status = .ok then
      (i.script u).pushes
        (if c.startsFromInitializers = true ∧ ends ≠ [] then ends else [i.emptyMemory])
    else []

/-- The pushes behind the facts of the class `u`: those of its own run, and then those of its
constructors in the order of declaration. -/
def stitchedPushes (i : Interpreter) (t : Tree) (u : UnitId) : List Push :=
  (i.script u).pushes [i.emptyMemory] ++
    (t.constructors u).flatMap (i.contribution (i.script u).initializerEnds)

namespace Body

variable {t : Tree} {b : Body}

theorem ascending_primaryOnly (hb : b.Ascending t) : b.primaryOnly.Ascending t := by
  intro v x y hxy
  have hseen : ∀ z, b.primaryOnly.seenType v z = b.seenType .primary z := by
    intro z
    cases v <;> rfl
  rw [hseen, hseen]
  exact hb .primary x y hxy

end Body

namespace Analysis

theorem run_events (i : Interpreter) (u : UnitId) (seeds : List Memory) :
    (i.run u seeds).events = ((i.script u).replay (i.entries seeds)).events := rfl

theorem run_status (i : Interpreter) (u : UnitId) (seeds : List Memory) :
    (i.run u seeds).status = (i.script u).status :=
  Script.status_replay _ _

/-- The memories that the run of a constructor starts from. -/
theorem entries_seeds (i : Interpreter) (ends : List Memory) (c : Constructor) :
    i.entries (seeds i ends c) =
      if c.startsFromInitializers = true ∧ ends ≠ [] then ends else [i.emptyMemory] := by
  unfold seeds Interpreter.entries
  by_cases hc : c.startsFromInitializers = true
  · cases ends <;> simp [hc]
  · simp [hc]

/-- What is recorded and what is kept for the next roll-back agree with one run of `ps`, up
to constants in the primary view. -/
structure Stitching.Agrees (t : Tree) (s : Stitching) (ps : List Push) : Prop where
  recorded : ∀ x, s.recorder.body.summaryIn .primary x =
    (Body.recordAll t ps (.ofStatus .ok)).summaryIn .primary x
  kept : ∀ x, s.best.summaryIn .primary x =
    (Body.recordAll t ps (.ofStatus .ok)).summaryIn .primary x
  ascending_recorded : s.recorder.body.Ascending t
  ascending_kept : s.best.Ascending t
  status_recorded : s.recorder.body.status = .ok
  status_kept : s.best.status = .ok

variable {i : Interpreter} {t : Tree} {s : Stitching} {ps : List Push}

/-- A completed run adds its pushes; a run that is not completed adds none. -/
theorem Stitching.Agrees.stitch (ht : t.Acyclic) (h : s.Agrees t ps) (ends : List Memory)
    (c : Constructor) : (stitch i t ends s c).Agrees t (ps ++ i.contribution ends c) := by
  unfold Analysis.stitch Interpreter.contribution
  cases c.body with
  | none =>
    rw [List.append_nil]
    exact h
  | some u =>
    dsimp only
    rw [run_status, run_events, Recorder.observeAll_replay, entries_seeds]
    by_cases hok : (i.script u).status = .ok
    · rw [if_pos (by rw [hok]; rfl), if_pos hok]
      set qs := (i.script u).pushes
        (if c.startsFromInitializers = true ∧ ends ≠ [] then ends else [i.emptyMemory]) with hqs
      have hsum : ∀ x, (Body.recordAll t qs s.recorder.body).summaryIn .primary x =
          (Body.recordAll t (ps ++ qs) (.ofStatus .ok)).summaryIn .primary x := by
        intro x
        have hasc := Body.ascending_recordAll ht ps (Body.ascending_ofStatus t .ok)
        rw [Body.recordAll_append, Body.summaryIn_recordAll ht hasc,
          Body.summaryIn_recordAll ht h.ascending_recorded, h.recorded]
      have hasc : (Body.recordAll t qs s.recorder.body).Ascending t :=
        Body.ascending_recordAll ht qs h.ascending_recorded
      have hstatus : (Body.recordAll t qs s.recorder.body).status = .ok := by
        rw [Body.status_recordAll, h.status_recorded]
      exact ⟨hsum, hsum, hasc, Body.ascending_primaryOnly hasc, hstatus, hstatus⟩
    · rw [if_neg (by rwa [RunStatus.isOk, beq_iff_eq]), if_neg hok, List.append_nil]
      exact ⟨h.kept, h.kept, Body.ascending_primaryOnly h.ascending_kept, h.ascending_kept,
        h.status_kept, h.status_kept⟩

theorem Stitching.Agrees.foldl_stitch (ht : t.Acyclic) (ends : List Memory)
    (cs : List Constructor) (h : s.Agrees t ps) :
    (cs.foldl (Analysis.stitch i t ends) s).Agrees t
      (ps ++ cs.flatMap (i.contribution ends)) := by
  induction cs generalizing s ps with
  | nil =>
    rw [List.flatMap_nil, List.append_nil]
    exact h
  | cons c cs ih =>
    rw [List.foldl_cons, List.flatMap_cons, ← List.append_assoc]
    exact ih (h.stitch ht ends c)

/-- All runs of a class together agree with one run of its stitched pushes. -/
theorem agrees_stitchAll (ht : t.Acyclic) (i : Interpreter) (u : UnitId) :
    (stitchAll i t u (Recorder.observeAll t {} (i.run u []).events)).Agrees t
      (stitchedPushes i t u) := by
  have hrun : Recorder.observeAll t {} (i.run u []).events =
      ⟨Body.recordAll t ((i.script u).pushes [i.emptyMemory]) (.ofStatus .ok),
        (i.script u).initializerEnds⟩ :=
    Recorder.observeAll_replay t {} _ _
  rw [hrun, stitchAll, stitchedPushes]
  have hasc := Body.ascending_recordAll ht ((i.script u).pushes [i.emptyMemory])
    (Body.ascending_ofStatus t .ok)
  have hstatus := Body.status_recordAll t ((i.script u).pushes [i.emptyMemory]) (.ofStatus .ok)
  refine Stitching.Agrees.foldl_stitch ht _ _ ?_
  exact ⟨fun _ => rfl, fun _ => rfl, hasc, Body.ascending_primaryOnly hasc, hstatus, hstatus⟩

/-- Analysing a class: if its own run is not completed, its status is all that is left.
Otherwise the analysis is completed, and presence, type and contract of every expression are
those after one run of the pushes of the class and of its completed constructors. -/
theorem facts_of_class (ht : t.Acyclic) {u : UnitId} (hu : t.kind? u = some .wholeClass)
    (i : Interpreter) :
    let b := (ofUnit? i t true (some u)).body
    let fresh := Body.recordAll t (stitchedPushes i t u) (.ofStatus .ok)
    ((i.script u).status ≠ .ok →
      b.status = (i.script u).status ∧ ∀ x, b.tracks x = false) ∧
    ((i.script u).status = .ok →
      b.status = .ok ∧
        ∀ x, b.tracks x = fresh.tracks x ∧ b.type x = fresh.type x ∧
          b.cannotFail x = fresh.cannotFail x) := by
  intro b fresh
  have hb : b = if (i.script u).status = .ok then
      (stitchAll i t u (Recorder.observeAll t {} (i.run u []).events)).best
      else .ofStatus (i.script u).status := by
    show (ofUnit i t true u).body = _
    unfold ofUnit
    simp only [run_status, hu, Bool.true_and, beq_self_eq_true, if_true]
    by_cases hok : (i.script u).status = .ok
    · rw [if_pos (by rw [hok]; rfl), if_pos hok]
    · rw [if_neg (by rwa [RunStatus.isOk, beq_iff_eq]), if_neg hok]
  constructor
  · intro hfail
    rw [hb, if_neg hfail]
    refine ⟨rfl, fun x => ?_⟩
    simp [Body.tracks, Body.evidence?, Body.evidenceIn, Body.view, Body.ofStatus]
  · intro hok
    rw [hb, if_pos hok]
    have h := agrees_stitchAll ht i u
    exact ⟨h.status_kept, fun x => Body.queries_of_summaryIn_eq (h.kept x)⟩

/-- A class with one expression and two constructors. -/
def classOfTwo : Tree :=
  .build [.container, .wholeClass ⟨0⟩, .constructor ⟨0⟩ .base false,
    .constructor ⟨0⟩ .base false, .expr ⟨0⟩]

/-- Runs of which that of the first constructor is interrupted after a push. -/
def interruptedFirst : Interpreter :=
  (((({} : Interpreter).setScript ⟨0⟩
    [.push ⟨0⟩ (.typed (.constant (.int 1))) {} none, .initializerEnd false {}]).setScript ⟨1⟩
    [.push ⟨0⟩ (.typed .top) {} none, .stop .aborted]).setScript ⟨2⟩
    [.pushFromSeeds ⟨0⟩ (.typed (.constant (.int 2)))])

/-- The second constructor still contributes, and the first one left nothing behind. -/
theorem facts_of_class_interrupted_first :
    let b := (ofUnit? interruptedFirst classOfTwo true (some ⟨0⟩)).body
    classOfTwo.Acyclic ∧ classOfTwo.kind? ⟨0⟩ = some .wholeClass ∧ b.status = .ok ∧
      b.type ⟨0⟩ = .range ⟨1, 2⟩ := by
  intro b
  have hacyclic : classOfTwo.Acyclic := Tree.acyclic_of_parents_later (by decide)
  obtain ⟨hstatus, hfacts⟩ :=
    (facts_of_class hacyclic (u := ⟨0⟩) rfl interruptedFirst).2 (by decide)
  refine ⟨hacyclic, rfl, hstatus, ?_⟩
  rw [(hfacts ⟨0⟩).2.1]
  decide

end Analysis
end PathFacts
