import PathFacts.Recorder

/-!
# Analysis of a unit

A unit is analysed by one run of the interpreter.  A run that is not completed leaves its
status and no facts.

For a whole class that run covers the initializers.  Every constructor with a body is then
run on top of it, in the order of declaration: from the memories at the ends of the
instance initializers, or from the empty memory where the constructor does not start
there.  A constructor whose run is not completed is rolled back.
-/

namespace PathFacts

/-- An analysis: the facts, and the runs that it took. -/
structure Analysis where
  body : Body
  runs : List RunRecord
deriving DecidableEq

namespace Analysis

/-- State of stitching constructors: what is recorded, the facts of the last completed
run, and the runs so far. -/
structure Stitching where
  recorder : Recorder
  best : Body
  runs : List RunRecord := []

/-- The memories that a constructor starts from. -/
def seeds (i : Interpreter) (initializerEnds : List Memory) (c : Constructor) : List Memory :=
  if c.startsFromInitializers then initializerEnds else [i.emptyMemory]

/-- Runs one constructor on top of what is recorded. -/
def stitch (i : Interpreter) (t : Tree) (initializerEnds : List Memory) (s : Stitching)
    (c : Constructor) : Stitching :=
  match c.body with
  | none => s
  | some u =>
    let seeds := seeds i initializerEnds c
    let run := i.run u seeds
    let recorder := s.recorder.observeAll t run.events
    let runs := s.runs ++ [⟨u, seeds.length, run.status⟩]
    if run.status.isOk then ⟨recorder, recorder.body.primaryOnly, runs⟩
    else ⟨recorder.rollBack s.best.primaryOnly, s.best, runs⟩

/-- Runs all constructors of a class on top of the run of its initializers. -/
def stitchAll (i : Interpreter) (t : Tree) (u : UnitId) (recorder : Recorder) : Stitching :=
  (t.constructors u).foldl (stitch i t recorder.initializerEnds)
    ⟨recorder, recorder.body.primaryOnly, []⟩

/-- Analyses a unit; `stitching` tells whether constructors are run for a class. -/
def ofUnit (i : Interpreter) (t : Tree) (stitching : Bool) (u : UnitId) : Analysis :=
  let run := i.run u []
  let runs := [⟨u, 0, run.status⟩]
  if run.status.isOk then
    let recorder := Recorder.observeAll t {} run.events
    if stitching && t.kind? u == some .wholeClass then
      let s := stitchAll i t u recorder
      ⟨s.best, runs ++ s.runs⟩
    else ⟨recorder.body, runs⟩
  else ⟨.ofStatus run.status, runs⟩

/-- Analyses a unit, if there is one. -/
def ofUnit? (i : Interpreter) (t : Tree) (stitching : Bool) : Option UnitId → Analysis
  | none => ⟨.ofStatus .notApplicable, []⟩
  | some u => ofUnit i t stitching u

end Analysis
end PathFacts
