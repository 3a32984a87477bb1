import PathFacts.Body.Basic
import PathFacts.Interpreter

/-!
# Recording a run

A `Recorder` listens to runs.  It records every push that covers a whole expression and
keeps the memory at each end of the instance initializers.  Pushes for a part of an
expression describe an operand, not the expression, and are left out.
-/

namespace PathFacts

/-- What was recorded so far. -/
structure Recorder where
  body : Body := {}
  /-- The memories at the ends of the instance initializers, one per path. -/
  initializerEnds : List Memory := []
deriving DecidableEq

namespace Recorder

instance : Inhabited Recorder := ⟨{}⟩

/-- Takes one event in. -/
def observe (t : Tree) (r : Recorder) : Event → Recorder
  | .push e value memory none => { r with body := r.body.record t e memory value }
  | .push _ _ _ (some _) => r
  | .initializerEnd true _ => r
  | .initializerEnd false memory => { r with initializerEnds := r.initializerEnds ++ [memory] }

/-- Takes all events of a run in. -/
def observeAll (t : Tree) (r : Recorder) (events : List Event) : Recorder :=
  events.foldl (observe t) r

/-- Rolls the recorded facts back to `body`; the kept memories stay. -/
def rollBack (r : Recorder) (body : Body) : Recorder := { r with body := body }

end Recorder
end PathFacts
