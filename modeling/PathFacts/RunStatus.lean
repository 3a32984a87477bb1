/-!
# Outcome of a run

How one interpreter run over a unit ended.
-/

namespace PathFacts

/-- How a run ended. -/
inductive RunStatus where
  | ok
  /-- There was no body to analyse. -/
  | notApplicable
  /-- A limit of size or of paths was exceeded. -/
  | tooComplex
  /-- The run was interrupted. -/
  | aborted
deriving DecidableEq, Inhabited

namespace RunStatus

/-- Whether the run was completed. -/
def isOk (s : RunStatus) : Bool := s == ok

/-- The status as it is shown. -/
def text : RunStatus → String
  | ok => "ok"
  | notApplicable => "not-applicable"
  | tooComplex => "too-complex"
  | aborted => "aborted"

end RunStatus
end PathFacts
