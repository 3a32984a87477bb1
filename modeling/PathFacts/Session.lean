import PathFacts.Analysis
import PathFacts.Cache.Call
import PathFacts.Error
import PathFacts.Settings.Basic

/-!
# Sessions of queries

A `Session` answers queries about expressions of one program.  An expression belongs to
the unit whose run covers it; the facts of the unit are computed when they are first asked
for, and kept by container and generation as long as the settings say so.

An analysis that was not completed is kept like any other, but tells nothing: its facts
are not handed out.

Results are numbered, so that two queries can be seen to get the very same one.
-/

namespace PathFacts

/-- The facts of a unit, with the number of the analysis that found them. -/
structure Result where
  number : Nat
  body : Body
deriving DecidableEq

instance : Inhabited Result := ⟨⟨0, {}⟩⟩

/-- A program under query. -/
structure Session where
  interpreter : Interpreter
  tree : Tree
  settings : Settings
  cache : Cache Result
  /-- Number of analyses so far. -/
  analyses : Nat := 0
  /-- The completed interpreter runs, in order. -/
  runs : List RunRecord := []

namespace Session

/-- Opens a session with valid settings. -/
def start? (interpreter : Interpreter) (tree : Tree) (settings : Settings) :
    Except Error Session := do
  settings.check.mapError .settings
  return {
    interpreter := interpreter
    tree := tree
    settings := settings
    cache := .ofLimit settings.waiting.limit.toNat }

/-- Analyses a unit. -/
def analyse (s : Session) (u : UnitId) : Result × Session :=
  let analysis := Analysis.ofUnit s.interpreter s.tree s.settings.analysis.stitching u
  (⟨s.analyses, analysis.body⟩,
    { s with analyses := s.analyses + 1, runs := s.runs ++ analysis.runs })

/-- The key under which results of a unit are kept; none where they are not kept. -/
def key? (s : Session) (u : UnitId) : Option Key :=
  if s.settings.cache.enabled then
    (s.tree.container? u).map fun c => ⟨c, s.tree.revision c, u⟩
  else none

/-- The result of a unit, from the cache or from a new analysis.  A call that is made while
no other one is under way never waits. -/
def resultOf (s : Session) (u : UnitId) : Result × Session :=
  match s.key? u with
  | none => s.analyse u
  | some k =>
    match s.cache.begin k with
    | (.returned r, cache) => (r, { s with cache := cache })
    | (.computing role, cache) =>
      let (r, s) := { s with cache := cache }.analyse u
      match s.cache.conclude k role (some r) with
      | (.returned r, cache) => (r, { s with cache := cache })
      | (_, cache) => (r, { s with cache := cache })
    | (_, cache) => { s with cache := cache }.analyse u

/-! ## Queries -/

/-- The facts of the unit that covers `e`; none where no unit does, or where its analysis
was not completed. -/
def ask (s : Session) (e : ExprId) : Option Result × Session :=
  match s.tree.context? e with
  | none => (none, s)
  | some u =>
    let (r, s) := s.resultOf u
    (if r.body.status.isOk then some r else none, s)

/-- The type of what stands inside the parentheses of `e`; top where nothing is known. -/
def valueType (s : Session) (e : ExprId) : ValueType × Session :=
  let e := s.tree.unwrap e
  let (r, s) := s.ask e
  ((r.map (·.body.type e)).getD .top, s)

/-- The interval of `e`: its value known when the program is compiled, if that is
integral, and else the interval of its type. -/
def integers? (s : Session) (e : ExprId) : Option Interval × Session :=
  match (s.tree.constant? e).bind (·.integer?) with
  | some v => (some (.singleton v), s)
  | none =>
    let (t, s) := s.valueType e
    (t.integers?, s)

/-- The one value of `e`, known when the program is compiled or proved by its facts; null
is no such value. -/
def constant? (s : Session) (e : ExprId) : Option Constant × Session :=
  let e := s.tree.unwrap e
  match s.tree.constant? e with
  | some c => (if c.isNull then none else some c, s)
  | none =>
    let (r, s) := s.ask e
    ((r.bind fun r => (r.body.type e).constant?).filter fun c => !c.isNull, s)

/-! ## Changes -/

/-- Forgets the results of a container. -/
def forget (s : Session) (c : ContainerId) : Session :=
  { s with cache := s.cache.forget c }

/-- Takes note of a modification of a container. -/
def revise (s : Session) (c : ContainerId) : Session := { s with tree := s.tree.revise c }

/-- Resolves `e` `n` times. -/
def askTimes (e : ExprId) : (n : Nat) → Session → List (Option Result) × Session
  | 0, s => ([], s)
  | n + 1, s =>
    let (r, s) := s.ask e
    let (rs, s) := askTimes e n s
    (r :: rs, s)

end Session
end PathFacts
