import PathFacts.Memory
import PathFacts.RunStatus
import PathFacts.TextSpan

/-!
# Scripted runs

An interpreter walks a unit and reports every value that it pushes.  `Interpreter` does
so by replaying a script per unit; a unit without a script completes at once and reports
nothing.

`Interpreter.run` is a pure function of the script and of the entry memories, so a run is
its list of events and its status.
-/

namespace PathFacts

open Std (ExtTreeMap)

/-- What an interpreter reports during a run. -/
inductive Event where
  /-- A value is about to be pushed for `e`; `span` is given where it covers only a part
  of the expression. -/
  | push (e : ExprId) (value : Pushed) (memory : Memory) (span : Option TextSpan)
  /-- The end of the static or of the instance initializers on one path. -/
  | initializerEnd (isStatic : Bool) (memory : Memory)
deriving DecidableEq

/-- A step of a script. -/
inductive ScriptStep where
  | push (e : ExprId) (value : Pushed) (memory : Memory) (span : Option TextSpan)
  /-- Pushes the value once under every entry memory of the run. -/
  | pushFromSeeds (e : ExprId) (value : Pushed)
  | initializerEnd (isStatic : Bool) (memory : Memory)
  /-- Ends the run. -/
  | stop (status : RunStatus)
deriving DecidableEq

/-- The steps replayed for a unit. -/
abbrev Script := List ScriptStep

/-- The events of a run and how it ended. -/
structure Run where
  events : List Event
  status : RunStatus
deriving DecidableEq

/-- Replays a script from the entry memories `entries`. -/
def Script.replay (entries : List Memory) : Script → Run
  | [] => ⟨[], .ok⟩
  | .stop status :: _ => ⟨[], status⟩
  | .push e value memory span :: rest =>
    let run := Script.replay entries rest
    { run with events := .push e value memory span :: run.events }
  | .pushFromSeeds e value :: rest =>
    let run := Script.replay entries rest
    { run with events := entries.map (.push e value · none) ++ run.events }
  | .initializerEnd isStatic memory :: rest =>
    let run := Script.replay entries rest
    { run with events := .initializerEnd isStatic memory :: run.events }

/-- An interpreter that replays scripts. -/
structure Interpreter where
  scripts : ExtTreeMap UnitId Script := ∅
  /-- The entry memory of a run that is not seeded. -/
  emptyMemory : Memory := {}

instance : Inhabited Interpreter := ⟨{}⟩

namespace Interpreter

/-- Gives `u` a script in place of the one it had. -/
def setScript (i : Interpreter) (u : UnitId) (script : Script) : Interpreter :=
  { i with scripts := i.scripts.insert u script }

/-- The memories that a run starts from: its seeds, or the empty memory without any. -/
def entries (i : Interpreter) (seeds : List Memory) : List Memory :=
  if seeds.isEmpty then [i.emptyMemory] else seeds

/-- Runs `u` from `seeds`. -/
def run (i : Interpreter) (u : UnitId) (seeds : List Memory) : Run :=
  (i.scripts[u]?.getD []).replay (i.entries seeds)

end Interpreter

/-- A completed run, as the log keeps it. -/
structure RunRecord where
  unit : UnitId
  seedCount : Nat
  status : RunStatus
deriving DecidableEq

end PathFacts
