import PathFacts.Settings.Error

/-!
# Settings

Three sections: whether results are kept, how callers wait for a computation that is under
way, and how classes are analysed.  `Settings.standard` are the settings of a machine with
a given number of processors, where nothing was chosen.
-/

namespace PathFacts

/-- How results are kept. -/
structure CacheSettings where
  /-- Without it every query runs the analysis again. -/
  enabled : Bool := true
deriving DecidableEq, Inhabited

/-- How callers wait for a computation that is under way. -/
structure WaitingSettings where
  /-- How many callers may wait at once. -/
  limit : UInt64
  /-- How long a waiting caller sleeps between two looks, in milliseconds. -/
  pollMillis : UInt64 := 10
deriving DecidableEq, Inhabited

/-- How units are analysed. -/
structure AnalysisSettings where
  /-- Whether the constructors of a class are run on top of its initializers. -/
  stitching : Bool := true
deriving DecidableEq, Inhabited

/-- All settings. -/
structure Settings where
  cache : CacheSettings
  waiting : WaitingSettings
  analysis : AnalysisSettings
deriving DecidableEq, Inhabited

namespace WaitingSettings

/-- One caller per processor may wait. -/
def standard (processors : UInt64) : WaitingSettings := { limit := processors }

/-- The shortest sleep. -/
def minPollMillis : UInt64 := 1

/-- The longest sleep. -/
def maxPollMillis : UInt64 := 1000

/-- A waiting caller has to sleep, and not too long. -/
def check (s : WaitingSettings) : Except SettingsError Unit :=
  if s.pollMillis < minPollMillis || maxPollMillis < s.pollMillis then
    .error (.range "blocking.poll_interval_ms" (toString s.pollMillis.toNat)
      (toString minPollMillis.toNat) (toString maxPollMillis.toNat)
      "Waiters need a non-zero poll interval")
  else .ok ()

end WaitingSettings

namespace Settings

/-- The settings where nothing was chosen. -/
def standard (processors : UInt64) : Settings := ⟨{}, .standard processors, {}⟩

/-- Chooses whether results are kept. -/
def setCaching (s : Settings) (enabled : Bool) : Settings :=
  { s with cache := { s.cache with enabled := enabled } }

/-- Chooses how many callers may wait at once. -/
def setWaiters (s : Settings) (waiters : UInt64) : Settings :=
  { s with waiting := { s.waiting with limit := waiters } }

/-- Chooses how long a waiting caller sleeps. -/
def setPollMillis (s : Settings) (millis : UInt64) : Settings :=
  { s with waiting := { s.waiting with pollMillis := millis } }

/-- Chooses whether the constructors of a class are run. -/
def setStitching (s : Settings) (enabled : Bool) : Settings :=
  { s with analysis := { s.analysis with stitching := enabled } }

/-- Refuses settings that callers could not wait with. -/
def check (s : Settings) : Except SettingsError Unit := s.waiting.check

end Settings
end PathFacts
