/-
The manifest of a project: how to run the engine on it and how to show what comes of that.
-/
import Verdicts.Display.Settings
import Verdicts.Engine.Config

namespace Verdicts

/-- Choices about the engine; what is not chosen is left as it is. -/
structure EngineSettings where
  binary : Option Path := none
  /-- Arguments in front of all others. -/
  baseArgs : List String := []
  /-- Seconds after which the engine gives up. -/
  timeout : Option Nat := none
  /-- Arguments passed on as they are. -/
  args : List String := []
  pollInterval : Option Nat := none
  gracePeriod : Option Nat := none
  terminationMarker : Option String := none
  minimumVersion : Option Version := none
  deriving DecidableEq, Repr, Inhabited

/-- The engine as chosen. -/
def EngineSettings.config (s : EngineSettings) : EngineConfig :=
  let standard : EngineConfig := {}
  { standard with
    binary := s.binary.getD standard.binary
    baseArgs := s.baseArgs
    pollInterval := s.pollInterval.getD standard.pollInterval
    gracePeriod := s.gracePeriod.getD standard.gracePeriod
    terminationMarker := s.terminationMarker
    minimumVersion := s.minimumVersion }

/-- A manifest. -/
structure Manifest where
  engine : EngineSettings := {}
  display : DisplaySettings := {}
  deriving DecidableEq, Repr, Inhabited

/-- The name of the file that holds a manifest. -/
def Manifest.fileName : String := "kindly.toml"

end Verdicts
