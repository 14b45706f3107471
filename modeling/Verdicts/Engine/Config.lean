/-
How an engine is located, watched and stopped.
-/
import Verdicts.Engine.Version
import Verdicts.Host.Path

namespace Verdicts

/-- The configuration of an engine. Times are in milliseconds. -/
structure EngineConfig where
  /-- The program to run. -/
  binary : Path := "kind2"
  /-- Arguments in front of all others. -/
  baseArgs : List String := []
  /-- Arguments that ask for the version. -/
  versionArgs : List String := ["--version"]
  /-- The time between two looks at a running engine. -/
  pollInterval : Nat := 100
  /-- The time that an engine has to stop before it is killed. -/
  gracePeriod : Nat := 2000
  /-- What is written to an engine that shall stop. -/
  terminationMarker : Option String := none
  /-- The oldest version that will do. -/
  minimumVersion : Option Version := none
  deriving DecidableEq, Repr, Inhabited

end Verdicts
