/-
Asking an engine for its version, to see whether it can be used.
-/
import Verdicts.Engine.Execution

namespace Verdicts

/-- What an engine says of itself. -/
structure EngineInfo where
  /-- The first line of its answer that is not blank. -/
  banner : String
  version : Option Version
  deriving DecidableEq, Repr, Inhabited

/-- The lines of a text, without blanks around them. -/
def strippedLines (text : String) : List String :=
  (Version.splitBy (· == '\n') text.toList).map fun line => String.ofList (Text.trim line)

/-- What an engine says of itself with its answer. -/
def EngineInfo.ofAnswer (answer : String) : EngineInfo :=
  let banner := ((strippedLines answer).find? (!·.isEmpty)).getD ""
  { banner, version := Version.ofBanner? banner }

/-- What was written to a channel, in order. -/
def written (channel : Channel) (events : List SessionEvent) : Bytes :=
  events.flatMap fun
    | .output chunk => if channel = .output then chunk else []
    | .diagnostics chunk => if channel = .diagnostics then chunk else []
    | _ => []

/-- Whether an engine is recent enough. -/
def EngineInfo.check (binary : Path) (minimum : Option Version) (info : EngineInfo) :
    Except SessionError EngineInfo :=
  match minimum, info.version with
  | none, _ => .ok info
  | some least, some version =>
    if version.atLeast least then .ok info
    else .error (.configuration
      s!"'{binary}' is version {version.text}, at least {least.text} is required")
  | some _, none => .error (.configuration
      s!"cannot determine the version of '{binary}' from '{info.banner}'")

/-- Ask an engine for its version. None is the answer for an engine that never ends. -/
def Host.probe (h : Host) (config : EngineConfig) : Option (Except SessionError EngineInfo) :=
  match h.program config.binary with
  | .error e => some (.error (.configuration s!"cannot run '{config.binary}': {e.message}"))
  | .ok program =>
    let start : Running :=
      { main := { process := program (config.baseArgs ++ config.versionArgs) }, files := h.files }
    let (running, events) := start.runTo horizon
    (if running.allEnded then running.ended? else none).map fun status =>
      if status = .code 0 then
        (EngineInfo.ofAnswer (Utf8.lossy (written .output events))).check config.binary
          config.minimumVersion
      else
        let diagnostics := Text.strip (Utf8.lossy (written .diagnostics events))
        .error (.configuration
          s!"'{config.binary}' version probe failed ({status.text}): {diagnostics}")

end Verdicts
