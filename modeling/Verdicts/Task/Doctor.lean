/-
Telling whether the engine of a project can be used.
-/
import Verdicts.Engine.Probe
import Verdicts.Invocation.Help
import Verdicts.Manifest.Search
import Verdicts.Outcome

namespace Verdicts

/-- What is said of the manifest. -/
def manifestLine : Except ManifestError (Option Manifest.Found) → String
  | .ok (some found) => s!"found at {found.directory}"
  | .ok none => "not found, using defaults"
  | .error e => s!"error: {e.message}"

/-- What is said of the tool and the project. -/
def projectLines (search : Except ManifestError (Option Manifest.Found)) : List String :=
  ["=== Kindly Doctor ===", "", s!"kindly version: {toolVersion}", "", "--- Project ---",
    s!"  {Manifest.fileName}: {manifestLine search}", ""]

/-- What is said of the engine before it is asked. -/
def engineLines (config : EngineConfig) : List String :=
  ["--- Engine ---", s!"  binary: {config.binary}"]
    ++ (config.minimumVersion.map fun v => s!"  minimum version: {v.text}").toList

/-- What is said of an engine that has answered. -/
def EngineInfo.lines (info : EngineInfo) : List String :=
  [s!"  banner: {info.banner}",
    "  version: " ++ (info.version.map Version.text).getD "(not reported)"]

/-- The engine that a project has chosen. A manifest that cannot be used counts as none. -/
def chosenEngine (search : Except ManifestError (Option Manifest.Found)) : EngineConfig :=
  match search with
  | .ok (some found) => found.manifest.engine.config
  | _ => ({} : EngineSettings).config

/-- Look at the project of the working directory and ask its engine for its version. None is the
answer if the engine never ends. -/
def Host.examine (h : Host) : Option Outcome :=
  let search := Manifest.findAndLoad h.files h.files.workingDirectory
  let config := chosenEngine search
  let lines := projectLines search ++ engineLines config
  let text (lines : List String) : String := String.join (lines.map (· ++ "\n"))
  (h.probe config).map fun
    | .ok info => { output := text (lines ++ info.lines), files := h.files }
    | .error e =>
      { output := text lines, ending := explained "engine is not usable" e.message e.causes
        files := h.files }

end Verdicts
