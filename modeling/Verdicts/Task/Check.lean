/-
Running the engine on a program and reporting on the verdicts.
-/
import Verdicts.Engine.Execution
import Verdicts.Engine.Options
import Verdicts.Manifest.Basic
import Verdicts.Task.Replay

namespace Verdicts

namespace CheckRequest

/-- The options that the engine is run with. What is asked for comes before what the manifest says;
arguments that are passed on stand behind those of the manifest. -/
def engineOptions (r : CheckRequest) (engine : EngineSettings) : EngineOptions :=
  let timed : EngineOptions := match r.timeout.or engine.timeout with
    | some seconds => EngineOptions.withTimeout (seconds * 1000) {}
    | none => {}
  let topped := match r.top with
    | some component => timed.withTop component
    | none => timed
  (engine.args ++ r.engineArgs).foldl (fun o raw => o.arg raw) topped

/-- The session that checks the program. -/
def session (r : CheckRequest) (engine : EngineSettings) : SessionRequest where
  args := (r.engineOptions engine).toArgs
  input := .file r.program

/-- Keep what the engine wrote, if that is asked for. -/
def save (r : CheckRequest) (captured : CapturedOutput) (files : Files) : Except Ending Files :=
  match r.savedOutput with
  | none => .ok files
  | some path =>
    match files.write path (Utf8.encode captured.output) with
    | .ok files => .ok files
    | .error e => .error (explained ("writing " ++ path) e.message [])

/-- A session has failed: what was captured is kept first. -/
def failed (r : CheckRequest) (e : SessionError) (files : Files) : Outcome :=
  let saved := match e.captured? with
    | some captured => r.save captured files
    | none => .ok files
  match saved with
  | .error ending => { ending, files }
  | .ok files =>
    { notes := (e.decoded?.map decodedNote).toList
      ending := explained ("checking " ++ r.program) e.message e.causes
      files }

/-- A session has come to its end. -/
def finished (r : CheckRequest) (s : Session) (settings : DisplaySettings) (format : ReportFormat)
    (files : Files) : Outcome :=
  match r.save s.captured files with
  | .error ending => { ending, files }
  | .ok files =>
    match s.final? with
    | none =>
      { ending := .failure "verification was cancelled; results are incomplete", files }
    | some frozen =>
      ({ frozen, transcript := s.transcript, settings } : Report).outcome format files

/-- Check the program. None is the answer if the engine never ends. -/
def run (r : CheckRequest) (h : Host) (manifest : Manifest) (format : ReportFormat) :
    Option Outcome :=
  if h.files.isFile r.program then
    (h.execute manifest.engine.config (r.session manifest.engine)).map fun done =>
      match done.outcome with
      | .error e => r.failed e done.files
      | .ok s => r.finished s manifest.display format done.files
  else
    some { ending := .failure ("program file not found: " ++ r.program), files := h.files }

end CheckRequest

end Verdicts
