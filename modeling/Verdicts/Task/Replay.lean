/-
Explaining an output that was kept, as if its engine had just ended.
-/
import Verdicts.Outcome
import Verdicts.Report
import Verdicts.Stream.Decoder

namespace Verdicts

/-- The note on what was decoded before a failure. -/
def decodedNote (m : Model) : String :=
  s!"note: {m.components.length} component(s) were decoded before the failure"

namespace Report

/-- What a command leaves behind whose run is reported on. -/
def outcome (r : Report) (format : ReportFormat) (files : Files) : Outcome where
  output := r.output format
  notes := r.diagnostics format
  ending := match r.failure? with
    | none => .success
    | some message => .failure message
  files

end Report

namespace ReplayRequest

/-- Report on an output that was kept. -/
def run (r : ReplayRequest) (files : Files) (settings : DisplaySettings) (format : ReportFormat) :
    Outcome :=
  match files.read r.output with
  | .error e => { ending := explained ("reading " ++ r.output) e.message [], files }
  | .ok bytes =>
    match decodeOutput bytes with
    | .error failure =>
      { notes := [decodedNote failure.decoded.model]
        ending := explained ("decoding " ++ r.output) failure.error.message failure.error.causes
        files }
    | .ok d => ({ frozen := d.model.freeze, transcript := d.transcript, settings } : Report).outcome
        format files

end ReplayRequest

end Verdicts
