/-
Doing what a command line asks for. A manifest that cannot be used comes before a report format that
there is none of, and both come before anything else.
-/
import Verdicts.Invocation.Help
import Verdicts.Invocation.Reader
import Verdicts.Manifest.Search
import Verdicts.Task.Check
import Verdicts.Task.Doctor

namespace Verdicts

namespace Host

/-- The manifest of the working directory; the standard one if there is none. -/
def manifest (h : Host) : Except ManifestError Manifest :=
  (Manifest.findAndLoad h.files h.files.workingDirectory).map fun found =>
    (found.map (·.manifest)).getD {}

/-- Do something that needs the manifest and reports in a format of this name. -/
def reporting (h : Host) (formatName : Option String)
    (task : Manifest → ReportFormat → Option Outcome) : Option Outcome :=
  match h.manifest with
  | .error e => some { ending := .failure e.message, files := h.files }
  | .ok manifest =>
    match ReportFormat.ofName formatName with
    | .error e => some { ending := .failure e.message, files := h.files }
    | .ok format => task manifest format

/-- Do what is asked for. None is the answer if the engine never ends. -/
def perform (h : Host) : Invocation → Option Outcome
  | .check request => h.reporting request.report fun manifest format => request.run h manifest format
  | .replay request => h.reporting request.report fun manifest format =>
      some (request.run h.files manifest.display format)
  | .doctor => h.examine
  | .help topic => some { output := topic.text, files := h.files }
  | .version => some { output := versionText, files := h.files }

/-- Do what a command line asks for. -/
def run (h : Host) (words : List String) : Option Outcome :=
  match Invocation.ofWords words with
  | .ok invocation => h.perform invocation
  | .error e => some { ending := .misuse e, files := h.files }

end Host

end Verdicts
