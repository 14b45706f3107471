/-
The report on a finished run: the verdicts that count, the advice on them, and the failures that the
engine logged. It is written for people or as one JSON text. A run has failed as soon as any
property that counts is falsified.
-/
import Verdicts.Advice.Suggestion
import Verdicts.Display.Component
import Verdicts.Json.Printer
import Verdicts.Result.Transcript

namespace Verdicts

/-- How a report is written. -/
inductive ReportFormat where
  | human
  | json
  deriving DecidableEq, Repr, Inhabited

/-- The name of a format that there is none of. -/
structure UnknownFormat where
  name : String
  deriving DecidableEq, Repr, Inhabited

/-- The wording of the error. -/
def UnknownFormat.message (e : UnknownFormat) : String :=
  s!"unknown report format: '{e.name}'. Choose: human, json"

/-- The format of a name; without a name, reports are written for people. -/
def ReportFormat.ofName : Option String → Except UnknownFormat ReportFormat
  | none => .ok .human
  | some "human" => .ok .human
  | some "json" => .ok .json
  | some name => .error ⟨name⟩

namespace FrozenModel

/-- How many falsified properties there are that count: in the last analysis of each component, and
in the one that checked its modes. -/
def falsifiedCount (f : FrozenModel) : Nat :=
  (f.model.components.map fun c =>
    ((f.model.lastAnalysis? c.id).map (·.falsified.length)).getD 0
      + ((f.model.modeAnalysis? c.id).map (·.falsified.length)).getD 0).foldr (· + ·) 0

/-- How many undecided properties there are in the last analyses. -/
def unknownCount (f : FrozenModel) : Nat :=
  (f.model.components.map fun c =>
    ((f.model.lastAnalysis? c.id).map (·.unknown.length)).getD 0).foldr (· + ·) 0

end FrozenModel

namespace Json

/-- An absent value is null. -/
def ofOption {α : Type} (encode : α → Json) : Option α → Json
  | some value => encode value
  | none => .null

/-- A natural number. -/
def nat (n : Nat) : Json := .number (.int n)

/-- An array of strings. -/
def strings (texts : List String) : Json := .array (texts.map .string)

end Json

/-- Line and column. -/
def Location.toJson (l : Location) : Json :=
  .object [("column", .nat l.column), ("line", .nat l.line)]

/-- Seconds, and whether the time ran out. -/
def Runtime.toJson (r : Runtime) : Json :=
  .object [("seconds", .number (.float r.seconds)), ("timed_out", .bool r.timedOut)]

/-- A property under its logical name. -/
def Property.toJson (p : Property) : Json :=
  .object
    [("answer", .string p.answer.text),
      ("k", .ofOption .nat p.k),
      ("location", .ofOption Location.toJson p.location),
      ("name", .string p.displayName),
      ("runtime", .ofOption Runtime.toJson p.runtime),
      ("scope", .string p.scope),
      ("source", .string p.origin.text)]

/-- A suggestion with all that it says. -/
def Suggestion.toJson (s : Suggestion) : Json :=
  .object
    [("component", .string s.component),
      ("explanations", .strings s.explanations),
      ("kind", .string s.kind.label),
      ("label", .string s.label),
      ("own_contract_satisfied", .ofOption .bool s.ownContractSatisfied),
      ("subjects", .strings s.subjects)]

/-- A finished run. -/
structure Report where
  frozen : FrozenModel
  transcript : Transcript
  settings : DisplaySettings
  deriving Inhabited

namespace Report

/-- The advice on the run. -/
def suggestions (r : Report) : List Suggestion :=
  r.frozen.advise r.settings

/-- A component with its properties, if it was analyzed. -/
def componentJson? (m : Model) (c : Component) : Option Json :=
  (m.lastAnalysis? c.id).map fun last =>
    .object
      [("analyses", .nat c.analyses.length),
        ("name", .string c.name),
        ("properties", .array (last.authoritative.map Property.toJson))]

/-- The report as one JSON value, with the members of each object in the order of their keys. -/
def toJson (r : Report) : Json :=
  .object
    [("components", .array (r.frozen.model.components.filterMap (componentJson? r.frozen.model))),
      ("errors", .strings (r.transcript.errors.map (·.message))),
      ("suggestions", .array (r.suggestions.map Suggestion.toJson))]

/-- The verdicts on the components that were analyzed, and the advice. -/
def humanText (r : Report) : String :=
  let analyzed := r.frozen.model.components.filter (!·.analyses.isEmpty)
  String.join (analyzed.map fun c => r.frozen.model.displayComponent r.settings c.id)
    ++ "\n" ++ Suggestion.displayAll r.settings r.suggestions

/-- How many undecided properties there are, if there are any and the run has not failed. -/
def remainder (r : Report) : String :=
  if r.frozen.falsifiedCount = 0 ∧ r.frozen.unknownCount ≠ 0 then
    s!"{r.frozen.unknownCount} property(ies) left unknown.\n"
  else ""

/-- What is reported to the reader. -/
def output (r : Report) : ReportFormat → String
  | .json => r.toJson.pretty ++ "\n"
  | .human => r.humanText ++ r.remainder

/-- What is reported beside it. -/
def diagnostics (r : Report) : ReportFormat → List String
  | .json => []
  | .human => r.transcript.errors.map fun entry => s!"engine error: {entry.message}"

/-- Why the run has failed, if it has. -/
def failure? (r : Report) : Option String :=
  if r.frozen.falsifiedCount = 0 then none
  else some s!"verification failed: {r.frozen.falsifiedCount} property(ies) falsified"

end Report

end Verdicts
