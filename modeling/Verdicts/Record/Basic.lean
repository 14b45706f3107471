/-
The records of which the engine's output consists. Each says what kind it is; the kinds are events
of a run: an analysis starts, a property is answered, an analysis stops, and so on.
-/
import Verdicts.Result.Analysis
import Verdicts.Result.Transcript

namespace Verdicts

/-- An answer on a property, as reported: origin and verdict are still in the engine's spelling, and
the component that declares the property may be left out. -/
structure PropertyReport where
  name : String
  scope : Option String
  origin : String
  answer : String
  answeredBy : Option String
  location : Option Location
  k : Option Nat
  runtime : Option Runtime
  trace : Option Trace
  deriving Repr, Inhabited

/-- A record. -/
inductive Record where
  /-- The options that the engine works with. -/
  | options (value : Json)
  | log (entry : LogEntry)
  | analysisStart (top : String) (context : AnalysisContext)
  | property (report : PropertyReport)
  | analysisStop
  | postAnalysisStart (name : String)
  | elementSet (set : ElementSet)
  | postAnalysisEnd
  | progress (source : Option String) (k : Option Nat)
  deriving Repr, Inhabited

/-- The kinds of records. -/
inductive RecordKind where
  | options
  | log
  | analysisStart
  | property
  | analysisStop
  | postAnalysisStart
  | elementSet
  | postAnalysisEnd
  | progress
  deriving DecidableEq, Repr, Inhabited

namespace RecordKind

/-- All kinds. -/
def all : List RecordKind :=
  [options, log, analysisStart, property, analysisStop, postAnalysisStart, elementSet,
    postAnalysisEnd, progress]

/-- The spelling of a kind in records. -/
def text : RecordKind → String
  | options => "kind2Options"
  | log => "log"
  | analysisStart => "analysisStart"
  | property => "property"
  | analysisStop => "analysisStop"
  | postAnalysisStart => "postAnalysisStart"
  | elementSet => "modelElementSet"
  | postAnalysisEnd => "postAnalysisEnd"
  | progress => "progress"

/-- The kind that is spelt so. -/
def ofText? (spelling : String) : Option RecordKind :=
  all.find? (·.text == spelling)

end RecordKind

/-- The kind of a record. -/
def Record.kind : Record → RecordKind
  | options _ => .options
  | log _ => .log
  | analysisStart .. => .analysisStart
  | property _ => .property
  | analysisStop => .analysisStop
  | postAnalysisStart _ => .postAnalysisStart
  | elementSet _ => .elementSet
  | postAnalysisEnd => .postAnalysisEnd
  | progress .. => .progress

end Verdicts
