/-
The shapes of the records and of their parts: the names of the fields, which of them may be left
out, and what stands for those that are.
-/
import Verdicts.Record.Basic
import Verdicts.Record.Shape
import Verdicts.Record.StreamValue

namespace Verdicts.Schema

/-! ## Traces -/

/-- A stream as reported: the values keep their JSON form until the type is known. -/
structure StreamReport where
  name : String := ""
  type : String := ""
  role : String := ""
  values : List (Nat × Json) := []
  deriving Inhabited

def stream : Shape StreamReport where
  name := "StreamRecord"
  blank := {}
  fields := [
    .needed "name" Read.string fun v s => { s with name := v },
    .optional "type" Read.string fun v s => { s with type := v },
    .optional "class" Read.string fun v s => { s with role := v },
    .optional "instantValues" (Read.list (Read.pair Read.natural Read.whole))
      fun v s => { s with values := v }]

/-- The stream that a report describes. -/
def StreamReport.toStream (s : StreamReport) : TraceStream where
  name := s.name
  type := s.type
  role := s.role
  values := s.values.map fun (instant, value) => (instant, .ofJson s.type value)

/-- A block of a trace; `callees` reads the list of the blocks that it calls. -/
def block (callees : Read (List TraceBlock)) : Shape TraceBlock where
  name := "CexBlockRecord"
  blank := ⟨"node", "", [], []⟩
  fields := [
    .optional "blockType" Read.string fun v s => { s with kind := v },
    .needed "name" Read.string fun v s => { s with name := v },
    .optional "streams" (Read.list stream.read)
      fun v s => { s with streams := v.map StreamReport.toStream },
    .optional "subnodes" callees fun v s => { s with callees := v }]

/-- A block whose calls are nested no deeper than `fuel`. -/
def readBlock : Nat → Read TraceBlock
  | 0, value => .error (.wrongType value "struct CexBlockRecord")
  | fuel + 1, value => (block (Read.list (readBlock fuel))).read value

/-- The blocks of a trace. Blocks are nested no deeper than the value that holds them. -/
def blocks : Read (List TraceBlock) := fun value =>
  Read.list (readBlock (value.depth + 1)) value

/-! ## Answers on properties -/

/-- The time spent, with its unit. -/
structure RuntimeReport where
  unit : Option String := none
  timedOut : Bool := false
  value : Binary64 := .zero false
  deriving Inhabited

def runtime : Shape RuntimeReport where
  name := "RuntimeRecord"
  blank := {}
  fields := [
    .optional "unit" (Read.option Read.string) fun v s => { s with unit := v },
    .optional "timeout" Read.bool fun v s => { s with timedOut := v },
    .needed "value" Read.double fun v s => { s with value := v }]

/-- The time in seconds: milliseconds are converted, and any other unit counts as seconds. -/
def RuntimeReport.toRuntime (r : RuntimeReport) : Runtime where
  seconds := if r.unit = some "ms" then r.value.div (.ofNat 1000) else r.value
  timedOut := r.timedOut

/-- A verdict and the module that it comes from. -/
structure AnswerReport where
  source : Option String := none
  value : String := ""
  deriving Inhabited

def answer : Shape AnswerReport where
  name := "AnswerRecord"
  blank := {}
  fields := [
    .optional "source" (Read.option Read.string) fun v s => { s with source := v },
    .needed "value" Read.string fun v s => { s with value := v }]

/-- The fields of an answer on a property. -/
structure PropertyFields where
  name : String := ""
  scope : Option String := none
  line : Option Nat := none
  column : Option Nat := none
  source : String := ""
  runtime : Option RuntimeReport := none
  k : Option Nat := none
  answer : AnswerReport := {}
  base : Option (List TraceBlock) := none
  step : Option (List TraceBlock) := none
  deriving Inhabited

def property : Shape PropertyFields where
  name := "PropertyRecord"
  blank := {}
  fields := [
    .needed "name" Read.string fun v s => { s with name := v },
    .optional "scope" (Read.option Read.string) fun v s => { s with scope := v },
    .optional "line" Read.lenient32 fun v s => { s with line := v },
    .optional "column" Read.lenient32 fun v s => { s with column := v },
    .needed "source" Read.string fun v s => { s with source := v },
    .optional "runtime" (Read.option runtime.read) fun v s => { s with runtime := v },
    .optional "k" Read.lenient64 fun v s => { s with k := v },
    .needed "answer" answer.read fun v s => { s with answer := v },
    .optional "counterExample" (Read.option blocks) fun v s => { s with base := v },
    .optional "inductiveCounterExample" (Read.option blocks) fun v s => { s with step := v }]

/-- The position, if the line is known; a column that is not counts as zero. -/
def PropertyFields.location (p : PropertyFields) : Option Location :=
  p.line.map fun line => ⟨line, p.column.getD 0⟩

/-- The trace: one from an initial state comes before one of an inductive step. -/
def PropertyFields.trace (p : PropertyFields) : Option Trace :=
  match p.base with
  | some blocks => some ⟨.base, blocks⟩
  | none => p.step.map (⟨.step, ·⟩)

/-- The answer on a property that the fields describe. -/
def PropertyFields.toReport (p : PropertyFields) : PropertyReport where
  name := p.name
  scope := p.scope
  origin := p.source
  answer := p.answer.value
  answeredBy := p.answer.source
  location := p.location
  k := p.k
  runtime := p.runtime.map (·.toRuntime)
  trace := p.trace

/-! ## The other records -/

/-- The fields of a log line. -/
structure LogFields where
  level : String := ""
  source : Option String := none
  file : Option String := none
  line : Option Nat := none
  column : Option Nat := none
  value : Json := .null
  deriving Inhabited

def log : Shape LogFields where
  name := "LogRecord"
  blank := {}
  fields := [
    .needed "level" Read.string fun v s => { s with level := v },
    .optional "source" (Read.option Read.string) fun v s => { s with source := v },
    .optional "file" (Read.option Read.string) fun v s => { s with file := v },
    .optional "line" Read.lenient32 fun v s => { s with line := v },
    .optional "column" Read.lenient32 fun v s => { s with column := v },
    .optional "value" Read.whole fun v s => { s with value := v }]

/-- The message as text: a string as it is, nothing for `null`, and JSON text for the rest. -/
def messageOf : Json → String
  | .string text => text
  | .null => ""
  | value => value.compact

/-- The log line that the fields describe. -/
def LogFields.toEntry (l : LogFields) : LogEntry where
  level := l.level
  source := l.source
  message := messageOf l.value
  file := l.file
  line := l.line
  column := l.column

/-- The fields of the start of an analysis. -/
structure StartFields where
  top : String := ""
  context : AnalysisContext := {}
  deriving Inhabited

def analysisStart : Shape StartFields where
  name := "AnalysisStartRecord"
  blank := {}
  fields := [
    .needed "top" Read.string fun v s => { s with top := v },
    .optional "concrete" (Read.list Read.string)
      fun v s => { s with context := { s.context with concrete := v } },
    .optional "abstract" (Read.list Read.string)
      fun v s => { s with context := { s.context with abstracted := v } },
    .optional "assumptions" (Read.list (Read.pair Read.string Read.natural))
      fun v s => { s with context := { s.context with assumptions := v } }]

def postAnalysisStart : Shape String where
  name := "PostAnalysisStartRecord"
  blank := ""
  fields := [.needed "name" Read.string fun v _ => v]

/-- An element without the component that it belongs to. -/
structure ElementFields where
  category : String := ""
  name : String := ""
  line : Option Nat := none
  column : Option Nat := none
  deriving Inhabited

def element : Shape ElementFields where
  name := "ElementRecord"
  blank := {}
  fields := [
    .optional "category" Read.string fun v s => { s with category := v },
    .needed "name" Read.string fun v s => { s with name := v },
    .optional "line" Read.lenient32 fun v s => { s with line := v },
    .optional "column" Read.lenient32 fun v s => { s with column := v }]

/-- The elements of one component. -/
structure NodeFields where
  name : String := ""
  elements : List ElementFields := []
  deriving Inhabited

def node : Shape NodeFields where
  name := "NodeElementsRecord"
  blank := {}
  fields := [
    .needed "name" Read.string fun v s => { s with name := v },
    .optional "elements" (Read.list element.read) fun v s => { s with elements := v }]

/-- The fields of a set of elements. -/
structure SetFields where
  label : String := ""
  nodes : List NodeFields := []
  deriving Inhabited

def elementSet : Shape SetFields where
  name := "ModelElementSetRecord"
  blank := {}
  fields := [
    .optional "class" Read.string fun v s => { s with label := v },
    .optional "nodes" (Read.list node.read) fun v s => { s with nodes := v }]

/-- The set of elements that the fields describe, component by component. -/
def SetFields.toSet (s : SetFields) : ElementSet where
  label := s.label
  elements := s.nodes.flatMap fun n => n.elements.map fun e =>
    { component := n.name, category := e.category, name := e.name, line := e.line, column := e.column }

/-- The fields of a report on progress. -/
structure ProgressFields where
  source : Option String := none
  k : Option Nat := none
  deriving Inhabited

def progress : Shape ProgressFields where
  name := "ProgressRecord"
  blank := {}
  fields := [
    .optional "source" (Read.option Read.string) fun v s => { s with source := v },
    .optional "k" Read.lenient64 fun v s => { s with k := v }]

/-- The record of a kind that members give. The kinds without fields ignore all members, and options
keep all of them. -/
def record (kind : RecordKind) (members : List (String × Json)) : Except DataError Record :=
  match kind with
  | .options => .ok (.options (Json.object members).canonical)
  | .log => (log.ofMembers members).map fun l => .log l.toEntry
  | .analysisStart => (analysisStart.ofMembers members).map fun s => .analysisStart s.top s.context
  | .property => (property.ofMembers members).map fun p => .property p.toReport
  | .analysisStop => .ok .analysisStop
  | .postAnalysisStart => (postAnalysisStart.ofMembers members).map .postAnalysisStart
  | .elementSet => (elementSet.ofMembers members).map fun s => .elementSet s.toSet
  | .postAnalysisEnd => .ok .postAnalysisEnd
  | .progress => (progress.ofMembers members).map fun p => .progress p.source p.k

end Verdicts.Schema
