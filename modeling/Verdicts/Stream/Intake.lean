/-
Taking records in, one after the other. Analyses may be nested: an answer belongs to the innermost
analysis that is running, and an analysis that stops is the innermost. A post-analysis collects
element sets until it ends and is then added to the analysis that it followed.

A record that is refused may have done part of its work before: every operation here returns what is
known afterwards together with the reason of the refusal, if there is one.
-/
import Verdicts.Stream.DecodeError

namespace Verdicts

/-- What is known of a run after some records. -/
structure Intake where
  model : Model := {}
  transcript : Transcript := {}
  /-- The analyses that were started and not stopped, innermost first. -/
  running : List AnalysisId := []
  /-- The analysis that was stopped last, if none was started since. -/
  lastStopped : Option AnalysisId := none
  /-- The post-analysis that has not ended. -/
  postAnalysis : Option PostAnalysis := none
  deriving Repr, Inhabited

namespace Intake

/-- Record that a component calls each of several others, leaving out itself. -/
def addCallees (m : Model) (top : String) : List String → Model × Option ModelError
  | [] => (m, none)
  | callee :: rest =>
    if callee = top then addCallees m top rest
    else
      match m.addChild top callee with
      | (m, none) => addCallees m top rest
      | (m, some e) => (m, some e)

/-- An analysis starts. -/
def startAnalysis (i : Intake) (top : String) (context : AnalysisContext) :
    Intake × Option DecodeError :=
  match addCallees i.model top (context.concrete ++ context.abstracted) with
  | (m, some e) => ({ i with model := m }, some (.model e))
  | (m, none) =>
    let (m, id) := m.addAnalysis top context
    ({ i with model := m, running := id :: i.running, lastStopped := none }, none)

/-- The component that an analysis is about; nothing if there is no such analysis. -/
def scopeOf (m : Model) (id : AnalysisId) : String :=
  match (m.analysis? id).bind fun a => m.component? a.owner with
  | some component => component.name
  | none => ""

/-- The property that an answer gives, with the spellings resolved: first the origin, then the
verdict. An answer without a component counts for the one under analysis. -/
def propertyOf (m : Model) (id : AnalysisId) (offset : Nat) (report : PropertyReport) :
    Except DecodeError Property :=
  match Origin.ofText? report.origin with
  | none => .error (.unknownValue .origin report.origin offset)
  | some origin =>
    match Answer.ofText? report.answer with
    | none => .error (.unknownValue .answer report.answer offset)
    | some answer =>
      .ok { name := report.name
            scope := report.scope.getD (scopeOf m id)
            origin
            answer
            answeredBy := report.answeredBy
            location := report.location
            k := report.k
            runtime := report.runtime
            trace := report.trace }

/-- An answer on a property arrives. -/
def addReport (i : Intake) (offset : Nat) (report : PropertyReport) : Intake × Option DecodeError :=
  match i.running with
  | [] => (i, some (.outOfOrder .property offset (.outsideAnalysis report.name)))
  | id :: _ =>
    match propertyOf i.model id offset report with
    | .error e => (i, some e)
    | .ok property =>
      match i.model.addProperty id property with
      | (m, .error e) => ({ i with model := m }, some (.model e))
      | (m, .ok _) => ({ i with model := m }, none)

/-- The innermost analysis stops. -/
def stopAnalysis (i : Intake) (offset : Nat) : Intake × Option DecodeError :=
  match i.running with
  | [] => (i, some (.outOfOrder .analysisStop offset .noAnalysisRunning))
  | id :: rest => ({ i with running := rest, lastStopped := some id }, none)

/-- A post-analysis starts. -/
def startPostAnalysis (i : Intake) (offset : Nat) (name : String) : Intake × Option DecodeError :=
  match i.postAnalysis with
  | some post => (i, some (.outOfOrder .postAnalysisStart offset (.postAnalysisRunning post.name)))
  | none => ({ i with postAnalysis := some { name } }, none)

/-- A set of elements arrives. -/
def addElementSet (i : Intake) (offset : Nat) (set : ElementSet) : Intake × Option DecodeError :=
  match i.postAnalysis with
  | none => (i, some (.outOfOrder .elementSet offset .noPostAnalysisRunning))
  | some post =>
    ({ i with postAnalysis := some { post with elementSets := post.elementSets ++ [set] } }, none)

/-- The analysis that a post-analysis belongs to: the one stopped last, otherwise the innermost one
that is running. -/
def postAnalysisTarget? (i : Intake) : Option AnalysisId :=
  i.lastStopped.or i.running.head?

/-- The post-analysis ends. It is over even if there is nothing to add it to. -/
def endPostAnalysis (i : Intake) (offset : Nat) : Intake × Option DecodeError :=
  match i.postAnalysis with
  | none => (i, some (.outOfOrder .postAnalysisEnd offset .noPostAnalysisRunning))
  | some post =>
    let i := { i with postAnalysis := none }
    match i.postAnalysisTarget? with
    | none => (i, some (.outOfOrder .postAnalysisEnd offset .noAnalysisToAttachTo))
    | some target =>
      match i.model.attachPostAnalysis target post with
      | (m, some e) => ({ i with model := m }, some (.model e))
      | (m, none) => ({ i with model := m }, none)

/-- A module of the engine reports how deep it got; without a depth the report says nothing. -/
def noteProgress (t : Transcript) (source : Option String) : Option Nat → Transcript
  | none => t
  | some k => { t with progress := Keyed.put (source.getD "engine") k t.progress }

/-- Take in the record that begins at an offset. -/
def accept (i : Intake) (offset : Nat) : Record → Intake × Option DecodeError
  | .options value => ({ i with transcript := { i.transcript with options := some value } }, none)
  | .log entry => ({ i with transcript := { i.transcript with logs := i.transcript.logs ++ [entry] } }, none)
  | .analysisStart top context => i.startAnalysis top context
  | .property report => i.addReport offset report
  | .analysisStop => i.stopAnalysis offset
  | .postAnalysisStart name => i.startPostAnalysis offset name
  | .elementSet set => i.addElementSet offset set
  | .postAnalysisEnd => i.endPostAnalysis offset
  | .progress source k => ({ i with transcript := noteProgress i.transcript source k }, none)

/-- One more record was decoded, whether or not it can be taken in. -/
def count (i : Intake) : Intake :=
  { i with transcript := { i.transcript with records := i.transcript.records + 1 } }

end Intake

end Verdicts
