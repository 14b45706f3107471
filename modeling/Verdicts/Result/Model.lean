/-
The result model: components, their call graph and their analyses. A component comes into being when
its name is first mentioned, and the name is what joins the records that mention it: an index leads from
the name to the component. Components and analyses are only ever added, so a handle keeps its meaning.

A change that is refused may have done part of its work before: every operation that can be refused returns
the model as it is afterwards together with what it has to tell.
-/
import Verdicts.Result.Analysis
import Verdicts.Text.Keyed

namespace Verdicts

/-- A named unit of the program. -/
structure Component where
  id : ComponentId
  name : String
  /-- Its analyses in the order in which they were started. -/
  analyses : List AnalysisId := []
  /-- The components that it calls. -/
  children : List ComponentId := []
  /-- The components that call it. -/
  parents : List ComponentId := []
  deriving DecidableEq, Repr, Inhabited

/-- Components and analyses, each at the position that its handle gives. -/
structure Model where
  components : List Component := []
  /-- Which component is that of a name. -/
  index : Keyed ComponentId := []
  analyses : List Analysis := []
  deriving Repr, Inhabited

/-- Where a decoded property is kept. -/
structure PropertyRef where
  analysis : AnalysisId
  position : Nat
  deriving DecidableEq, Repr, Inhabited

/-- Why a model refuses a change or a question. -/
inductive ModelError where
  | noAnalyses (component : String)
  | unknownComponent (name : String)
  | invalidComponent (id : ComponentId)
  | unknownAnalysis (id : AnalysisId)
  | selfEdge (component : String)
  deriving DecidableEq, Repr, Inhabited

/-- The wording of an error. -/
def ModelError.message : ModelError → String
  | noAnalyses component => s!"component '{component}' has no analyses"
  | unknownComponent name => s!"unknown component: '{name}'"
  | invalidComponent id => s!"component id {id.text} is not part of this model"
  | unknownAnalysis id => s!"analysis id {id.text} is not part of this model"
  | selfEdge component => s!"component '{component}' cannot be its own child"

namespace Model

/-- A model without anything in it. -/
def empty : Model := {}

/-! ## Looking up -/

/-- The component of a name. -/
def componentId? (m : Model) (name : String) : Option ComponentId :=
  m.index.get? name

def component? (m : Model) (id : ComponentId) : Option Component :=
  m.components[id.index]?

def analysis? (m : Model) (id : AnalysisId) : Option Analysis :=
  m.analyses[id.index]?

/-- The component of a name, or the error that there is none. -/
def componentNamed (m : Model) (name : String) : Except ModelError Component :=
  match (m.componentId? name).bind m.component? with
  | some component => .ok component
  | none => .error (.unknownComponent name)

/-- The decoded property at a place. -/
def property? (m : Model) (ref : PropertyRef) : Option Property :=
  (m.analysis? ref.analysis).bind (·.property? ref.position)

/-- The components that no other calls, in order of creation. -/
def roots (m : Model) : List Component :=
  m.components.filter (·.parents.isEmpty)

/-- The name of a component, or `?` for a handle that belongs to another model. -/
def nameOf (m : Model) (id : ComponentId) : String :=
  match m.component? id with
  | some component => component.name
  | none => "?"

/-- The components that a component calls. -/
def childrenOf (m : Model) (id : ComponentId) : List ComponentId :=
  match m.component? id with
  | some component => component.children
  | none => []

/-- The analyses of a component in the order in which they were started. -/
def analysesOf (m : Model) (id : ComponentId) : List Analysis :=
  match m.component? id with
  | some component => component.analyses.filterMap m.analysis?
  | none => []

/-- The analyses of a component, or the error that there is no such component. -/
def checkedAnalysesOf (m : Model) (id : ComponentId) : Except ModelError (List Analysis) :=
  match m.component? id with
  | some _ => .ok (m.analysesOf id)
  | none => .error (.invalidComponent id)

/-- The analysis of a component that counts, which is the last. -/
def lastAnalysis? (m : Model) (id : ComponentId) : Option Analysis :=
  (m.component? id).bind fun component => component.analyses.getLast?.bind m.analysis?

/-- The last analysis of a component, or the reason why there is none. -/
def lastAnalysis (m : Model) (id : ComponentId) : Except ModelError Analysis :=
  match m.component? id with
  | none => .error (.invalidComponent id)
  | some component =>
    match component.analyses.getLast?.bind m.analysis? with
    | some last => .ok last
    | none => .error (.noAnalyses component.name)

/-- The analysis of a component that checked its modes. Only the one before the last can be it. -/
def modeAnalysis? (m : Model) (id : ComponentId) : Option Analysis :=
  (m.component? id).bind fun component =>
    if component.analyses.length < 2 then none
    else (component.analyses[component.analyses.length - 2]?.bind m.analysis?).filter (·.checksModes)

/-- Component, logical name and verdict of each property that counts, in order of creation of the
components. -/
def finalVerdicts (m : Model) : List (String × String × Answer) :=
  m.components.flatMap fun component =>
    match m.lastAnalysis? component.id with
    | some last => last.authoritative.map fun p => (component.name, p.displayName, p.answer)
    | none => []

/-! ## Changing -/

/-- The component of a name, created and entered in the index if there is none. -/
def intern (m : Model) (name : String) : Model × ComponentId :=
  match m.componentId? name with
  | some id => (m, id)
  | none =>
    let id := ⟨m.components.length⟩
    ({ m with components := m.components ++ [{ id, name }], index := m.index.put name id }, id)

/-- The components of several names, created from left to right. -/
def internAll (m : Model) : List String → Model × List ComponentId
  | [] => (m, [])
  | name :: rest =>
    let (m, id) := m.intern name
    let (m, ids) := m.internAll rest
    (m, id :: ids)

/-- Change one component. -/
def updateComponent (m : Model) (id : ComponentId) (f : Component → Component) : Model :=
  { m with components := m.components.modify id.index f }

/-- Start an analysis of a component. The component, and each one that the context names, is created
if there is none of the name. -/
def addAnalysis (m : Model) (name : String) (context : AnalysisContext) : Model × AnalysisId :=
  let (m, owner) := m.intern name
  let (m, concrete) := m.internAll context.concrete
  let (m, abstracted) := m.internAll context.abstracted
  let id : AnalysisId := ⟨m.analyses.length⟩
  let analysis : Analysis :=
    { id, owner, concrete, abstracted, assumptions := context.assumptions }
  let m := { m with analyses := m.analyses ++ [analysis] }
  (m.updateComponent owner fun c => { c with analyses := c.analyses ++ [id] }, id)

/-- Add a decoded property to an analysis. -/
def addProperty (m : Model) (id : AnalysisId) (p : Property) : Model × Except ModelError PropertyRef :=
  match m.analysis? id with
  | none => (m, .error (.unknownAnalysis id))
  | some analysis =>
    ({ m with analyses := m.analyses.modify id.index (·.push p) }, .ok ⟨id, analysis.decoded.length⟩)

/-- Record that one component calls another. Once recorded, it stays as it is. -/
def addChild (m : Model) (parent child : String) : Model × Option ModelError :=
  if parent = child then (m, some (.selfEdge parent))
  else
    let (m, p) := m.intern parent
    let (m, c) := m.intern child
    if c ∈ m.childrenOf p then (m, none)
    else
      let m := m.updateComponent p fun component => { component with children := component.children ++ [c] }
      (m.updateComponent c fun component => { component with parents := component.parents ++ [p] }, none)

/-- Add what was found by a pass that followed an analysis. -/
def attachPostAnalysis (m : Model) (id : AnalysisId) (post : PostAnalysis) : Model × Option ModelError :=
  match m.analysis? id with
  | none => (m, some (.unknownAnalysis id))
  | some _ => ({ m with analyses := m.analyses.modify id.index (·.pushPostAnalysis post) }, none)

end Model

end Verdicts
