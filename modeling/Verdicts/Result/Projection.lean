/-
The properties of a component and of all that it calls, by verdict. The last analysis of each
component counts; for falsified properties the analysis that checked its modes counts too. A frozen
model has computed every such projection once.
-/
import Verdicts.Result.Traversal

namespace Verdicts

namespace Analysis

/-- Where the properties are that count and have a verdict. -/
def refsWithAnswer (a : Analysis) (answer : Answer) : List PropertyRef :=
  (a.authoritativePositions.filter fun position =>
    match a.property? position with
    | some p => p.answer = answer
    | none => false).map (⟨a.id, ·⟩)

end Analysis

namespace Model

/-- The analyses of a component in which properties with a verdict are looked for. -/
def relevantAnalyses (m : Model) (id : ComponentId) (answer : Answer) : List Analysis :=
  (if answer = .falsifiable then (m.modeAnalysis? id).toList else []) ++ (m.lastAnalysis? id).toList

/-- Where the properties of one component with a verdict are. -/
def ownRefs (m : Model) (answer : Answer) (id : ComponentId) : List PropertyRef :=
  (m.relevantAnalyses id answer).flatMap (·.refsWithAnswer answer)

/-- Where the properties with a verdict are, of a component and of all that it calls. -/
def refsWithAnswer (m : Model) (id : ComponentId) (answer : Answer) : List PropertyRef :=
  (m.descendants id).flatMap (m.ownRefs answer)

/-- The properties at some places. -/
def resolve (m : Model) (refs : List PropertyRef) : List Property :=
  refs.filterMap m.property?

/-- The properties with a verdict, of a component and of all that it calls. -/
def withAnswer (m : Model) (id : ComponentId) (answer : Answer) : List Property :=
  m.resolve (m.refsWithAnswer id answer)

end Model

/-- A model that no longer changes, with every projection at hand. -/
structure FrozenModel where
  model : Model
  projections : List ((ComponentId × Answer) × List PropertyRef)
  deriving Repr, Inhabited

namespace Model

/-- Compute every projection. -/
def freeze (m : Model) : FrozenModel where
  model := m
  projections := m.components.flatMap fun component =>
    Answer.all.map fun answer => ((component.id, answer), m.refsWithAnswer component.id answer)

end Model

namespace FrozenModel

/-- The properties with a verdict, of a component and of all that it calls. -/
def withAnswer (f : FrozenModel) (id : ComponentId) (answer : Answer) : List Property :=
  match f.projections.lookup (id, answer) with
  | some refs => f.model.resolve refs
  | none => []

def falsified (f : FrozenModel) (id : ComponentId) : List Property :=
  f.withAnswer id .falsifiable

/-- The model, to be changed again. -/
def thaw (f : FrozenModel) : Model := f.model

end FrozenModel

end Verdicts
