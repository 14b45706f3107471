/-
The verdicts of a component: a line for each property that counts in its last analysis, each with
the tables of its trace as far as the settings ask for them.
-/
import Verdicts.Display.TraceTable
import Verdicts.Result.Model

namespace Verdicts

/-- The line of a verdict: the answer, the logical name, and the depth if there is one. -/
def Property.verdictLine (settings : DisplaySettings) (p : Property) : String :=
  Text.padRight 12 p.answer.text ++ " " ++ settings.name p.displayName
    ++ match p.k with
      | some k => " (k = " ++ Nat.repr k ++ ")"
      | none => ""

/-- The lines of a property: its verdict and the tables of its trace. -/
def Property.displayLines (settings : DisplaySettings) (p : Property) : List String :=
  p.verdictLine settings :: ((p.trace.bind (·.tableLines? settings)).getD [])

/-- The title of a component. -/
def Component.titleLine (settings : DisplaySettings) (c : Component) : String :=
  "=== " ++ settings.name c.name ++ " (" ++ Nat.repr c.analyses.length ++ " analyses) ==="

namespace Model

/-- The lines for a component; none for a handle that is not part of the model. -/
def componentLines (m : Model) (settings : DisplaySettings) (id : ComponentId) : List String :=
  match m.component? id with
  | none => []
  | some component =>
    component.titleLine settings ::
      match m.lastAnalysis? id with
      | none => ["not analyzed"]
      | some last => last.authoritative.flatMap (·.displayLines settings)

/-- The text for a component. -/
def displayComponent (m : Model) (settings : DisplaySettings) (id : ComponentId) : String :=
  Text.lines (m.componentLines settings id)

end Model

end Verdicts
