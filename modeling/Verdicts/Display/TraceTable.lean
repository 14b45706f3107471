/-
A trace as tables, one for each component instance: a title line, a line that numbers the steps, and
a line for each stream with one cell for each step.
-/
import Verdicts.Display.Value
import Verdicts.Text.Blank
import Verdicts.Text.Column

namespace Verdicts

/-- The width of a cell. -/
def cellWidth : Nat := 8

/-- The text in front of the step numbers. -/
def stepTitle : String := "step"

namespace TraceTable

/-- A line of cells behind a name, without blanks at its end. -/
def row (level width : Nat) (name : String) (cells : List String) : String :=
  Text.rstrip (Text.indent (level + 1) ++ Text.padRight width name
    ++ String.join (cells.map fun cell => " " ++ Text.padLeft cellWidth cell))

/-- The cell of a stream at a step: the first value recorded for it, or a dash. -/
def cell (settings : DisplaySettings) (stream : TraceStream) (step : Nat) : String :=
  match stream.at? step with
  | some value => value.display settings
  | none => "-"

/-- The width of the column of names: the longest name, counted in bytes, but no less than the title
of the column needs. -/
def nameWidth (streams : List TraceStream) : Nat :=
  (streams.map (·.name.utf8ByteSize)).foldl max stepTitle.length

/-- The lines for one instance, without the instances that it calls. -/
def blockLines (settings : DisplaySettings) (steps level : Nat) (kind name : String)
    (streams : List TraceStream) : List String :=
  let width := nameWidth streams
  let instants := List.range steps
  (Text.indent level ++ kind ++ " " ++ settings.name name)
    :: row level width stepTitle (instants.map Nat.repr)
    :: streams.map fun s => row level width s.name (instants.map (cell settings s))

mutual

/-- The lines for an instance and, one level further in, for the instances that it calls. -/
def treeLines (settings : DisplaySettings) (steps level : Nat) : TraceBlock → List String
  | ⟨kind, name, streams, callees⟩ =>
    blockLines settings steps level kind name streams
      ++ forestLines settings steps (level + 1) callees

/-- `treeLines` for each block. -/
def forestLines (settings : DisplaySettings) (steps level : Nat) : List TraceBlock → List String
  | [] => []
  | block :: rest => treeLines settings steps level block ++ forestLines settings steps level rest

end

end TraceTable

/-- Whether the settings ask for traces of a kind. -/
def DisplaySettings.shows (s : DisplaySettings) : TraceKind → Bool
  | .base => s.printTraces
  | .step => s.printInductiveTraces

/-- The lines of the tables of a trace, if the settings ask for them. -/
def Trace.tableLines? (settings : DisplaySettings) (t : Trace) : Option (List String) :=
  if settings.shows t.kind then some (TraceTable.forestLines settings t.length 0 t.blocks) else none

/-- The tables of a trace, if the settings ask for them. -/
def Trace.table? (settings : DisplaySettings) (t : Trace) : Option String :=
  (t.tableLines? settings).map Text.lines

end Verdicts
