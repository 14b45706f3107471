/-
What a run tells beside its verdicts: the options that the engine works with, its log, and how deep
its modules got.
-/
import Verdicts.Json.Basic
import Verdicts.Text.Keyed

namespace Verdicts

/-- How serious a log line is. -/
inductive Severity where
  | error
  | warning
  | info
  | debug
  | trace
  deriving DecidableEq, Repr, Inhabited

/-- A line of the engine's log. -/
structure LogEntry where
  /-- The level as the engine spells it. -/
  level : String
  source : Option String
  message : String
  file : Option String
  line : Option Nat
  column : Option Nat
  deriving DecidableEq, Repr, Inhabited

namespace LogEntry

/-- The severity of a line. A level that is not known counts as the least. -/
def severity (e : LogEntry) : Severity :=
  if e.level = "fatal" ∨ e.level = "error" then .error
  else if e.level = "warn" ∨ e.level = "warning" then .warning
  else if e.level = "info" ∨ e.level = "note" then .info
  else if e.level = "debug" then .debug
  else .trace

/-- The module that a line is attributed to. -/
def origin (e : LogEntry) : String := e.source.getD "engine"

/-- Whether a line reports a failure of the engine. -/
def isError (e : LogEntry) : Bool := e.level == "error" || e.level == "fatal"

end LogEntry

/-- Options, log and progress of a run. -/
structure Transcript where
  /-- The options that the engine says it works with. -/
  options : Option Json := none
  logs : List LogEntry := []
  /-- The depth that each module of the engine reported last. -/
  progress : Keyed Nat := []
  /-- How many records were decoded. -/
  records : Nat := 0
  deriving Repr, Inhabited

namespace Transcript

/-- The failures that the engine reported. -/
def errors (t : Transcript) : List LogEntry := t.logs.filter (·.isError)

/-- The greatest depth that any module reported last. -/
def maxProgress (t : Transcript) : Option Nat := (t.progress.map (·.2)).max?

end Transcript

end Verdicts
