/-
What is asked for on a command line, and what can be wrong with one.
-/
import Verdicts.Host.Path

namespace Verdicts

/-- A program to be checked. -/
structure CheckRequest where
  program : Path := ""
  /-- Seconds after which the engine gives up, in place of what the manifest says. -/
  timeout : Option Nat := none
  /-- The component to verify. -/
  top : Option String := none
  /-- The name of the format of the report. -/
  report : Option String := none
  /-- Where to keep the output of the engine. -/
  savedOutput : Option Path := none
  /-- Arguments passed on to the engine, behind those of the manifest. -/
  engineArgs : List String := []
  deriving DecidableEq, Repr, Inhabited

/-- An output that was kept, to be explained. -/
structure ReplayRequest where
  output : Path := ""
  /-- The name of the format of the report. -/
  report : Option String := none
  deriving DecidableEq, Repr, Inhabited

/-- What help is about. -/
inductive HelpTopic where
  | overview
  | check
  | replay
  | doctor
  | help
  deriving DecidableEq, Repr, Inhabited

/-- What is asked for. -/
inductive Invocation where
  | check (request : CheckRequest)
  | replay (request : ReplayRequest)
  | doctor
  | help (topic : HelpTopic)
  | version
  deriving DecidableEq, Repr, Inhabited

/-- The files that are named. -/
def Invocation.paths : Invocation → List Path
  | check request => request.program :: request.savedOutput.toList
  | replay request => [request.output]
  | _ => []

/-- What is wrong with a command line. -/
inductive UsageError where
  | noCommand
  | unknownCommand (name : String)
  | unknownOption (spelling : String)
  | repeatedOption (name : String)
  | missingValue (name : String)
  /-- A value for an option that takes none. -/
  | superfluousValue (name : String) (value : String)
  | invalidValue (name : String) (value : String)
  | missingArgument (name : String)
  | superfluousArgument (value : String)
  deriving DecidableEq, Repr, Inhabited

/-- The wording of an error. -/
def UsageError.message : UsageError → String
  | noCommand => "a command is required"
  | unknownCommand name => s!"unrecognized command '{name}'"
  | unknownOption spelling => s!"unexpected option '{spelling}'"
  | repeatedOption name => s!"the option '--{name}' cannot be used more than once"
  | missingValue name => s!"a value is required for '--{name}'"
  | superfluousValue name value => s!"unexpected value '{value}' for '--{name}'"
  | invalidValue name value => s!"invalid value '{value}' for '{name}'"
  | missingArgument name => s!"the argument <{name}> was not provided"
  | superfluousArgument value => s!"unexpected argument '{value}'"

end Verdicts
