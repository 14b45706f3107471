/-
What a command leaves behind: what it prints, how it ends, and the files of the host.
-/
import Verdicts.Host.Files
import Verdicts.Invocation.Basic

namespace Verdicts

/-- How a command ends. -/
inductive Ending where
  | success
  | failure (message : String)
  /-- The command line was wrong; nothing was done. -/
  | misuse (error : UsageError)
  deriving DecidableEq, Repr, Inhabited

/-- What a command leaves behind. -/
structure Outcome where
  output : String := ""
  /-- What is told beside the output, a line each. -/
  notes : List String := []
  ending : Ending := .success
  files : Files
  deriving Repr, Inhabited

namespace Outcome

/-- The exit code. -/
def code (o : Outcome) : Nat :=
  match o.ending with
  | .success => 0
  | .failure _ => 1
  | .misuse _ => 2

/-- The last words of a command. -/
def lastLines : Ending → List String
  | .success => []
  | .failure message => ["error: " ++ message]
  | .misuse error => ["error: " ++ error.message, "", "For more information, try '--help'."]

/-- All that is told beside the output. -/
def diagnostics (o : Outcome) : String :=
  String.join ((o.notes ++ lastLines o.ending).map (· ++ "\n"))

end Outcome

/-- A failure with what was being done and what lies behind it. -/
def explained (context : String) (message : String) (causes : List String) : Ending :=
  .failure (String.intercalate ": " (context :: message :: causes))

end Verdicts
