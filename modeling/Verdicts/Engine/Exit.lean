/-
How an engine ends, and the exit codes by which it tells a verdict.
-/
import Verdicts.Text.Decimal

namespace Verdicts

/-- How a process ended. -/
inductive ExitStatus where
  | code (value : Int)
  | signal (number : Nat)
  deriving DecidableEq, Repr, Inhabited

/-- A verdict that an exit code tells. -/
inductive ExitClass where
  | someUnknown
  | someFalsified
  | allValid
  deriving DecidableEq, Repr, Inhabited

namespace ExitClass

/-- All classes. -/
def all : List ExitClass := [someUnknown, someFalsified, allValid]

/-- The exit code that tells a class. -/
def code : ExitClass → Int
  | someUnknown => 0
  | someFalsified => 10
  | allValid => 20

/-- The class that an exit code tells; every other code is a failure. -/
def ofCode? (value : Int) : Option ExitClass :=
  all.find? (·.code = value)

end ExitClass

namespace ExitStatus

/-- The exit code of a process that was not ended by a signal. -/
def code? : ExitStatus → Option Int
  | code value => some value
  | signal _ => none

/-- The verdict that an end tells. -/
def class? (status : ExitStatus) : Option ExitClass :=
  status.code?.bind ExitClass.ofCode?

/-- The names of signals by number. -/
def signalNames : List (Nat × String) :=
  [(1, "SIGHUP"), (2, "SIGINT"), (3, "SIGQUIT"), (4, "SIGILL"), (5, "SIGTRAP"), (6, "SIGABRT"),
    (7, "SIGBUS"), (8, "SIGFPE"), (9, "SIGKILL"), (10, "SIGUSR1"), (11, "SIGSEGV"), (12, "SIGUSR2"),
    (13, "SIGPIPE"), (14, "SIGALRM"), (15, "SIGTERM"), (16, "SIGSTKFLT"), (17, "SIGCHLD"),
    (18, "SIGCONT"), (19, "SIGSTOP"), (20, "SIGTSTP"), (21, "SIGTTIN"), (22, "SIGTTOU"),
    (23, "SIGURG"), (24, "SIGXCPU"), (25, "SIGXFSZ"), (26, "SIGVTALRM"), (27, "SIGPROF"),
    (28, "SIGWINCH"), (29, "SIGIO"), (30, "SIGPWR"), (31, "SIGSYS")]

/-- The text of an end. -/
def text : ExitStatus → String
  | code value => "exit status: " ++ Decimal.int value
  | signal number =>
    "signal: " ++ Nat.repr number ++ match signalNames.lookup number with
      | some name => " (" ++ name ++ ")"
      | none => ""

end ExitStatus

end Verdicts
