/-
A process as the tree of what it may do: each node is one effect, and what comes next depends on what
the world answers.
-/
import Verdicts.Engine.Exit
import Verdicts.Host.Files

namespace Verdicts

/-- What a process writes to. -/
inductive Channel where
  | output
  | diagnostics
  deriving DecidableEq, Repr, Inhabited

/-- A running process. -/
inductive Process where
  | exit (status : ExitStatus)
  | write (channel : Channel) (bytes : Bytes) (next : Unit → Process)
  /-- Wait for one byte of input; none if the input has ended. -/
  | read (next : Option UInt8 → Process)
  | pause (milliseconds : Nat) (next : Unit → Process)
  /-- Ask what a path leads to. -/
  | look (path : Path) (next : Except FileError Entry → Process)
  /-- Ask for the directory that relative paths are seen from. -/
  | whereabouts (next : Path → Process)
  /-- Ask for the names in a directory; there are none where there is no directory. -/
  | list (path : Path) (next : List String → Process)
  /-- Change the files of the host, if that is possible. -/
  | change (edit : Files → Except FileError Files) (next : Option FileError → Process)
  /-- Start another process, which runs beside this one; processes are counted as they are started. -/
  | fork (child : Process) (next : Nat → Process)
  /-- Wait until a process that was started has ended, or until all have; the answer is how the one
  has ended. -/
  | join (child : Option Nat) (next : Option ExitStatus → Process)
  /-- Send a signal to a process that was started. -/
  | halt (child : Nat) (signal : Nat) (next : Unit → Process)
  /-- Be busy without end. -/
  | spin

namespace Process

/-- A program that a process is started from: what it does with its arguments. -/
abbrev Program := List String → Process

instance : Inhabited Process := ⟨.spin⟩

end Process

end Verdicts
