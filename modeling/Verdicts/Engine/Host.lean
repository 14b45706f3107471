/-
A host that programs run on: its files, and the programs that can be started.
-/
import Verdicts.Engine.Process

namespace Verdicts

/-- A host. -/
structure Host where
  files : Files := {}
  /-- The programs that can be started, by name. -/
  programs : List (String × Process.Program) := []
  deriving Inhabited

namespace Host

/-- The directories that programs are looked for in. -/
def programDirectories : List String := ["/bin/", "/usr/bin/"]

/-- The program that a path names. A name without slashes is looked for in the directories of
programs; a file or directory that is no program may not be started. -/
def program (h : Host) (binary : Path) : Except FileError Process.Program :=
  if !binary.toList.contains '/' then
    match h.programs.lookup binary with
    | some program => .ok program
    | none => .error (if binary = "." ∨ binary = ".." then .denied else .notFound)
  else
    match h.programs.find? fun (name, _) => programDirectories.any fun d => d ++ name == binary with
    | some (_, program) => .ok program
    | none =>
      match h.files.find binary with
      | .error e => .error e
      | .ok _ => .error .denied

end Host

end Verdicts
