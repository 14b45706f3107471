/-
The tool on its command line: the files that a command line concerns are read, what is asked for is
done on a host with these files, and what comes of it is printed and written.
-/
import Verdicts.Script.Run
import Verdicts.Task.Run

namespace Verdicts.Console

/-- What is found at a path. What is there and cannot be read counts as a directory. -/
def entry? (path : Path) : IO (Option Entry) := do
  try
    let content ← IO.FS.readBinFile path
    return some (.file content.toList)
  catch
    | .noFileOrDirectory .. => return none
    | _ => return some .directory

/-- The files with what is found at a path, and with the directories on the way to it. -/
def present (files : Files) (path : Path) : IO Files := do
  let place := Path.place files.workingDirectory path
  let files := files.makeDirectory place.dropLast
  match ← entry? path with
  | some entry => return files.plant place entry
  | none => return files

/-- The files that an invocation concerns. -/
def gather (invocation : Invocation) : IO Files := do
  let directory := (← IO.currentDir).toString
  let bare : Files := { workingDirectory := directory }
  let files := bare.makeDirectory (Path.components directory)
  (Manifest.candidates directory ++ invocation.paths).foldlM present files

/-- Write the files that are new or were changed. -/
def writeBack (before after : Files) : IO Unit := do
  for (place, entry) in after.entries do
    match entry with
    | .file content =>
      if before.at? place ≠ some entry then
        IO.FS.writeBinFile ("/" ++ String.intercalate "/" place) ⟨content.toArray⟩
    | _ => pure ()

/-- Do what a command line asks for; the exit code. -/
def run (words : List String) : IO UInt32 := do
  let files ← match Invocation.ofWords words with
    | .ok invocation => gather invocation
    | .error _ => pure {}
  let host : Host := { files, programs := Script.programs }
  match host.run words with
  | none => return 1
  | some outcome =>
    IO.print outcome.output
    IO.eprint outcome.diagnostics
    writeBack files outcome.files
    return outcome.code.toUInt32

end Verdicts.Console

/-- The entry point of the tool. -/
def main (words : List String) : IO UInt32 := Verdicts.Console.run words
