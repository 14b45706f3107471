/-
Finding the manifest of a project: the file of its name in the nearest directory, going up from where
the search starts.
-/
import Verdicts.Host.Files
import Verdicts.Manifest.Reader

namespace Verdicts

/-- Why a manifest that is there cannot be used. -/
inductive ManifestFault where
  | unreadable (error : FileError)
  | notText
  | invalid (document : String) (fault : Toml.Fault)
  deriving DecidableEq, Repr, Inhabited

/-- A manifest that cannot be used. -/
structure ManifestError where
  /-- The file. -/
  path : Path
  fault : ManifestFault
  deriving DecidableEq, Repr, Inhabited

namespace ManifestError

/-- What was being done with the file. -/
def context (e : ManifestError) : String :=
  match e.fault with
  | .invalid .. => "parsing " ++ e.path
  | _ => "reading " ++ e.path

/-- What went wrong with it. -/
def cause (e : ManifestError) : String :=
  match e.fault with
  | .unreadable error => error.message
  | .notText => "stream did not contain valid UTF-8"
  | .invalid document fault => fault.text document.toList

/-- The wording of an error. -/
def message (e : ManifestError) : String := e.context ++ ": " ++ e.cause

end ManifestError

/-- What a host says of its files. That a path leads to a regular file does not mean that this can be read. -/
structure FileAccess where
  isFile : Path → Bool
  read : Path → Except FileError Bytes

/-- A tree in which every file can be read. -/
def Files.access (files : Files) : FileAccess := ⟨files.isFile, files.read⟩

namespace Manifest

/-- The manifest that bytes give. -/
def decode (bytes : Bytes) : Except ManifestFault Manifest :=
  match Utf8.decode? bytes with
  | none => .error .notText
  | some text =>
    match parse text with
    | .ok manifest => .ok manifest
    | .error fault => .error (.invalid text fault)

/-- The manifest in a file. -/
def load (host : FileAccess) (path : Path) : Except ManifestError Manifest :=
  match host.read path with
  | .error error => .error ⟨path, .unreadable error⟩
  | .ok bytes => (decode bytes).mapError (⟨path, ·⟩)

/-- A manifest and the directory that it was found in. -/
structure Found where
  directory : Path
  manifest : Manifest
  deriving DecidableEq, Repr, Inhabited

/-- A directory and those above it, by their paths. Each path is shorter than the one before, so
`fuel` above the length of the first is never used up. -/
def ancestors : Nat → Path → List Path
  | 0, _ => []
  | fuel + 1, directory =>
    directory :: match directory.parent? with
      | some parent => ancestors fuel parent
      | none => []

/-- Where the manifest of a directory would be. -/
def candidate (directory : Path) : Path := Path.join directory fileName

/-- All files that may be the manifest of a directory, nearest first. -/
def candidates (start : Path) : List Path :=
  (ancestors (start.length + 1) start).map candidate

/-- The manifest of a directory, with the directory. -/
def loadFrom (host : FileAccess) (directory : Path) : Except ManifestError (Option Found) :=
  (load host (candidate directory)).map fun manifest => some ⟨directory, manifest⟩

/-- The manifest of the nearest directory that holds a regular file of the name. If that cannot be
used, none further up is looked at. -/
def search (host : FileAccess) (start : Path) : Except ManifestError (Option Found) :=
  match (ancestors (start.length + 1) start).find? fun d => host.isFile (candidate d) with
  | none => .ok none
  | some directory => loadFrom host directory

/-- The same in a tree of files. -/
def findAndLoad (files : Files) (start : Path) : Except ManifestError (Option Found) :=
  search files.access start

end Manifest

end Verdicts
