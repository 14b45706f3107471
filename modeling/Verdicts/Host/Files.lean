/-
The files of a host as a tree of directories. Paths are followed part by part from the root: every
part but the last has to lead to a directory, and two dots lead back.
-/
import Verdicts.Host.Path
import Verdicts.Text.Utf8

namespace Verdicts

/-- What is found at a place in the tree. -/
inductive Entry where
  | file (bytes : Bytes)
  | directory
  /-- A device that swallows what is written to it and holds nothing. -/
  | sink
  deriving DecidableEq, Repr, Inhabited

/-- A place in the tree: the names on the way from the root. -/
abbrev Place := List String

/-- Why a file cannot be used. -/
inductive FileError where
  | notFound
  | denied
  | occupied
  | notDirectory
  | isDirectory
  deriving DecidableEq, Repr, Inhabited

/-- The wording of an error. -/
def FileError.message : FileError → String
  | notFound => "No such file or directory (os error 2)"
  | denied => "Permission denied (os error 13)"
  | occupied => "File exists (os error 17)"
  | notDirectory => "Not a directory (os error 20)"
  | isDirectory => "Is a directory (os error 21)"

/-- The entries of a tree by their places. -/
structure Files where
  /-- The directory that relative paths are seen from. -/
  workingDirectory : Path := "/"
  entries : List (Place × Entry) := []
  deriving Repr, Inhabited

namespace Files

/-- What is found at a place; the root is always a directory. -/
def at? (f : Files) (place : Place) : Option Entry :=
  if place.isEmpty then some .directory else f.entries.lookup place

/-- Put an entry at a place. -/
def put (f : Files) (place : Place) (entry : Entry) : Files :=
  if (f.entries.lookup place).isSome then
    { f with entries := f.entries.map fun e => if e.1 = place then (place, entry) else e }
  else { f with entries := f.entries ++ [(place, entry)] }

/-- Make a directory at a place, and at each place on the way to it. -/
def makeDirectory (f : Files) (place : Place) : Files :=
  (List.range (place.length + 1)).foldl (fun f n =>
    match f.at? (place.take n) with
    | some .directory => f
    | _ => f.put (place.take n) .directory) f

/-- Put an entry at a place, and directories on the way to it. -/
def plant (f : Files) (place : Place) (entry : Entry) : Files :=
  (f.makeDirectory place.dropLast).put place entry

/-- Follow the parts of a path from a place. -/
def follow (f : Files) (place : Place) : List String → Except FileError Place
  | [] => .ok place
  | part :: rest =>
    match f.at? place with
    | none => .error .notFound
    | some .directory =>
      if part = "" ∨ part = "." then follow f place rest
      else if part = ".." then follow f place.dropLast rest
      else follow f (place ++ [part]) rest
    | some _ => .error .notDirectory

/-- The place that a path leads to; there need not be anything. -/
def locate (f : Files) (p : Path) : Except FileError Place :=
  if p = "" then .error .notFound
  else f.follow [] ((Path.parts (Path.join f.workingDirectory p).toList).map String.ofList)

/-- What a path leads to. -/
def find (f : Files) (p : Path) : Except FileError Entry :=
  match f.locate p with
  | .error e => .error e
  | .ok place =>
    match f.at? place with
    | some entry => .ok entry
    | none => .error .notFound

/-- The names in the directory that a path leads to, in the order of their texts. -/
def names (f : Files) (p : Path) : List String :=
  match f.locate p with
  | .error _ => []
  | .ok place =>
    (f.entries.filterMap fun (other, _) =>
      if other.dropLast = place then other.getLast? else none).mergeSort (· ≤ ·)

/-- Whether a path leads to a regular file. -/
def isFile (f : Files) (p : Path) : Bool :=
  match f.find p with
  | .ok (.file _) => true
  | _ => false

/-- Whether a path leads to anything. -/
def hasPath (f : Files) (p : Path) : Bool :=
  match f.find p with
  | .ok _ => true
  | .error _ => false

/-- The bytes that a path leads to. -/
def read (f : Files) (p : Path) : Except FileError Bytes :=
  match f.find p with
  | .ok (.file bytes) => .ok bytes
  | .ok .sink => .ok []
  | .ok .directory => .error .isDirectory
  | .error e => .error e

/-- The tree with a file of these bytes where a path leads to. A path with a slash at its end can
only lead to a directory. -/
def write (f : Files) (p : Path) (bytes : Bytes) : Except FileError Files :=
  match f.locate (Path.withoutEndSlashes p) with
  | .error e => .error e
  | .ok place =>
    match f.at? place, f.at? place.dropLast with
    | some .directory, _ => .error .isDirectory
    | _, none => .error .notFound
    | entry, some .directory =>
      if Path.withoutEndSlashes p = p then
        match entry with
        | some .sink => .ok f
        | _ => .ok (f.put place (.file bytes))
      else .error .isDirectory
    | _, some _ => .error .notDirectory

/-- The tree without what a path leads to. -/
def remove (f : Files) (p : Path) : Files :=
  match f.locate p with
  | .ok place => { f with entries := f.entries.filter (·.1 ≠ place) }
  | .error _ => f

/-- The tree without what a path leads to, and without what lies below. -/
def removeTree (f : Files) (p : Path) : Files :=
  match f.locate p with
  | .ok place => { f with entries := f.entries.filter fun e => !place.isPrefixOf e.1 }
  | .error _ => f

end Files

end Verdicts
