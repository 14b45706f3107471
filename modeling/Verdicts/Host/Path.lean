/-
Paths as text. The components of a path are separated by slashes; empty components do not count, and
neither does a dot. A path keeps its spelling when one is put behind it, and loses what stands
behind its parent when it is shortened to that.
-/

namespace Verdicts

/-- A path as it is written. -/
abbrev Path := String

namespace Path

/-- Whether a path starts at the root. -/
def isAbsolute (p : Path) : Bool := p.toList.head? == some '/'

/-- A path, seen from a directory. -/
def join (directory p : Path) : Path :=
  if p.isAbsolute then p
  else if directory.toList.isEmpty || directory.toList.getLast? == some '/' then directory ++ p
  else directory ++ "/" ++ p

/-- Split a text into the parts between slashes. -/
def parts : List Char → List (List Char)
  | [] => [[]]
  | c :: rest =>
    match parts rest with
    | [] => [[c]]
    | part :: others => if c = '/' then [] :: part :: others else (c :: part) :: others

/-- The parts of a path that count, in order. -/
def components (p : Path) : List String :=
  ((parts p.toList).filter fun part => part ≠ [] && part ≠ ['.']).map String.ofList

/-- A path without the slashes at its end; the root keeps its own. -/
def withoutEndSlashes (p : Path) : Path :=
  match (p.toList.reverse.dropWhile (· == '/')).reverse with
  | [] => if p.isAbsolute then "/" else p
  | text => String.ofList text

/-- The names on the way from the root to a path that is seen from a directory; two dots lead back. -/
def place (directory p : Path) : List String :=
  (components (join directory p)).foldl (fun names part =>
    if part = ".." then names.dropLast else names ++ [part]) []

/-- A reversed path without slashes and dots at its end that do not count. A dot in front of
everything else is kept. -/
def trimmed : List Char → List Char
  | '/' :: c :: rest => trimmed (c :: rest)
  | '.' :: '/' :: c :: rest => trimmed (c :: rest)
  | ['.', '/'] => ['/']
  | text => text

/-- The path without its last component; none for the root and for an empty path. -/
def parent? (p : Path) : Option Path :=
  match trimmed p.toList.reverse with
  | [] => none
  | ['/'] => none
  | text => some (String.ofList (trimmed (text.dropWhile (· ≠ '/'))).reverse)

/-- The last component of a path. -/
def name (p : Path) : String := p.components.getLast?.getD ""

end Path

end Verdicts
