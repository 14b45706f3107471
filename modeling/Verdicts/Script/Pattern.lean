/-
Patterns that words are matched with: a star stands for any text, a question mark for any character,
and brackets for one of some characters. Characters in quotes stand for themselves.
-/

namespace Verdicts.Script

/-- A character of a word, and whether it was in quotes. -/
structure Cell where
  char : Char
  quoted : Bool
  deriving DecidableEq, Repr, Inhabited

/-- A part of a pattern. -/
inductive PatternItem where
  | exactly (c : Char)
  | anyText
  | anyChar
  /-- A character in, or outside of, some ranges. -/
  | oneOf (outside : Bool) (ranges : List (Char × Char))
  deriving DecidableEq, Repr, Inhabited

namespace PatternItem

/-- The named classes of characters. -/
def classRanges : List (String × List (Char × Char)) :=
  [("alpha", [('a', 'z'), ('A', 'Z')]), ("digit", [('0', '9')]),
    ("alnum", [('a', 'z'), ('A', 'Z'), ('0', '9')]), ("upper", [('A', 'Z')]),
    ("lower", [('a', 'z')]), ("space", [(' ', ' '), ('\t', '\r')]), ("blank", [(' ', ' '), ('\t', '\t')]),
    ("xdigit", [('a', 'f'), ('A', 'F'), ('0', '9')]),
    ("punct", [('!', '/'), (':', '@'), ('[', '\x60'), ('\x7b', '~')])]

/-- The ranges in brackets, up to the closing one. -/
def ranges : Nat → List Char → Option (List (Char × Char) × List Char)
  | 0, _ => none
  | _, [] => none
  | fuel + 1, '[' :: ':' :: rest =>
    let name := String.ofList (rest.takeWhile (· != ':'))
    match rest.dropWhile (· != ':'), classRanges.lookup name with
    | ':' :: ']' :: rest, some found =>
      (ranges fuel rest).map fun (more, rest) => (found ++ more, rest)
    | _, _ => none
  | fuel + 1, low :: '-' :: high :: rest =>
    if low = ']' then some ([], '-' :: high :: rest)
    else if high = ']' then some ([(low, low), ('-', '-')], rest)
    else (ranges fuel rest).map fun (more, rest) => ((low, high) :: more, rest)
  | fuel + 1, c :: rest =>
    if c = ']' then some ([], rest)
    else (ranges fuel rest).map fun (more, rest) => ((c, c) :: more, rest)

/-- The set in brackets that begins here; a closing bracket in front belongs to it. -/
def set? (text : List Char) : Option (PatternItem × List Char) :=
  let (outside, text) := match text with
    | '!' :: rest => (true, rest)
    | '^' :: rest => (true, rest)
    | _ => (false, text)
  match text with
  | ']' :: rest =>
    (ranges (rest.length + 1) rest).map fun (found, rest) => (.oneOf outside ((']', ']') :: found), rest)
  | _ => (ranges (text.length + 1) text).map fun (found, rest) => (.oneOf outside found, rest)

/-- The pattern that cells make. -/
def ofCells : Nat → List Cell → List PatternItem
  | 0, _ => []
  | _, [] => []
  | fuel + 1, cell :: rest =>
    if cell.quoted then .exactly cell.char :: ofCells fuel rest
    else if cell.char = '*' then .anyText :: ofCells fuel rest
    else if cell.char = '?' then .anyChar :: ofCells fuel rest
    else if cell.char = '[' then
      match set? (rest.map (·.char)) with
      | some (item, left) => item :: ofCells fuel (rest.drop (rest.length - left.length))
      | none => .exactly cell.char :: ofCells fuel rest
    else .exactly cell.char :: ofCells fuel rest

/-- Whether an item matches one character. -/
def accepts (c : Char) : PatternItem → Bool
  | exactly d => c == d
  | anyText => true
  | anyChar => true
  | oneOf outside found => outside != found.any fun (low, high) => low ≤ c && c ≤ high

/-- Whether a pattern matches a whole text. -/
def matchesAll : List PatternItem → List Char → Bool
  | [], text => text.isEmpty
  | .anyText :: rest, text =>
    (List.range (text.length + 1)).any fun n => matchesAll rest (text.drop n)
  | item :: rest, text =>
    match text with
    | c :: text => item.accepts c && matchesAll rest text
    | [] => false

end PatternItem

/-- The pattern that cells make. -/
def pattern (cells : List Cell) : List PatternItem :=
  PatternItem.ofCells (cells.length + 1) cells

/-- The lengths at which a text may be cut, shortest first or longest first. -/
def cutLengths (longest : Bool) (text : List Char) : List Nat :=
  let lengths := List.range (text.length + 1)
  if longest then lengths.reverse else lengths

/-- A text without what a pattern matches at its front. -/
def cutFront (longest : Bool) (p : List PatternItem) (text : List Char) : List Char :=
  match (cutLengths longest text).find? fun n => PatternItem.matchesAll p (text.take n) with
  | some n => text.drop n
  | none => text

/-- A text without what a pattern matches at its end. -/
def cutBack (longest : Bool) (p : List PatternItem) (text : List Char) : List Char :=
  match (cutLengths longest text).find? fun n =>
    PatternItem.matchesAll p (text.drop (text.length - n)) with
  | some n => text.take (text.length - n)
  | none => text

end Verdicts.Script
