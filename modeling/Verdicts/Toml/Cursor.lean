/-
Reading a document from front to back. What has not been read is the state; a fault tells how much
that was.
-/
import Verdicts.Toml.Node

namespace Verdicts.Toml

/-- A reader of part of a document. -/
abbrev Parse := StateT (List Char) (Except Fault)

namespace Parse

/-- The number of characters that are left. -/
def mark : Parse Nat := do return (← get).length

/-- Fail with a part of the document. -/
def failOn {α : Type} (extent : Extent) (message : String) : Parse α :=
  throw ⟨extent, message⟩

/-- Fail at the next character. -/
def fail {α : Type} (message : String) : Parse α := do
  let front ← mark
  failOn ⟨front, front - 1⟩ message

/-- The wording of a fault: what was being read, and what it should have gone on with. -/
def expectation (label : Option String) (expected : List String) : String :=
  String.intercalate "\n" <|
    (match label with
      | some label => ["invalid " ++ label]
      | none => [])
    ++ if expected.isEmpty then [] else ["expected " ++ String.intercalate ", " expected]

/-- The next character, which stays. -/
def peek? : Parse (Option Char) := do return (← get).head?

/-- The next character, which is taken if it is the one asked for. -/
def accept (c : Char) : Parse Bool := do
  match ← get with
  | d :: rest => if c = d then set rest; return true else return false
  | [] => return false

/-- The next characters, which are taken if they are the ones asked for. -/
def acceptAll (text : List Char) : Parse Bool := do
  match text.isPrefixOf? (← get) with
  | some rest => set rest; return true
  | none => return false

/-- The characters up to the first that does not satisfy `allowed`. -/
def takeWhile (allowed : Char → Bool) : Parse (List Char) := do
  let text ← get
  set (text.dropWhile allowed)
  return text.takeWhile allowed

/-- A part of the document together with where it stands. -/
def located {α : Type} (inner : Parse α) : Parse (α × Extent) := do
  let front ← mark
  let a ← inner
  return (a, ⟨front, ← mark⟩)

/-- Blanks within a line. -/
def blanks : Parse Unit := do
  let _ ← takeWhile fun c => c == ' ' || c == '\t'

/-- A line break, if there is one. -/
def lineBreak : Parse Bool := do
  if ← accept '\n' then return true else acceptAll ['\r', '\n']

/-- Whether a character may stand in a comment. -/
def isCommentChar (c : Char) : Bool :=
  c == '\t' || (0x20 ≤ c.toNat && c.toNat ≠ 0x7F)

/-- A comment up to the end of its line, if there is one. -/
def comment : Parse Unit := do
  if ← accept '#' then
    let _ ← takeWhile isCommentChar

/-- The rest of a line: blanks, perhaps a comment, and the line break or the end of the document. -/
def lineEnd (label : Option String) : Parse Unit := do
  blanks
  comment
  if (← get).isEmpty then return
  unless ← lineBreak do
    fail (expectation label ["newline", "`#`"])

/-- Blanks, comments and line breaks. Each round takes at least one character of those counted by
`fuel`. -/
def blankLines : Nat → Parse Unit
  | 0 => return
  | fuel + 1 => do
    let before ← mark
    blanks
    comment
    let _ ← lineBreak
    if (← mark) < before then blankLines fuel

end Parse

end Verdicts.Toml
