/-
Showing where a document is at fault: the line, with the faulty part marked below it, and what is
wrong there.
-/
import Verdicts.Toml.Node
import Verdicts.Text.Utf8

namespace Verdicts.Toml

/-- A line of a document and a column in it, both counted from zero. -/
structure Position where
  line : Nat
  column : Nat
  deriving DecidableEq, Repr, Inhabited

/-- The position of a character. The end of the document stands behind its last character. -/
def positionOf (text : List Char) (index : Nat) : Position :=
  let last := min index (text.length - 1)
  let before := text.take last
  { line := before.count '\n'
    column := (before.reverse.takeWhile (· ≠ '\n')).length + (index - last) }

/-- The characters of a line, without its line feed. -/
def lineAt : Nat → List Char → List Char
  | 0, text => text.takeWhile (· ≠ '\n')
  | line + 1, text => lineAt line ((text.dropWhile (· ≠ '\n')).drop 1)

/-- How many bytes characters take. -/
def byteLength (text : List Char) : Nat := (text.map Char.utf8Size).foldr (· + ·) 0

/-- The text of a fault in a document. -/
def Fault.text (document : List Char) (fault : Fault) : String :=
  let front := document.length - fault.extent.front
  let back := document.length - fault.extent.back
  let position := positionOf document front
  let content := lineAt position.line document
  let marked := min (byteLength ((document.drop front).take (back - front)))
    (byteLength content - position.column)
  let number := Nat.repr (position.line + 1)
  let gutter := String.ofList (List.replicate (number.length + 1) ' ') ++ "|"
  let column := Nat.repr (position.column + 1)
  s!"TOML parse error at line {number}, column {column}\n" ++ gutter ++ "\n"
    ++ number ++ " | " ++ String.ofList content ++ "\n"
    ++ gutter ++ String.ofList (List.replicate (position.column + 1) ' ')
    ++ String.ofList (List.replicate (max 1 marked) '^') ++ "\n"
    ++ fault.message ++ "\n"

end Verdicts.Toml
