/-
Where something stands in a text, for people to find it.
-/
import Verdicts.Text.Decimal
import Verdicts.Text.Utf8

namespace Verdicts

/-- A place in a text. Lines count from one; the column is how many bytes stand before the place in
its line. -/
structure TextPlace where
  line : Nat
  column : Nat
  deriving DecidableEq, Repr, Inhabited

namespace TextPlace

/-- The byte that ends a line. -/
def newline : UInt8 := 0x0A

/-- The place behind bytes that are given newest first. -/
def behind (before : Bytes) : TextPlace :=
  ⟨1 + before.count newline, (before.takeWhile (· ≠ newline)).length⟩

/-- A place as a message names it. -/
def text (p : TextPlace) : String := s!"line {p.line} column {p.column}"

end TextPlace

end Verdicts
