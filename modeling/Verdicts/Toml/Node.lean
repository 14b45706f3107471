/-
TOML documents as trees. Every key and every value knows which part of the document it was read
from, so that an error about it can point there.
-/
import Verdicts.Number.Binary64

namespace Verdicts.Toml

/-- A part of a document, given by how many characters stand from either end of it to the end of the
document. -/
structure Extent where
  front : Nat
  back : Nat
  deriving DecidableEq, Repr, Inhabited

/-- What is wrong with a document, and where. -/
structure Fault where
  extent : Extent
  message : String
  deriving DecidableEq, Repr, Inhabited

/-- A key as it was read. -/
structure Key where
  text : String
  extent : Extent
  deriving DecidableEq, Repr, Inhabited

/-- A value without parts. -/
inductive Scalar where
  | text (value : String)
  | integer (value : Int)
  | float (value : Binary64)
  | boolean (value : Bool)
  /-- A date, a time of day, or both, as it is written. -/
  | moment (written : String)
  deriving DecidableEq, Repr, Inhabited

/-- How a table came to be, which decides on what may be added to it. -/
inductive TableKind where
  /-- Written as a value; nothing may be added. -/
  | inline
  /-- Named by a header. -/
  | header
  /-- Only passed through by a header. -/
  | passed
  /-- Passed through by a key with dots. -/
  | dotted
  deriving DecidableEq, Repr, Inhabited

/-- A value in a document. -/
inductive Node where
  | scalar (value : Scalar) (extent : Extent)
  /-- An array; one of tables is written as a sequence of headers. -/
  | array (ofTables : Bool) (items : List Node) (extent : Extent)
  | table (kind : TableKind) (entries : List (Key × Node)) (extent : Extent)
  deriving Repr, Inhabited

/-- The part of the document that a value was read from. -/
def Node.extent : Node → Extent
  | .scalar _ extent => extent
  | .array _ _ extent => extent
  | .table _ _ extent => extent

/-- The entries of a table. -/
abbrev Entries := List (Key × Node)

end Verdicts.Toml
