/-
Values of traces from JSON values, by the declared type of their stream.
-/
import Verdicts.Json.Printer
import Verdicts.Result.Trace
import Verdicts.Text.Blank

namespace Verdicts

/-- The type of the items of an array type; any other type stands for itself. -/
def itemType (type : String) : String :=
  match "array of ".toList.isPrefixOf? type.toList with
  | some rest => String.ofList (Text.trim rest)
  | none => type

/-- Whether an integer has 64 bits with its sign. -/
def fitsSigned64 (n : Int) : Bool := decide (-0x8000000000000000 ≤ n ∧ n < 0x8000000000000000)

namespace StreamValue

mutual

/-- The value of a stream. In a stream of reals, numbers and texts are reals; elsewhere a number is
an integer if it is one of 64 bits and a real otherwise. -/
def ofJson (type : String) : Json → StreamValue
  | .bool value => .bool value
  | .number n =>
    if type = "real" then .real n.text
    else match n with
      | .int value => if fitsSigned64 value then .int value else .real n.text
      | .float _ => .real n.text
  | .string written => if type = "real" then .real written else .text written
  | .array items => .array (ofItems (itemType type) items)
  | .null => .text "null"
  | .object members => .text (Json.object members).text

/-- `ofJson` for each item. -/
def ofItems (type : String) : List Json → List StreamValue
  | [] => []
  | item :: rest => ofJson type item :: ofItems type rest

end

end StreamValue

end Verdicts
