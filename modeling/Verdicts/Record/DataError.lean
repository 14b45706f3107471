/-
Why a JSON value does not have the shape that is asked for.
-/
import Verdicts.Json.Printer
import Verdicts.Text.Quoted

namespace Verdicts

/-- What is wrong with a value. -/
inductive DataError where
  /-- A value of another type than `expected`. -/
  | invalidType (found : String) (expected : String)
  /-- A value of the right type that is out of range. -/
  | invalidValue (found : String) (expected : String)
  /-- A list of the wrong length. -/
  | invalidLength (length : Nat) (expected : String)
  | duplicateField (name : String)
  | missingField (name : String)
  /-- A record of none of the known kinds. -/
  | unknownKind (name : String) (known : List String)
  /-- A text in the place of a number that is none. -/
  | notANumber (text : String)
  /-- A number that does not fit in 32 bits. -/
  | tooWide (value : Nat)
  /-- Neither a number nor a text in the place of a number. -/
  | neitherNumberNorText
  deriving DecidableEq, Repr, Inhabited

namespace DataError

/-- The wording of an error. -/
def message : DataError → String
  | invalidType found expected => s!"invalid type: {found}, expected {expected}"
  | invalidValue found expected => s!"invalid value: {found}, expected {expected}"
  | invalidLength length expected => s!"invalid length {length}, expected {expected}"
  | duplicateField name => s!"duplicate field `{name}`"
  | missingField name => s!"missing field `{name}`"
  | unknownKind name known =>
    s!"unknown variant `{name}`, expected one of "
      ++ String.intercalate ", " (known.map fun k => "`" ++ k ++ "`")
  | notANumber text => s!"expected a number, found '{text}'"
  | tooWide value => s!"{value} does not fit in 32 bits"
  | neitherNumberNorText => "data did not match any variant of untagged enum NumberOrText"

/-- A value as an error message names it. -/
def describe : Json → String
  | .null => "null"
  | .bool value => if value then "boolean `true`" else "boolean `false`"
  | .number (.int value) => s!"integer `{Decimal.int value}`"
  | .number (.float value) => s!"floating point `{value.shortestText}`"
  | .string text => s!"string {Text.quote text}"
  | .array _ => "sequence"
  | .object _ => "map"

/-- The error that a value is of another type than `expected`. -/
def wrongType (value : Json) (expected : String) : DataError :=
  .invalidType (describe value) expected

end DataError

end Verdicts
