/-
The text of a value in a trace.
-/
import Verdicts.Display.Settings
import Verdicts.Number.Fixed
import Verdicts.Number.RealText
import Verdicts.Result.Trace
import Verdicts.Text.Decimal

namespace Verdicts

namespace StreamValue

/-- The number that an integer or a real denotes. -/
def number? : StreamValue → Option Binary64
  | .int value => some (.ofInt value)
  | .real written => RealText.real? written
  | _ => none

mutual

/-- The value as shown: a real with the decimal places that the settings ask for, if it denotes a
number and they ask for any; everything else exactly. -/
def display (settings : DisplaySettings) : StreamValue → String
  | .bool value => if value then "true" else "false"
  | .int value => Decimal.int value
  | .real written =>
    match settings.realPrecision, RealText.real? written with
    | some places, some x => x.fixedText places
    | _, _ => written
  | .text written => written
  | .array items => "[" ++ String.intercalate ", " (displays settings items) ++ "]"

/-- `display` for each value. -/
def displays (settings : DisplaySettings) : List StreamValue → List String
  | [] => []
  | item :: rest => display settings item :: displays settings rest

end

end StreamValue

end Verdicts
