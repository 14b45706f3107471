/-
Display settings as they are written down: an object names the choices that differ from the default,
an array gives them in order from the first.
-/
import Verdicts.Display.Settings
import Verdicts.Record.Shape

namespace Verdicts.DisplaySettings

/-- The choices by name, each with its default. -/
def shape : Shape DisplaySettings where
  name := "DisplaySettings"
  blank := {}
  fields := [
    .optional "open_bracket" Read.string fun v s => { s with openBracket := v },
    .optional "close_bracket" Read.string fun v s => { s with closeBracket := v },
    .optional "real_precision" (Read.option Read.natural) fun v s => { s with realPrecision := v },
    .optional "print_counter_examples" Read.bool fun v s => { s with printTraces := v },
    .optional "print_inductive_counter_examples" Read.bool
      fun v s => { s with printInductiveTraces := v }]

end Verdicts.DisplaySettings
