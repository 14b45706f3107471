/-
How names, real values and traces are shown. One value of this type is passed to everything that
shows something; nothing else decides on presentation.
-/

namespace Verdicts

/-- Choices of presentation. -/
structure DisplaySettings where
  /-- Put before the name of a component or property. -/
  openBracket : String := "["
  /-- Put behind the name of a component or property. -/
  closeBracket : String := "]"
  /-- Decimal places of real values in traces; none keeps their exact text. -/
  realPrecision : Option Nat := none
  printTraces : Bool := true
  printInductiveTraces : Bool := false
  deriving DecidableEq, Repr, Inhabited

namespace DisplaySettings

/-- Names without brackets. -/
def plain : DisplaySettings := { openBracket := "", closeBracket := "" }

/-- A name in its brackets. -/
def name (s : DisplaySettings) (text : String) : String :=
  s.openBracket ++ text ++ s.closeBracket

/-- Names in their brackets, with commas between them. -/
def names (s : DisplaySettings) (texts : List String) : String :=
  String.intercalate ", " (texts.map s.name)

end DisplaySettings

end Verdicts
