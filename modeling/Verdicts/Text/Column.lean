/-
Laying text out in columns and lines. Widths count characters.
-/

namespace Verdicts.Text

/-- At least `width` characters wide, the text at the left. -/
def padRight (width : Nat) (text : String) : String :=
  text ++ String.ofList (List.replicate (width - text.length) ' ')

/-- At least `width` characters wide, the text at the right. -/
def padLeft (width : Nat) (text : String) : String :=
  String.ofList (List.replicate (width - text.length) ' ') ++ text

/-- Two spaces for each level. -/
def indent (level : Nat) : String :=
  String.ofList (List.replicate (2 * level) ' ')

/-- Lines, each with a line break at its end. -/
def lines (ls : List String) : String :=
  String.join (ls.map (· ++ "\n"))

end Verdicts.Text
