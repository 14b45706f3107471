/-
Writing JSON text: on one line without blanks, or over many lines with two spaces for each level.
Strings escape the quote, the backslash and the control characters below U+0020, and nothing else.
Object members are written in the order they have.
-/
import Verdicts.Json.Basic
import Verdicts.Number.Shortest
import Verdicts.Text.Column
import Verdicts.Text.Decimal

namespace Verdicts.Json

/-- A lower-case hexadecimal digit. -/
def hexChar (n : Nat) : Char :=
  if n < 10 then Char.ofNat (0x30 + n) else Char.ofNat (0x57 + n)

/-- A character inside a string. -/
def escape (c : Char) : List Char :=
  if c = '\"' then ['\\', '\"']
  else if c = '\\' then ['\\', '\\']
  else if c.toNat = 0x08 then ['\\', 'b']
  else if c.toNat = 0x0C then ['\\', 'f']
  else if c = '\n' then ['\\', 'n']
  else if c = '\r' then ['\\', 'r']
  else if c = '\t' then ['\\', 't']
  else if c.toNat < 0x20 then
    ['\\', 'u', '0', '0', hexChar (c.toNat / 16), hexChar (c.toNat % 16)]
  else [c]

/-- A string with its quotes. -/
def quoted (text : String) : String :=
  String.ofList ('\"' :: text.toList.flatMap escape ++ ['\"'])

/-- The text of a number. -/
def Number.text : Number → String
  | .int value => Decimal.int value
  | .float value => value.shortestText

mutual

/-- The text on one line, without blanks. -/
def compact : Json → String
  | .null => "null"
  | .bool value => if value then "true" else "false"
  | .number value => value.text
  | .string value => quoted value
  | .array items => "[" ++ String.intercalate "," (compactItems items) ++ "]"
  | .object members => "\x7b" ++ String.intercalate "," (compactMembers members) ++ "\x7d"

/-- `compact` for each item. -/
def compactItems : List Json → List String
  | [] => []
  | item :: rest => compact item :: compactItems rest

/-- Each member as key, colon and value. -/
def compactMembers : List (String × Json) → List String
  | [] => []
  | (key, value) :: rest => (quoted key ++ ":" ++ compact value) :: compactMembers rest

end

/-- Parts on lines of their own between two brackets, indented one level further than `level`. -/
def bracketed (level : Nat) (opening : String) (parts : List String) (closing : String) : String :=
  match parts with
  | [] => opening ++ closing
  | parts =>
    let separator := ",\n" ++ Text.indent (level + 1)
    opening ++ "\n" ++ Text.indent (level + 1) ++ String.intercalate separator parts
      ++ "\n" ++ Text.indent level ++ closing

mutual

/-- The text over many lines, as it stands at a level of indentation. -/
def prettyAt (level : Nat) : Json → String
  | .array items => bracketed level "[" (prettyItems (level + 1) items) "]"
  | .object members => bracketed level "\x7b" (prettyMembers (level + 1) members) "\x7d"
  | .null => "null"
  | .bool value => if value then "true" else "false"
  | .number value => value.text
  | .string value => quoted value

/-- `prettyAt` for each item. -/
def prettyItems (level : Nat) : List Json → List String
  | [] => []
  | item :: rest => prettyAt level item :: prettyItems level rest

/-- Each member as key, colon, blank and value. -/
def prettyMembers (level : Nat) : List (String × Json) → List String
  | [] => []
  | (key, value) :: rest => (quoted key ++ ": " ++ prettyAt level value) :: prettyMembers level rest

end

/-- The text over many lines. -/
def pretty (value : Json) : String := prettyAt 0 value

/-- The text of a value that is shown or kept as text: on one line, members in the order of their
keys, the last of those with one key. -/
def text (value : Json) : String := value.canonical.compact

end Verdicts.Json
