/-
Keys and values of TOML documents: scalars, arrays and tables written as values.
-/
import Verdicts.Toml.Scalar

namespace Verdicts.Toml

namespace Entries

/-- The value of a key. -/
def get? (entries : Entries) (key : String) : Option Node :=
  (entries.find? (·.1.text == key)).map (·.2)

/-- Put a value in place of the one that a key has. -/
def replace (entries : Entries) (key : String) (node : Node) : Entries :=
  entries.map fun entry => if entry.1.text = key then (entry.1, node) else entry

end Entries

/-- The fault that a key comes up again. -/
def Key.duplicate (key : Key) : Fault :=
  ⟨key.extent, "duplicate key `" ++ key.text ++ "`"⟩

/-- The fault that a key with dots passes through a value that is no table. -/
def Key.notTable (key : Key) : Fault :=
  ⟨key.extent, "dotted key `" ++ key.text ++ "` attempted to extend non-table type"⟩

/-- Add a value below a key with dots; `open_` are the keys in front of the last dot. The tables on
the way have to be made by such keys, the last one in any case. `within` is how the table came to be
that is added to. -/
def insertDotted (within : TableKind) (key : Key) (node : Node) :
    List Key → Entries → Except Fault Entries
  | [], entries =>
    if within = .passed ∨ (entries.get? key.text).isSome then .error key.duplicate
    else .ok (entries ++ [(key, node)])
  | step :: path, entries =>
    match entries.get? step.text with
    | none => do
      let inner ← insertDotted .dotted key node path []
      return entries ++ [(step, .table .dotted inner step.extent)]
    | some (.table kind inner extent) =>
      if kind = .dotted ∨ kind = .passed then do
        let inner ← insertDotted kind key node path inner
        return entries.replace step.text (.table kind inner extent)
      else .error step.duplicate
    | some _ => .error step.notTable

namespace Parse

/-- Whether a character may stand in a key without quotes. -/
def isKeyChar (c : Char) : Bool := c.isAlphanum || c == '_' || c == '-'

/-- One part of a key. -/
def simpleKey (label : String) : Parse Key := do
  let (text, extent) ← located (do
    match ← peek? with
    | some '\"' => lineString
    | some '\'' => lineString
    | _ =>
      let word ← takeWhile isKeyChar
      if word.isEmpty then fail (expectation (some label) [])
      else return String.ofList word)
  return ⟨text, extent⟩

/-- The parts of a key behind the first. -/
def keyRest (label : String) : Nat → Parse (List Key)
  | 0 => return []
  | fuel + 1 => do
    blanks
    if ← accept '.' then
      blanks
      let key ← simpleKey label
      return key :: (← keyRest label fuel)
    else return []

/-- A key: parts with dots between them. The last part comes apart from the others. -/
def key (label : String) : Parse (List Key × Key) := do
  blanks
  let first ← simpleKey label
  let fuel ← mark
  let rest ← keyRest label fuel
  let parts := first :: rest
  return (parts.dropLast, parts.getLast?.getD first)

/-- How deeply values may be nested. -/
def nestingLimit : Nat := 80

/-- What is said about values that are nested too deeply. -/
def tooDeep : String := "recursion limit exceeded"

mutual

/-- A value. `depth` counts the arrays and tables around it. -/
def value (depth : Nat) : Nat → Parse Node
  | 0 => fail noValue
  | fuel + 1 => do
    let front ← mark
    if ← accept '[' then
      if nestingLimit ≤ depth + 1 then fail tooDeep
      let items ← arrayItems (depth + 1) fuel
      return .array false items ⟨front, ← mark⟩
    else if ← accept '\x7b' then
      if nestingLimit ≤ depth + 1 then fail tooDeep
      blanks
      let entries ←
        if ← accept '\x7d' then pure []
        else inlineEntries (depth + 1) [] fuel
      return .table .inline entries ⟨front, ← mark⟩
    else
      let (value, extent) ← located scalar
      return .scalar value extent

/-- The items of an array and its closing bracket; a comma may stand behind the last. -/
def arrayItems (depth : Nat) : Nat → Parse (List Node)
  | 0 => fail (expectation (some "array") ["`]`"])
  | fuel + 1 => do
    let left ← mark
    blankLines left
    if ← accept ']' then return []
    else
      let item ← value depth fuel
      let left ← mark
      blankLines left
      if ← accept ',' then return item :: (← arrayItems depth fuel)
      else if ← accept ']' then return [item]
      else fail (expectation (some "array") ["`]`"])

/-- The entries of a table written as a value, and its closing brace. -/
def inlineEntries (depth : Nat) (entries : Entries) : Nat → Parse Entries
  | 0 => fail (expectation (some "inline table") ["`\x7d`"])
  | fuel + 1 => do
    let (path, last) ← key "key"
    unless ← accept '=' do fail (expectation (some "inline table") ["`.`", "`=`"])
    blanks
    let node ← value depth fuel
    blanks
    match insertDotted .inline last node path entries with
    | .error fault => throw fault
    | .ok entries =>
      if ← accept ',' then inlineEntries depth entries fuel
      else if ← accept '\x7d' then return entries
      else fail (expectation (some "inline table") ["`,`", "`\x7d`"])

end

end Parse

end Verdicts.Toml
