/-
Whole TOML documents: lines with a key and a value, and headers that say in which table they go. A
table is defined by one header only, and a key is defined once.
-/
import Verdicts.Toml.Value

namespace Verdicts.Toml

/-- A document under construction. -/
structure Draft where
  entries : Entries := []
  /-- The keys of the last header, the last of them first. -/
  header : List Key := []
  deriving Repr, Inhabited

/-- Change the table that a header leads to. Tables on the way are made if there are none, and a
sequence of tables stands for its last. -/
def descend (change : TableKind → Entries → Except Fault Entries) (kind : TableKind) :
    List Key → Entries → Except Fault Entries
  | [], entries => change kind entries
  | step :: path, entries =>
    match entries.get? step.text with
    | none => do
      let inner ← descend change .passed path []
      return entries ++ [(step, .table .passed inner step.extent)]
    | some (.table .inline _ _) => .error step.notTable
    | some (.table kind inner extent) => do
      let inner ← descend change kind path inner
      return entries.replace step.text (.table kind inner extent)
    | some (.array true items extent) =>
      match items.getLast? with
      | some (.table kind inner innerExtent) => do
        let inner ← descend change kind path inner
        let items := items.dropLast ++ [.table kind inner innerExtent]
        return entries.replace step.text (.array true items extent)
      | _ => .error step.notTable
    | some _ => .error step.notTable

/-- Open the table that a header names: a new one, or one that headers have only passed through. -/
def openTable (key : Key) (_ : TableKind) (entries : Entries) : Except Fault Entries :=
  match entries.get? key.text with
  | none => .ok (entries ++ [(key, .table .header [] key.extent)])
  | some (.table .passed inner extent) =>
    .ok (entries.replace key.text (.table .header inner extent))
  | some _ => .error key.duplicate

/-- Begin one more table of a sequence. -/
def openItem (key : Key) (_ : TableKind) (entries : Entries) : Except Fault Entries :=
  let item : Node := .table .header [] key.extent
  match entries.get? key.text with
  | none => .ok (entries ++ [(key, .array true [item] key.extent)])
  | some (.array true items extent) =>
    .ok (entries.replace key.text (.array true (items ++ [item]) extent))
  | some _ => .error key.duplicate

namespace Draft

/-- A header of one table. -/
def onHeader (d : Draft) (path : List Key) (last : Key) : Except Fault Draft := do
  let entries ← descend (openTable last) .header path d.entries
  return { entries, header := path ++ [last] }

/-- A header of a table in a sequence. -/
def onItemHeader (d : Draft) (path : List Key) (last : Key) : Except Fault Draft := do
  let entries ← descend (openItem last) .header path d.entries
  return { entries, header := path ++ [last] }

/-- A key and its value, in the table of the last header. -/
def onEntry (d : Draft) (path : List Key) (last : Key) (node : Node) : Except Fault Draft := do
  let insert (_ : TableKind) (entries : Entries) := insertDotted .header last node path entries
  return { d with entries := ← descend insert .header d.header d.entries }

end Draft

namespace Parse

/-- What is being read when a header is. -/
def headerLabel : Option String := some "table header"

/-- The keys of a header, whose opening brackets have been taken. -/
def headerKeys (closing : List Char) : Parse (List Key × Key) := do
  let keys ← key "table header"
  unless ← acceptAll closing do
    fail (expectation headerLabel ["`.`", "`" ++ String.ofList closing ++ "`"])
  lineEnd headerLabel
  return keys

/-- Go on only if there is no fault. -/
def orFail {α : Type} (result : Except Fault α) : Parse α :=
  match result with
  | .ok a => return a
  | .error fault => throw fault

/-- One line of a document that is not blank. -/
def line (d : Draft) : Parse Draft := do
  if ← acceptAll ['[', '['] then
    let (path, last) ← headerKeys [']', ']']
    orFail (d.onItemHeader path last)
  else if ← accept '[' then
    let (path, last) ← headerKeys [']']
    orFail (d.onHeader path last)
  else
    let (path, last) ← key "key"
    unless ← accept '=' do fail (expectation none ["`.`", "`=`"])
    blanks
    let fuel ← mark
    let node ← value 0 (fuel + 1)
    lineEnd none
    orFail (d.onEntry path last node)

/-- The lines of a document. Each takes at least one character of those counted by `fuel`. -/
def lines : Nat → Draft → Parse Draft
  | 0, d => return d
  | fuel + 1, d => do
    let left ← mark
    blankLines left
    if (← get).isEmpty then return d
    else lines fuel (← line d)

end Parse

/-- The table that a text gives. -/
def document (text : List Char) : Except Fault Entries :=
  let text := match text with
    | '\uFEFF' :: rest => rest
    | _ => text
  match (Parse.lines (text.length + 1) {}).run text with
  | .ok (d, _) => .ok d.entries
  | .error fault => .error fault

end Verdicts.Toml
