/-
Editing text line by line.
-/
import Verdicts.Script.Expression
import Verdicts.Text.Decimal
import Verdicts.Text.Utf8

namespace Verdicts.Script

/-- Lines with their line feeds. -/
def lines : Bytes → List Bytes
  | [] => []
  | b :: rest =>
    if b = 10 then [b] :: lines rest
    else
      match lines rest with
      | [] => [[b]]
      | line :: others => (b :: line) :: others

namespace Editing

/-- A line that an edit is meant for. -/
inductive Address where
  | line (number : Nat)
  | last
  | matching (e : Expression)
  deriving Repr, Inhabited

/-- What is done to a line. -/
inductive Action where
  | print
  | delete
  | quit
  /-- Put another text in the place of what an expression matches, once or everywhere. -/
  | substitute (e : Expression) (replacement : List Char) (everywhere print : Bool)
  deriving Repr, Inhabited

/-- An action and the lines that it is meant for. -/
structure Instruction where
  first : Option Address := none
  final : Option Address := none
  others : Bool := false
  action : Action
  deriving Repr, Inhabited

/-- A text up to a mark that is not behind a backslash, and what stands behind it. -/
def upTo (mark : Char) : List Char → Option (List Char × List Char)
  | [] => none
  | '\\' :: c :: rest =>
    (upTo mark rest).map fun (text, rest) => (if c = mark then c :: text else '\\' :: c :: text, rest)
  | c :: rest =>
    if c = mark then some ([], rest) else (upTo mark rest).map fun (text, rest) => (c :: text, rest)

/-- The address that a text begins with. -/
def address? (extended : Bool) (text : List Char) : Option Address × List Char :=
  match text with
  | '$' :: rest => (some .last, rest)
  | '/' :: rest =>
    match upTo '/' rest with
    | some (e, rest) => (some (.matching (.parse extended e)), rest)
    | none => (none, text)
  | _ =>
    match text.takeWhile Char.isDigit with
    | [] => (none, text)
    | digits => (some (.line (Decimal.value digits)), text.drop digits.length)

/-- The action that a text begins with. -/
def action? (extended : Bool) (text : List Char) : Option (Action × List Char) :=
  match text with
  | 'p' :: rest => some (.print, rest)
  | 'd' :: rest => some (.delete, rest)
  | 'q' :: rest => some (.quit, rest)
  | 's' :: mark :: rest => do
    let (e, rest) ← upTo mark rest
    let (replacement, rest) ← upTo mark rest
    let flags := rest.takeWhile fun c => c == 'g' || c == 'p'
    some (.substitute (.parse extended e) replacement (flags.contains 'g') (flags.contains 'p'),
      rest.drop flags.length)
  | _ => none

/-- Whether a character separates instructions. -/
def isGap (c : Char) : Bool := c == ' ' || c == ';' || c == '\n'

/-- The instructions that a text gives; each takes up at least one character. -/
def instructions? (extended : Bool) : Nat → List Char → Option (List Instruction)
  | 0, _ => none
  | fuel + 1, text =>
    match text.dropWhile isGap with
    | [] => some []
    | text => do
      let (first, rest) := address? extended text
      let (final, rest) := match rest with
        | ',' :: rest => address? extended rest
        | rest => (none, rest)
      let (others, rest) := match rest with
        | '!' :: rest => (true, rest)
        | rest => (false, rest)
      let (action, rest) ← action? extended rest
      some ({ first, final, others, action } :: (← instructions? extended fuel rest))

/-- The instructions that a script gives. -/
def script? (extended : Bool) (text : List Char) : Option (List Instruction) :=
  instructions? extended (text.length + 1) text

/-- A replacement with the text that it replaces in the place of each ampersand. -/
def filled (found : List Char) : List Char → List Char
  | '\\' :: 'n' :: rest => '\n' :: filled found rest
  | '\\' :: c :: rest => c :: filled found rest
  | '&' :: rest => found ++ filled found rest
  | c :: rest => c :: filled found rest
  | [] => []

/-- A line with a replacement in the place of matches; also says whether there was one. -/
def substituted (e : Expression) (replacement : List Char) (everywhere : Bool) :
    Nat → List Char → List Char × Bool
  | 0, line => (line, false)
  | fuel + 1, line =>
    match e.find? line with
    | none => (line, false)
    | some (start, length) =>
      let front := line.take start ++ filled ((line.drop start).take length) replacement
      let rest := line.drop (start + length)
      if !everywhere || e.fromStart then (front ++ rest, true)
      else
        match length, rest with
        | 0, [] => (front, true)
        | 0, c :: rest => (front ++ c :: (substituted e replacement true fuel rest).1, true)
        | _, [] => (front, true)
        | _, rest => (front ++ (substituted e replacement true fuel rest).1, true)

/-- Whether an address is the one of a line. -/
def Address.isAt (number : Nat) (isLast : Bool) (text : List Char) : Address → Bool
  | line n => n == number
  | last => isLast
  | matching e => (e.find? text).isSome

/-- Whether an instruction is meant for a line. A range reaches from a line to another. -/
def Instruction.concerns (i : Instruction) (number : Nat) (isLast : Bool) (text : List Char) : Bool :=
  let inside := match i.first, i.final with
    | none, _ => true
    | some first, none => first.isAt number isLast text
    | some (.line low), some (.line high) => low ≤ number && (number ≤ high || number == low)
    | some (.line low), some .last => low ≤ number
    | some first, some _ => first.isAt number isLast text
  inside != i.others

/-- What has become of a line. -/
structure Edited where
  text : List Char
  printed : List (List Char) := []
  deleted : Bool := false
  quitting : Bool := false
  deriving Repr, Inhabited

/-- Do what an instruction says. -/
def Edited.obey (number : Nat) (isLast : Bool) (e : Edited) (i : Instruction) : Edited :=
  if e.deleted || e.quitting || !i.concerns number isLast e.text then e
  else
    match i.action with
    | .print => { e with printed := e.printed ++ [e.text] }
    | .delete => { e with deleted := true }
    | .quit => { e with quitting := true }
    | .substitute pattern replacement everywhere print =>
      let (text, found) := substituted pattern replacement everywhere (e.text.length + 1) e.text
      { e with text, printed := if found && print then e.printed ++ [text] else e.printed }

/-- Edit lines, counting them from `number`. -/
def editLines (quiet : Bool) (commands : List Instruction) (number : Nat) : List Bytes → Bytes
  | [] => []
  | line :: rest =>
    let ending := if line.getLast? = some 10 then [10] else []
    let text := (Utf8.lossy (line.filter (· ≠ 10))).toList
    let e := commands.foldl (Edited.obey number rest.isEmpty) { text }
    let shown := e.printed ++ if quiet || e.deleted then [] else [e.text]
    let bytes := (shown.map fun t => Utf8.encode (String.ofList t) ++ ending).flatten
    bytes ++ if e.quitting then [] else editLines quiet commands (number + 1) rest

/-- Edit a text. -/
def edit (quiet : Bool) (commands : List Instruction) (text : Bytes) : Bytes :=
  editLines quiet commands 1 (lines text)

/-! ## Columns and order -/

/-- Change the text of a line. -/
def onLine (f : List Char → List Char) (line : Bytes) : Bytes :=
  Utf8.encode (String.ofList (f (Utf8.lossy (line.filter (· ≠ 10))).toList)) ++ [10]

/-- Ranges of places, written such as `1,3-5,7-`. -/
def places (text : List Char) : List (Nat × Option Nat) :=
  let part (range : List Char) : Nat × Option Nat :=
    let low := range.takeWhile Char.isDigit
    match range.drop low.length with
    | '-' :: high => (max 1 (Decimal.value low), if high.isEmpty then none else some (Decimal.value high))
    | _ => (Decimal.value low, some (Decimal.value low))
  (text.splitOn ',').map part

/-- The items at some places, which count from one. -/
def pick {α : Type} (places : List (Nat × Option Nat)) (items : List α) : List α :=
  items.zipIdx.filterMap fun (item, i) =>
    if places.any fun (low, high) => low ≤ i + 1 && high.all (i + 1 ≤ ·) then some item else none

/-- Some fields of a line. A line without the mark between fields stays as it is. -/
def cutFields (mark : Char) (places : List (Nat × Option Nat)) (line : List Char) : List Char :=
  if line.contains mark then [mark].intercalate (pick places (line.splitOn mark)) else line

/-- The number that a line begins with. -/
def leadingValue (line : Bytes) : Int :=
  match (Utf8.lossy line).toList.dropWhile (· == ' ') with
  | '-' :: rest => -(Decimal.value (rest.takeWhile Char.isDigit))
  | text => Decimal.value (text.takeWhile Char.isDigit)

/-- Lines in the order of their bytes, or of the numbers they begin with. -/
def sortLines (byNumber : Bool) (ls : List Bytes) : List Bytes :=
  let atMost (a b : Bytes) : Bool := compare (a.map (·.toNat)) (b.map (·.toNat)) ≠ .gt
  if byNumber then
    ls.mergeSort fun a b =>
      leadingValue a < leadingValue b || (leadingValue a == leadingValue b && atMost a b)
  else ls.mergeSort atMost

end Editing

end Verdicts.Script
