/-
Checked properties and their verdicts, with the spellings that the engine uses for them and those
that reports use. The logical name of a property is its name without the depth at which one attempt
was made: `ok[3]` and `ok[4]` are two attempts at `ok`.
-/
import Verdicts.Number.Binary64
import Verdicts.Result.Trace

namespace Verdicts

/-- The verdict of the engine on a property. -/
inductive Answer where
  | valid
  | falsifiable
  | unknown
  | reachable
  | unreachable
  deriving DecidableEq, Repr, Inhabited

namespace Answer

/-- All verdicts. -/
def all : List Answer := [valid, falsifiable, unknown, reachable, unreachable]

/-- The spelling of a verdict, in the engine's records as in reports. -/
def text : Answer → String
  | valid => "valid"
  | falsifiable => "falsifiable"
  | unknown => "unknown"
  | reachable => "reachable"
  | unreachable => "unreachable"

/-- The verdict that the engine spells so. -/
def ofText? (spelling : String) : Option Answer :=
  all.find? (·.text == spelling)

/-- Whether a verdict leaves something to be done. -/
def isUnresolved : Answer → Bool
  | falsifiable | unknown => true
  | valid | reachable | unreachable => false

end Answer

/-- Where a property comes from in the program text. -/
inductive Origin where
  /-- An assumption of a contract, perhaps one of a subcomponent. -/
  | assumption
  | guarantee
  /-- An `ensure` clause of a mode. -/
  | ensured
  /-- A property written as an annotation. -/
  | annotated
  /-- The check that the modes of a contract cover every reachable state. -/
  | oneModeActive
  /-- A property that the engine added itself. -/
  | generated
  deriving DecidableEq, Repr, Inhabited

namespace Origin

/-- The origin that the engine spells so. -/
def ofText? : String → Option Origin
  | "Assumption" => some assumption
  | "Guarantee" => some guarantee
  | "Ensure" => some ensured
  | "PropAnnot" => some annotated
  | "Annotation" => some annotated
  | "OneModeActive" => some oneModeActive
  | "Generated" => some generated
  | _ => none

/-- The spelling of an origin in reports. -/
def text : Origin → String
  | assumption => "assumption"
  | guarantee => "guarantee"
  | ensured => "ensure"
  | annotated => "annotation"
  | oneModeActive => "one-mode-active"
  | generated => "generated"

end Origin

/-- A position in the program text. -/
structure Location where
  line : Nat
  column : Nat
  deriving DecidableEq, Repr, Inhabited

/-- How long the engine worked on a property. -/
structure Runtime where
  seconds : Binary64
  timedOut : Bool
  deriving DecidableEq, Repr, Inhabited

/-- One decoded attempt at a property. -/
structure Property where
  /-- The name as the engine reports it, depth included. -/
  name : String
  /-- The component that declares the property. -/
  scope : String
  origin : Origin
  answer : Answer
  /-- The module of the engine that answered. -/
  answeredBy : Option String := none
  location : Option Location := none
  /-- The depth at which the answer was reached. -/
  k : Option Nat := none
  runtime : Option Runtime := none
  trace : Option Trace := none
  deriving Repr, Inhabited

/-- The text before the last `[` of a text, reversed, and the text behind it. -/
def splitLastOpen : List Char → Option (List Char × List Char) := go []
where
  /-- `behind` is what stands behind the characters still to be searched. -/
  go (behind : List Char) : List Char → Option (List Char × List Char)
    | [] => none
    | c :: rest => if c = '[' then some (rest, behind) else go (c :: behind) rest

/-- A name without one depth at its end. A depth is one or more ASCII digits in square brackets
behind a name that is not empty; any other text in brackets belongs to the name. -/
def withoutDepth (name : List Char) : List Char :=
  match name.reverse with
  | ']' :: body =>
    match splitLastOpen body with
    | some (front, depth) =>
      if depth ≠ [] ∧ depth.all Char.isDigit ∧ front ≠ [] then front.reverse else name
    | none => name
  | _ => name

/-- The logical name that a reported name belongs to. -/
def logicalName (name : String) : String :=
  String.ofList (withoutDepth name.toList)

namespace Property

/-- The logical name, shared by all attempts at a property. -/
def displayName (p : Property) : String := logicalName p.name

/-- Whether the engine falsified the property or could not decide it. -/
def isUnresolved (p : Property) : Bool := p.answer.isUnresolved

/-- The trace of a failed inductive step, if the attempt left one. -/
def inductiveTrace? (p : Property) : Option Trace :=
  p.trace.filter (·.kind = .step)

end Property

end Verdicts
