/-
One verification pass over a component. Every decoded attempt is kept in the order of decoding. A
ledger lists the logical names in the order in which they first came up, each with the positions of
its attempts; the last attempt at a name is the one that counts.
-/
import Verdicts.Result.Property

namespace Verdicts

/-- A component of a model, by the order of creation. -/
structure ComponentId where
  index : Nat
  deriving DecidableEq, Repr, Inhabited, Hashable

/-- An analysis of a model, by the order of creation. -/
structure AnalysisId where
  index : Nat
  deriving DecidableEq, Repr, Inhabited, Hashable

/-- The handle as reports show it. -/
def ComponentId.text (id : ComponentId) : String := "c" ++ Nat.repr id.index

/-- The handle as reports show it. -/
def AnalysisId.text (id : AnalysisId) : String := "a" ++ Nat.repr id.index

/-- How an analysis treats subcomponents, by name, as announced before its first property. -/
structure AnalysisContext where
  /-- Subcomponents that take part with their definition. -/
  concrete : List String := []
  /-- Subcomponents that are replaced by their contract. -/
  abstracted : List String := []
  /-- How many assumptions of each component were used. -/
  assumptions : List (String × Nat) := []
  deriving DecidableEq, Repr, Inhabited

/-- One element of the program that a post-analysis reports. -/
structure ModelElement where
  component : String
  category : String
  name : String
  line : Option Nat
  column : Option Nat
  deriving DecidableEq, Repr, Inhabited

/-- A group of elements that a post-analysis reports. -/
structure ElementSet where
  label : String
  elements : List ModelElement
  deriving DecidableEq, Repr, Inhabited

/-- What was found by a pass that followed an analysis. -/
structure PostAnalysis where
  name : String
  elementSets : List ElementSet := []
  deriving DecidableEq, Repr, Inhabited

/-- The attempts at one logical name, by their positions among the decoded properties. -/
structure Attempts where
  name : String
  positions : List Nat
  deriving DecidableEq, Repr, Inhabited

/-- One verification pass over a component. -/
structure Analysis where
  id : AnalysisId
  owner : ComponentId
  concrete : List ComponentId := []
  abstracted : List ComponentId := []
  assumptions : List (String × Nat) := []
  /-- Every decoded property, superseded attempts included. -/
  decoded : List Property := []
  /-- The logical names in the order in which they first came up. -/
  ledger : List Attempts := []
  postAnalyses : List PostAnalysis := []
  deriving Repr, Inhabited

/-- Enter one more attempt at `name` in a ledger. -/
def enterAttempt (name : String) (position : Nat) : List Attempts → List Attempts
  | [] => [⟨name, [position]⟩]
  | entry :: rest =>
    if entry.name = name then ⟨entry.name, entry.positions ++ [position]⟩ :: rest
    else entry :: enterAttempt name position rest

namespace Analysis

/-- Add a decoded property; its position is the number of properties before it. -/
def push (a : Analysis) (p : Property) : Analysis :=
  { a with
    decoded := a.decoded ++ [p]
    ledger := enterAttempt p.displayName a.decoded.length a.ledger }

/-- Add what was found by a pass that followed the analysis. -/
def pushPostAnalysis (a : Analysis) (post : PostAnalysis) : Analysis :=
  { a with postAnalyses := a.postAnalyses ++ [post] }

/-- The property at a position. -/
def property? (a : Analysis) (position : Nat) : Option Property :=
  a.decoded[position]?

/-- The logical names in the order in which they first came up. -/
def propertyNames (a : Analysis) : List String :=
  a.ledger.map (·.name)

/-- The positions of the attempts at a logical name, oldest first. -/
def positionsOf (a : Analysis) (name : String) : List Nat :=
  match a.ledger.find? (·.name == name) with
  | some entry => entry.positions
  | none => []

/-- All attempts at a logical name, oldest first. -/
def attempts (a : Analysis) (name : String) : List Property :=
  (a.positionsOf name).filterMap a.property?

/-- The attempt at a logical name that counts. -/
def latest? (a : Analysis) (name : String) : Option Property :=
  (a.positionsOf name).getLast?.bind a.property?

/-- The position of the attempt that counts, for each logical name. -/
def authoritativePositions (a : Analysis) : List Nat :=
  a.ledger.filterMap (·.positions.getLast?)

/-- The attempt that counts, for each logical name. -/
def authoritative (a : Analysis) : List Property :=
  a.authoritativePositions.filterMap a.property?

/-- The properties that count and have a verdict. -/
def withAnswer (a : Analysis) (answer : Answer) : List Property :=
  a.authoritative.filter (·.answer = answer)

def falsified (a : Analysis) : List Property := a.withAnswer .falsifiable

def unknown (a : Analysis) : List Property := a.withAnswer .unknown

def valid (a : Analysis) : List Property := a.withAnswer .valid

/-- Whether a property that counts is falsified or undecided. -/
def hasUnresolved (a : Analysis) : Bool :=
  a.authoritative.any Property.isUnresolved

/-- Whether the pass checked that the modes of a contract cover every reachable state. -/
def checksModes (a : Analysis) : Bool :=
  a.decoded.any (·.origin = .oneModeActive)

end Analysis

end Verdicts
