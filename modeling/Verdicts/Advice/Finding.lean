/-
What is found out about a component from its analyses and from those of the components that it
calls. The first finding says why verification succeeded or failed; it is chosen by an ordered table
of cases. Whenever properties are undecided, a second finding asks for more time.
-/
import Verdicts.Result.Model

namespace Verdicts

/-- Properties declared by one component. -/
structure ScopeGroup where
  scope : String
  members : List Property
  deriving Repr, Inhabited

/-- What an earlier attempt at an undecided property tells: the depth at which its inductive step
failed, if it is known, and the length of the trace that it left. -/
structure InductionHint where
  depth : Option Nat
  length : Nat
  deriving DecidableEq, Repr, Inhabited

/-- A property without a verdict, with the hint of the attempt before the one that counts. -/
structure Undecided where
  property : Property
  hint : Option InductionHint
  deriving Repr, Inhabited

/-- The kinds of advice. -/
inductive AdviceKind where
  /-- Every property holds. -/
  | noActionRequired
  /-- The modes of the contract do not cover every reachable state. -/
  | fixOneModeActive
  /-- The component verifies only with the definition of a subcomponent at hand. -/
  | strengthenSubComponentContract
  /-- Only assumptions fail. -/
  | completeSpecificationOrRemoveSubNodes
  /-- Assumptions fail and so do other properties. -/
  | makeWeakerOrFixDefinition
  /-- Properties fail while no subcomponent has an unresolved one. -/
  | makeAssumptionStrongerOrFixDefinition
  /-- Properties fail and so do some of a subcomponent. -/
  | fixSubComponentIssues
  /-- Some properties are undecided. -/
  | increaseTimeout
  deriving DecidableEq, Repr, Inhabited

/-- What was found out about a component, with the evidence for it. -/
inductive Finding where
  | noAction (modesChecked : Bool)
  | fixModes (falsified : List Property)
  | strengthenContract (refined : List String)
  | completeSpecification (assumptions : List ScopeGroup) (otherwiseSatisfied : Bool)
  | weakenAssumptions (assumptions : List ScopeGroup) (own : List Property)
  | strengthenAssumptions (falsified : List Property)
  | fixSubComponents (falsified : List Property) (implicated : List (String × List Property))
  | increaseTimeout (undecided : List Undecided)
  deriving Repr, Inhabited

/-- The kind of advice that a finding leads to. -/
def Finding.kind : Finding → AdviceKind
  | noAction _ => .noActionRequired
  | fixModes _ => .fixOneModeActive
  | strengthenContract _ => .strengthenSubComponentContract
  | completeSpecification .. => .completeSpecificationOrRemoveSubNodes
  | weakenAssumptions .. => .makeWeakerOrFixDefinition
  | strengthenAssumptions _ => .makeAssumptionStrongerOrFixDefinition
  | fixSubComponents .. => .fixSubComponentIssues
  | increaseTimeout _ => .increaseTimeout

/-- Put a property with the others of its scope. -/
def enterScope (p : Property) : List ScopeGroup → List ScopeGroup
  | [] => [⟨p.scope, [p]⟩]
  | group :: rest =>
    if group.scope = p.scope then ⟨group.scope, group.members ++ [p]⟩ :: rest
    else group :: enterScope p rest

/-- Properties by the component that declares them, in the order in which they first come up. -/
def groupByScope (ps : List Property) : List ScopeGroup :=
  ps.foldl (fun groups p => enterScope p groups) []

namespace Analysis

/-- The hint that the attempt before the one that counts gives, if it failed an inductive step. -/
def inductionHint? (a : Analysis) (p : Property) : Option InductionHint :=
  match (a.attempts p.displayName).reverse with
  | _ :: previous :: _ => previous.inductiveTrace?.map fun t => ⟨previous.k, t.length⟩
  | _ => none

/-- The undecided properties that count, with their hints. -/
def undecided (a : Analysis) : List Undecided :=
  a.unknown.map fun p => ⟨p, a.inductionHint? p⟩

/-- Whether the properties of a component's own contract hold, assumptions aside. -/
def ownContractHolds (a : Analysis) (name : String) : Bool :=
  (a.authoritative.filter fun p => p.scope = name && p.origin ≠ .assumption).all (·.answer = .valid)

end Analysis

/-- The names of subcomponents that were abstract in one analysis and concrete in the next. The
latest pair of analyses comes first, and each name once. -/
def refinedNames (nameOf : ComponentId → String) (analyses : List Analysis) : List String :=
  let steps := (analyses.zip analyses.tail).reverse
  let refined := steps.flatMap fun (earlier, later) => earlier.abstracted.filter (· ∈ later.concrete)
  refined.foldl (fun names id => if nameOf id ∈ names then names else names ++ [nameOf id]) []

namespace Model

/-- The components that a component calls whose last analysis has falsified or undecided
properties, with these. -/
def unresolvedChildren (m : Model) (id : ComponentId) : List (String × List Property) :=
  (m.childrenOf id).filterMap fun child =>
    match m.lastAnalysis? child with
    | none => none
    | some last =>
      match last.authoritative.filter Property.isUnresolved with
      | [] => none
      | unresolved => some (m.nameOf child, unresolved)

/-- Why the verification of a component succeeded: nothing is falsified in its last analysis. -/
def successFinding? (m : Model) (id : ComponentId) (last : Analysis) : Option Finding :=
  let analyses := m.analysesOf id
  let modes := m.modeAnalysis? id
  let modesFalsified := (modes.map (·.falsified)).getD []
  if analyses.length = 1 then
    if last.unknown.isEmpty then some (.noAction false) else none
  else if !modesFalsified.isEmpty then some (.fixModes modesFalsified)
  else if !last.unknown.isEmpty then none
  else if analyses.length = 2 then some (.noAction modes.isSome)
  else some (.strengthenContract (refinedNames m.nameOf analyses))

/-- Why the verification of a component failed: something is falsified in its last analysis. -/
def failureFinding (m : Model) (id : ComponentId) (last : Analysis) : Finding :=
  let falsified := last.falsified
  let assumptions := falsified.filter (·.origin = .assumption)
  let own := falsified.filter (·.origin ≠ .assumption)
  if own.isEmpty then
    .completeSpecification (groupByScope assumptions) (last.ownContractHolds (m.nameOf id))
  else if !assumptions.isEmpty then .weakenAssumptions (groupByScope assumptions) own
  else
    match m.unresolvedChildren id with
    | [] => .strengthenAssumptions falsified
    | implicated => .fixSubComponents falsified implicated

/-- The first finding about a component. -/
def primaryFinding? (m : Model) (id : ComponentId) (last : Analysis) : Option Finding :=
  if last.falsified.isEmpty then m.successFinding? id last else some (m.failureFinding id last)

/-- All findings about a component. One that was never analyzed has none. -/
def findings (m : Model) (id : ComponentId) : List Finding :=
  match m.lastAnalysis? id with
  | none => []
  | some last =>
    (m.primaryFinding? id last).toList
      ++ if last.unknown.isEmpty then [] else [.increaseTimeout last.undecided]

end Model

end Verdicts
