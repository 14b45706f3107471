/-
Suggestions: the advice on each component, worded. The evidence and the recommended action are kept
apart. Every component is advised on once, behind the components that it calls.
-/
import Verdicts.Advice.Finding
import Verdicts.Display.Settings
import Verdicts.Number.Fixed
import Verdicts.Result.Projection
import Verdicts.Text.Column

namespace Verdicts

/-- One piece of advice. -/
structure Suggestion where
  component : String
  kind : AdviceKind
  /-- The evidence, in order. -/
  explanations : List String
  /-- The recommended action. -/
  label : String
  /-- The components or properties that the advice is about. -/
  subjects : List String
  /-- Where only assumptions fail: whether the contract of the component holds otherwise. -/
  ownContractSatisfied : Option Bool := none
  deriving DecidableEq, Repr, Inhabited

/-- What a kind of advice asks for. -/
def AdviceKind.text : AdviceKind → String
  | noActionRequired => "no action required"
  | fixOneModeActive => "fix one-mode-active"
  | strengthenSubComponentContract => "strengthen subcomponent contract"
  | completeSpecificationOrRemoveSubNodes => "complete specification or remove subcomponents"
  | makeWeakerOrFixDefinition => "make weaker or fix definition"
  | makeAssumptionStrongerOrFixDefinition => "make assumption stronger or fix definition"
  | fixSubComponentIssues => "fix subcomponent issues"
  | increaseTimeout => "increase timeout"

/-- The name of a kind of advice in structured reports. -/
def AdviceKind.label : AdviceKind → String
  | noActionRequired => "NoActionRequired"
  | fixOneModeActive => "FixOneModeActive"
  | strengthenSubComponentContract => "StrengthenSubComponentContract"
  | completeSpecificationOrRemoveSubNodes => "CompleteSpecificationOrRemoveSubNodes"
  | makeWeakerOrFixDefinition => "MakeWeakerOrFixDefinition"
  | makeAssumptionStrongerOrFixDefinition => "MakeAssumptionStrongerOrFixDefinition"
  | fixSubComponentIssues => "FixSubComponentIssues"
  | increaseTimeout => "IncreaseTimeout"

/-! ## Evidence -/

namespace Evidence

variable (settings : DisplaySettings)

/-- Properties with their verdicts. -/
def describe (ps : List Property) : String :=
  String.intercalate ", " <| ps.map fun p =>
    settings.name p.displayName ++ " (" ++ p.answer.text ++ ")"

/-- A property that shows that the modes of `n` leave a state uncovered. -/
def modeGap (n : String) (p : Property) : String :=
  let after := match p.trace with
    | some t => s!" (no mode is active after {t.length} step(s))"
    | none => ""
  s!"The modes of {n} are not exhaustive: {settings.name p.displayName} is falsifiable{after}."

/-- The failing assumptions of one component; `verdict` says what they are. -/
def group (verdict : String) (g : ScopeGroup) : String :=
  s!"The assumptions of {settings.name g.scope} are {verdict}: {describe settings g.members}."

/-- The unresolved properties of a subcomponent. -/
def child (name : String) (ps : List Property) : String :=
  s!"{settings.name name} has unresolved properties: {describe settings ps}."

/-- The hint on a property whose induction failed. -/
def hint (shown : String) (h : InductionHint) : String :=
  let depth := match h.depth with
    | some k => s!"{k}-inductive"
    | none => "inductive"
  s!"Hint: {shown} is not {depth}; the inductive step fails on a trace of {h.length} step(s). "
    ++ "Strengthening it with auxiliary invariants may let induction succeed."

/-- That a property is undecided, and the hint on it if there is one. -/
def undecided (u : Undecided) : List String :=
  let shown := settings.name u.property.displayName
  let after := match u.property.runtime with
    | some runtime =>
      if runtime.timedOut then s!" before timing out after {runtime.seconds.fixedText 1}s" else ""
    | none => ""
  s!"The engine could not decide {shown}{after}." :: (u.hint.map (hint shown)).toList

end Evidence

/-! ## From findings to suggestions -/

namespace Finding

/-- The components or properties that a finding is about. -/
def subjects : Finding → List String
  | noAction _ => []
  | fixModes falsified => falsified.map (·.displayName)
  | strengthenContract refined => refined
  | completeSpecification assumptions _ => assumptions.map (·.scope)
  | weakenAssumptions assumptions _ => assumptions.map (·.scope)
  | strengthenAssumptions falsified => falsified.map (·.displayName)
  | fixSubComponents _ implicated => implicated.map (·.1)
  | increaseTimeout undecided => undecided.map (·.property.displayName)

/-- The evidence for a finding about the component that is shown as `n`. -/
def explanations (settings : DisplaySettings) (n : String) : Finding → List String
  | noAction modesChecked =>
    s!"All properties of {n} are valid."
      :: if modesChecked then [s!"The modes of {n} are exhaustive."] else []
  | fixModes falsified => falsified.map (Evidence.modeGap settings n)
  | strengthenContract [] => [s!"{n} could only be proven after refining its abstraction."]
  | strengthenContract refined =>
    let subs := settings.names refined
    [s!"The properties of {n} could not be proven while {subs} was abstracted by its contract.",
      s!"They are valid once {subs} is analyzed through its definition."]
  | completeSpecification assumptions otherwiseSatisfied =>
    assumptions.map (Evidence.group settings s!"not satisfied by {n}")
      ++ [if otherwiseSatisfied then s!"Otherwise, the contract of {n} is satisfied."
          else s!"In addition, the contract of {n} could not be fully proven."]
  | weakenAssumptions assumptions own =>
    assumptions.map (Evidence.group settings s!"violated in {n}")
      ++ if own.isEmpty then []
         else [s!"{n} also violates its own properties: {Evidence.describe settings own}."]
  | strengthenAssumptions falsified =>
    [s!"{n} violates: {Evidence.describe settings falsified}.",
      s!"Every subcomponent of {n} satisfies its contract."]
  | fixSubComponents falsified implicated =>
    s!"{n} violates: {Evidence.describe settings falsified}."
      :: implicated.map fun (child, ps) => Evidence.child settings child ps
  | increaseTimeout undecided => undecided.flatMap (Evidence.undecided settings)

/-- The recommended action; `subs` are the subjects as shown. -/
def label (n subs : String) : Finding → String
  | noAction _ => "No action required."
  | fixModes _ =>
    s!"Make the modes of {n} exhaustive, so that some mode is active in every reachable state."
  | strengthenContract [] =>
    s!"Strengthen the contracts of the subcomponents of {n} so that {n} can be proven compositionally."
  | strengthenContract _ =>
    s!"Strengthen the contract of {subs} so that it is sufficient to prove {n}."
  | completeSpecification .. =>
    s!"Complete the specification of {n} so that the assumptions of {subs} hold, "
      ++ s!"or remove the calls to {subs}."
  | weakenAssumptions .. => s!"Weaken the assumptions of {subs} or fix the definition of {n}."
  | strengthenAssumptions _ => s!"Strengthen the assumptions of {n} or fix its definition."
  | fixSubComponents .. => s!"Fix the issues reported for {subs} first, then re-check {n}."
  | increaseTimeout _ =>
    s!"Increase the engine timeout for {n}, or add auxiliary invariants to help the proof."

/-- Whether the contract of the component holds apart from the failing assumptions, where only
assumptions fail. -/
def ownContractSatisfied : Finding → Option Bool
  | completeSpecification _ otherwiseSatisfied => some otherwiseSatisfied
  | _ => none

/-- The advice that a finding about a component leads to. -/
def suggest (settings : DisplaySettings) (name : String) (f : Finding) : Suggestion :=
  let n := settings.name name
  { component := name
    kind := f.kind
    explanations := f.explanations settings n
    label := f.label n (settings.names f.subjects)
    subjects := f.subjects
    ownContractSatisfied := f.ownContractSatisfied }

end Finding

namespace Model

/-- The advice on one component. -/
def adviseOn (m : Model) (settings : DisplaySettings) (id : ComponentId) : List Suggestion :=
  (m.findings id).map (·.suggest settings (m.nameOf id))

/-- The advice on every component, behind that on the components that it calls. -/
def advise (m : Model) (settings : DisplaySettings) : List Suggestion :=
  m.bottomUp.flatMap (m.adviseOn settings)

end Model

/-- The advice on a finished run. -/
def FrozenModel.advise (f : FrozenModel) (settings : DisplaySettings) : List Suggestion :=
  f.model.advise settings

namespace Suggestion

/-- The suggestion on its own. -/
def text (s : Suggestion) : String :=
  Text.lines (s!"{s.component} ({s.kind.text}): {s.label}" :: s.explanations.map ("  - " ++ ·))

/-- The lines of a suggestion in a list. -/
def displayLines (settings : DisplaySettings) (s : Suggestion) : List String :=
  (settings.name s.component ++ " " ++ s.label) :: s.explanations.map ("    " ++ ·)

/-- The text of a list of suggestions. -/
def displayAll (settings : DisplaySettings) (suggestions : List Suggestion) : String :=
  if suggestions.isEmpty then "No suggestions.\n"
  else Text.lines (suggestions.flatMap (·.displayLines settings))

end Suggestion

end Verdicts
