/-
The advice by name. Main statements: on two models that agree by name, the advice on the components of one name is
the same, in the same order (`Agree.advise`), and the report counts the same (`Agree.falsifiedCount`).
-/
import Verdicts.Proofs.Advice.Verdict
import Verdicts.Proofs.Result.ByName

namespace Verdicts

namespace Model

/-! ## What findings are read off -/

theorem SameAnalysis.undecided {m m' : Model} {a a' : Analysis} (h : SameAnalysis m m' a a') :
    a.undecided = a'.undecided := by
  have hattempts : a.attempts = a'.attempts := by
    funext name
    rw [Analysis.attempts, Analysis.attempts, Analysis.positionsOf, Analysis.positionsOf, h.ledger, h.property?]
  have hhint : a.inductionHint? = a'.inductionHint? := by
    funext p
    rw [Analysis.inductionHint?, Analysis.inductionHint?, hattempts]
  rw [Analysis.undecided, Analysis.undecided, Analysis.unknown, Analysis.unknown, h.withAnswer, hhint]

theorem SameAnalysis.ownContractHolds {m m' : Model} {a a' : Analysis} (h : SameAnalysis m m' a a')
    (name : String) : a.ownContractHolds name = a'.ownContractHolds name := by
  rw [Analysis.ownContractHolds, Analysis.ownContractHolds, h.authoritative]

theorem forall₂_zip_of_forall₂ {α β γ δ : Type} {R : α → β → Prop} {S : γ → δ → Prop} {as : List α}
    {bs : List β} {cs : List γ} {ds : List δ} (h : List.Forall₂ R as bs) (h' : List.Forall₂ S cs ds) :
    List.Forall₂ (fun p q => R p.1 q.1 ∧ S p.2 q.2) (as.zip cs) (bs.zip ds) := by
  induction h generalizing cs ds with
  | nil => exact .nil
  | cons hab _ ih =>
    cases h' with
    | nil => exact .nil
    | cons hcd hrest => exact .cons ⟨hab, hcd⟩ (ih hrest)

/-- The names of refined subcomponents are read off the contexts by name. -/
theorem Agree.refinedNames {m m' : Model} (h : Agree m m') {as as' : List Analysis}
    (has : List.Forall₂ (SameAnalysis m m') as as') :
    refinedNames m.nameOf as = refinedNames m'.nameOf as' := by
  have hmem := @List.rel_mem _ _ _ (sameName_biUnique h.left h.right)
  have hsteps := List.rel_reverse (forall₂_zip_of_forall₂ has (List.forall₂_drop 1 has))
  rw [List.drop_one, List.drop_one] at hsteps
  have hrefined : List.Forall₂ (SameName m m')
      ((as.zip as.tail).reverse.flatMap fun p => p.1.abstracted.filter (· ∈ p.2.concrete))
      ((as'.zip as'.tail).reverse.flatMap fun p => p.1.abstracted.filter (· ∈ p.2.concrete)) := by
    refine List.rel_flatMap hsteps fun p q hpq => List.rel_filter (fun id id' hid => ?_) hpq.1.abstracted
    simpa using hmem hid hpq.2.concrete
  refine List.rel_foldl (P := Eq) (fun names names' hnames id id' hid => ?_) rfl hrefined
  rw [hnames, hid.nameOf]

/-- The unresolved callees are found by name. -/
theorem Agree.unresolvedChildren {m m' : Model} (h : Agree m m') {id id' : ComponentId}
    (hid : SameName m m' id id') : m.unresolvedChildren id = m'.unresolvedChildren id' := by
  rw [Model.unresolvedChildren, Model.unresolvedChildren, List.filterMap_eq_flatMap_toList,
    List.filterMap_eq_flatMap_toList]
  refine flatMap_eq_of_forall₂ (h.children id id' hid) fun child child' hchild => ?_
  have hlast := (h.latest hchild).1
  rw [hchild.nameOf]
  generalize m.lastAnalysis? child = last, m'.lastAnalysis? child' = last' at hlast
  cases hlast with
  | none => rfl
  | some hlast =>
    simp only [hlast.authoritative]

/-! ## Findings -/

theorem Agree.successFinding? {m m' : Model} (h : Agree m m') {id id' : ComponentId}
    (hid : SameName m m' id id') {last last' : Analysis} (hlast : SameAnalysis m m' last last') :
    m.successFinding? id last = m'.successFinding? id' last' := by
  have hanalyses := h.analyses id id' hid
  have hmodes := (h.latest hid).2
  rw [Model.successFinding?, Model.successFinding?, h.left.analysesOf_eq, h.right.analysesOf_eq,
    h.refinedNames hanalyses, hanalyses.length_eq, Analysis.unknown, Analysis.unknown, hlast.withAnswer]
  generalize m.modeAnalysis? id = modes, m'.modeAnalysis? id' = modes' at hmodes
  cases hmodes with
  | none => rfl
  | some hmodes =>
    simp only [Option.map_some, Option.getD_some, Analysis.falsified, hmodes.withAnswer, Option.isSome_some]

theorem Agree.failureFinding {m m' : Model} (h : Agree m m') {id id' : ComponentId}
    (hid : SameName m m' id id') {last last' : Analysis} (hlast : SameAnalysis m m' last last') :
    m.failureFinding id last = m'.failureFinding id' last' := by
  rw [Model.failureFinding, Model.failureFinding, Analysis.falsified, Analysis.falsified, hlast.withAnswer,
    hlast.ownContractHolds, hid.nameOf, h.unresolvedChildren hid]

theorem Agree.findings {m m' : Model} (h : Agree m m') {id id' : ComponentId} (hid : SameName m m' id id') :
    m.findings id = m'.findings id' := by
  have hlast := (h.latest hid).1
  rw [Model.findings, Model.findings]
  generalize m.lastAnalysis? id = last, m'.lastAnalysis? id' = last' at hlast
  cases hlast with
  | none => rfl
  | some hlast =>
    simp only [Model.primaryFinding?, Analysis.falsified, Analysis.unknown, hlast.withAnswer,
      hlast.undecided, h.successFinding? hid hlast, h.failureFinding hid hlast]
    rfl

/-! ## Advice and count -/

theorem Agree.adviseOn {m m' : Model} (h : Agree m m') (settings : DisplaySettings) {id id' : ComponentId}
    (hid : SameName m m' id id') : m.adviseOn settings id = m'.adviseOn settings id' := by
  rw [Model.adviseOn, Model.adviseOn, h.findings hid, hid.nameOf]

/-- The advice on the component of a name is the same in two models that agree. -/
theorem Agree.advise {m m' : Model} (h : Agree m m') (settings : DisplaySettings) (name : String) :
    (m.freeze.advise settings).filter (·.component = name) =
      (m'.freeze.advise settings).filter (·.component = name) := by
  by_cases hname : name ∈ m.names
  · obtain ⟨c, hc, rfl⟩ := List.mem_map.1 hname
    obtain ⟨c', hc', heq⟩ := List.mem_map.1 (h.names.mem_iff.1 hname)
    have hid : SameName m m' c.id c'.id := ⟨c.name, h.left.named_id hc, heq ▸ h.right.named_id hc'⟩
    calc (m.freeze.advise settings).filter (·.component = c.name)
      _ = m.adviseOn settings c.id := h.left.filter_advise settings hc
      _ = m'.adviseOn settings c'.id := h.adviseOn settings hid
      _ = (m'.freeze.advise settings).filter (·.component = c.name) := by
        rw [← heq]
        exact (h.right.filter_advise settings hc').symm
  · have hnone : ∀ {m : Model}, m.WellFormed → name ∉ m.names →
        (m.freeze.advise settings).filter (·.component = name) = [] := fun h hname => by
      refine List.filter_eq_nil_iff.2 fun s hs heq => hname ?_
      rw [← of_decide_eq_true heq]
      exact h.component_of_mem_advise hs
    rw [hnone h.left hname, hnone h.right fun hmem => hname (h.names.mem_iff.2 hmem)]

/-- The report counts the same on two models that agree. -/
theorem Agree.falsifiedCount {m m' : Model} (h : Agree m m') :
    m.freeze.falsifiedCount = m'.freeze.falsifiedCount := by
  obtain ⟨ids, hids, hperm⟩ := h.handles
  have hcount : ∀ id id', SameName m m' id id' →
      (m.ownRefs .falsifiable id).length = (m'.ownRefs .falsifiable id').length := by
    intro id id' hid
    rw [h.left.length_ownRefs, h.right.length_ownRefs]
    exact congrArg List.length
      (flatMap_eq_of_forall₂ (h.relevantAnalyses hid .falsifiable) fun a a' ha => ha.withAnswer _)
  rw [h.left.falsifiedCount_eq, h.right.falsifiedCount_eq, List.length_flatMap, List.length_flatMap,
    map_eq_of_forall₂ hids hcount]
  exact (hperm.map _).sum_nat

end Model

end Verdicts
