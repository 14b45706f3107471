/-
What advice says about the subcomponents of a component. Main statement: advice to strengthen the assumptions of a
component says that every subcomponent satisfies its contract; in the last analysis of a subcomponent nothing is open
then, but the subcomponent satisfies its contract only if it was analyzed and its modes leave no gap. The one and the
other can be missing (`subcomponents_misreported`).
-/
import Verdicts.Proofs.Advice.Found

namespace Verdicts

namespace Model

/-- The component was analyzed, nothing that counts is falsified or undecided in its last analysis, and nothing that
counts is falsified in the analysis that checked its modes. -/
def Satisfied (m : Model) (id : ComponentId) : Prop :=
  ∃ last, m.IsLast id last ∧ (∀ p, ¬last.Answers .falsifiable p ∧ ¬last.Answers .unknown p) ∧
    ∀ modes p, m.IsModes id modes → ¬modes.Answers .falsifiable p

theorem exists_isLast_iff {m : Model} {id : ComponentId} : (∃ last, m.IsLast id last) ↔ m.analysesBy id ≠ [] := by
  constructor
  · rintro ⟨last, earlier, hby⟩
    simp [hby]
  · intro hanalyzed
    obtain ⟨earlier, last, hby⟩ := (List.eq_nil_or_concat' _).resolve_left hanalyzed
    exact ⟨last, earlier, hby⟩

theorem satisfied_iff {m : Model} {id : ComponentId} :
    m.Satisfied id ↔ m.analysesBy id ≠ [] ∧ ¬m.Implicated id ∧ ¬m.ModesOpen id := by
  constructor
  · rintro ⟨last, hlast, hclosed, hmodes⟩
    refine ⟨exists_isLast_iff.1 ⟨last, hlast⟩, ?_, ?_⟩
    · rintro ⟨a, p, ha, hopen⟩
      rw [← hlast.unique ha] at hopen
      exact hopen.elim (hclosed p).1 (hclosed p).2
    · rintro ⟨a, p, ha, hopen⟩
      exact hmodes a p ha hopen
  · rintro ⟨hanalyzed, hclosed, hmodes⟩
    obtain ⟨last, hlast⟩ := exists_isLast_iff.2 hanalyzed
    refine ⟨last, hlast, fun p => ⟨fun hp => ?_, fun hp => ?_⟩, fun a p ha hp => hmodes ⟨a, p, ha, hp⟩⟩
    · exact hclosed ⟨last, p, hlast, .inl hp⟩
    · exact hclosed ⟨last, p, hlast, .inr hp⟩

theorem WellFormed.not_implicated {m : Model} (h : m.WellFormed) {id child : ComponentId}
    (hnone : m.unresolvedChildren id = []) (hchild : child ∈ m.childrenOf id) : ¬m.Implicated child := by
  obtain ⟨implicated, -, hmem, hnames⟩ := h.unresolvedChildren_names id
  rw [hnone, List.map_nil, eq_comm, List.map_eq_nil_iff] at hnames
  intro hopen
  have hlisted := (hmem child).2 ⟨hchild, hopen⟩
  rw [hnames] at hlisted
  cases hlisted

/-- On every model that changes have made, advice to strengthen the assumptions of a component says that every
subcomponent satisfies its contract. In the last analysis of a subcomponent nothing that counts is falsified or
undecided then; a subcomponent satisfies its contract exactly if it was analyzed at all and nothing that counts is
falsified in the analysis that checked its modes. -/
theorem subcomponents_evidence (changes : List Change) (settings : DisplaySettings) :
    let m := ofChanges changes
    ∀ c ∈ m.components, ∀ s ∈ m.freeze.advise settings, s.component = c.name →
      s.kind = .makeAssumptionStrongerOrFixDefinition →
      s!"Every subcomponent of {settings.name c.name} satisfies its contract." ∈ s.explanations ∧
        ∀ child ∈ m.childrenOf c.id, ¬m.Implicated child ∧
          (m.Satisfied child ↔ m.analysesBy child ≠ [] ∧ ¬m.ModesOpen child) := by
  intro m c hc s hs hname hkind
  have h : m.WellFormed := wellFormed_ofChanges changes
  obtain ⟨last, f, -, hfound, rfl⟩ := h.exists_found hc hs hname (by rw [hkind]; decide)
  cases hfound with
  | own _ _ hnone =>
    refine ⟨.tail _ (List.mem_cons_self ..), fun child hchild => ?_⟩
    have hclosed := h.not_implicated hnone hchild
    exact ⟨hclosed, by rw [satisfied_iff]; simp [hclosed]⟩
  | _ => cases hkind

/-- A component that fails on its own, and a subcomponent that was analyzed and holds. -/
def soundSubcomponent : List Change :=
  [.addChild "Top" "Sub",
    .addAnalysis "Sub" {},
    .addProperty ⟨0⟩ { name := "f", scope := "Sub", origin := .guarantee, answer := .valid },
    .addAnalysis "Top" {},
    .addProperty ⟨1⟩ { name := "g", scope := "Top", origin := .guarantee, answer := .falsifiable }]

theorem subcomponents_evidence_sound :
    let m := ofChanges soundSubcomponent
    ∃ c ∈ m.components, ∃ s ∈ m.freeze.advise {}, s.component = c.name ∧
      s.kind = .makeAssumptionStrongerOrFixDefinition ∧ ∃ child ∈ m.childrenOf c.id, m.Satisfied child := by
  intro m
  have h : m.WellFormed := wellFormed_ofChanges soundSubcomponent
  obtain ⟨c, hc, s, hs, hid, hon, hkind⟩ : ∃ c ∈ m.components, ∃ s ∈ m.freeze.advise {}, c.id = ⟨0⟩ ∧
      s.component = c.name ∧ s.kind = .makeAssumptionStrongerOrFixDefinition := by
    decide +kernel
  have hchild : (⟨1⟩ : ComponentId) ∈ m.childrenOf ⟨0⟩ := by decide +kernel
  have hanalyzed : m.analysesBy ⟨1⟩ ≠ [] := by decide +kernel
  have hunchecked : m.modeAnalysis? ⟨1⟩ = none := by decide +kernel
  rw [← hid] at hchild
  refine ⟨c, hc, s, hs, hon, hkind, ⟨1⟩, hchild, ?_⟩
  obtain ⟨-, hsatisfied⟩ := (subcomponents_evidence soundSubcomponent {} c hc s hs hon hkind).2 _ hchild
  refine hsatisfied.2 ⟨hanalyzed, ?_⟩
  rintro ⟨modes, p, hmodes, -⟩
  rw [h.modeAnalysis?_eq_some.2 hmodes] at hunchecked
  cases hunchecked

/-- A component that fails on its own, a subcomponent that was never analyzed, and one whose modes leave a gap. -/
def unsoundSubcomponents : List Change :=
  [.addChild "Top" "Never",
    .addChild "Top" "Modal",
    .addAnalysis "Modal" {},
    .addProperty ⟨0⟩ { name := "modes", scope := "Modal", origin := .oneModeActive, answer := .falsifiable },
    .addAnalysis "Modal" {},
    .addAnalysis "Top" {},
    .addProperty ⟨2⟩ { name := "g", scope := "Top", origin := .guarantee, answer := .falsifiable }]

/-- Subcomponents are said to satisfy their contracts of which one was never analyzed and the other has modes that
leave a gap. -/
theorem subcomponents_misreported :
    let m := ofChanges unsoundSubcomponents
    ∃ c ∈ m.components, ∃ s ∈ m.freeze.advise {}, s.component = c.name ∧
      s.kind = .makeAssumptionStrongerOrFixDefinition ∧
      "Every subcomponent of [Top] satisfies its contract." ∈ s.explanations ∧
      (∃ child ∈ m.childrenOf c.id, m.Named child "Never" ∧ ¬m.Satisfied child) ∧
      ∃ child ∈ m.childrenOf c.id, m.Named child "Modal" ∧ ¬m.Satisfied child := by
  intro m
  have h : m.WellFormed := wellFormed_ofChanges unsoundSubcomponents
  obtain ⟨c, hc, s, hs, hid, hon, hkind, htext⟩ : ∃ c ∈ m.components, ∃ s ∈ m.freeze.advise {}, c.id = ⟨0⟩ ∧
      s.component = c.name ∧ s.kind = .makeAssumptionStrongerOrFixDefinition ∧
      "Every subcomponent of [Top] satisfies its contract." ∈ s.explanations := by
    decide +kernel
  have hchildren : m.childrenOf ⟨0⟩ = [⟨1⟩, ⟨2⟩] := by decide +kernel
  have hnames : m.names = ["Top", "Never", "Modal"] := by decide +kernel
  have hnever : m.analysesBy ⟨1⟩ = [] := by decide +kernel
  obtain ⟨modes, hmodes, p, hp, hanswer⟩ : ∃ modes ∈ m.modeAnalysis? ⟨2⟩, ∃ p ∈ modes.authoritative,
      p.answer = .falsifiable := by decide +kernel
  rw [← hid] at hchildren
  have hfirst : (⟨1⟩ : ComponentId) ∈ m.childrenOf c.id := by simp [hchildren]
  have hsecond : (⟨2⟩ : ComponentId) ∈ m.childrenOf c.id := by simp [hchildren]
  refine ⟨c, hc, s, hs, hon, hkind, htext, ⟨⟨1⟩, hfirst, ?_, ?_⟩, ⟨2⟩, hsecond, ?_, ?_⟩
  · rw [Named, hnames]
    rfl
  · exact fun hsatisfied => (satisfied_iff.1 hsatisfied).1 hnever
  · rw [Named, hnames]
    rfl
  · have hchecked := h.modeAnalysis?_eq_some.1 hmodes
    obtain ⟨i, hcounts⟩ := (h.tidy hchecked.mem.1).mem_authoritative.1 hp
    exact fun hsatisfied => (satisfied_iff.1 hsatisfied).2.2 ⟨modes, p, hchecked, i, hcounts, hanswer⟩

end Model

end Verdicts
