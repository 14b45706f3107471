/-
What advice says about the modes of a component. Main statement: advice that no action is required calls the modes
exhaustive exactly where an analysis checked them, and it is right exactly where each of the checks there came to a
verdict; and advice to fix the modes is about all properties that are falsified in that analysis, with a line of
evidence for each, and it is right exactly where all of these are checks of the modes. Neither need be so
(`modes_misreported`).
-/
import Verdicts.Proofs.Advice.Found
import Verdicts.Proofs.Advice.Wording

namespace Verdicts

namespace Analysis

/-- Every check of the modes that counts found them exhaustive. -/
def ModesExhaustive (a : Analysis) : Prop :=
  ∀ i p, a.Counts i p → p.origin = .oneModeActive → p.answer = .valid

/-- Every check of the modes that counts came to a verdict. -/
def ModesDecided (a : Analysis) : Prop :=
  ∀ i p, a.Counts i p → p.origin = .oneModeActive → p.answer = .valid ∨ p.answer = .falsifiable

/-- A check of the modes that has the name and counts found a state that they leave uncovered. -/
def LeavesGap (a : Analysis) (name : String) : Prop :=
  ∃ p, a.Answers .falsifiable p ∧ p.origin = .oneModeActive ∧ p.displayName = name

/-- Of the attempts at one name, one counts. -/
theorem Counts.unique {a : Analysis} {i j : Nat} {p q : Property} (hp : a.Counts i p) (hq : a.Counts j q)
    (hname : p.displayName = q.displayName) : p = q := by
  rcases Nat.lt_trichotomy i j with hlt | rfl | hlt
  · exact absurd hname.symm (hp.2 j q hlt hq.1)
  · exact Option.some.inj (hp.1.symm.trans hq.1)
  · exact absurd hname (hq.2 i p hlt hp.1)

theorem modesExhaustive_iff {a : Analysis} (h : ¬∃ p, a.Answers .falsifiable p) :
    a.ModesExhaustive ↔ a.ModesDecided := by
  refine forall₂_congr fun i p => forall₂_congr fun hp _ => ⟨.inl, fun hdecided => ?_⟩
  exact hdecided.resolve_right fun hfalsified => h ⟨p, i, hp, hfalsified⟩

end Analysis

namespace Model

theorem WellFormed.mem_falsified_names {m : Model} (h : m.WellFormed) {id : ComponentId} {a : Analysis}
    (ha : m.IsModes id a) (name : String) :
    name ∈ a.falsified.map (·.displayName) ↔ ∃ p, a.Answers .falsifiable p ∧ p.displayName = name := by
  simp only [List.mem_map, Analysis.falsified, (h.tidy ha.mem.1).mem_withAnswer]

/-- The one line of evidence is not the other. -/
theorem exhaustive_ne_valid (n : String) :
    s!"The modes of {n} are exhaustive." ≠ s!"All properties of {n} are valid." := by
  intro heq
  have hfirst := congrArg (fun text => text.toList.head?) heq
  simp [toString] at hfirst

theorem exhaustive_mem_explanations (settings : DisplaySettings) (name : String) (modesChecked : Bool) :
    s!"The modes of {settings.name name} are exhaustive." ∈
        ((Finding.noAction modesChecked).suggest settings name).explanations ↔
      modesChecked = true := by
  cases modesChecked with
  | false => simp [Finding.suggest, Finding.explanations, exhaustive_ne_valid]
  | true => simp [Finding.suggest, Finding.explanations]

theorem WellFormed.evidence_of_noAction {m : Model} (h : m.WellFormed) (settings : DisplaySettings)
    {id : ComponentId} {last : Analysis} {f : Finding} (hfound : Found m id last f)
    (hkind : f.kind = .noActionRequired) (name : String) :
    (s!"The modes of {settings.name name} are exhaustive." ∈ (f.suggest settings name).explanations ↔
        ∃ a, m.IsModes id a) ∧
      ∀ a, m.IsModes id a → (¬∃ p, a.Answers .falsifiable p) ∧ (a.ModesExhaustive ↔ a.ModesDecided) := by
  cases hfound with
  | once _ _ hone =>
    -- an analysis that checked the modes is followed by another one
    have hnone : ¬∃ a, m.IsModes id a := by
      rintro ⟨a, ⟨earlier, last', hby⟩, -⟩
      simp [hby] at hone
    have hunsaid : false = true ↔ ∃ a, m.IsModes id a := by simp [hnone]
    exact ⟨(exhaustive_mem_explanations ..).trans hunsaid, fun a ha => absurd ⟨a, ha⟩ hnone⟩
  | twice _ _ _ hclosed =>
    have hmodes : (m.modeAnalysis? id).isSome ↔ ∃ a, m.IsModes id a := by
      simp only [Option.isSome_iff_exists, h.modeAnalysis?_eq_some]
    refine ⟨(exhaustive_mem_explanations ..).trans hmodes, fun a ha => ?_⟩
    have hholds : ¬∃ p, a.Answers .falsifiable p := by
      rintro ⟨p, hp⟩
      exact hclosed ⟨a, p, ha, hp⟩
    exact ⟨hholds, Analysis.modesExhaustive_iff hholds⟩
  | _ => cases hkind

theorem WellFormed.subjects_of_fixModes {m : Model} (h : m.WellFormed) {id : ComponentId} {last : Analysis}
    {f : Finding} (hfound : Found m id last f) (hkind : f.kind = .fixOneModeActive) :
    ∃ a, m.IsModes id a ∧ (∀ name, name ∈ f.subjects ↔ ∃ p, a.Answers .falsifiable p ∧ p.displayName = name) ∧
      ((∀ name ∈ f.subjects, a.LeavesGap name) ↔ ∀ p, a.Answers .falsifiable p → p.origin = .oneModeActive) ∧
      ∃ ps : List Property, f.subjects = ps.map (·.displayName) ∧ (∀ p ∈ ps, a.Answers .falsifiable p) ∧
        ∀ settings n, f.explanations settings n =
          ps.map fun p => gapLine n (settings.name p.displayName) p.trace := by
  cases hfound with
  | @modes a _ ha _ =>
    have hmem := h.mem_falsified_names ha
    refine ⟨a, ha, hmem, ⟨fun hall p hp => ?_, fun hall name hname => ?_⟩, a.falsified, rfl,
      fun p hp => (h.tidy ha.mem.1).mem_withAnswer.1 hp,
      fun settings n => List.map_congr_left fun p _ => Evidence.modeGap_eq settings n p⟩
    · -- the property that leaves a gap under the name of `p` is `p` itself
      obtain ⟨q, ⟨j, hq, -⟩, horigin, hdisplay⟩ := hall p.displayName ((hmem _).2 ⟨p, hp, rfl⟩)
      obtain ⟨i, hp, -⟩ := hp
      rw [hp.unique hq hdisplay.symm]
      exact horigin
    · obtain ⟨p, hp, hdisplay⟩ := (hmem name).1 hname
      exact ⟨p, hp, hall p hp, hdisplay⟩
  | _ => cases hkind

/-- On every model that changes have made: where no action is required on a component, its modes are called
exhaustive exactly if an analysis checked them, nothing is falsified in that analysis, and every check of the modes
that counts there is valid exactly if every one of them came to a verdict. Where the modes of a component are to be
fixed, an analysis checked them, the subjects are the properties that count and are falsified there, and each of
them is a check of the modes exactly if nothing else is falsified there; the evidence has the line of a gap for each
of them, in their order. -/
theorem modes_evidence (changes : List Change) (settings : DisplaySettings) :
    let m := ofChanges changes
    ∀ c ∈ m.components, ∀ s ∈ m.freeze.advise settings, s.component = c.name →
      (s.kind = .noActionRequired →
        (s!"The modes of {settings.name c.name} are exhaustive." ∈ s.explanations ↔ ∃ a, m.IsModes c.id a) ∧
        ∀ a, m.IsModes c.id a →
          (¬∃ p, a.Answers .falsifiable p) ∧ (a.ModesExhaustive ↔ a.ModesDecided)) ∧
      (s.kind = .fixOneModeActive →
        ∃ a, m.IsModes c.id a ∧
          (∀ name, name ∈ s.subjects ↔ ∃ p, a.Answers .falsifiable p ∧ p.displayName = name) ∧
          ((∀ name ∈ s.subjects, a.LeavesGap name) ↔
            ∀ p, a.Answers .falsifiable p → p.origin = .oneModeActive) ∧
          ∃ ps : List Property, s.subjects = ps.map (·.displayName) ∧ (∀ p ∈ ps, a.Answers .falsifiable p) ∧
            s.explanations = ps.map fun p => gapLine (settings.name c.name) (settings.name p.displayName) p.trace) := by
  intro m c hc s hs hname
  have h : m.WellFormed := wellFormed_ofChanges changes
  constructor
  · intro hkind
    obtain ⟨last, f, -, hfound, rfl⟩ := h.exists_found hc hs hname (by rw [hkind]; decide)
    exact h.evidence_of_noAction settings hfound hkind c.name
  · intro hkind
    obtain ⟨last, f, -, hfound, rfl⟩ := h.exists_found hc hs hname (by rw [hkind]; decide)
    obtain ⟨a, ha, hmem, hgaps, ps, hsubjects, hps, hlines⟩ := h.subjects_of_fixModes hfound hkind
    exact ⟨a, ha, hmem, hgaps, ps, hsubjects, hps, hlines settings _⟩

/-- Two components whose modes are checked before the last analysis: those of the one are exhaustive, those of the
other are not. -/
def checkedModes : List Change :=
  [.addAnalysis "A" {},
    .addProperty ⟨0⟩ { name := "modes", scope := "A", origin := .oneModeActive, answer := .valid },
    .addAnalysis "A" {},
    .addAnalysis "B" {},
    .addProperty ⟨2⟩ { name := "modes", scope := "B", origin := .oneModeActive, answer := .falsifiable },
    .addAnalysis "B" {}]

theorem modes_evidence_checked :
    let m := ofChanges checkedModes
    (∃ c ∈ m.components, ∃ s ∈ m.freeze.advise {}, s.component = c.name ∧ s.kind = .noActionRequired ∧
      (∃ a, m.IsModes c.id a) ∧ ∀ a, m.IsModes c.id a → (a.ModesExhaustive ↔ a.ModesDecided)) ∧
    ∃ c ∈ m.components, ∃ s ∈ m.freeze.advise {}, s.component = c.name ∧ s.kind = .fixOneModeActive ∧
      s.subjects = ["modes"] ∧
      ∃ a, m.IsModes c.id a ∧ ∃ p, a.Answers .falsifiable p ∧ p.displayName = "modes" := by
  intro m
  have h : m.WellFormed := wellFormed_ofChanges checkedModes
  constructor
  · obtain ⟨c, hc, s, hs, hon, hkind, hchecked⟩ : ∃ c ∈ m.components, ∃ s ∈ m.freeze.advise {},
        s.component = c.name ∧ s.kind = .noActionRequired ∧ (m.modeAnalysis? c.id).isSome := by decide +kernel
    obtain ⟨a, ha⟩ := Option.isSome_iff_exists.1 hchecked
    have hright := ((modes_evidence checkedModes {} c hc s hs hon).1 hkind).2
    exact ⟨c, hc, s, hs, hon, hkind, ⟨a, h.modeAnalysis?_eq_some.1 ha⟩, fun a ha => (hright a ha).2⟩
  · obtain ⟨c, hc, s, hs, hon, hkind, hsubjects⟩ : ∃ c ∈ m.components, ∃ s ∈ m.freeze.advise {},
        s.component = c.name ∧ s.kind = .fixOneModeActive ∧ s.subjects = ["modes"] := by decide +kernel
    obtain ⟨a, ha, hmem, -⟩ := (modes_evidence checkedModes {} c hc s hs hon).2 hkind
    exact ⟨c, hc, s, hs, hon, hkind, hsubjects, a, ha, (hmem "modes").1 (by simp [hsubjects])⟩

/-- Two components whose modes are checked before the last analysis: whether those of the one are exhaustive is
undecided; those of the other are, but another property is falsified beside them. -/
def misreportedModes : List Change :=
  [.addAnalysis "A" {},
    .addProperty ⟨0⟩ { name := "modes", scope := "A", origin := .oneModeActive, answer := .unknown },
    .addAnalysis "A" {},
    .addProperty ⟨1⟩ { name := "g", scope := "A", origin := .guarantee, answer := .valid },
    .addAnalysis "B" {},
    .addProperty ⟨2⟩ { name := "modes", scope := "B", origin := .oneModeActive, answer := .valid },
    .addProperty ⟨2⟩ { name := "h", scope := "B", origin := .guarantee, answer := .falsifiable },
    .addAnalysis "B" {},
    .addProperty ⟨3⟩ { name := "h", scope := "B", origin := .guarantee, answer := .valid }]

/-- Modes are called exhaustive where that is undecided, and a property that does not check them is said to leave a
gap in them. -/
theorem modes_misreported :
    let m := ofChanges misreportedModes
    (∃ c ∈ m.components, ∃ s ∈ m.freeze.advise {}, s.component = c.name ∧ c.name = "A" ∧
      s.kind = .noActionRequired ∧ "The modes of [A] are exhaustive." ∈ s.explanations ∧
      ¬∃ a, m.IsModes c.id a ∧ a.ModesExhaustive) ∧
    ∃ c ∈ m.components, ∃ s ∈ m.freeze.advise {}, s.component = c.name ∧ c.name = "B" ∧
      s.kind = .fixOneModeActive ∧ "h" ∈ s.subjects ∧ ¬∃ a, m.IsModes c.id a ∧ a.LeavesGap "h" := by
  intro m
  have h : m.WellFormed := wellFormed_ofChanges misreportedModes
  constructor
  · obtain ⟨c, hc, s, hs, hid, hadvice⟩ : ∃ c ∈ m.components, ∃ s ∈ m.freeze.advise {}, c.id = ⟨0⟩ ∧
        s.component = c.name ∧ c.name = "A" ∧ s.kind = .noActionRequired ∧
        "The modes of [A] are exhaustive." ∈ s.explanations := by decide +kernel
    have hopen : ∀ a ∈ m.modeAnalysis? ⟨0⟩, ∃ p ∈ a.authoritative, p.origin = .oneModeActive ∧
        p.answer = .unknown := by decide +kernel
    refine ⟨c, hc, s, hs, hadvice.1, hadvice.2.1, hadvice.2.2.1, hadvice.2.2.2, ?_⟩
    rintro ⟨a, ha, hexhaustive⟩
    rw [hid] at ha
    obtain ⟨p, hp, horigin, hanswer⟩ := hopen a (h.modeAnalysis?_eq_some.2 ha)
    obtain ⟨i, hcounts⟩ := (h.tidy ha.mem.1).mem_authoritative.1 hp
    rw [hexhaustive i p hcounts horigin] at hanswer
    cases hanswer
  · obtain ⟨c, hc, s, hs, hid, hadvice⟩ : ∃ c ∈ m.components, ∃ s ∈ m.freeze.advise {}, c.id = ⟨1⟩ ∧
        s.component = c.name ∧ c.name = "B" ∧ s.kind = .fixOneModeActive ∧ "h" ∈ s.subjects := by
      decide +kernel
    have hother : ∀ a ∈ m.modeAnalysis? ⟨1⟩, ∀ p ∈ a.authoritative, p.origin = .oneModeActive →
        p.displayName ≠ "h" := by decide +kernel
    refine ⟨c, hc, s, hs, hadvice.1, hadvice.2.1, hadvice.2.2.1, hadvice.2.2.2, ?_⟩
    rintro ⟨a, ha, p, ⟨i, hcounts, -⟩, horigin, hdisplay⟩
    rw [hid] at ha
    have hp := (h.tidy ha.mem.1).mem_authoritative.2 ⟨i, hcounts⟩
    exact hother a (h.modeAnalysis?_eq_some.2 ha) p hp horigin hdisplay

end Model

end Verdicts
