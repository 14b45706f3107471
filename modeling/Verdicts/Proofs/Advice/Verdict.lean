/-
When a run has failed. The report counts falsified properties component by component, the projections find them
along the call graph, and the advice asks to put them right. Main statement: on every model the three agree. As
many properties are counted as the projections of all components find together, some are counted exactly if there is
advice of a kind that asks for a repair, and exactly then a report fails.

Behind all three stands `Falsified`: a component has a falsified property in an analysis that is looked at.
-/
import Verdicts.Proofs.Advice.Table
import Verdicts.Proofs.Result.Projection
import Verdicts.Task.Replay
import Mathlib.Data.List.Dedup

namespace Verdicts

/-- The kinds of advice that ask for something falsified to be put right. -/
def AdviceKind.repairs : List AdviceKind :=
  [fixOneModeActive, completeSpecificationOrRemoveSubNodes, makeWeakerOrFixDefinition,
    makeAssumptionStrongerOrFixDefinition, fixSubComponentIssues]

/-- Advice is that of a row whose condition holds. -/
theorem FirstMatch.of_some {rows : List Row} {advice : Option AdviceKind} (h : FirstMatch rows advice)
    {kind : AdviceKind} (hsome : advice = some kind) :
    ∃ row ∈ rows, row.condition ∧ row.advice = kind := by
  induction h with
  | bottom => cases hsome
  | @hit row rest hrow =>
    cases hsome
    exact ⟨row, List.mem_cons_self .., hrow, rfl⟩
  | skip _ _ ih =>
    obtain ⟨row, hmem, hrow⟩ := ih hsome
    exact ⟨row, List.mem_cons_of_mem _ hmem, hrow⟩

namespace Model

/-- In the last analysis of a component, or in the one that checked its modes, some property is falsified. -/
def Falsified (m : Model) (id : ComponentId) : Prop :=
  ∃ a p, m.IsRelevant id .falsifiable a ∧ a.Answers .falsifiable p

/-! ## The count -/

theorem WellFormed.exists_ownRefs {m : Model} (h : m.WellFormed) (id : ComponentId) :
    (∃ ref, ref ∈ m.ownRefs .falsifiable id) ↔ m.Falsified id := by
  simp only [h.mem_ownRefs]
  constructor
  · rintro ⟨ref, a, p, ha, -, hp, hanswer⟩
    exact ⟨a, p, ha, ref.position, hp, hanswer⟩
  · rintro ⟨a, p, ha, position, hp, hanswer⟩
    exact ⟨⟨a.id, position⟩, a, p, ha, rfl, hp, hanswer⟩

/-- The report counts the places of each component. -/
theorem WellFormed.falsifiedCount_eq {m : Model} (h : m.WellFormed) :
    m.freeze.falsifiedCount = (m.handles.flatMap (m.ownRefs .falsifiable)).length := by
  rw [List.length_flatMap, handles, List.map_map]
  refine congrArg List.sum (List.map_congr_left fun c _ => ?_)
  rw [Function.comp_apply, h.length_ownRefs, relevantAnalyses, if_pos rfl, List.flatMap_append,
    List.length_append, Nat.add_comm]
  simp only [freeze]
  cases m.modeAnalysis? c.id <;> cases m.lastAnalysis? c.id <;> simp [Analysis.falsified]

theorem WellFormed.falsifiedCount_pos {m : Model} (h : m.WellFormed) :
    0 < m.freeze.falsifiedCount ↔ ∃ id ∈ m.handles, m.Falsified id := by
  rw [h.falsifiedCount_eq, List.length_pos_iff_exists_mem]
  simp only [List.mem_flatMap, ← h.exists_ownRefs]
  constructor
  · rintro ⟨ref, id, hid, href⟩
    exact ⟨id, hid, ref, href⟩
  · rintro ⟨id, hid, ref, href⟩
    exact ⟨ref, id, hid, href⟩

/-- The places of each component are those that the projections find, each of them once. -/
theorem WellFormed.ownRefs_perm {m : Model} (h : m.WellFormed) (answer : Answer) :
    (m.handles.flatMap (m.ownRefs answer)).Perm
      (m.handles.flatMap (m.refsWithAnswer · answer)).dedup := by
  have hnodup : (m.handles.flatMap (m.ownRefs answer)).Nodup := by
    rw [List.nodup_flatMap]
    exact ⟨fun id _ => h.ownRefs_nodup answer id, h.handles_nodup.imp fun hne => h.ownRefs_disjoint hne⟩
  refine (List.perm_ext_iff_of_nodup hnodup (List.nodup_dedup _)).2 fun ref => ?_
  rw [List.mem_dedup, List.mem_flatMap, List.mem_flatMap]
  constructor
  · rintro ⟨id, hid, href⟩
    exact ⟨id, hid, h.ownRefs_subset id answer href⟩
  · rintro ⟨id, -, href⟩
    -- what is found for one component belongs to another that it reaches, which owns an analysis
    obtain ⟨d, -, href⟩ := h.mem_refsWithAnswer.1 href
    obtain ⟨a, -, ha, -⟩ := h.mem_ownRefs.1 href
    exact ⟨d, ha.mem.2 ▸ h.owner_mem_handles ha.mem.1, href⟩

/-! ## The advice -/

/-- A component whose modes were checked was analyzed twice. -/
theorem ModesOpen.two_le {m : Model} {id : ComponentId} (h : m.ModesOpen id) :
    2 ≤ (m.analysesBy id).length := by
  obtain ⟨a, p, ⟨⟨earlier, last, hby⟩, -⟩, -⟩ := h
  simp [hby]

/-- The first finding about a component asks for a repair exactly if a property of the component is
falsified. -/
theorem WellFormed.primaryFinding?_repairs {m : Model} (h : m.WellFormed) {id : ComponentId}
    {last : Analysis} (hlast : m.IsLast id last) :
    (∃ f, m.primaryFinding? id last = some f ∧ f.kind ∈ AdviceKind.repairs) ↔ m.Falsified id := by
  have hempty := (h.tidy hlast.mem.1).isEmpty_withAnswer .falsifiable
  rw [primaryFinding?]
  split
  · rename_i hnone
    have hholds := hempty.1 hnone
    have hmatch := h.successFinding?_firstMatch hlast hholds
    constructor
    · rintro ⟨f, hf, hkind⟩
      rw [hf, Option.map_some] at hmatch
      obtain ⟨row, hrow, hcondition, hadvice⟩ := hmatch.of_some rfl
      rw [← hadvice] at hkind
      -- of these rows one alone asks for a repair
      simp only [successRows, List.mem_cons, List.not_mem_nil, or_false] at hrow
      rcases hrow with rfl | rfl | rfl | rfl
      · exact absurd hkind (by simp [AdviceKind.repairs])
      · obtain ⟨-, -, a, p, ha, hp⟩ := hcondition
        exact ⟨a, p, .inr ⟨rfl, ha⟩, hp⟩
      · exact absurd hkind (by simp [AdviceKind.repairs])
      · exact absurd hkind (by simp [AdviceKind.repairs])
    · rintro ⟨a, p, ha, hp⟩
      have hmodes : m.ModesOpen id := by
        rcases ha with ha | ⟨-, ha⟩
        · exact absurd ⟨p, hlast.unique ha ▸ hp⟩ hholds
        · exact ⟨a, p, ha, hp⟩
      have hfix : FirstMatch (m.successRows id last) (some .fixOneModeActive) := by
        refine .skip (fun hfirst => ?_) (.hit ⟨hholds, hmodes.two_le, hmodes⟩)
        have hone := hfirst.2.1
        have htwo := hmodes.two_le
        omega
      obtain ⟨f, hf, hkind⟩ := Option.map_eq_some_iff.1 (hmatch.unique hfix)
      exact ⟨f, hf, hkind ▸ by decide⟩
  · rename_i hsome
    have hfails := not_not.1 (mt hempty.2 hsome)
    obtain ⟨row, hrow, -, hadvice⟩ := (h.failureFinding_firstMatch hlast hfails).of_some rfl
    obtain ⟨p, hp⟩ := hfails
    refine iff_of_true ⟨_, rfl, ?_⟩ ⟨last, p, .inl hlast, hp⟩
    rw [← hadvice]
    simp only [failureRows, List.mem_cons, List.not_mem_nil, or_false] at hrow
    rcases hrow with rfl | rfl | rfl | rfl
    all_goals simp [AdviceKind.repairs]

theorem WellFormed.adviseOn_repairs {m : Model} (h : m.WellFormed) (settings : DisplaySettings)
    (id : ComponentId) :
    (∃ s ∈ m.adviseOn settings id, s.kind ∈ AdviceKind.repairs) ↔ m.Falsified id := by
  rcases List.eq_nil_or_concat' (m.analysesBy id) with hnever | ⟨earlier, last, hby⟩
  · rw [h.adviseOn_of_never settings hnever]
    constructor
    · rintro ⟨s, hs, -⟩
      cases hs
    · rintro ⟨a, p, ha, -⟩
      have hmem := mem_analysesBy.2 ha.mem
      rw [hnever] at hmem
      cases hmem
  · have hlast : m.IsLast id last := ⟨earlier, hby⟩
    rw [h.adviseOn_of_last settings hlast, ← h.primaryFinding?_repairs hlast]
    constructor
    · rintro ⟨s, hs, hkind⟩
      rcases List.mem_append.1 hs with hs | hs
      · obtain ⟨f, hf, rfl⟩ := Option.map_eq_some_iff.1 (Option.mem_toList.1 hs)
        exact ⟨f, hf, hkind⟩
      · rw [kind_of_timeoutAdvice (Option.mem_toList.1 hs)] at hkind
        exact absurd hkind (by decide)
    · rintro ⟨f, hf, hkind⟩
      refine ⟨f.suggest settings (m.nameOf id), List.mem_append_left _ ?_, hkind⟩
      rw [primaryAdvice, hf]
      exact List.mem_singleton_self _

theorem WellFormed.advise_repairs {m : Model} (h : m.WellFormed) (settings : DisplaySettings) :
    (∃ s ∈ m.freeze.advise settings, s.kind ∈ AdviceKind.repairs) ↔ ∃ id ∈ m.handles, m.Falsified id := by
  simp only [← h.adviseOn_repairs settings, ← h.mem_bottomUp]
  constructor
  · rintro ⟨s, hs, hkind⟩
    obtain ⟨id, hid, hs⟩ := List.mem_flatMap.1 hs
    exact ⟨id, hid, s, hs, hkind⟩
  · rintro ⟨id, hid, s, hs, hkind⟩
    exact ⟨s, List.mem_flatMap.2 ⟨id, hid, hs⟩, hkind⟩

/-! ## The report -/

/-- A report fails exactly if something falsified is counted. -/
theorem outcome_failure_iff (r : Report) (format : ReportFormat) (files : Files) :
    (∃ message, (r.outcome format files).ending = .failure message) ↔ 0 < r.frozen.falsifiedCount := by
  rw [Report.outcome, Report.failure?]
  by_cases hnone : r.frozen.falsifiedCount = 0
  · simp [hnone]
  · simp [hnone, Nat.pos_of_ne_zero hnone]

/-- On every model that changes have made, the report counts as many falsified properties as there are places in
the projections of all components together, each place taken once and each of them holding the property that the
projection gives; something is counted exactly if some advice asks for a repair, however names are displayed; and
exactly then a report on the model fails, in either format and whatever else it is about. -/
theorem verdict_agrees (changes : List Change) :
    let m := ofChanges changes
    let f := m.freeze
    f.falsifiedCount = (m.components.flatMap (m.refsWithAnswer ·.id .falsifiable)).dedup.length ∧
      (∀ c ∈ m.components, List.Forall₂ (fun ref p => m.property? ref = some p)
        (m.refsWithAnswer c.id .falsifiable) (f.falsified c.id)) ∧
      (∀ settings, 0 < f.falsifiedCount ↔
        ∃ s ∈ f.advise settings, s.kind ∈ [.fixOneModeActive, .completeSpecificationOrRemoveSubNodes,
          .makeWeakerOrFixDefinition, .makeAssumptionStrongerOrFixDefinition, .fixSubComponentIssues]) ∧
      ∀ transcript settings format files,
        (∃ message, (Report.outcome ⟨f, transcript, settings⟩ format files).ending = .failure message) ↔
          0 < f.falsifiedCount := by
  intro m f
  have h : m.WellFormed := wellFormed_ofChanges changes
  refine ⟨?_, fun c _ => ?_, fun settings => h.falsifiedCount_pos.trans (h.advise_repairs settings).symm,
    fun transcript settings format files => outcome_failure_iff ..⟩
  · have hlength := (h.ownRefs_perm .falsifiable).length_eq
    rw [handles, List.flatMap_map] at hlength
    rw [h.falsifiedCount_eq, handles, List.flatMap_map, hlength, List.flatMap_map]
  · rw [FrozenModel.falsified, h.withAnswer_freeze]
    exact forall₂_filterMap fun ref href => h.exists_property? href

end Model

end Verdicts
