/-
What a first finding about a component rests on. `Found` lists the findings with all that holds where each of them
comes up; main statement: every suggestion that is no advice to allow more time words a finding that was found so
(`WellFormed.exists_found`). What a kind of advice says is then read off one case of the list.
-/
import Verdicts.Proofs.Advice.Table

namespace Verdicts

namespace Model

/-- `Found m id last f`: the finding `f` about a component whose last analysis is `last`, with what it rests on. -/
inductive Found (m : Model) (id : ComponentId) (last : Analysis) : Finding → Prop
  | once : last.falsified = [] → last.unknown = [] → (m.analysesBy id).length = 1 →
      Found m id last (.noAction false)
  | twice : last.falsified = [] → last.unknown = [] → (m.analysesBy id).length = 2 → ¬m.ModesOpen id →
      Found m id last (.noAction (m.modeAnalysis? id).isSome)
  | modes {a : Analysis} : last.falsified = [] → m.IsModes id a → a.falsified ≠ [] →
      Found m id last (.fixModes a.falsified)
  | refined : last.falsified = [] → last.unknown = [] → 3 ≤ (m.analysesBy id).length → ¬m.ModesOpen id →
      Found m id last (.strengthenContract (refinedNames m.nameOf (m.analysesBy id)))
  | assumed : last.falsified ≠ [] → (∀ p ∈ last.falsified, p.origin = .assumption) →
      Found m id last (.completeSpecification (groupByScope (last.falsified.filter (·.origin = .assumption)))
        (last.ownContractHolds (m.nameOf id)))
  | mixed : (∃ p ∈ last.falsified, p.origin ≠ .assumption) →
      (∃ p ∈ last.falsified, p.origin = .assumption) →
      Found m id last (.weakenAssumptions (groupByScope (last.falsified.filter (·.origin = .assumption)))
        (last.falsified.filter (·.origin ≠ .assumption)))
  | own : last.falsified ≠ [] → (∀ p ∈ last.falsified, p.origin ≠ .assumption) → m.unresolvedChildren id = [] →
      Found m id last (.strengthenAssumptions last.falsified)
  | children : last.falsified ≠ [] → (∀ p ∈ last.falsified, p.origin ≠ .assumption) →
      m.unresolvedChildren id ≠ [] →
      Found m id last (.fixSubComponents last.falsified (m.unresolvedChildren id))

theorem WellFormed.found_success {m : Model} (h : m.WellFormed) {id : ComponentId} {last : Analysis} {f : Finding}
    (hlast : m.IsLast id last) (hholds : last.falsified = []) (hf : m.successFinding? id last = some f) :
    Found m id last f := by
  obtain ⟨earlier, hby⟩ := hlast
  have hcount : 1 ≤ (m.analysesBy id).length := by simp [hby]
  have hclosed := h.isEmpty_modes id
  rw [successFinding?, h.analysesOf_eq] at hf
  split at hf
  · rename_i hone
    split at hf
    · rename_i hunknown
      cases hf
      exact .once hholds (List.isEmpty_iff.1 hunknown) hone
    · cases hf
  · rename_i hmany
    split at hf
    · rename_i hopen
      cases hf
      rcases hmodes : m.modeAnalysis? id with _ | a
      · simp [hmodes] at hopen
      · rw [hmodes] at hopen
        refine .modes hholds (h.modeAnalysis?_eq_some.1 hmodes) ?_
        simpa using hopen
    · rename_i hshut
      have hnot : ¬m.ModesOpen id := hclosed.1 (by simpa using hshut)
      split at hf
      · cases hf
      · rename_i hunknown
        have hdecided : last.unknown = [] := by simpa using hunknown
        split at hf
        · rename_i htwo
          cases hf
          exact .twice hholds hdecided htwo hnot
        · rename_i hmore
          cases hf
          exact .refined hholds hdecided (by omega) hnot

theorem found_failure {m : Model} {id : ComponentId} {last : Analysis} (hfails : last.falsified ≠ []) :
    Found m id last (m.failureFinding id last) := by
  rw [failureFinding]
  split
  · rename_i hown
    refine .assumed hfails fun p hp => ?_
    have hnone := List.filter_eq_nil_iff.1 (List.isEmpty_iff.1 hown) p hp
    simpa using hnone
  · rename_i hown
    have hother : ∃ p ∈ last.falsified, p.origin ≠ .assumption := by
      simpa [List.filter_eq_nil_iff] using hown
    split
    · rename_i hassumed
      exact .mixed hother (by simpa [List.filter_eq_nil_iff] using hassumed)
    · rename_i hassumed
      have hnone : ∀ p ∈ last.falsified, p.origin ≠ .assumption := by
        simpa [List.filter_eq_nil_iff] using hassumed
      split
      · rename_i hnil
        exact .own hfails hnone hnil
      · rename_i hcons
        exact .children hfails hnone hcons

theorem WellFormed.found {m : Model} (h : m.WellFormed) {id : ComponentId} {last : Analysis} {f : Finding}
    (hlast : m.IsLast id last) (hf : m.primaryFinding? id last = some f) : Found m id last f := by
  rw [primaryFinding?] at hf
  split at hf
  · rename_i hholds
    exact h.found_success hlast (List.isEmpty_iff.1 hholds) hf
  · rename_i hfails
    cases hf
    exact found_failure (by simpa using hfails)

/-- Every suggestion on a component words a finding about it, or what is undecided in its last analysis. -/
theorem WellFormed.advice_cases {m : Model} (h : m.WellFormed) {settings : DisplaySettings} {c : Component}
    (hc : c ∈ m.components) {s : Suggestion} (hs : s ∈ m.freeze.advise settings) (hname : s.component = c.name) :
    ∃ last, m.IsLast c.id last ∧ ((∃ f, Found m c.id last f ∧ s = f.suggest settings c.name) ∨
      s = (Finding.increaseTimeout last.undecided).suggest settings c.name) := by
  have hmem : s ∈ m.adviseOn settings c.id := by
    rw [← h.filter_advise settings hc]
    exact List.mem_filter.2 ⟨hs, by simpa using hname⟩
  rcases List.eq_nil_or_concat' (m.analysesBy c.id) with hnever | ⟨earlier, last, hby⟩
  · rw [h.adviseOn_of_never settings hnever] at hmem
    cases hmem
  · have hlast : m.IsLast c.id last := ⟨earlier, hby⟩
    rw [h.adviseOn_of_last settings hlast, List.mem_append, Option.mem_toList, Option.mem_toList] at hmem
    refine ⟨last, hlast, hmem.imp (fun hprimary => ?_) fun htimeout => ?_⟩
    · obtain ⟨f, hf, rfl⟩ := Option.map_eq_some_iff.1 hprimary
      exact ⟨f, h.found hlast hf, by rw [h.nameOf_id hc]⟩
    · rw [timeoutAdvice] at htimeout
      split at htimeout
      · cases htimeout
      · cases htimeout
        rw [h.nameOf_id hc]

/-- Advice on a component words a finding about it. -/
theorem WellFormed.exists_found {m : Model} (h : m.WellFormed) {settings : DisplaySettings} {c : Component}
    (hc : c ∈ m.components) {s : Suggestion} (hs : s ∈ m.freeze.advise settings) (hname : s.component = c.name)
    (hkind : s.kind ≠ .increaseTimeout) :
    ∃ last f, m.IsLast c.id last ∧ Found m c.id last f ∧ s = f.suggest settings c.name := by
  obtain ⟨last, hlast, ⟨f, hf, hs⟩ | hs⟩ := h.advice_cases hc hs hname
  · exact ⟨last, f, hlast, hf, hs⟩
  · exact absurd (hs ▸ rfl) hkind

end Model

end Verdicts
