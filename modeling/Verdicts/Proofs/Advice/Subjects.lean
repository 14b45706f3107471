/-
What suggestions are about. A suggestion names properties, the components that declare them, subcomponents that were
refined or subcomponents with something open. Main statement: whichever of these it names, it names none twice
(`subjects_nodup`).
-/
import Verdicts.Proofs.Advice.Failures
import Verdicts.Proofs.Advice.Refinement

namespace Verdicts

namespace Model

/-- The components that a component calls and in which something is open have different names. -/
theorem WellFormed.nodup_unresolvedChildren {m : Model} (h : m.WellFormed) (hlinked : m.Linked) (id : ComponentId) :
    ((m.unresolvedChildren id).map (·.1)).Nodup := by
  obtain ⟨implicated, hsub, -, hnames⟩ := h.unresolvedChildren_names id
  rw [hnames]
  have hhandles : ∀ d ∈ implicated, d ∈ m.handles := fun d hd => h.childrenOf_subset id (hsub.subset hd)
  have hnodup : implicated.Nodup := (hlinked.children id).sublist hsub
  exact hnodup.map_on fun d hd e he heq => h.nameOf_inj (hhandles d hd) (hhandles e he) heq

/-- Each kind of finding has its own reason: one property counts for each name, groups are of different scopes, names
are entered once, and a call is recorded once. -/
theorem Found.nodup_subjects {m : Model} (h : m.WellFormed) (hlinked : m.Linked) {id : ComponentId}
    {last : Analysis} {f : Finding} (hlast : m.IsLast id last) (hfound : Found m id last f) : f.subjects.Nodup := by
  cases hfound with
  | once _ _ _ => exact List.nodup_nil
  | twice _ _ _ _ => exact List.nodup_nil
  | modes _ hmodes _ => exact (h.tidy hmodes.mem.1).nodup_names_withAnswer .falsifiable
  | refined _ _ _ _ => exact refinedNames_nodup _ _
  | assumed _ _ => exact (splits_groupByScope _).distinct
  | mixed _ _ => exact (splits_groupByScope _).distinct
  | own _ _ _ => exact (h.tidy hlast.mem.1).nodup_names_withAnswer .falsifiable
  | children _ _ _ => exact h.nodup_unresolvedChildren hlinked id

theorem WellFormed.nodup_undecided {m : Model} (h : m.WellFormed) {id : ComponentId} {last : Analysis}
    (hlast : m.IsLast id last) : (Finding.increaseTimeout last.undecided).subjects.Nodup := by
  rw [Finding.subjects, Analysis.undecided, List.map_map]
  exact (h.tidy hlast.mem.1).nodup_names_withAnswer .unknown

/-- On every model that changes have made, no suggestion names a subject twice. -/
theorem subjects_nodup (changes : List Change) (settings : DisplaySettings) :
    ∀ s ∈ (ofChanges changes).freeze.advise settings, s.subjects.Nodup := by
  intro s hs
  have h : (ofChanges changes).WellFormed := wellFormed_ofChanges changes
  obtain ⟨c, hc, hname⟩ := List.mem_map.1 (h.component_of_mem_advise hs)
  obtain ⟨last, hlast, ⟨f, hfound, rfl⟩ | rfl⟩ := h.advice_cases hc hs hname.symm
  · exact hfound.nodup_subjects h (linked_ofChanges changes) hlast
  · exact h.nodup_undecided hlast

/-- Four analyses, in which one subcomponent becomes concrete twice. -/
def repeatedRefinement : List Change :=
  [.addAnalysis "Top" { abstracted := ["Sub"] },
    .addAnalysis "Top" { concrete := ["Sub"] },
    .addAnalysis "Top" { abstracted := ["Sub"] },
    .addAnalysis "Top" { concrete := ["Sub"] }]

theorem subjects_nodup_repeated :
    ∃ s ∈ (ofChanges repeatedRefinement).freeze.advise {}, s.subjects = ["Sub"] ∧ s.subjects.Nodup := by
  obtain ⟨s, hs, hsubjects⟩ : ∃ s ∈ (ofChanges repeatedRefinement).freeze.advise {}, s.subjects = ["Sub"] := by
    decide +kernel
  exact ⟨s, hs, hsubjects, subjects_nodup repeatedRefinement {} s hs⟩

end Model

end Verdicts
