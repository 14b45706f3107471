/-
Projections in terms of analyses. The places that an analysis gives for a verdict hold its properties with
the verdict; so a projection lists the properties of the analyses that it looks at, and there are as many
places as properties. A frozen model answers as the model from which it was made, whatever handle is asked for.
-/
import Verdicts.Proofs.Result.Closure

namespace Verdicts

namespace Analysis

/-- The places that hold properties with a verdict, looked up, are the properties with the verdict. -/
theorem filterMap_refsWithAnswer (a : Analysis) (answer : Answer) :
    (a.refsWithAnswer answer).filterMap (fun ref => a.property? ref.position) = a.withAnswer answer := by
  rw [refsWithAnswer, withAnswer, authoritative, List.filterMap_map, List.filterMap_filter,
    List.filter_filterMap]
  refine List.filterMap_congr fun position _ => ?_
  rcases h : a.property? position with _ | p
  · simp
  · simp [h, Option.filter]

end Analysis

namespace Model

open Search (Reaches)

/-! ## What the places hold -/

theorem WellFormed.resolve_refsWithAnswer {m : Model} (h : m.WellFormed) {a : Analysis} (ha : a ∈ m.analyses)
    (answer : Answer) : m.resolve (a.refsWithAnswer answer) = a.withAnswer answer := by
  rw [resolve, ← a.filterMap_refsWithAnswer]
  refine List.filterMap_congr fun ref href => ?_
  obtain ⟨position, -, rfl⟩ := List.mem_map.1 href
  rw [property?, h.analysis?_id ha, Option.bind_some]

/-- The places of one component hold the properties of its analyses that are looked at. -/
theorem WellFormed.resolve_ownRefs {m : Model} (h : m.WellFormed) (answer : Answer) (id : ComponentId) :
    m.resolve (m.ownRefs answer id) = (m.relevantAnalyses id answer).flatMap (·.withAnswer answer) := by
  rw [resolve, ownRefs, List.filterMap_flatMap]
  refine List.flatMap_congr fun a ha => ?_
  exact h.resolve_refsWithAnswer (h.mem_relevantAnalyses.1 ha).mem.1 answer

theorem WellFormed.withAnswer_eq {m : Model} (h : m.WellFormed) (id : ComponentId) (answer : Answer) :
    m.withAnswer id answer =
      (m.descendants id).flatMap fun d => (m.relevantAnalyses d answer).flatMap (·.withAnswer answer) := by
  rw [withAnswer, refsWithAnswer, resolve, List.filterMap_flatMap]
  exact List.flatMap_congr fun d _ => h.resolve_ownRefs answer d

/-- A component has what it has itself. -/
theorem WellFormed.ownRefs_subset {m : Model} (h : m.WellFormed) (id : ComponentId) (answer : Answer) :
    m.ownRefs answer id ⊆ m.refsWithAnswer id answer :=
  fun _ href => h.mem_refsWithAnswer.2 ⟨id, .refl, href⟩

/-- There are as many places as properties. -/
theorem WellFormed.length_ownRefs {m : Model} (h : m.WellFormed) (answer : Answer) (id : ComponentId) :
    (m.ownRefs answer id).length = ((m.relevantAnalyses id answer).flatMap (·.withAnswer answer)).length := by
  have hfound := forall₂_filterMap fun ref href => h.exists_property? (h.ownRefs_subset id answer href)
  rw [hfound.length_eq, ← h.resolve_ownRefs, resolve]

/-! ## Frozen models -/

theorem WellFormed.owner_mem_handles {m : Model} (h : m.WellFormed) {a : Analysis} (ha : a ∈ m.analyses) :
    a.owner ∈ m.handles := by
  obtain ⟨k, hk⟩ := List.mem_iff_getElem?.1 ha
  exact h.mem_handles.2 (h.analysis k a hk).owner

/-- A handle that is not in the model has no places. -/
theorem WellFormed.refsWithAnswer_of_not_mem {m : Model} (h : m.WellFormed) {id : ComponentId}
    (hid : id ∉ m.handles) (answer : Answer) : m.refsWithAnswer id answer = [] := by
  refine List.eq_nil_iff_forall_not_mem.2 fun ref href => hid ?_
  obtain ⟨d, hpath, href⟩ := h.mem_refsWithAnswer.1 href
  rcases hpath.cases_head with rfl | ⟨callee, hcall, -⟩
  · obtain ⟨a, -, ha, -⟩ := h.mem_ownRefs.1 href
    exact ha.mem.2 ▸ h.owner_mem_handles ha.mem.1
  · exact h.mem_handles.2 (h.lt_of_call hcall).1

theorem mem_projections {m : Model} {id : ComponentId} {answer : Answer} {refs : List PropertyRef} :
    ((id, answer), refs) ∈ m.freeze.projections ↔ id ∈ m.handles ∧ refs = m.refsWithAnswer id answer := by
  have hall : answer ∈ Answer.all := by cases answer <;> decide
  simp only [freeze, List.mem_flatMap, List.mem_map, Prod.mk.injEq, handles]
  constructor
  · rintro ⟨c, hc, _, -, ⟨rfl, rfl⟩, rfl⟩
    exact ⟨⟨c, hc, rfl⟩, rfl⟩
  · rintro ⟨⟨c, hc, rfl⟩, rfl⟩
    exact ⟨c, hc, answer, hall, ⟨rfl, rfl⟩, rfl⟩

/-- A frozen model answers as the model itself. -/
theorem WellFormed.withAnswer_freeze {m : Model} (h : m.WellFormed) (id : ComponentId) (answer : Answer) :
    m.freeze.withAnswer id answer = m.withAnswer id answer := by
  rw [FrozenModel.withAnswer]
  split
  · rename_i refs hrefs
    obtain ⟨front, back, heq, -⟩ := List.lookup_eq_some_iff.1 hrefs
    have hmem : ((id, answer), refs) ∈ m.freeze.projections := by
      rw [heq]
      exact List.mem_append_right _ (List.mem_cons_self ..)
    obtain ⟨-, rfl⟩ := mem_projections.1 hmem
    rfl
  · rename_i hnone
    have hid : id ∉ m.handles := by
      intro hid
      have hmem : ((id, answer), m.refsWithAnswer id answer) ∈ m.freeze.projections :=
        mem_projections.2 ⟨hid, rfl⟩
      have hne := List.lookup_eq_none_iff.1 hnone _ hmem
      simp at hne
    rw [withAnswer, h.refsWithAnswer_of_not_mem hid]
    rfl

end Model

end Verdicts
