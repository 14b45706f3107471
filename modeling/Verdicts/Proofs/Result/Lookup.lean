/-
Looking things up in a well-formed model. A handle finds its component or analysis; which analysis of a
component counts, and which one checked its modes, is read off the order in which its analyses were
started (`IsLast`, `IsModes`); and every search of the call graph ends.
-/
import Verdicts.Proofs.Result.Search
import Verdicts.Proofs.Result.WellFormed
import Mathlib.Data.List.Nodup

namespace Verdicts

namespace Model

/-! ## Handles -/

/-- The handles of the components, in order of creation. -/
def handles (m : Model) : List ComponentId := m.components.map (·.id)

theorem WellFormed.component?_id {m : Model} (h : m.WellFormed) {c : Component} (hc : c ∈ m.components) :
    m.component? c.id = some c := by
  obtain ⟨i, hi⟩ := List.mem_iff_getElem?.1 hc
  rw [(h.component i c hi).id]
  exact hi

theorem WellFormed.analysis?_id {m : Model} (h : m.WellFormed) {a : Analysis} (ha : a ∈ m.analyses) :
    m.analysis? a.id = some a := by
  obtain ⟨k, hk⟩ := List.mem_iff_getElem?.1 ha
  rw [(h.analysis k a hk).id]
  exact hk

/-- A handle that finds a component is that of the component. -/
theorem WellFormed.id_of_component? {m : Model} (h : m.WellFormed) {id : ComponentId} {c : Component}
    (hc : m.component? id = some c) : c.id = id :=
  (h.component id.index c hc).id

theorem WellFormed.analysis_inj {m : Model} (h : m.WellFormed) {a b : Analysis} (ha : a ∈ m.analyses)
    (hb : b ∈ m.analyses) (hid : a.id = b.id) : a = b := by
  have heq := h.analysis?_id ha
  rw [hid, h.analysis?_id hb] at heq
  exact (Option.some.inj heq).symm

theorem WellFormed.nameOf_id {m : Model} (h : m.WellFormed) {c : Component} (hc : c ∈ m.components) :
    m.nameOf c.id = c.name := by
  rw [nameOf, h.component?_id hc]

theorem WellFormed.named_id {m : Model} (h : m.WellFormed) {c : Component} (hc : c ∈ m.components) :
    m.Named c.id c.name := by
  have hfound := h.component?_id hc
  rw [component?] at hfound
  rw [Named, names_getElem?, hfound, Option.map_some]

theorem WellFormed.mem_handles {m : Model} (h : m.WellFormed) {id : ComponentId} :
    id ∈ m.handles ↔ id.index < m.components.length := by
  constructor
  · intro hid
    obtain ⟨c, hc, rfl⟩ := List.mem_map.1 hid
    exact (h.named_id hc).lt
  · intro hlt
    have hc := List.getElem?_eq_getElem hlt
    rw [← h.id_of_component? hc]
    exact List.mem_map_of_mem (List.getElem_mem hlt)

/-- Where each item tells its position, all items are told apart. -/
theorem map_eq_range {α : Type} {l : List α} {f : α → Nat} (h : ∀ i x, l[i]? = some x → f x = i) :
    l.map f = List.range l.length := by
  refine List.ext_getElem? fun i => ?_
  rw [List.getElem?_map]
  rcases hx : l[i]? with _ | x
  · have hlen := List.getElem?_eq_none_iff.1 hx
    rw [List.getElem?_eq_none (by rwa [List.length_range]), Option.map_none]
  · obtain ⟨hlt, -⟩ := List.getElem?_eq_some_iff.1 hx
    rw [List.getElem?_range hlt, Option.map_some, h i x hx]

theorem WellFormed.handles_nodup {m : Model} (h : m.WellFormed) : m.handles.Nodup := by
  have hindex : m.handles.map ComponentId.index = List.range m.components.length := by
    rw [handles, List.map_map]
    exact map_eq_range fun i c hc => congrArg ComponentId.index (h.component i c hc).id
  refine List.Nodup.of_map ComponentId.index ?_
  rw [hindex]
  exact List.nodup_range

theorem WellFormed.analyses_nodup {m : Model} (h : m.WellFormed) : m.analyses.Nodup := by
  refine List.Nodup.of_map (·.id.index) ?_
  rw [map_eq_range fun k a ha => congrArg AnalysisId.index (h.analysis k a ha).id]
  exact List.nodup_range

/-! ## Calls -/

theorem WellFormed.childrenOf_subset {m : Model} (h : m.WellFormed) (id : ComponentId) :
    m.childrenOf id ⊆ m.handles :=
  fun _ hd => h.mem_handles.2 (h.lt_of_call hd).2

/-- No component calls itself. -/
theorem WellFormed.not_mem_childrenOf {m : Model} (h : m.WellFormed) (id : ComponentId) :
    id ∉ m.childrenOf id := by
  intro hid
  rw [childrenOf] at hid
  split at hid
  · rename_i c hc
    exact ((h.component id.index c hc).children id hid).2 rfl
  · cases hid

/-- Every search of the call graph ends, and in one way: that of the search without a bound. -/
theorem WellFormed.visits_search_iff {m : Model} (h : m.WellFormed) (starts : List ComponentId) (s : Search) :
    Search.Visits m.childrenOf {} starts s ↔ s = m.search starts := by
  have hvisits : Search.Visits m.childrenOf {} starts (m.search starts) := by
    refine Search.visits_visit h.childrenOf_subset _ _ _ (fun id _ => ?_) (Nat.lt_succ_of_le ?_)
    · by_cases hid : id ∈ m.handles
      · exact .inl hid
      · have hnone : m.component? id = none :=
          List.getElem?_eq_none (Nat.le_of_not_lt fun hlt => hid (h.mem_handles.2 hlt))
        exact .inr (by rw [childrenOf, hnone])
    · have hle : Search.unentered m.handles {} ≤ m.handles.length := List.countP_le_length
      rwa [handles, List.length_map] at hle
  constructor
  · exact fun hs => hs.unique hvisits
  · rintro rfl
    exact hvisits

theorem WellFormed.visits_search {m : Model} (h : m.WellFormed) (starts : List ComponentId) :
    Search.Visits m.childrenOf {} starts (m.search starts) :=
  (h.visits_search_iff starts _).2 rfl

/-! ## The analyses of a component -/

/-- The analysis is the last of the component. -/
def IsLast (m : Model) (id : ComponentId) (a : Analysis) : Prop :=
  ∃ earlier, m.analysesBy id = earlier ++ [a]

/-- The analysis is the last but one of the component and checked that its modes are exhaustive. -/
def IsModes (m : Model) (id : ComponentId) (a : Analysis) : Prop :=
  (∃ earlier last, m.analysesBy id = earlier ++ [a, last]) ∧ ∃ p ∈ a.decoded, p.origin = .oneModeActive

theorem mem_analysesBy {m : Model} {id : ComponentId} {a : Analysis} :
    a ∈ m.analysesBy id ↔ a ∈ m.analyses ∧ a.owner = id := by
  rw [analysesBy, List.mem_filter, decide_eq_true_eq]

theorem IsLast.mem {m : Model} {id : ComponentId} {a : Analysis} (h : m.IsLast id a) :
    a ∈ m.analyses ∧ a.owner = id := by
  obtain ⟨earlier, heq⟩ := h
  exact mem_analysesBy.1 (by simp [heq])

theorem IsModes.mem {m : Model} {id : ComponentId} {a : Analysis} (h : m.IsModes id a) :
    a ∈ m.analyses ∧ a.owner = id := by
  obtain ⟨⟨earlier, last, heq⟩, -⟩ := h
  exact mem_analysesBy.1 (by simp [heq])

theorem IsLast.unique {m : Model} {id : ComponentId} {a b : Analysis} (ha : m.IsLast id a)
    (hb : m.IsLast id b) : a = b := by
  obtain ⟨earlier, heq⟩ := ha
  obtain ⟨earlier', heq'⟩ := hb
  exact (List.append_singleton_inj.1 (heq.symm.trans heq')).2

/-- The analyses that a component lists are its own. -/
theorem WellFormed.analyses_eq {m : Model} (h : m.WellFormed) {id : ComponentId} {c : Component}
    (hc : m.component? id = some c) : c.analyses = (m.analysesBy id).map (·.id) :=
  (h.component id.index c hc).analyses

/-- A handle without a component has no analyses. -/
theorem WellFormed.analysesBy_of_none {m : Model} (h : m.WellFormed) {id : ComponentId}
    (hc : m.component? id = none) : m.analysesBy id = [] :=
  h.analysesBy_of_le (List.getElem?_eq_none_iff.1 hc)

theorem WellFormed.tidy {m : Model} (h : m.WellFormed) {a : Analysis} (ha : a ∈ m.analyses) : a.Tidy := by
  obtain ⟨k, hk⟩ := List.mem_iff_getElem?.1 ha
  exact (h.analysis k a hk).tidy

theorem WellFormed.analysesOf_eq {m : Model} (h : m.WellFormed) (id : ComponentId) :
    m.analysesOf id = m.analysesBy id := by
  rw [analysesOf]
  rcases hc : m.component? id with _ | c
  · rw [h.analysesBy_of_none hc]
  · simp only
    rw [h.analyses_eq hc, List.filterMap_map]
    have hfound : ∀ a ∈ m.analysesBy id, (m.analysis? ∘ (·.id)) a = some a :=
      fun a ha => h.analysis?_id (mem_analysesBy.1 ha).1
    rw [List.filterMap_congr hfound, List.filterMap_some]

theorem WellFormed.lastAnalysis?_eq_some {m : Model} (h : m.WellFormed) {id : ComponentId} {a : Analysis} :
    m.lastAnalysis? id = some a ↔ m.IsLast id a := by
  rw [lastAnalysis?, IsLast, ← List.getLast?_eq_some_iff]
  rcases hc : m.component? id with _ | c
  · rw [h.analysesBy_of_none hc]
    simp
  · rw [Option.bind_some, h.analyses_eq hc, List.getLast?_map]
    rcases hlast : (m.analysesBy id).getLast? with _ | last
    · simp
    · rw [Option.map_some, Option.bind_some, h.analysis?_id (mem_analysesBy.1 (List.mem_of_getLast? hlast)).1]

/-- The item that one more follows. -/
theorem getElem?_length_sub_two {α : Type} {l : List α} {x : α} :
    2 ≤ l.length ∧ l[l.length - 2]? = some x ↔ ∃ earlier last, l = earlier ++ [x, last] := by
  constructor
  · rintro ⟨hlength, hx⟩
    rcases List.eq_nil_or_concat' l with rfl | ⟨front, last, rfl⟩
    · exact absurd hlength (by simp)
    · rcases List.eq_nil_or_concat' front with rfl | ⟨earlier, y, rfl⟩
      · exact absurd hlength (by simp)
      · refine ⟨earlier, last, ?_⟩
        have hy : y = x := by simpa using hx
        rw [hy, List.append_assoc]
        rfl
  · rintro ⟨earlier, last, rfl⟩
    simp

theorem WellFormed.modeAnalysis?_eq_some {m : Model} (h : m.WellFormed) {id : ComponentId} {a : Analysis} :
    m.modeAnalysis? id = some a ↔ m.IsModes id a := by
  have hmodes : a.checksModes = true ↔ ∃ p ∈ a.decoded, p.origin = .oneModeActive := by
    simp [Analysis.checksModes]
  rw [modeAnalysis?, IsModes, ← getElem?_length_sub_two, ← hmodes]
  rcases hc : m.component? id with _ | c
  · rw [h.analysesBy_of_none hc]
    simp
  · rw [Option.bind_some, h.analyses_eq hc, List.length_map]
    by_cases hlength : (m.analysesBy id).length < 2
    · rw [if_pos hlength]
      exact ⟨fun hnone => (by cases hnone), fun hsome => absurd hsome.1.1 (by omega)⟩
    · rw [if_neg hlength, List.getElem?_map]
      rcases hx : (m.analysesBy id)[(m.analysesBy id).length - 2]? with _ | x
      · simp
      · rw [Option.map_some, Option.bind_some, h.analysis?_id (mem_analysesBy.1 (List.mem_of_getElem? hx)).1,
          Option.filter_eq_some_iff]
        constructor
        · rintro ⟨heq, hchecks⟩
          exact ⟨⟨by omega, heq⟩, hchecks⟩
        · rintro ⟨⟨-, heq⟩, hchecks⟩
          exact ⟨heq, hchecks⟩

/-- The last analysis of a component is not the one that checked its modes. -/
theorem WellFormed.last_ne_modes {m : Model} (h : m.WellFormed) {id : ComponentId} {a b : Analysis}
    (ha : m.IsLast id a) (hb : m.IsModes id b) : a.id ≠ b.id := by
  intro hid
  obtain rfl := h.analysis_inj ha.mem.1 hb.mem.1 hid
  obtain ⟨⟨earlier, last, hby⟩, -⟩ := hb
  have hlast : last = a := IsLast.unique (m := m) ⟨earlier ++ [a], by simp [hby]⟩ ha
  have hnodup : (m.analysesBy id).Nodup := h.analyses_nodup.filter _
  rw [hby, hlast, List.nodup_append] at hnodup
  simp at hnodup

end Model

end Verdicts
