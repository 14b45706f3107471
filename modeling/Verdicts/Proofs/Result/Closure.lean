/-
Projections over the call graph. A projection goes over every component that the call graph reaches from
the one asked for; main statement: it finds, each once, the properties with the verdict that count in the
last analysis of those components and, for falsified ones, in the analysis that checked their modes.

That nothing comes twice rests on three things: an analysis has one owner, the analysis that checked the
modes is never the last, and a ledger gives each position that counts once.
-/
import Verdicts.Proofs.Result.Lookup
import Verdicts.Result.Projection

namespace Verdicts

namespace Analysis

theorem Tidy.mem_refsWithAnswer {a : Analysis} (h : a.Tidy) {answer : Answer} {ref : PropertyRef} :
    ref ∈ a.refsWithAnswer answer ↔
      ref.analysis = a.id ∧ ∃ p, a.Counts ref.position p ∧ p.answer = answer := by
  rw [refsWithAnswer, List.mem_map]
  constructor
  · rintro ⟨i, hi, rfl⟩
    obtain ⟨hcounts, hanswer⟩ := List.mem_filter.1 hi
    obtain ⟨p, hp⟩ := h.mem_authoritativePositions.1 hcounts
    rw [property?, hp.1, decide_eq_true_eq] at hanswer
    exact ⟨rfl, p, hp, hanswer⟩
  · rintro ⟨hid, p, hp, hanswer⟩
    refine ⟨ref.position, List.mem_filter.2 ⟨h.mem_authoritativePositions.2 ⟨p, hp⟩, ?_⟩, ?_⟩
    · rw [property?, hp.1, decide_eq_true_eq]
      exact hanswer
    · rw [← hid]

theorem Tidy.refsWithAnswer_nodup {a : Analysis} (h : a.Tidy) (answer : Answer) :
    (a.refsWithAnswer answer).Nodup := by
  refine (h.authoritativePositions_nodup.filter _).map fun i j heq => ?_
  exact congrArg PropertyRef.position heq

end Analysis

namespace Model

open Search (Reaches)

/-! ## One component -/

/-- The analysis is one in which properties with a verdict are looked for. -/
def IsRelevant (m : Model) (id : ComponentId) (answer : Answer) (a : Analysis) : Prop :=
  m.IsLast id a ∨ answer = .falsifiable ∧ m.IsModes id a

theorem IsRelevant.mem {m : Model} {id : ComponentId} {answer : Answer} {a : Analysis}
    (h : m.IsRelevant id answer a) : a ∈ m.analyses ∧ a.owner = id := by
  rcases h with hlast | ⟨-, hmodes⟩
  · exact hlast.mem
  · exact hmodes.mem

theorem WellFormed.mem_relevantAnalyses {m : Model} (h : m.WellFormed) {id : ComponentId} {answer : Answer}
    {a : Analysis} : a ∈ m.relevantAnalyses id answer ↔ m.IsRelevant id answer a := by
  rw [relevantAnalyses, List.mem_append, IsRelevant, or_comm, Option.mem_toList,
    h.lastAnalysis?_eq_some]
  refine or_congr_right ?_
  by_cases hanswer : answer = .falsifiable
  · rw [if_pos hanswer, Option.mem_toList, h.modeAnalysis?_eq_some]
    exact ⟨fun hmodes => ⟨hanswer, hmodes⟩, fun hmodes => hmodes.2⟩
  · rw [if_neg hanswer]
    exact ⟨fun hmem => absurd hmem List.not_mem_nil, fun hmodes => absurd hmodes.1 hanswer⟩

/-- The analyses in which properties are looked for are told apart by their handles. -/
theorem WellFormed.relevantAnalyses_distinct {m : Model} (h : m.WellFormed) (id : ComponentId)
    (answer : Answer) : (m.relevantAnalyses id answer).Pairwise fun a b => a.id ≠ b.id := by
  rw [relevantAnalyses, List.pairwise_append]
  refine ⟨?_, ?_, fun a ha b hb => ?_⟩
  · split
    · cases m.modeAnalysis? id with
      | none => exact .nil
      | some a => exact List.pairwise_singleton ..
    · exact .nil
  · cases m.lastAnalysis? id with
    | none => exact .nil
    | some a => exact List.pairwise_singleton ..
  · have hlast := h.lastAnalysis?_eq_some.1 (Option.mem_toList.1 hb)
    split at ha
    · exact (h.last_ne_modes hlast (h.modeAnalysis?_eq_some.1 (Option.mem_toList.1 ha))).symm
    · exact absurd ha List.not_mem_nil

theorem WellFormed.mem_ownRefs {m : Model} (h : m.WellFormed) {answer : Answer} {id : ComponentId}
    {ref : PropertyRef} :
    ref ∈ m.ownRefs answer id ↔ ∃ a p, m.IsRelevant id answer a ∧ ref.analysis = a.id ∧
      a.Counts ref.position p ∧ p.answer = answer := by
  rw [ownRefs, List.mem_flatMap]
  constructor
  · rintro ⟨a, ha, href⟩
    have hrelevant := h.mem_relevantAnalyses.1 ha
    obtain ⟨hid, p, hp, hanswer⟩ := (h.tidy hrelevant.mem.1).mem_refsWithAnswer.1 href
    exact ⟨a, p, hrelevant, hid, hp, hanswer⟩
  · rintro ⟨a, p, hrelevant, hid, hp, hanswer⟩
    refine ⟨a, h.mem_relevantAnalyses.2 hrelevant, ?_⟩
    exact (h.tidy hrelevant.mem.1).mem_refsWithAnswer.2 ⟨hid, p, hp, hanswer⟩

theorem WellFormed.ownRefs_nodup {m : Model} (h : m.WellFormed) (answer : Answer) (id : ComponentId) :
    (m.ownRefs answer id).Nodup := by
  rw [ownRefs, List.nodup_flatMap]
  have htidy : ∀ a ∈ m.relevantAnalyses id answer, a.Tidy :=
    fun a ha => h.tidy (h.mem_relevantAnalyses.1 ha).mem.1
  refine ⟨fun a ha => (htidy a ha).refsWithAnswer_nodup answer, ?_⟩
  refine (h.relevantAnalyses_distinct id answer).imp_of_mem fun {a b} ha hb hne ref href href' => hne ?_
  have hid := ((htidy a ha).mem_refsWithAnswer.1 href).1
  have hid' := ((htidy b hb).mem_refsWithAnswer.1 href').1
  exact hid.symm.trans hid'

/-- A place where a property is belongs to one component. -/
theorem WellFormed.ownRefs_disjoint {m : Model} (h : m.WellFormed) {answer : Answer} {id id' : ComponentId}
    (hne : id ≠ id') : List.Disjoint (m.ownRefs answer id) (m.ownRefs answer id') := by
  intro ref href href'
  obtain ⟨a, -, ha, hid, -⟩ := h.mem_ownRefs.1 href
  obtain ⟨b, -, hb, hid', -⟩ := h.mem_ownRefs.1 href'
  have heq : a = b := h.analysis_inj ha.mem.1 hb.mem.1 (hid.symm.trans hid')
  exact hne (ha.mem.2.symm.trans (heq ▸ hb.mem.2))

/-! ## A component and all that it calls -/

theorem WellFormed.mem_descendants {m : Model} (h : m.WellFormed) {c d : ComponentId} :
    d ∈ m.descendants c ↔ Reaches m.childrenOf c d := by
  rw [descendants, (h.visits_search [c]).entered_iff]
  simp

theorem WellFormed.descendants_nodup {m : Model} (h : m.WellFormed) (c : ComponentId) :
    (m.descendants c).Nodup :=
  (h.visits_search [c]).entered_nodup List.nodup_nil

theorem WellFormed.mem_refsWithAnswer {m : Model} (h : m.WellFormed) {c : ComponentId} {answer : Answer}
    {ref : PropertyRef} :
    ref ∈ m.refsWithAnswer c answer ↔
      ∃ d, Reaches m.childrenOf c d ∧ ref ∈ m.ownRefs answer d := by
  rw [refsWithAnswer, List.mem_flatMap]
  exact exists_congr fun d => and_congr_left fun _ => h.mem_descendants

theorem WellFormed.refsWithAnswer_nodup {m : Model} (h : m.WellFormed) (c : ComponentId) (answer : Answer) :
    (m.refsWithAnswer c answer).Nodup := by
  rw [refsWithAnswer, List.nodup_flatMap]
  refine ⟨fun d _ => h.ownRefs_nodup answer d, ?_⟩
  exact (h.descendants_nodup c).imp fun hne => h.ownRefs_disjoint hne

/-- What is found for a component is found for those that call it. -/
theorem WellFormed.refsWithAnswer_subset {m : Model} (h : m.WellFormed) {p c : ComponentId}
    (hcall : c ∈ m.childrenOf p) (answer : Answer) :
    m.refsWithAnswer c answer ⊆ m.refsWithAnswer p answer := by
  intro ref href
  obtain ⟨d, hpath, href⟩ := h.mem_refsWithAnswer.1 href
  exact h.mem_refsWithAnswer.2 ⟨d, .head hcall hpath, href⟩

/-- Every place that a projection gives holds a property. -/
theorem WellFormed.exists_property? {m : Model} (h : m.WellFormed) {c : ComponentId} {answer : Answer}
    {ref : PropertyRef} (href : ref ∈ m.refsWithAnswer c answer) : ∃ p, m.property? ref = some p := by
  obtain ⟨d, -, href⟩ := h.mem_refsWithAnswer.1 href
  obtain ⟨a, p, ha, hid, hp, -⟩ := h.mem_ownRefs.1 href
  refine ⟨p, ?_⟩
  rw [property?, hid, h.analysis?_id ha.mem.1]
  exact hp.1

/-- Where every item is looked up with success, one result stands for each of them. -/
theorem forall₂_filterMap {α β : Type} {f : α → Option β} {l : List α} (h : ∀ x ∈ l, ∃ y, f x = some y) :
    List.Forall₂ (fun x y => f x = some y) l (l.filterMap f) := by
  induction l with
  | nil => exact .nil
  | cons x rest ih =>
    obtain ⟨y, hy⟩ := h x (List.mem_cons_self ..)
    rw [List.filterMap_cons_some hy]
    exact .cons hy (ih fun z hz => h z (List.mem_cons_of_mem _ hz))

/-- On every model that changes have made, and for every handle and verdict: the search of the call graph
ends, in one way; the projection gives one property for each of some distinct places; these places are
those, in the last analysis of a component that is reached (or, for falsified properties, in the one that
checked its modes), at which a property with the verdict counts; and a component has all that one of its callees has. -/
theorem withAnswer_closure (changes : List Change) (c : ComponentId) (answer : Answer) :
    let m := ofChanges changes
    (∃ s, (∀ s', Search.Visits m.childrenOf {} [c] s' ↔ s' = s) ∧ s.entered = m.descendants c) ∧
      (m.refsWithAnswer c answer).Nodup ∧
      List.Forall₂ (fun ref p => m.property? ref = some p) (m.refsWithAnswer c answer)
        (m.withAnswer c answer) ∧
      (∀ ref, ref ∈ m.refsWithAnswer c answer ↔
        ∃ d a p, Reaches m.childrenOf c d ∧ (m.IsLast d a ∨ answer = .falsifiable ∧ m.IsModes d a) ∧
          ref.analysis = a.id ∧ a.Counts ref.position p ∧ p.answer = answer) ∧
      ∀ p, c ∈ m.childrenOf p → m.refsWithAnswer c answer ⊆ m.refsWithAnswer p answer ∧
        (m.withAnswer c answer).Subperm (m.withAnswer p answer) := by
  intro m
  have h : m.WellFormed := wellFormed_ofChanges changes
  refine ⟨⟨_, h.visits_search_iff [c], rfl⟩, h.refsWithAnswer_nodup c answer,
    forall₂_filterMap fun ref href => h.exists_property? href, fun ref => ?_, fun p hcall => ?_⟩
  · rw [h.mem_refsWithAnswer]
    constructor
    · rintro ⟨d, hpath, href⟩
      obtain ⟨a, q, hq⟩ := h.mem_ownRefs.1 href
      exact ⟨d, a, q, hpath, hq⟩
    · rintro ⟨d, a, q, hpath, hq⟩
      exact ⟨d, hpath, h.mem_ownRefs.2 ⟨a, q, hq⟩⟩
  · have hsubset := h.refsWithAnswer_subset hcall answer
    refine ⟨hsubset, ?_⟩
    obtain ⟨refs, hperm, hsub⟩ := List.subperm_of_subset (h.refsWithAnswer_nodup c answer) hsubset
    exact ⟨refs.filterMap m.property?, hperm.filterMap _, hsub.filterMap _⟩

end Model

end Verdicts
