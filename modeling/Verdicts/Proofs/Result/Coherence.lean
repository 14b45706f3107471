/-
The parts of a model agree with each other. A name finds the one component that carries it, components and analyses
carry the handles of their positions, every handle that is kept anywhere is in range, both ends of a call know of
it, once, and an analysis is listed by its owner alone. Main statement: this holds of every model that the four
changes make (`coherent_ofChanges`).

`WellFormed` has the part on names, handles and owners. What is left, callers and the components that contexts
mention, is `Linked`, and every step keeps it (`Step.linked`).
-/
import Verdicts.Proofs.Result.Lookup
import Verdicts.Proofs.Result.Steps

namespace Verdicts

namespace Model

/-! ## Callers -/

/-- The components that call a component. -/
def parentsOf (m : Model) (id : ComponentId) : List ComponentId :=
  match m.component? id with
  | some component => component.parents
  | none => []

theorem component?_updateComponent (m : Model) (id d : ComponentId) (f : Component → Component) :
    (m.updateComponent id f).component? d = (m.component? d).map fun c => if id = d then f c else c := by
  have hindex : id.index = d.index ↔ id = d := by
    cases id
    cases d
    simp
  rw [component?, updateComponent, List.getElem?_modify, component?, Option.map_eq_map]
  simp only [hindex]

/-- A component that is created is found under the next handle, and nothing else changes. -/
theorem component?_concatComponent (m : Model) (name : String) (id : ComponentId) :
    (m.concatComponent name).component? id =
      if id.index = m.components.length then some { id := ⟨m.components.length⟩, name } else m.component? id := by
  rw [component?, concatComponent, component?]
  split
  · rename_i heq
    rw [heq, List.getElem?_concat_length]
  · rename_i hne
    rcases Nat.lt_or_gt_of_ne hne with hlt | hgt
    · rw [List.getElem?_append_left hlt]
    · rw [List.getElem?_eq_none (by simp; omega), List.getElem?_eq_none (by omega)]

theorem component?_length (m : Model) {id : ComponentId} (h : id.index = m.components.length) :
    m.component? id = none :=
  List.getElem?_eq_none (Nat.le_of_eq h.symm)

/-- A component that is created calls nothing and is not called. -/
theorem calls_concatComponent (m : Model) (name : String) (id : ComponentId) :
    (m.concatComponent name).childrenOf id = m.childrenOf id ∧
      (m.concatComponent name).parentsOf id = m.parentsOf id := by
  rw [childrenOf, parentsOf, childrenOf, parentsOf, component?_concatComponent]
  by_cases heq : id.index = m.components.length
  · rw [if_pos heq, m.component?_length heq]
    exact ⟨rfl, rfl⟩
  · rw [if_neg heq]
    exact ⟨rfl, rfl⟩

theorem parentsOf_addCall {m : Model} {c : ComponentId} (hc : c.index < m.components.length)
    (p id : ComponentId) :
    (m.addCall p c).parentsOf id = m.parentsOf id ++ if id = c then [p] else [] := by
  rw [parentsOf, addCall, component?_updateComponent, component?_updateComponent, parentsOf]
  rcases hfound : m.component? id with _ | component
  · -- the callee is a component, so it is another one
    have hne : id ≠ c := by
      rintro rfl
      have hnone := List.getElem?_eq_none_iff.1 hfound
      omega
    rw [if_neg hne]
    rfl
  · simp only [Option.map_some]
    by_cases hid : id = c
    · subst hid
      simp only [if_true]
      split <;> rfl
    · rw [if_neg hid, if_neg (Ne.symm hid), List.append_nil]
      split <;> rfl

theorem parentsOf_concatAnalysis (m : Model) (a : Analysis) (id : ComponentId) :
    (m.concatAnalysis a).parentsOf id = m.parentsOf id := by
  rw [parentsOf, concatAnalysis, component?_updateComponent, parentsOf]
  rw [show component? { m with analyses := m.analyses ++ [a] } id = m.component? id from rfl]
  cases m.component? id with
  | none => rfl
  | some c =>
    simp only [Option.map_some]
    split <;> rfl

/-! ## The invariant -/

/-- Both ends of a call know of it, each of them once, and contexts mention components of the model. -/
structure Linked (m : Model) : Prop where
  ends : ∀ p c, c ∈ m.childrenOf p ↔ p ∈ m.parentsOf c
  children : ∀ id, (m.childrenOf id).Nodup
  parents : ∀ id, (m.parentsOf id).Nodup
  context : ∀ a ∈ m.analyses, ∀ id ∈ a.concrete ++ a.abstracted, id.index < m.components.length

theorem empty_linked : empty.Linked where
  ends _ _ := ⟨fun h => absurd h List.not_mem_nil, fun h => absurd h List.not_mem_nil⟩
  children _ := List.nodup_nil
  parents _ := List.nodup_nil
  context _ h := absurd h List.not_mem_nil

theorem mem_append_ite {α : Type} {l : List α} {x y : α} {q : Prop} [Decidable q] :
    y ∈ l ++ (if q then [x] else []) ↔ y ∈ l ∨ q ∧ y = x := by
  by_cases h : q
  · simp [h]
  · simp [h]

theorem nodup_append_ite {α : Type} {l : List α} {x : α} {q : Prop} [Decidable q] (hl : l.Nodup)
    (hx : q → x ∉ l) : (l ++ (if q then [x] else [])).Nodup := by
  by_cases h : q
  · rw [if_pos h]
    exact (List.perm_append_singleton _ _).nodup_iff.2 (List.nodup_cons.2 ⟨hx h, hl⟩)
  · rwa [if_neg h, List.append_nil]

/-- A change of one analysis that keeps its context leaves the model linked. -/
theorem Linked.modifyAnalysis {m : Model} (h : m.Linked) (k : Nat) {f : Analysis → Analysis}
    (hconcrete : ∀ a, (f a).concrete = a.concrete) (habstracted : ∀ a, (f a).abstracted = a.abstracted) :
    ({ m with analyses := m.analyses.modify k f } : Model).Linked := by
  refine ⟨h.ends, h.children, h.parents, forall_mem_modify h.context (fun a ha => ?_) k⟩
  rw [hconcrete, habstracted]
  exact ha

theorem Step.linked {m m' : Model} (hstep : Step m m') (h : m.Linked) : m'.Linked := by
  cases hstep with
  | @component name hnew =>
    have hcalls := m.calls_concatComponent name
    refine ⟨fun p c => ?_, fun id => ?_, fun id => ?_, fun a ha id hid => ?_⟩
    · rw [(hcalls p).1, (hcalls c).2]
      exact h.ends p c
    · rw [(hcalls id).1]
      exact h.children id
    · rw [(hcalls id).2]
      exact h.parents id
    · rw [length_concatComponent]
      exact Nat.lt_succ_of_lt (h.context a ha id hid)
  | @call p c hp hc hne hnew =>
    have hcaller : p ∉ m.parentsOf c := mt (h.ends p c).2 hnew
    have hlength : (m.addCall p c).components.length = m.components.length := by
      simp only [addCall, updateComponent, List.length_modify]
    refine ⟨fun p' c' => ?_, fun id => ?_, fun id => ?_, fun a ha id hid => ?_⟩
    · rw [childrenOf_addCall hp, parentsOf_addCall hc, mem_append_ite, mem_append_ite, h.ends p' c']
      exact or_congr_right and_comm
    · rw [childrenOf_addCall hp]
      exact nodup_append_ite (h.children id) fun heq => heq ▸ hnew
    · rw [parentsOf_addCall hc]
      exact nodup_append_ite (h.parents id) fun heq => heq ▸ hcaller
    · rw [hlength]
      exact h.context a ha id hid
  | @analysis owner concrete abstracted assumptions howner hcontext =>
    have hlength : ∀ a, (m.concatAnalysis a).components.length = m.components.length :=
      fun a => List.length_modify ..
    refine ⟨fun p c => ?_, fun id => ?_, fun id => ?_, fun a ha id hid => ?_⟩
    · rw [childrenOf_concatAnalysis, parentsOf_concatAnalysis]
      exact h.ends p c
    · rw [childrenOf_concatAnalysis]
      exact h.children id
    · rw [parentsOf_concatAnalysis]
      exact h.parents id
    · rw [hlength]
      rcases List.mem_append.1 ha with ha | ha
      · exact h.context a ha id hid
      · rw [List.mem_singleton.1 ha] at hid
        exact hcontext id hid
  | property _ => exact h.modifyAnalysis _ (fun _ => rfl) fun _ => rfl
  | postAnalysis _ => exact h.modifyAnalysis _ (fun _ => rfl) fun _ => rfl

theorem linked_ofChanges (changes : List Change) : (ofChanges changes).Linked :=
  ofChanges_induction empty_linked (fun _ _ hstep h => hstep.linked h) changes

/-! ## The parts of a model -/

/-- The parts of a model agree with each other. -/
structure Coherent (m : Model) : Prop where
  names : (m.components.map (·.name)).Nodup
  /-- The index leads from a name to the component that carries it. -/
  lookup : ∀ name id, m.index.get? name = some id ↔ ∃ c, m.components[id.index]? = some c ∧ c.name = name
  componentId : ∀ (i : Nat) (c : Component), m.components[i]? = some c → c.id = ⟨i⟩
  analysisId : ∀ (k : Nat) (a : Analysis), m.analyses[k]? = some a → a.id = ⟨k⟩
  /-- The handles that a component keeps are in range. -/
  componentHandles : ∀ c ∈ m.components, (∀ d ∈ c.children ++ c.parents, d.index < m.components.length) ∧
    ∀ a ∈ c.analyses, a.index < m.analyses.length
  /-- The handles that an analysis keeps are in range. -/
  analysisHandles : ∀ a ∈ m.analyses,
    ∀ d ∈ a.owner :: (a.concrete ++ a.abstracted), d.index < m.components.length
  /-- Both ends of a call know of it. -/
  calls : ∀ p ∈ m.components, ∀ c ∈ m.components, c.id ∈ p.children ↔ p.id ∈ c.parents
  callsOnce : ∀ c ∈ m.components, c.children.Nodup ∧ c.parents.Nodup
  notItself : ∀ c ∈ m.components, c.id ∉ c.children ∧ c.id ∉ c.parents
  /-- Analyses are listed in the order in which they were started, none of them twice. -/
  ascending : ∀ c ∈ m.components, c.analyses.Pairwise fun a b => a.index < b.index
  /-- An analysis is listed by its owner and by no other component. -/
  owned : ∀ a ∈ m.analyses, ∀ c ∈ m.components, a.id ∈ c.analyses ↔ c.id = a.owner

theorem WellFormed.childrenOf_id {m : Model} (h : m.WellFormed) {c : Component} (hc : c ∈ m.components) :
    m.childrenOf c.id = c.children := by
  rw [childrenOf, h.component?_id hc]

theorem WellFormed.parentsOf_id {m : Model} (h : m.WellFormed) {c : Component} (hc : c ∈ m.components) :
    m.parentsOf c.id = c.parents := by
  rw [parentsOf, h.component?_id hc]

/-- The analyses are in the order of their handles. -/
theorem WellFormed.analyses_pairwise {m : Model} (h : m.WellFormed) :
    m.analyses.Pairwise fun a b => a.id.index < b.id.index := by
  have hindex : m.analyses.map (·.id.index) = List.range m.analyses.length :=
    map_eq_range fun k a ha => congrArg AnalysisId.index (h.analysis k a ha).id
  have hsorted : (m.analyses.map (·.id.index)).Pairwise (· < ·) := by
    rw [hindex]
    exact List.pairwise_lt_range
  exact List.pairwise_map.1 hsorted

/-- Every model that changes have made is coherent, whichever of the changes were refused. -/
theorem coherent_ofChanges (changes : List Change) : (ofChanges changes).Coherent := by
  have h := wellFormed_ofChanges changes
  have hlinked := linked_ofChanges changes
  generalize ofChanges changes = m at h hlinked ⊢
  have hchildren : ∀ c ∈ m.components, ∀ d ∈ c.children, d.index < m.components.length ∧ d ≠ c.id := by
    intro c hc d hd
    rw [← h.childrenOf_id hc] at hd
    refine ⟨(h.lt_of_call hd).2, ?_⟩
    rintro rfl
    exact h.not_mem_childrenOf _ hd
  have hparents : ∀ c ∈ m.components, ∀ d ∈ c.parents, d.index < m.components.length ∧ d ≠ c.id := by
    intro c hc d hd
    rw [← h.parentsOf_id hc, ← hlinked.ends] at hd
    refine ⟨(h.lt_of_call hd).1, ?_⟩
    rintro rfl
    exact h.not_mem_childrenOf _ hd
  have hlisted : ∀ c ∈ m.components, c.analyses = (m.analysesBy c.id).map (·.id) :=
    fun c hc => h.analyses_eq (h.component?_id hc)
  refine ⟨h.names, fun name id => h.index.trans ?_, fun i c hc => (h.component i c hc).id,
    fun k a ha => (h.analysis k a ha).id, fun c hc => ⟨fun d hd => ?_, fun id hid => ?_⟩, fun a ha d hd => ?_,
    fun p hp c hc => ?_, fun c hc => ⟨?_, ?_⟩, fun c hc => ⟨?_, ?_⟩, fun c hc => ?_, fun a ha c hc => ?_⟩
  · rw [Named, names_getElem?, Option.map_eq_some_iff]
  · rcases List.mem_append.1 hd with hd | hd
    · exact (hchildren c hc d hd).1
    · exact (hparents c hc d hd).1
  · rw [hlisted c hc] at hid
    obtain ⟨a, ha, rfl⟩ := List.mem_map.1 hid
    exact (List.getElem?_eq_some_iff.1 (h.analysis?_id (mem_analysesBy.1 ha).1)).1
  · rcases List.mem_cons.1 hd with rfl | hd
    · obtain ⟨k, hk⟩ := List.mem_iff_getElem?.1 ha
      exact (h.analysis k a hk).owner
    · exact hlinked.context a ha d hd
  · rw [← h.childrenOf_id hp, ← h.parentsOf_id hc]
    exact hlinked.ends p.id c.id
  · rw [← h.childrenOf_id hc]
    exact hlinked.children c.id
  · rw [← h.parentsOf_id hc]
    exact hlinked.parents c.id
  · exact fun hself => (hchildren c hc _ hself).2 rfl
  · exact fun hself => (hparents c hc _ hself).2 rfl
  · rw [hlisted c hc, List.pairwise_map]
    exact h.analyses_pairwise.filter _
  · rw [hlisted c hc, List.mem_map]
    constructor
    · rintro ⟨b, hb, hid⟩
      obtain ⟨hmem, howner⟩ := mem_analysesBy.1 hb
      rw [← h.analysis_inj hmem ha hid]
      exact howner.symm
    · intro howner
      exact ⟨a, mem_analysesBy.2 ⟨ha, howner.symm⟩, rfl⟩

end Model

end Verdicts
