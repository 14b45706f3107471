/-
What changes are made of. A change creates components, records a call between two of them, starts an analysis or
adds something to one: `Step` lists these steps with all that each of them does, and main statement: whatever is
asked of a well-formed model, a change of it is a sequence of such steps (`WellFormed.change_steps`). What a step
keeps is therefore kept by every change and by every sequence of them.
-/
import Verdicts.Proofs.Result.WellFormed
import Mathlib.Logic.Relation

namespace Verdicts

/-- What holds of all items holds after one of them was changed, if the change keeps it. -/
theorem forall_mem_modify {α : Type} {q : α → Prop} {f : α → α} {l : List α} (h : ∀ x ∈ l, q x)
    (hf : ∀ x, q x → q (f x)) (k : Nat) : ∀ x ∈ l.modify k f, q x := by
  intro x hx
  obtain ⟨i, hi⟩ := List.mem_iff_getElem?.1 hx
  rw [List.getElem?_modify, Option.map_eq_map, Option.map_eq_some_iff] at hi
  obtain ⟨old, hold, rfl⟩ := hi
  have hq := h old (List.mem_of_getElem? hold)
  split
  · exact hf old hq
  · exact hq

namespace Model

/-- `Step m m'`: the model `m'` is `m` with one thing more. -/
inductive Step (m : Model) : Model → Prop
  /-- A component of a new name, without calls and analyses. -/
  | component {name : String} : name ∉ m.names → Step m (m.concatComponent name)
  /-- A call between two components that is not known yet. -/
  | call {p c : ComponentId} : p.index < m.components.length → c.index < m.components.length → c ≠ p →
      c ∉ m.childrenOf p → Step m (m.addCall p c)
  /-- An analysis that has found nothing yet. -/
  | analysis {owner : ComponentId} {concrete abstracted : List ComponentId}
      {assumptions : List (String × Nat)} : owner.index < m.components.length →
      (∀ id ∈ concrete ++ abstracted, id.index < m.components.length) →
      Step m (m.concatAnalysis { id := ⟨m.analyses.length⟩, owner, concrete, abstracted, assumptions })
  /-- A property of an analysis. -/
  | property {id : AnalysisId} {p : Property} : id.index < m.analyses.length →
      Step m { m with analyses := m.analyses.modify id.index (·.push p) }
  /-- A post-analysis of an analysis. -/
  | postAnalysis {id : AnalysisId} {post : PostAnalysis} : id.index < m.analyses.length →
      Step m { m with analyses := m.analyses.modify id.index (·.pushPostAnalysis post) }

/-- Any number of steps. -/
abbrev Steps : Model → Model → Prop := Relation.ReflTransGen Step

/-! ## Components -/

theorem WellFormed.steps_intern {m : Model} (h : m.WellFormed) (name : String) : Steps m (m.intern name).1 := by
  rcases m.intern_cases name with ⟨_, -, heq⟩ | ⟨hnone, heq⟩
  · rw [heq]
  · rw [heq]
    exact .single (.component (h.componentId?_eq_none.1 hnone))

theorem WellFormed.steps_internAll {m : Model} (h : m.WellFormed) (ns : List String) :
    Steps m (m.internAll ns).1 := by
  induction ns generalizing m with
  | nil => exact .refl
  | cons name rest ih => exact (h.steps_intern name).trans (ih (h.intern name))

/-- Handles that have names are in range. -/
theorem lt_of_forall₂_named {m : Model} {ids : List ComponentId} {ns : List String}
    (h : List.Forall₂ m.Named ids ns) : ∀ id ∈ ids, id.index < m.components.length := by
  induction h with
  | nil => exact fun id hid => absurd hid List.not_mem_nil
  | cons hid _ ih => exact List.forall_mem_cons.2 ⟨hid.lt, ih⟩

/-! ## Changes -/

theorem WellFormed.addChild_steps {m : Model} (h : m.WellFormed) (parent child : String) :
    Steps m (m.addChild parent child).1 := by
  by_cases hne : parent = child
  · subst hne
    rw [addChild_self]
  · obtain ⟨m₁, p, c, hintern, heq⟩ := m.addChild_eq hne
    have hsteps := h.steps_internAll [parent, child]
    have hnamed := h.named_internAll [parent, child]
    rw [hintern] at hsteps hnamed
    obtain ⟨hparent, hrest⟩ := List.forall₂_cons.1 hnamed
    obtain ⟨hchild, -⟩ := List.forall₂_cons.1 hrest
    rw [heq]
    split
    · exact hsteps
    · rename_i hnew
      refine hsteps.tail (.call hparent.lt hchild.lt ?_ hnew)
      -- two names have two handles
      rintro rfl
      exact hne (hparent.unique hchild)

theorem WellFormed.addAnalysis_steps {m : Model} (h : m.WellFormed) (name : String) (context : AnalysisContext) :
    Steps m (m.addAnalysis name context).1 := by
  obtain ⟨m', owner, concrete, abstracted, hall, howner, hconcrete, habstracted, heq⟩ :=
    h.addAnalysis_eq name context
  have hsteps := h.steps_internAll (name :: (context.concrete ++ context.abstracted))
  rw [hall] at hsteps
  rw [heq]
  refine hsteps.tail (.analysis howner.lt fun id hid => ?_)
  rcases List.mem_append.1 hid with hid | hid
  · exact lt_of_forall₂_named hconcrete id hid
  · exact lt_of_forall₂_named habstracted id hid

theorem addProperty_steps (m : Model) (id : AnalysisId) (p : Property) : Steps m (m.addProperty id p).1 := by
  rcases m.addProperty_cases id p with ⟨-, heq⟩ | ⟨a, ha, heq⟩
  · rw [heq]
  · rw [heq]
    exact .single (.property (List.getElem?_eq_some_iff.1 ha).1)

theorem attachPostAnalysis_steps (m : Model) (id : AnalysisId) (post : PostAnalysis) :
    Steps m (m.attachPostAnalysis id post).1 := by
  rcases m.attachPostAnalysis_cases id post with ⟨-, heq⟩ | ⟨hlt, heq⟩
  · rw [heq]
  · rw [heq]
    exact .single (.postAnalysis hlt)

/-- A change is a sequence of steps, of none if it is refused. -/
theorem WellFormed.change_steps {m : Model} (h : m.WellFormed) (c : Change) : Steps m (m.change c) := by
  cases c with
  | addAnalysis component context => exact h.addAnalysis_steps component context
  | addProperty id property => exact m.addProperty_steps id property
  | addChild parent child => exact h.addChild_steps parent child
  | attachPostAnalysis id post => exact m.attachPostAnalysis_steps id post

theorem WellFormed.changes_steps {m : Model} (h : m.WellFormed) (changes : List Change) :
    Steps m (changes.foldl Model.change m) := by
  induction changes generalizing m with
  | nil => exact .refl
  | cons c rest ih => exact (h.change_steps c).trans (ih (h.change c))

/-- Changes turn one model into the other. -/
def Changed (m m' : Model) : Prop := ∃ changes : List Change, m' = changes.foldl change m

theorem Changed.refl (m : Model) : m.Changed m := ⟨[], rfl⟩

theorem Changed.single (m : Model) (c : Change) : m.Changed (m.change c) := ⟨[c], rfl⟩

theorem Changed.trans {m m' m'' : Model} (h : m.Changed m') (h' : m'.Changed m'') : m.Changed m'' := by
  obtain ⟨changes, rfl⟩ := h
  obtain ⟨changes', rfl⟩ := h'
  exact ⟨changes ++ changes', (List.foldl_append ..).symm⟩

theorem Changed.steps {m m' : Model} (h : m.Changed m') (hwf : m.WellFormed) : Steps m m' := by
  obtain ⟨changes, rfl⟩ := h
  exact hwf.changes_steps changes

/-- What holds of every model that changes have made holds of one that was reached from the empty model. -/
theorem Changed.of_ofChanges {P : Model → Prop} {m : Model} (h : empty.Changed m)
    (hP : ∀ changes, P (ofChanges changes)) : P m := by
  obtain ⟨changes, rfl⟩ := h
  exact hP changes

/-- What holds of the empty model and is kept by every step holds of every model that changes have made. -/
theorem ofChanges_induction {P : Model → Prop} (hempty : P empty)
    (hstep : ∀ m m', Step m m' → P m → P m') (changes : List Change) : P (ofChanges changes) := by
  have hkept : ∀ m', Steps empty m' → P m' := by
    intro m' hsteps
    induction hsteps with
    | refl => exact hempty
    | tail _ hlast ih => exact hstep _ _ hlast ih
  exact hkept _ (empty_wellFormed.changes_steps changes)

end Model

end Verdicts
