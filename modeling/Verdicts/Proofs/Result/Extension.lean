/-
Models only grow. `Extends` says what stays of a model in a later one: each component and each analysis stands where
it stood, with all that it was announced with, and its lists go on at their ends. Every step extends a model
(`Step.extends`), so changes do; a handle or a name that found something finds the same afterwards. A change that is
refused leaves the model as it is, and `Refuses` says which changes are.
-/
import Verdicts.Proofs.Result.Lookup
import Verdicts.Proofs.Result.Steps

namespace Verdicts

/-- The component `c'` is `c` with more analyses, callees and callers. -/
structure Component.Extends (c c' : Component) : Prop where
  id : c'.id = c.id
  name : c'.name = c.name
  analyses : c.analyses <+: c'.analyses
  children : c.children <+: c'.children
  parents : c.parents <+: c'.parents

/-- The analysis `a'` is `a` with more properties and post-analyses. -/
structure Analysis.Extends (a a' : Analysis) : Prop where
  id : a'.id = a.id
  owner : a'.owner = a.owner
  concrete : a'.concrete = a.concrete
  abstracted : a'.abstracted = a.abstracted
  assumptions : a'.assumptions = a.assumptions
  decoded : a.decoded <+: a'.decoded
  postAnalyses : a.postAnalyses <+: a'.postAnalyses

theorem Component.Extends.refl (c : Component) : c.Extends c :=
  ⟨rfl, rfl, List.prefix_refl _, List.prefix_refl _, List.prefix_refl _⟩

theorem Component.Extends.trans {a b c : Component} (h : a.Extends b) (h' : b.Extends c) : a.Extends c :=
  ⟨h'.id.trans h.id, h'.name.trans h.name, h.analyses.trans h'.analyses, h.children.trans h'.children,
    h.parents.trans h'.parents⟩

theorem Analysis.Extends.refl (a : Analysis) : a.Extends a :=
  ⟨rfl, rfl, rfl, rfl, rfl, List.prefix_refl _, List.prefix_refl _⟩

theorem Analysis.Extends.trans {a b c : Analysis} (h : a.Extends b) (h' : b.Extends c) : a.Extends c :=
  ⟨h'.id.trans h.id, h'.owner.trans h.owner, h'.concrete.trans h.concrete, h'.abstracted.trans h.abstracted,
    h'.assumptions.trans h.assumptions, h.decoded.trans h'.decoded, h.postAnalyses.trans h'.postAnalyses⟩

namespace Model

/-! ## Extension -/

/-- The model `m'` has all that `m` has, under the same handles. -/
structure Extends (m m' : Model) : Prop where
  component : ∀ id c, m.component? id = some c → ∃ c', m'.component? id = some c' ∧ c.Extends c'
  analysis : ∀ id a, m.analysis? id = some a → ∃ a', m'.analysis? id = some a' ∧ a.Extends a'

theorem Extends.refl (m : Model) : m.Extends m :=
  ⟨fun _ c hc => ⟨c, hc, .refl c⟩, fun _ a ha => ⟨a, ha, .refl a⟩⟩

theorem Extends.trans {m m' m'' : Model} (h : m.Extends m') (h' : m'.Extends m'') : m.Extends m'' := by
  refine ⟨fun id c hc => ?_, fun id a ha => ?_⟩
  · obtain ⟨c', hc', hext⟩ := h.component id c hc
    obtain ⟨c'', hc'', hext'⟩ := h'.component id c' hc'
    exact ⟨c'', hc'', hext.trans hext'⟩
  · obtain ⟨a', ha', hext⟩ := h.analysis id a ha
    obtain ⟨a'', ha'', hext'⟩ := h'.analysis id a' ha'
    exact ⟨a'', ha'', hext.trans hext'⟩

theorem extends_updateComponent (m : Model) (id : ComponentId) {f : Component → Component}
    (hf : ∀ c : Component, c.Extends (f c)) : m.Extends (m.updateComponent id f) := by
  refine ⟨fun d c hc => ?_, fun _ a ha => ⟨a, ha, .refl a⟩⟩
  rw [component?] at hc
  rw [component?, updateComponent, List.getElem?_modify, hc]
  refine ⟨_, rfl, ?_⟩
  split
  · exact hf c
  · exact .refl c

theorem extends_modifyAnalysis (m : Model) (k : Nat) {f : Analysis → Analysis}
    (hf : ∀ a : Analysis, a.Extends (f a)) : m.Extends { m with analyses := m.analyses.modify k f } := by
  refine ⟨fun _ c hc => ⟨c, hc, .refl c⟩, fun id a ha => ?_⟩
  rw [analysis?] at ha
  rw [analysis?, List.getElem?_modify, ha]
  refine ⟨_, rfl, ?_⟩
  split
  · exact hf a
  · exact .refl a

/-- Components and analyses that are added stand behind the others. -/
theorem extends_append (m : Model) (components : List Component) (index : Keyed ComponentId)
    (analyses : List Analysis) : m.Extends ⟨m.components ++ components, index, m.analyses ++ analyses⟩ := by
  refine ⟨fun id c hc => ⟨c, ?_, .refl c⟩, fun id a ha => ⟨a, ?_, .refl a⟩⟩
  · exact (List.getElem?_append_left (List.getElem?_eq_some_iff.1 hc).1).trans hc
  · exact (List.getElem?_append_left (List.getElem?_eq_some_iff.1 ha).1).trans ha

theorem Step.extends {m m' : Model} (h : Step m m') : m.Extends m' := by
  cases h with
  | @component name _ =>
    have happend := m.extends_append [{ id := ⟨m.components.length⟩, name }]
      (m.index.put name ⟨m.components.length⟩) []
    rwa [List.append_nil] at happend
  | @call p c _ _ _ _ =>
    rw [addCall]
    refine (m.extends_updateComponent p fun caller => ?_).trans (extends_updateComponent _ c fun callee => ?_)
    · exact ⟨rfl, rfl, List.prefix_refl _, List.prefix_append .., List.prefix_refl _⟩
    · exact ⟨rfl, rfl, List.prefix_refl _, List.prefix_refl _, List.prefix_append ..⟩
  | @analysis owner concrete abstracted assumptions _ _ =>
    have happend := m.extends_append [] m.index
      [{ id := ⟨m.analyses.length⟩, owner, concrete, abstracted, assumptions }]
    rw [List.append_nil] at happend
    refine happend.trans (extends_updateComponent _ owner fun c => ?_)
    exact ⟨rfl, rfl, List.prefix_append .., List.prefix_refl _, List.prefix_refl _⟩
  | property _ =>
    exact m.extends_modifyAnalysis _ fun a =>
      ⟨rfl, rfl, rfl, rfl, rfl, List.prefix_append .., List.prefix_refl _⟩
  | postAnalysis _ =>
    exact m.extends_modifyAnalysis _ fun a =>
      ⟨rfl, rfl, rfl, rfl, rfl, List.prefix_refl _, List.prefix_append ..⟩

theorem Changed.extends {m m' : Model} (h : m.Changed m') (hwf : m.WellFormed) : m.Extends m' := by
  have hsteps := h.steps hwf
  clear h
  induction hsteps with
  | refl => exact .refl m
  | tail _ hlast ih => exact ih.trans hlast.extends

/-! ## What was found before -/

/-- A decoded property stays where it is. -/
theorem Extends.property? {m m' : Model} (h : m.Extends m') {ref : PropertyRef} {p : Property}
    (hp : m.property? ref = some p) : m'.property? ref = some p := by
  rw [Model.property?, Option.bind_eq_some_iff] at hp
  obtain ⟨a, ha, hp⟩ := hp
  obtain ⟨a', ha', hext⟩ := h.analysis _ a ha
  obtain ⟨later, hlater⟩ := hext.decoded
  rw [Model.property?, ha', Option.bind_some, Analysis.property?, ← hlater,
    List.getElem?_append_left (List.getElem?_eq_some_iff.1 hp).1]
  exact hp

theorem Extends.named {m m' : Model} (h : m.Extends m') {id : ComponentId} {name : String}
    (hn : m.Named id name) : m'.Named id name := by
  rw [Named, names_getElem?, Option.map_eq_some_iff] at hn ⊢
  obtain ⟨c, hc, rfl⟩ := hn
  obtain ⟨c', hc', hext⟩ := h.component id c hc
  exact ⟨c', hc', hext.name⟩

/-- A name keeps its component. -/
theorem Extends.componentId? {m m' : Model} (h : m.Extends m') (hwf : m.WellFormed) (hwf' : m'.WellFormed)
    {name : String} {id : ComponentId} (hid : m.componentId? name = some id) : m'.componentId? name = some id :=
  hwf'.index.2 (h.named (hwf.index.1 hid))

/-! ## Refusals -/

/-- Why a change is refused, if it is. -/
def refusal? (m : Model) : Change → Option ModelError
  | .addAnalysis _ _ => none
  | .addProperty id property =>
    match (m.addProperty id property).2 with
    | .ok _ => none
    | .error e => some e
  | .addChild parent child => (m.addChild parent child).2
  | .attachPostAnalysis id post => (m.attachPostAnalysis id post).2

/-- The changes that a model refuses: those of an analysis that it has not, and a call of a component by itself. -/
inductive Refuses (m : Model) : Change → ModelError → Prop
  | property {id : AnalysisId} {p : Property} : m.analyses.length ≤ id.index →
      Refuses m (.addProperty id p) (.unknownAnalysis id)
  | itself {name : String} : Refuses m (.addChild name name) (.selfEdge name)
  | postAnalysis {id : AnalysisId} {post : PostAnalysis} : m.analyses.length ≤ id.index →
      Refuses m (.attachPostAnalysis id post) (.unknownAnalysis id)

theorem refusal?_eq_some {m : Model} {c : Change} {e : ModelError} : m.refusal? c = some e ↔ m.Refuses c e := by
  cases c with
  | addAnalysis component context => exact ⟨fun h => (by cases h), fun h => (by cases h)⟩
  | addProperty id p =>
    rw [refusal?]
    rcases m.addProperty_cases id p with ⟨hge, heq⟩ | ⟨a, ha, heq⟩
    · rw [heq]
      constructor
      · rintro ⟨⟩
        exact .property hge
      · rintro ⟨⟩
        rfl
    · rw [heq]
      refine ⟨fun h => (by cases h), fun h => ?_⟩
      cases h with
      | property hle => exact absurd (List.getElem?_eq_some_iff.1 ha).1 (Nat.not_lt_of_le hle)
  | addChild parent child =>
    rw [refusal?]
    by_cases hne : parent = child
    · subst hne
      rw [addChild_self]
      constructor
      · rintro ⟨⟩
        exact .itself
      · rintro ⟨⟩
        rfl
    · obtain ⟨m', heq, -⟩ := m.addChild_ok hne
      rw [heq]
      refine ⟨fun h => (by cases h), fun h => ?_⟩
      cases h with
      | itself => exact absurd rfl hne
  | attachPostAnalysis id post =>
    rw [refusal?]
    rcases m.attachPostAnalysis_cases id post with ⟨hge, heq⟩ | ⟨hlt, heq⟩
    · rw [heq]
      constructor
      · rintro ⟨⟩
        exact .postAnalysis hge
      · rintro ⟨⟩
        rfl
    · rw [heq]
      refine ⟨fun h => (by cases h), fun h => ?_⟩
      cases h with
      | postAnalysis hle => exact absurd hlt (Nat.not_lt_of_le hle)

/-- The model that a refused change gives back is the one before: nothing was created, recorded or added. -/
theorem change_of_refused {m : Model} {c : Change} {e : ModelError} (h : m.refusal? c = some e) :
    m.change c = m := by
  cases c with
  | addAnalysis component context => cases h
  | addProperty id p =>
    rcases m.addProperty_cases id p with ⟨-, heq⟩ | ⟨a, -, heq⟩
    · rw [change, heq]
    · rw [refusal?, heq] at h
      cases h
  | addChild parent child =>
    by_cases hne : parent = child
    · subst hne
      rw [change, addChild_self]
    · obtain ⟨m', heq, -⟩ := m.addChild_ok hne
      rw [refusal?, heq] at h
      cases h
  | attachPostAnalysis id post =>
    rcases m.attachPostAnalysis_cases id post with ⟨-, heq⟩ | ⟨-, heq⟩
    · rw [change, heq]
    · rw [refusal?, heq] at h
      cases h

end Model

end Verdicts
