/-
In which order components are advised on. Main statement: on every model the search ends, each component
is advised on once, and all suggestions on a component stand behind all of those on the components that
it calls, unless these call it back; in a call graph without cycles they always do.
-/
import Verdicts.Advice.Suggestion
import Verdicts.Proofs.Result.Lookup

namespace Verdicts

namespace Model

open Search (Reaches CalleesFirst)

/-! ## The order of components -/

theorem WellFormed.mem_bottomUp {m : Model} (h : m.WellFormed) {id : ComponentId} :
    id ∈ m.bottomUp ↔ id ∈ m.handles := by
  have hvisits := h.visits_search (m.roots.map (·.id) ++ m.handles)
  rw [bottomUp, show m.components.map (·.id) = m.handles from rfl, hvisits.left_perm.mem_iff,
    hvisits.entered_iff]
  constructor
  · rintro ⟨start, hstart, hpath⟩
    induction hpath with
    | refl =>
      rcases List.mem_append.1 hstart with hroot | hstart
      · obtain ⟨c, hc, rfl⟩ := List.mem_map.1 hroot
        exact List.mem_map_of_mem (List.mem_of_mem_filter hc)
      · exact hstart
    | tail _ hcall _ => exact h.childrenOf_subset _ hcall
  · intro hid
    exact ⟨id, List.mem_append_right _ hid, .refl⟩

theorem WellFormed.bottomUp_nodup {m : Model} (h : m.WellFormed) : m.bottomUp.Nodup :=
  (h.visits_search _).left_nodup

/-- Every component comes up once. -/
theorem WellFormed.bottomUp_perm {m : Model} (h : m.WellFormed) : m.bottomUp.Perm m.handles :=
  (List.perm_ext_iff_of_nodup h.bottomUp_nodup h.handles_nodup).2 fun _ => h.mem_bottomUp

/-- A list that has callees first never has a caller in front of one of its callees. -/
theorem pairwise_of_calleesFirst {next : ComponentId → List ComponentId} {ids : List ComponentId}
    (hfirst : CalleesFirst next ids) (hnodup : ids.Nodup) {p c : ComponentId} (hcall : c ∈ next p)
    (hback : ¬Reaches next c p) : ids.Pairwise fun a b => ¬(a = p ∧ b = c) := by
  rw [List.pairwise_iff_getElem]
  rintro i j hi hj hlt ⟨hp, hc⟩
  have hsplit : ids = ids.take i ++ p :: ids.drop (i + 1) := by
    rw [← hp, ← List.drop_eq_getElem_cons hi, List.take_append_drop]
  have hmem : c ∈ ids.take i := (hfirst _ _ _ hsplit c hcall).resolve_right hback
  obtain ⟨k, hk, hkc⟩ := List.getElem_of_mem hmem
  rw [List.length_take] at hk
  rw [List.getElem_take] at hkc
  have hkj : k = j := (hnodup.getElem_inj_iff).1 (hkc.trans hc.symm)
  omega

/-! ## The order of suggestions -/

theorem component_of_mem_adviseOn {m : Model} {settings : DisplaySettings} {id : ComponentId}
    {s : Suggestion} (h : s ∈ m.adviseOn settings id) : s.component = m.nameOf id := by
  obtain ⟨f, -, rfl⟩ := List.mem_map.1 h
  rfl

/-- All advice is on components of the model. -/
theorem WellFormed.component_of_mem_advise {m : Model} (h : m.WellFormed) {settings : DisplaySettings}
    {s : Suggestion} (hs : s ∈ m.freeze.advise settings) : s.component ∈ m.names := by
  obtain ⟨id, hid, hs⟩ := List.mem_flatMap.1 hs
  obtain ⟨c, hc, rfl⟩ := List.mem_map.1 (h.mem_bottomUp.1 hid)
  have hname := (component_of_mem_adviseOn hs).trans (h.nameOf_id hc)
  exact hname ▸ List.mem_map_of_mem hc

/-- Components are told apart by their names. -/
theorem WellFormed.nameOf_inj {m : Model} (h : m.WellFormed) {a b : ComponentId} (ha : a ∈ m.handles)
    (hb : b ∈ m.handles) (hname : m.nameOf a = m.nameOf b) : a = b := by
  obtain ⟨c, hc, rfl⟩ := List.mem_map.1 ha
  obtain ⟨d, hd, rfl⟩ := List.mem_map.1 hb
  rw [h.nameOf_id hc, h.nameOf_id hd] at hname
  exact h.named_inj (h.named_id hc) (hname ▸ h.named_id hd)

/-- No suggestion on the first component stands in front of one on the second. -/
def Behind (suggestions : List Suggestion) (first second : String) : Prop :=
  suggestions.Pairwise fun earlier later => ¬(earlier.component = first ∧ later.component = second)

theorem WellFormed.advise_behind {m : Model} (h : m.WellFormed) (settings : DisplaySettings)
    {p c : ComponentId} (hcall : c ∈ m.childrenOf p) (hback : ¬Reaches m.childrenOf c p) :
    Behind (m.advise settings) (m.nameOf p) (m.nameOf c) := by
  have hc : c ∈ m.handles := h.childrenOf_subset p hcall
  have hp : p ∈ m.handles := h.mem_handles.2 (h.lt_of_call hcall).1
  have hne : m.nameOf p ≠ m.nameOf c := by
    intro heq
    have heq := h.nameOf_inj hp hc heq
    exact h.not_mem_childrenOf p (heq ▸ hcall)
  rw [Behind, advise, List.pairwise_flatMap]
  constructor
  · intro id _
    -- all suggestions of one part are on one component
    refine List.pairwise_iff_getElem.2 fun i j hi hj _ hnames => hne ?_
    rw [component_of_mem_adviseOn (List.getElem_mem hi), component_of_mem_adviseOn (List.getElem_mem hj)]
      at hnames
    exact hnames.1.symm.trans hnames.2
  · have horder := pairwise_of_calleesFirst (h.visits_search _).calleesFirst h.bottomUp_nodup hcall hback
    refine horder.imp_of_mem fun {a b} ha hb hnot s hs t ht hnames => hnot ?_
    rw [component_of_mem_adviseOn hs, component_of_mem_adviseOn ht] at hnames
    exact ⟨h.nameOf_inj (h.mem_bottomUp.1 ha) hp hnames.1, h.nameOf_inj (h.mem_bottomUp.1 hb) hc hnames.2⟩

/-- Of a list put together from parts, the items with a property are one part, if it is that of the items
of the part. -/
theorem filter_flatMap_of_nodup {α β : Type} {l : List α} {f : α → List β} {q : β → Bool} {x : α}
    (hnodup : l.Nodup) (hx : x ∈ l) (hq : ∀ y ∈ l, ∀ b ∈ f y, q b = true ↔ y = x) :
    (l.flatMap f).filter q = f x := by
  obtain ⟨front, back, rfl⟩ := List.append_of_mem hx
  obtain ⟨-, hback, hfront⟩ := List.nodup_append.1 hnodup
  have hall : (f x).filter q = f x := List.filter_eq_self.2 fun b hb => (hq x hx b hb).2 rfl
  have hnone : ∀ y ∈ front ++ x :: back, y ≠ x → (f y).filter q = [] := fun y hy hne =>
    List.filter_eq_nil_iff.2 fun b hb htrue => hne ((hq y hy b hb).1 htrue)
  have hfrontNil : front.flatMap (fun y => (f y).filter q) = [] :=
    List.flatMap_eq_nil_iff.2 fun y hy =>
      hnone y (List.mem_append_left _ hy) (hfront y hy x (List.mem_cons_self ..))
  have hbackNil : back.flatMap (fun y => (f y).filter q) = [] :=
    List.flatMap_eq_nil_iff.2 fun y hy => by
      refine hnone y (List.mem_append_right _ (List.mem_cons_of_mem _ hy)) ?_
      rintro rfl
      exact (List.nodup_cons.1 hback).1 hy
  rw [List.filter_flatMap, List.flatMap_append, List.flatMap_cons, hfrontNil, hbackNil, hall,
    List.nil_append, List.append_nil]

/-- The suggestions with the name of a component are those on that component. -/
theorem WellFormed.filter_advise {m : Model} (h : m.WellFormed) (settings : DisplaySettings) {c : Component}
    (hc : c ∈ m.components) :
    (m.advise settings).filter (·.component = c.name) = m.adviseOn settings c.id := by
  have hmem : c.id ∈ m.handles := List.mem_map_of_mem hc
  refine filter_flatMap_of_nodup h.bottomUp_nodup (h.mem_bottomUp.2 hmem) fun id hid s hs => ?_
  rw [decide_eq_true_eq, component_of_mem_adviseOn hs, ← h.nameOf_id hc]
  exact ⟨h.nameOf_inj (h.mem_bottomUp.1 hid) hmem, fun heq => heq ▸ rfl⟩

/-- The advice on every model that changes have made: the search ends, in one way; each component is
advised on once; no suggestion on a component stands in front of one on a component that it calls, unless a
path of calls leads back from there; and where no path leads from a component to itself, none ever does. -/
theorem advise_callees_first (changes : List Change) (settings : DisplaySettings) :
    let m := ofChanges changes
    let calls : ComponentId → ComponentId → Prop := fun caller callee => callee ∈ m.childrenOf caller
    (∃ s, (∀ s', Search.Visits m.childrenOf {} (m.roots.map (·.id) ++ m.components.map (·.id)) s' ↔ s' = s) ∧
        s.left = m.bottomUp) ∧
      m.freeze.advise settings = m.bottomUp.flatMap (m.adviseOn settings) ∧
      m.bottomUp.Perm (m.components.map (·.id)) ∧ m.bottomUp.Nodup ∧
      (∀ p c, calls p c → ¬Relation.TransGen calls c p →
        Behind (m.freeze.advise settings) (m.nameOf p) (m.nameOf c)) ∧
      ((∀ id, ¬Relation.TransGen calls id id) → ∀ p c, calls p c →
        Behind (m.freeze.advise settings) (m.nameOf p) (m.nameOf c)) := by
  intro m calls
  have h : m.WellFormed := wellFormed_ofChanges changes
  have hbehind : ∀ p c, calls p c → ¬Relation.TransGen calls c p →
      Behind (m.freeze.advise settings) (m.nameOf p) (m.nameOf c) := by
    intro p c hcall hback
    refine h.advise_behind settings hcall fun hpath => ?_
    rcases Relation.reflTransGen_iff_eq_or_transGen.1 hpath with rfl | hpath
    · exact h.not_mem_childrenOf p hcall
    · exact hback hpath
  refine ⟨⟨_, h.visits_search_iff _, rfl⟩, rfl, h.bottomUp_perm, h.bottomUp_nodup, hbehind, ?_⟩
  intro hacyclic p c hcall
  exact hbehind p c hcall fun hback => hacyclic p (.head hcall hback)

end Model

end Verdicts
