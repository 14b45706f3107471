/-
Callees by name. Which components a component calls, and in which order these calls were recorded, is told by
`calleeNames` without handles. Main statement: a call that is recorded enters the name of the callee behind those of
the others, unless it is among them, and the callees of other components stay as they are (`calleeNames_addChild`).
-/
import Verdicts.Proofs.Result.ByName

namespace Verdicts

namespace Model

/-- The names of the components that the component of a name calls, in the order in which the calls were
recorded. -/
def calleeNames (m : Model) (name : String) : List String :=
  match m.componentId? name with
  | some id => (m.childrenOf id).map m.nameOf
  | none => []

/-- Put a name behind others, unless it is among them. -/
def enterName (names : List String) (name : String) : List String :=
  if name ∈ names then names else names ++ [name]

theorem WellFormed.calleeNames_eq {m : Model} (h : m.WellFormed) {id : ComponentId} {name : String}
    (hid : m.Named id name) : m.calleeNames name = (m.childrenOf id).map m.nameOf := by
  rw [calleeNames, h.index.2 hid]

theorem WellFormed.named_childrenOf {m : Model} (h : m.WellFormed) {id : ComponentId} {name : String}
    (hid : m.Named id name) : List.Forall₂ m.Named (m.childrenOf id) (m.calleeNames name) := by
  rw [h.calleeNames_eq hid, List.forall₂_map_right_iff, List.forall₂_same]
  exact fun callee hcallee => named_nameOf (h.lt_of_call hcallee).2

theorem WellFormed.calleeNames_of_not_mem {m : Model} (h : m.WellFormed) {name : String} (hname : name ∉ m.names) :
    m.calleeNames name = [] := by
  rw [calleeNames, h.componentId?_eq_none.2 hname]

/-- Components that are added call nothing and change no callees. -/
theorem WellFormed.calleeNames_of_prefix {m m' : Model} (h : m.WellFormed) (h' : m'.WellFormed)
    (hp : m.names <+: m'.names) (hcalls : ∀ id, m'.childrenOf id = m.childrenOf id) (name : String) :
    m'.calleeNames name = m.calleeNames name := by
  by_cases hname : name ∈ m.names
  · obtain ⟨id, hid⟩ := exists_named hname
    rw [h.calleeNames_eq hid, h'.calleeNames_eq (hid.mono hp), hcalls]
    refine List.map_congr_left fun callee hcallee => ?_
    exact ((named_nameOf (h.lt_of_call hcallee).2).mono hp).nameOf
  · rw [h.calleeNames_of_not_mem hname]
    by_cases hnew : name ∈ m'.names
    · obtain ⟨id, hid⟩ := exists_named hnew
      rw [h'.calleeNames_eq hid, hcalls, List.map_eq_nil_iff, List.eq_nil_iff_forall_not_mem]
      -- a caller would be a component of the smaller model already
      intro callee hcallee
      exact hname (hid.of_prefix hp (h.lt_of_call hcallee).1).mem
    · exact h'.calleeNames_of_not_mem hnew

theorem WellFormed.calleeNames_addCall {m : Model} (h : m.WellFormed) {p c : ComponentId}
    {parent child : String} (hparent : m.Named p parent) (hchild : m.Named c child) (hne' : c ≠ p)
    (name : String) :
    (m.addCall p c).calleeNames name =
      m.calleeNames name ++ if name = parent then [child] else [] := by
  have hnames := m.names_addCall p c
  have hnameOf : (m.addCall p c).nameOf = m.nameOf := by
    funext id
    rw [nameOf_eq, nameOf_eq, hnames]
  by_cases hname : name ∈ m.names
  · obtain ⟨id, hid⟩ := exists_named hname
    have hid' : (m.addCall p c).Named id name := by rwa [Named, hnames]
    have hiff : id = p ↔ name = parent := by
      constructor
      · rintro rfl
        exact hid.unique hparent
      · rintro rfl
        exact h.named_inj hid hparent
    rw [h.calleeNames_eq hid, (h.addCall hchild.lt hne').calleeNames_eq hid', hnameOf,
      childrenOf_addCall hparent.lt, List.map_append]
    by_cases heq : name = parent
    · rw [if_pos heq, if_pos (hiff.2 heq), List.map_singleton, hchild.nameOf]
    · rw [if_neg heq, if_neg (mt hiff.1 heq), List.map_nil]
  · have hne : name ≠ parent := by
      rintro rfl
      exact hname hparent.mem
    rw [if_neg hne, List.append_nil, h.calleeNames_of_not_mem hname]
    exact (h.addCall hchild.lt hne').calleeNames_of_not_mem (hnames ▸ hname)

/-- A call that is recorded enters the name of the callee among those of its caller. -/
theorem WellFormed.calleeNames_addChild {m m' : Model} (h : m.WellFormed) {parent child : String}
    (hok : m.addChild parent child = (m', none)) (name : String) :
    m'.calleeNames name = if name = parent then enterName (m.calleeNames name) child else m.calleeNames name := by
  by_cases hne : parent = child
  · subst hne
    rw [addChild_self] at hok
    cases hok
  · obtain ⟨m₁, p, c, hintern, heq⟩ := m.addChild_eq hne
    have hwf := h.internAll [parent, child]
    have hsame := h.calleeNames_of_prefix hwf (m.prefix_internAll _) (m.childrenOf_internAll _)
    have hnamed := h.named_internAll [parent, child]
    rw [hintern] at hwf hsame hnamed
    obtain ⟨hparent, hrest⟩ := List.forall₂_cons.1 hnamed
    obtain ⟨hchild, -⟩ := List.forall₂_cons.1 hrest
    have hknown : c ∈ m₁.childrenOf p ↔ child ∈ m₁.calleeNames parent := by
      rw [hwf.calleeNames_eq hparent, List.mem_map]
      constructor
      · exact fun hc => ⟨c, hc, hchild.nameOf⟩
      · rintro ⟨d, hd, rfl⟩
        rwa [hwf.named_inj hchild (named_nameOf (hwf.lt_of_call hd).2)]
    have hdistinct : c ≠ p := by
      rintro rfl
      exact hne (hparent.unique hchild)
    rw [heq] at hok
    cases hok
    rw [← hsame name, enterName]
    split
    · rename_i hmem
      split
      · rename_i hname
        rw [hname, if_pos (hknown.1 hmem)]
      · rfl
    · rename_i hnew
      rw [hwf.calleeNames_addCall hparent hchild hdistinct]
      split
      · rename_i hname
        rw [hname, if_neg (mt hknown.2 hnew)]
      · rw [List.append_nil]

/-- The start of an analysis changes no callees. -/
theorem WellFormed.calleeNames_addAnalysis {m : Model} (h : m.WellFormed) (top : String)
    (context : AnalysisContext) (name : String) :
    (m.addAnalysis top context).1.calleeNames name = m.calleeNames name := by
  obtain ⟨a, hadded⟩ := addAnalysis_added h top context
  exact h.calleeNames_of_prefix hadded.wellFormed hadded.names hadded.calls name

end Model

end Verdicts
