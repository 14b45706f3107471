/-
What advice on a component depends on. The findings about a component are read off its last two analyses, off how each
of its analyses treats subcomponents, and off the last analysis of each component that it calls (`SameEvidence`). A
property that is added to an analysis changes none of these for other components than the owner of the analysis and
its callers. Main statement: nor does it change the advice on them, and if two analyses of the owner stand behind the
analysis, it changes no advice at all (`advice_local`).
-/
import Verdicts.Proofs.Advice.Order
import Verdicts.Proofs.Result.ByName

namespace Verdicts

/-- How an analysis treats subcomponents: those that are concrete and those that are abstract. -/
def Analysis.treatment (a : Analysis) : List ComponentId × List ComponentId := (a.concrete, a.abstracted)

/-- Refined subcomponents are read off how the analyses treat them. -/
theorem refinedNames_congr (nameOf : ComponentId → String) {as bs : List Analysis}
    (h : as.map (·.treatment) = bs.map (·.treatment)) : refinedNames nameOf as = refinedNames nameOf bs := by
  have hnames : ∀ l : List Analysis, refinedNames nameOf l =
      (((l.map (·.treatment)).zip (l.map (·.treatment)).tail).reverse.flatMap
        fun step => step.1.2.filter (· ∈ step.2.1)).foldl
          (fun names id => if nameOf id ∈ names then names else names ++ [nameOf id]) [] := by
    intro l
    rw [← List.map_tail, List.zip_map, ← List.map_reverse, List.flatMap_map]
    rfl
  rw [hnames, hnames, h]

namespace Model

/-! ## What findings are read off -/

/-- `SameEvidence m m' id`: what the findings about a component are read off is the same in two models. -/
structure SameEvidence (m m' : Model) (id : ComponentId) : Prop where
  components : m'.components = m.components
  /-- The last two analyses of the component, the last one first. -/
  latest : (m'.analysesBy id).reverse.take 2 = (m.analysesBy id).reverse.take 2
  treatments : (m'.analysesBy id).map (·.treatment) = (m.analysesBy id).map (·.treatment)
  callees : ∀ child ∈ m.childrenOf id, m'.lastAnalysis? child = m.lastAnalysis? child

theorem nameOf_congr {m m' : Model} (h : m'.components = m.components) : m'.nameOf = m.nameOf := by
  funext id
  rw [nameOf, nameOf, component?, component?, h]

theorem childrenOf_congr {m m' : Model} (h : m'.components = m.components) : m'.childrenOf = m.childrenOf := by
  funext id
  rw [childrenOf, childrenOf, component?, component?, h]

theorem bottomUp_congr {m m' : Model} (h : m'.components = m.components) : m'.bottomUp = m.bottomUp := by
  rw [bottomUp, bottomUp, search, search, roots, roots, childrenOf_congr h, h]

/-- The last two analyses tell which of them count. -/
theorem WellFormed.latest_take {m : Model} (h : m.WellFormed) (id : ComponentId) :
    m.lastAnalysis? id = ((m.analysesBy id).reverse.take 2).head? ∧
      m.modeAnalysis? id = ((m.analysesBy id).reverse.take 2).tail.head?.filter (·.checksModes) := by
  obtain ⟨hlast, hmodes⟩ := h.latest id
  rw [hlast, hmodes]
  rcases (m.analysesBy id).reverse with _ | ⟨last, _ | ⟨previous, rest⟩⟩ <;> exact ⟨rfl, rfl⟩

section

variable {m m' : Model} {id : ComponentId}

theorem SameEvidence.lastAnalysis? (he : SameEvidence m m' id) (h : m.WellFormed) (h' : m'.WellFormed) :
    m'.lastAnalysis? id = m.lastAnalysis? id := by
  rw [(h.latest_take id).1, (h'.latest_take id).1, he.latest]

theorem SameEvidence.modeAnalysis? (he : SameEvidence m m' id) (h : m.WellFormed) (h' : m'.WellFormed) :
    m'.modeAnalysis? id = m.modeAnalysis? id := by
  rw [(h.latest_take id).2, (h'.latest_take id).2, he.latest]

theorem SameEvidence.unresolvedChildren (he : SameEvidence m m' id) :
    m'.unresolvedChildren id = m.unresolvedChildren id := by
  rw [Model.unresolvedChildren, Model.unresolvedChildren, childrenOf_congr he.components, nameOf_congr he.components]
  refine List.filterMap_congr fun child hchild => ?_
  rw [he.callees child hchild]

theorem SameEvidence.successFinding? (he : SameEvidence m m' id) (h : m.WellFormed) (h' : m'.WellFormed)
    (last : Analysis) : m'.successFinding? id last = m.successFinding? id last := by
  have hlength : (m'.analysesBy id).length = (m.analysesBy id).length := by
    rw [← List.length_map (·.treatment), he.treatments, List.length_map]
  have hrefined := refinedNames_congr m.nameOf he.treatments
  rw [Model.successFinding?, Model.successFinding?, h.analysesOf_eq, h'.analysesOf_eq, he.modeAnalysis? h h',
    nameOf_congr he.components, hlength, hrefined]

theorem SameEvidence.failureFinding (he : SameEvidence m m' id) (last : Analysis) :
    m'.failureFinding id last = m.failureFinding id last := by
  rw [Model.failureFinding, Model.failureFinding, nameOf_congr he.components, he.unresolvedChildren]

theorem SameEvidence.findings (he : SameEvidence m m' id) (h : m.WellFormed) (h' : m'.WellFormed) :
    m'.findings id = m.findings id := by
  rw [Model.findings, Model.findings, he.lastAnalysis? h h']
  simp only [primaryFinding?, he.successFinding? h h', he.failureFinding]

theorem SameEvidence.adviseOn (he : SameEvidence m m' id) (h : m.WellFormed) (h' : m'.WellFormed)
    (settings : DisplaySettings) : m'.adviseOn settings id = m.adviseOn settings id := by
  rw [Model.adviseOn, Model.adviseOn, he.findings h h', nameOf_congr he.components]

end

/-! ## One property more -/

/-- Where each item tells its position, changing the item at one position is changing those that tell it. -/
theorem modify_eq_map {α : Type} {l : List α} {index : α → Nat} (h : ∀ i x, l[i]? = some x → index x = i) (k : Nat)
    (f : α → α) : l.modify k f = l.map fun x => if index x = k then f x else x := by
  refine List.ext_getElem? fun i => ?_
  rw [List.getElem?_modify, List.getElem?_map]
  rcases hx : l[i]? with _ | x
  · rfl
  · have hi : index x = i := h i x hx
    by_cases hk : k = i
    · simp [hk, hi]
    · simp [hk, hi, Ne.symm hk]

section

variable {m m' : Model} {id : AnalysisId} {p : Property} {ref : PropertyRef}

/-- The analyses of a component, once a property was added to one. -/
theorem WellFormed.analysesBy_addProperty (h : m.WellFormed) (heq : m.addProperty id p = (m', .ok ref))
    (c : ComponentId) : m'.analysesBy c = (m.analysesBy c).map fun a => if a.id = id then a.push p else a := by
  have hindex : ∀ k (a : Analysis), m.analyses[k]? = some a → a.id.index = k := fun k a ha =>
    congrArg AnalysisId.index (h.analysis k a ha).id
  have hkey : ∀ a : Analysis, a.id.index = id.index ↔ a.id = id := fun a => by
    cases a.id
    cases id
    simp
  have howner : ∀ a : Analysis, (if a.id = id then a.push p else a).owner = a.owner := fun a => by
    split <;> rfl
  have hpushed : m'.analyses = m.analyses.map fun a => if a.id = id then a.push p else a := by
    rw [addProperty_eq heq]
    show m.analyses.modify id.index (·.push p) = _
    rw [modify_eq_map hindex]
    simp only [hkey]
  rw [analysesBy, analysesBy, hpushed, List.filter_map]
  simp only [Function.comp_def, howner]

theorem components_addProperty (heq : m.addProperty id p = (m', .ok ref)) : m'.components = m.components := by
  rw [addProperty_eq heq]

theorem WellFormed.treatments_addProperty (h : m.WellFormed) (heq : m.addProperty id p = (m', .ok ref))
    (c : ComponentId) : (m'.analysesBy c).map (·.treatment) = (m.analysesBy c).map (·.treatment) := by
  rw [h.analysesBy_addProperty heq, List.map_map]
  refine List.map_congr_left fun a _ => ?_
  rw [Function.comp_apply]
  split <;> rfl

/-- Where the analysis is not one of the last two of a component, these stay as they are. -/
theorem WellFormed.latest_addProperty (h : m.WellFormed) (heq : m.addProperty id p = (m', .ok ref))
    {c : ComponentId} (hold : ∀ a ∈ (m.analysesBy c).reverse.take 2, a.id ≠ id) :
    (m'.analysesBy c).reverse.take 2 = (m.analysesBy c).reverse.take 2 := by
  rw [h.analysesBy_addProperty heq, ← List.map_reverse, ← List.map_take]
  exact (List.map_congr_left fun a ha => if_neg (hold a ha)).trans (List.map_id' _)

theorem WellFormed.lastAnalysis?_addProperty (h : m.WellFormed) (heq : m.addProperty id p = (m', .ok ref))
    {c : ComponentId} (hold : ∀ a ∈ m.lastAnalysis? c, a.id ≠ id) : m'.lastAnalysis? c = m.lastAnalysis? c := by
  have hmap : m'.lastAnalysis? c = (m.lastAnalysis? c).map fun a => if a.id = id then a.push p else a := by
    rw [(h.latest c).1, ((h.addProperty heq).latest c).1, h.analysesBy_addProperty heq, ← List.map_reverse,
      List.head?_map]
  rw [hmap]
  rcases hlast : m.lastAnalysis? c with _ | a
  · rfl
  · rw [Option.map_some, if_neg (hold a hlast)]

/-- A property that is added to none of the analyses that findings are read off leaves the evidence as it is. -/
theorem WellFormed.sameEvidence_addProperty (h : m.WellFormed) (heq : m.addProperty id p = (m', .ok ref))
    {c : ComponentId} (hown : ∀ a ∈ (m.analysesBy c).reverse.take 2, a.id ≠ id)
    (hcallees : ∀ child ∈ m.childrenOf c, ∀ a ∈ m.lastAnalysis? child, a.id ≠ id) : SameEvidence m m' c where
  components := components_addProperty heq
  latest := h.latest_addProperty heq hown
  treatments := h.treatments_addProperty heq c
  callees := fun child hchild => h.lastAnalysis?_addProperty heq (hcallees child hchild)

end

/-- One of the last two items. -/
theorem mem_take_two_reverse {α : Type} {l : List α} {x : α} (h : x ∈ l.reverse.take 2) :
    (∃ earlier, l = earlier ++ [x]) ∨ ∃ earlier last, l = earlier ++ [x, last] := by
  rcases List.eq_nil_or_concat' l with rfl | ⟨front, last, rfl⟩
  · cases h
  · rcases List.eq_nil_or_concat' front with rfl | ⟨earlier, previous, rfl⟩
    · obtain rfl : x = last := by simpa using h
      exact .inl ⟨[], rfl⟩
    · obtain rfl | rfl : x = last ∨ x = previous := by simpa using h
      · exact .inl ⟨_, rfl⟩
      · exact .inr ⟨earlier, last, by simp⟩

/-- On every model that changes have made: a property can be added to any analysis, and the components are advised on
in the same order as before. The advice on a component is the same, unless the component owns the analysis or calls
its owner. If the analysis is neither the last of its owner nor the last but one, all advice is the same. -/
theorem advice_local (changes : List Change) (settings : DisplaySettings) :
    let m := ofChanges changes
    ∀ a ∈ m.analyses, ∀ p, ∃ m' ref, m.addProperty a.id p = (m', .ok ref) ∧ m'.bottomUp = m.bottomUp ∧
      (∀ c ∈ m.components, c.id ≠ a.owner → a.owner ∉ m.childrenOf c.id →
        (m'.freeze.advise settings).filter (·.component = c.name) =
          (m.freeze.advise settings).filter (·.component = c.name)) ∧
      (¬m.IsLast a.owner a → (¬∃ earlier last, m.analysesBy a.owner = earlier ++ [a, last]) →
        m'.freeze.advise settings = m.freeze.advise settings) := by
  intro m a ha p
  have h : m.WellFormed := wellFormed_ofChanges changes
  obtain ⟨m', ref, heq, -⟩ := addProperty_ok (List.getElem?_eq_some_iff.1 (h.analysis?_id ha)).1 p
  have h' : m'.WellFormed := h.addProperty heq
  have horder : m'.bottomUp = m.bottomUp := bottomUp_congr (components_addProperty heq)
  -- an analysis of the same handle is the same one
  have hself : ∀ {c b}, b ∈ m.analysesBy c → b.id = a.id → b = a ∧ c = a.owner := by
    intro c b hb hid
    obtain ⟨hmem, rfl⟩ := mem_analysesBy.1 hb
    obtain rfl := h.analysis_inj hmem ha hid
    exact ⟨rfl, rfl⟩
  have hlast : ∀ {c b}, b ∈ m.lastAnalysis? c → b ∈ m.analysesBy c := fun hb =>
    mem_analysesBy.2 (h.lastAnalysis?_eq_some.1 hb).mem
  have htake : ∀ {c b}, b ∈ (m.analysesBy c).reverse.take 2 → b ∈ m.analysesBy c := fun hb =>
    List.mem_reverse.1 (List.mem_of_mem_take hb)
  refine ⟨m', ref, heq, horder, fun c hc hne hcalls => ?_, fun hnotLast hnotPrevious => ?_⟩
  · have he : SameEvidence m m' c.id := by
      refine h.sameEvidence_addProperty heq (fun b hb hid => ?_) fun child hchild b hb hid => ?_
      · exact hne (hself (htake hb) hid).2
      · exact hcalls ((hself (hlast hb) hid).2 ▸ hchild)
    have hc' : c ∈ m'.components := components_addProperty heq ▸ hc
    calc (m'.freeze.advise settings).filter (·.component = c.name)
      _ = m'.adviseOn settings c.id := h'.filter_advise settings hc'
      _ = m.adviseOn settings c.id := he.adviseOn h h' settings
      _ = (m.freeze.advise settings).filter (·.component = c.name) := (h.filter_advise settings hc).symm
  · have he : ∀ id, SameEvidence m m' id := by
      refine fun id => h.sameEvidence_addProperty heq (fun b hb hid => ?_) fun child _ b hb hid => ?_
      · obtain ⟨rfl, rfl⟩ := hself (htake hb) hid
        rcases mem_take_two_reverse hb with hfirst | hsecond
        · exact hnotLast hfirst
        · exact hnotPrevious hsecond
      · obtain ⟨rfl, rfl⟩ := hself (hlast hb) hid
        exact hnotLast (h.lastAnalysis?_eq_some.1 hb)
    show m'.bottomUp.flatMap (m'.adviseOn settings) = m.bottomUp.flatMap (m.adviseOn settings)
    rw [horder]
    exact List.flatMap_congr fun id _ => (he id).adviseOn h h' settings

/-- A component that fails, with a subcomponent that was analyzed three times, and a component beside them. -/
def failingCaller : List Change :=
  [.addChild "Top" "Sub", .addAnalysis "Sub" {}, .addAnalysis "Sub" {}, .addAnalysis "Sub" {},
    .addAnalysis "Top" {},
    .addProperty ⟨3⟩ { name := "g", scope := "Top", origin := .guarantee, answer := .falsifiable },
    .addAnalysis "Other" {}]

/-- A property that is falsified in the first analysis of the subcomponent changes no advice. In the last, it changes
that on the subcomponent and on its caller, and not that on the other component. -/
theorem advice_local_failingCaller :
    let m := ofChanges failingCaller
    let p : Property := { name := "f", scope := "Sub", origin := .guarantee, answer := .falsifiable }
    (∃ m' ref, m.addProperty ⟨0⟩ p = (m', .ok ref) ∧ m'.freeze.advise {} = m.freeze.advise {}) ∧
      ∃ m' ref, m.addProperty ⟨2⟩ p = (m', .ok ref) ∧
        (m'.freeze.advise {}).filter (·.component = "Sub") ≠ (m.freeze.advise {}).filter (·.component = "Sub") ∧
        (m'.freeze.advise {}).filter (·.component = "Top") ≠ (m.freeze.advise {}).filter (·.component = "Top") ∧
        (m'.freeze.advise {}).filter (·.component = "Other") = (m.freeze.advise {}).filter (·.component = "Other") := by
  intro m p
  constructor
  · obtain ⟨a, ha, hid, hids⟩ : ∃ a ∈ m.analyses, a.id = ⟨0⟩ ∧
        (m.analysesBy a.owner).map (·.id) = [⟨0⟩, ⟨1⟩, ⟨2⟩] := by
      decide +kernel
    obtain ⟨m', ref, heq, -, -, hsame⟩ := advice_local failingCaller {} a ha p
    refine ⟨m', ref, hid ▸ heq, hsame ?_ ?_⟩
    · rintro ⟨earlier, hby⟩
      have hsplit : earlier.map (·.id) ++ [a.id] = [⟨0⟩, ⟨1⟩] ++ [⟨2⟩] := by
        rw [hby, List.map_append] at hids
        exact hids
      obtain ⟨-, hlast⟩ := List.append_inj' hsplit rfl
      simp [hid] at hlast
    · rintro ⟨earlier, last, hby⟩
      have hsplit : earlier.map (·.id) ++ [a.id, last.id] = [⟨0⟩] ++ [⟨1⟩, ⟨2⟩] := by
        rw [hby, List.map_append] at hids
        exact hids
      obtain ⟨-, hprevious⟩ := List.append_inj' hsplit rfl
      simp [hid] at hprevious
  · obtain ⟨a, ha, hid, c, hc, hname, hne, hcalls⟩ : ∃ a ∈ m.analyses, a.id = ⟨2⟩ ∧ ∃ c ∈ m.components,
        c.name = "Other" ∧ c.id ≠ a.owner ∧ a.owner ∉ m.childrenOf c.id := by
      decide +kernel
    have hchanged :
        ((m.addProperty ⟨2⟩ p).1.freeze.advise {}).filter (·.component = "Sub") ≠
          (m.freeze.advise {}).filter (·.component = "Sub") ∧
        ((m.addProperty ⟨2⟩ p).1.freeze.advise {}).filter (·.component = "Top") ≠
          (m.freeze.advise {}).filter (·.component = "Top") := by
      decide +kernel
    obtain ⟨m', ref, heq, -, hothers, -⟩ := advice_local failingCaller {} a ha p
    rw [hid] at heq
    rw [heq] at hchanged
    obtain ⟨hsub, htop⟩ := hchanged
    exact ⟨m', ref, heq, hsub, htop, hname ▸ hothers c hc hne hcalls⟩

end Model

end Verdicts
