/-
How changes let a model grow. Only the start of an analysis adds one, at the end and under the handle
that it returns; and a change that is about a handle in range, or an edge between two names that
differ, is never refused. What a change does that can be refused is said here for both cases, with the model
that the caller is left with.
-/
import Verdicts.Result.Model

namespace Verdicts

namespace Model

/-! ## Components -/

@[simp] theorem intern_analyses (m : Model) (name : String) : (m.intern name).1.analyses = m.analyses := by
  unfold intern
  split <;> rfl

@[simp] theorem internAll_analyses (m : Model) :
    ∀ names : List String, (m.internAll names).1.analyses = m.analyses
  | [] => rfl
  | name :: rest => by
    rw [← intern_analyses m name]
    exact internAll_analyses (m.intern name).1 rest

@[simp] theorem updateComponent_analyses (m : Model) (id : ComponentId) (f : Component → Component) :
    (m.updateComponent id f).analyses = m.analyses := rfl

/-- A component is not recorded as its own callee, and nothing is created for it. -/
theorem addChild_self (m : Model) (name : String) : m.addChild name name = (m, some (.selfEdge name)) :=
  if_pos rfl

/-- An edge between two names that differ is recorded. -/
theorem addChild_ok (m : Model) {parent child : String} (h : parent ≠ child) :
    ∃ m', m.addChild parent child = (m', none) ∧ m'.analyses = m.analyses := by
  simp only [addChild, h, if_false]
  split
  · exact ⟨_, rfl, by simp only [intern_analyses]⟩
  · exact ⟨_, rfl, by simp only [updateComponent_analyses, intern_analyses]⟩

/-! ## Analyses -/

/-- The handle of a new analysis is the next that is free. -/
theorem addAnalysis_id (m : Model) (name : String) (context : AnalysisContext) :
    (m.addAnalysis name context).2 = ⟨m.analyses.length⟩ := by
  simp only [addAnalysis, internAll_analyses, intern_analyses]

theorem addAnalysis_length (m : Model) (name : String) (context : AnalysisContext) :
    (m.addAnalysis name context).1.analyses.length = m.analyses.length + 1 := by
  simp only [addAnalysis, updateComponent_analyses, List.length_append, internAll_analyses, intern_analyses,
    List.length_singleton]

theorem analysis?_of_lt {m : Model} {id : AnalysisId} (h : id.index < m.analyses.length) :
    ∃ a, m.analysis? id = some a :=
  ⟨m.analyses[id.index], List.getElem?_eq_getElem h⟩

theorem analysis?_of_le {m : Model} {id : AnalysisId} (h : m.analyses.length ≤ id.index) :
    m.analysis? id = none :=
  List.getElem?_eq_none h

/-- A property goes behind the others of an analysis that there is; for another handle nothing changes. -/
theorem addProperty_cases (m : Model) (id : AnalysisId) (p : Property) :
    m.analyses.length ≤ id.index ∧ m.addProperty id p = (m, .error (.unknownAnalysis id)) ∨
      ∃ a, m.analysis? id = some a ∧ m.addProperty id p =
        ({ m with analyses := m.analyses.modify id.index (·.push p) }, .ok ⟨id, a.decoded.length⟩) := by
  rcases Nat.lt_or_ge id.index m.analyses.length with hlt | hge
  · obtain ⟨a, ha⟩ := analysis?_of_lt hlt
    exact .inr ⟨a, ha, by rw [addProperty, ha]⟩
  · exact .inl ⟨hge, by rw [addProperty, analysis?_of_le hge]⟩

/-- A post-analysis goes behind the others of an analysis that there is; for another handle nothing changes. -/
theorem attachPostAnalysis_cases (m : Model) (id : AnalysisId) (post : PostAnalysis) :
    m.analyses.length ≤ id.index ∧ m.attachPostAnalysis id post = (m, some (.unknownAnalysis id)) ∨
      id.index < m.analyses.length ∧ m.attachPostAnalysis id post =
        ({ m with analyses := m.analyses.modify id.index (·.pushPostAnalysis post) }, none) := by
  rcases Nat.lt_or_ge id.index m.analyses.length with hlt | hge
  · obtain ⟨a, ha⟩ := analysis?_of_lt hlt
    exact .inr ⟨hlt, by rw [attachPostAnalysis, ha]⟩
  · exact .inl ⟨hge, by rw [attachPostAnalysis, analysis?_of_le hge]⟩

/-- A property is added to any analysis there is. -/
theorem addProperty_ok {m : Model} {id : AnalysisId} (h : id.index < m.analyses.length) (p : Property) :
    ∃ m' ref, m.addProperty id p = (m', .ok ref) ∧ m'.analyses.length = m.analyses.length := by
  rcases m.addProperty_cases id p with ⟨hge, -⟩ | ⟨a, -, heq⟩
  · omega
  · exact ⟨_, _, heq, List.length_modify ..⟩

/-- A post-analysis is added to any analysis there is. -/
theorem attachPostAnalysis_ok {m : Model} {id : AnalysisId} (h : id.index < m.analyses.length)
    (post : PostAnalysis) :
    ∃ m', m.attachPostAnalysis id post = (m', none) ∧ m'.analyses.length = m.analyses.length := by
  rcases m.attachPostAnalysis_cases id post with ⟨hge, -⟩ | ⟨-, heq⟩
  · omega
  · exact ⟨_, heq, List.length_modify ..⟩

/-- What a property added to an analysis leaves behind. -/
theorem addProperty_eq {m m' : Model} {id : AnalysisId} {p : Property} {ref : PropertyRef}
    (h : m.addProperty id p = (m', .ok ref)) :
    m' = { m with analyses := m.analyses.modify id.index (·.push p) } := by
  rcases m.addProperty_cases id p with ⟨-, heq⟩ | ⟨a, -, heq⟩
  · rw [heq] at h
    cases h
  · rw [heq] at h
    cases h
    rfl

/-- What a post-analysis added to an analysis leaves behind. -/
theorem attachPostAnalysis_eq {m m' : Model} {id : AnalysisId} {post : PostAnalysis}
    (h : m.attachPostAnalysis id post = (m', none)) :
    m' = { m with analyses := m.analyses.modify id.index (·.pushPostAnalysis post) } := by
  rcases m.attachPostAnalysis_cases id post with ⟨-, heq⟩ | ⟨-, heq⟩
  · rw [heq] at h
    cases h
  · rw [heq] at h
    cases h
    rfl

end Model

end Verdicts
