/-
What holds of every model that the four changes make, whether they succeed or are refused. Names are
distinct, the index leads from each of them to the component that carries it and from no other name to any, a
component or analysis carries the handle of its position, a component lists its own analyses in the order in
which they were started, handles of callees are in range, and the ledger of each analysis is that of its
properties. `WellFormed` says so; each change keeps it, and `wellFormed_ofChanges` carries it over any sequence
of changes.

Beside it stands what each change does to the names, to the calls and to the analyses, so that nothing
below has to open a change again.
-/
import Verdicts.Proofs.Result.Attempts
import Verdicts.Proofs.Result.Growth
import Verdicts.Proofs.Text.Keyed
import Mathlib.Data.List.Forall2

namespace Verdicts

namespace Model

/-! ## Views -/

/-- The names of the components, in order of creation. -/
def names (m : Model) : List String := m.components.map (·.name)

/-- A handle is that of the component of a name. -/
def Named (m : Model) (id : ComponentId) (name : String) : Prop := m.names[id.index]? = some name

/-- The component of one name calls that of another. -/
def Calls (m : Model) (caller callee : String) : Prop :=
  ∃ p c, m.Named p caller ∧ m.Named c callee ∧ c ∈ m.childrenOf p

/-- The analyses of a component, read off the analyses alone. -/
def analysesBy (m : Model) (id : ComponentId) : List Analysis := m.analyses.filter (·.owner = id)

theorem names_getElem? (m : Model) (i : Nat) : m.names[i]? = m.components[i]?.map (·.name) :=
  List.getElem?_map ..

theorem Named.lt {m : Model} {id : ComponentId} {name : String} (h : m.Named id name) :
    id.index < m.components.length := by
  obtain ⟨hlt, -⟩ := List.getElem?_eq_some_iff.1 h
  rwa [names, List.length_map] at hlt

theorem Named.mem {m : Model} {id : ComponentId} {name : String} (h : m.Named id name) : name ∈ m.names :=
  List.mem_of_getElem? h

theorem exists_named {m : Model} {name : String} (h : name ∈ m.names) : ∃ id, m.Named id name := by
  obtain ⟨i, hi⟩ := List.mem_iff_getElem?.1 h
  exact ⟨⟨i⟩, hi⟩

/-- A handle keeps its name when names are added behind the others. -/
theorem Named.mono {m m' : Model} {id : ComponentId} {name : String} (h : m.Named id name)
    (hp : m.names <+: m'.names) : m'.Named id name := by
  obtain ⟨hlt, heq⟩ := List.getElem?_eq_some_iff.1 h
  rw [Named, List.prefix_iff_getElem?.1 hp id.index hlt, heq]

theorem Named.of_prefix {m m' : Model} {id : ComponentId} {name : String} (h : m'.Named id name)
    (hp : m.names <+: m'.names) (hlt : id.index < m.components.length) : m.Named id name := by
  have hlt : id.index < m.names.length := (List.length_map ..).symm ▸ hlt
  exact (List.getElem?_eq_getElem hlt).trans ((List.prefix_iff_getElem?.1 hp id.index hlt).symm.trans h)

theorem Named.unique {m : Model} {id : ComponentId} {name name' : String} (h : m.Named id name)
    (h' : m.Named id name') : name = name' :=
  Option.some.inj (h.symm.trans h')

/-! ## The invariant -/

/-- What holds of the component `c` at position `i`. -/
structure ComponentOK (m : Model) (i : Nat) (c : Component) : Prop where
  id : c.id = ⟨i⟩
  analyses : c.analyses = (m.analysesBy ⟨i⟩).map (·.id)
  children : ∀ d ∈ c.children, d.index < m.components.length ∧ d ≠ ⟨i⟩

/-- What holds of the analysis `a` at position `k`. -/
structure AnalysisOK (m : Model) (k : Nat) (a : Analysis) : Prop where
  id : a.id = ⟨k⟩
  owner : a.owner.index < m.components.length
  tidy : a.Tidy

/-- What holds of a model that the four changes have made. -/
structure WellFormed (m : Model) : Prop where
  names : m.names.Nodup
  /-- A name finds the component that carries it. -/
  index : ∀ {name id}, m.componentId? name = some id ↔ m.Named id name
  component : ∀ i c, m.components[i]? = some c → m.ComponentOK i c
  analysis : ∀ k a, m.analyses[k]? = some a → m.AnalysisOK k a

theorem empty_wellFormed : empty.WellFormed :=
  ⟨List.nodup_nil, ⟨fun h => (by cases h), fun h => absurd h.lt (Nat.not_lt_zero _)⟩,
    fun i c h => (by cases i <;> cases h), fun k a h => (by cases k <;> cases h)⟩

/-- In a well-formed model a name has one handle. -/
theorem WellFormed.named_inj {m : Model} (h : m.WellFormed) {id id' : ComponentId} {name : String}
    (hid : m.Named id name) (hid' : m.Named id' name) : id = id' := by
  have hlt : id.index < m.names.length := (List.length_map ..).symm ▸ hid.lt
  have hindex := (List.getElem?_inj hlt h.names).1 (hid.trans hid'.symm)
  cases id
  cases id'
  exact congrArg _ hindex

/-- A name that finds nothing is that of no component. -/
theorem WellFormed.componentId?_eq_none {m : Model} (h : m.WellFormed) {name : String} :
    m.componentId? name = none ↔ name ∉ m.names := by
  rw [Option.eq_none_iff_forall_ne_some]
  constructor
  · intro hnone hmem
    obtain ⟨id, hid⟩ := exists_named hmem
    exact hnone id (h.index.2 hid)
  · exact fun hnew id hid => hnew (h.index.1 hid).mem

/-- No analysis is owned by a component that is still to come. -/
theorem WellFormed.analysesBy_of_le {m : Model} (h : m.WellFormed) {id : ComponentId}
    (hid : m.components.length ≤ id.index) : m.analysesBy id = [] := by
  refine List.filter_eq_nil_iff.2 fun a ha => ?_
  obtain ⟨k, hk⟩ := List.mem_iff_getElem?.1 ha
  have howner := (h.analysis k a hk).owner
  simp only [decide_eq_true_eq]
  rintro rfl
  omega

/-- What stands in a list with one more item stood there before or is that item. -/
theorem getElem?_concat_cases {α : Type} {l : List α} {x y : α} {i : Nat} (h : (l ++ [x])[i]? = some y) :
    l[i]? = some y ∨ i = l.length ∧ y = x := by
  rcases Nat.lt_or_ge i l.length with hlt | hge
  · rw [List.getElem?_append_left hlt] at h
    exact .inl h
  · rw [List.getElem?_append_right hge] at h
    obtain ⟨hi, rfl⟩ := List.getElem?_eq_some_iff.1 h
    rw [List.length_singleton] at hi
    exact .inr ⟨by omega, List.getElem_singleton ..⟩

/-- Calls are between components of the model. -/
theorem WellFormed.lt_of_call {m : Model} (h : m.WellFormed) {p c : ComponentId}
    (hcall : c ∈ m.childrenOf p) : p.index < m.components.length ∧ c.index < m.components.length := by
  rw [childrenOf] at hcall
  split at hcall
  · rename_i component hp
    exact ⟨(List.getElem?_eq_some_iff.1 hp).1, ((h.component p.index component hp).children c hcall).1⟩
  · cases hcall

/-- A call is one between the same names after components were added. -/
theorem WellFormed.calls_of_prefix {m m' : Model} (h : m.WellFormed) (hp : m.names <+: m'.names)
    {caller callee : String} :
    (∃ p c, m'.Named p caller ∧ m'.Named c callee ∧ c ∈ m.childrenOf p) ↔ m.Calls caller callee := by
  constructor
  · rintro ⟨p, c, hcaller, hcallee, hcall⟩
    obtain ⟨hplt, hclt⟩ := h.lt_of_call hcall
    exact ⟨p, c, hcaller.of_prefix hp hplt, hcallee.of_prefix hp hclt, hcall⟩
  · rintro ⟨p, c, hcaller, hcallee, hcall⟩
    exact ⟨p, c, hcaller.mono hp, hcallee.mono hp, hcall⟩

/-! ## Components created -/

/-- One more component, without calls and analyses, and with its name in the index. -/
def concatComponent (m : Model) (name : String) : Model :=
  { m with
    components := m.components ++ [{ id := ⟨m.components.length⟩, name }]
    index := m.index.put name ⟨m.components.length⟩ }

theorem names_concatComponent (m : Model) (name : String) :
    (m.concatComponent name).names = m.names ++ [name] :=
  List.map_append

theorem length_concatComponent (m : Model) (name : String) :
    (m.concatComponent name).components.length = m.components.length + 1 :=
  List.length_append

/-- Nothing else is entered in the index. -/
theorem componentId?_concatComponent (m : Model) (name n : String) :
    (m.concatComponent name).componentId? n =
      if n = name then some ⟨m.components.length⟩ else m.componentId? n :=
  Keyed.get?_put ..

theorem named_concatComponent (m : Model) {name n : String} {id : ComponentId} :
    (m.concatComponent name).Named id n ↔ m.Named id n ∨ id = ⟨m.components.length⟩ ∧ n = name := by
  have hlength : m.names.length = m.components.length := List.length_map ..
  rw [Named, names_concatComponent]
  constructor
  · intro hid
    rcases getElem?_concat_cases hid with hold | ⟨hindex, heq⟩
    · exact .inl hold
    · refine .inr ⟨?_, heq⟩
      rw [← hlength, ← hindex]
  · rintro (hold | ⟨rfl, rfl⟩)
    · exact (List.getElem?_append_left (List.getElem?_eq_some_iff.1 hold).1).trans hold
    · show (m.names ++ [n])[m.components.length]? = some n
      rw [← hlength, List.getElem?_concat_length]

theorem WellFormed.concatComponent {m : Model} (h : m.WellFormed) {name : String} (hnew : name ∉ m.names) :
    (m.concatComponent name).WellFormed := by
  refine ⟨?_, ?_, fun i c hc => ?_, fun k a ha => ?_⟩
  · rw [names_concatComponent]
    exact (List.perm_append_singleton _ _).nodup_iff.2 (List.nodup_cons.2 ⟨hnew, h.names⟩)
  · intro n id
    rw [componentId?_concatComponent, named_concatComponent, ← h.index]
    by_cases hn : n = name
    · subst hn
      rw [if_pos rfl, h.componentId?_eq_none.2 hnew]
      simp [eq_comm]
    · simp [hn]
  · rcases getElem?_concat_cases hc with hold | ⟨rfl, rfl⟩
    · obtain ⟨hid, hanalyses, hchildren⟩ := h.component i c hold
      refine ⟨hid, hanalyses, fun d hd => ⟨?_, (hchildren d hd).2⟩⟩
      rw [length_concatComponent]
      exact Nat.lt_succ_of_lt (hchildren d hd).1
    · refine ⟨rfl, ?_, fun d hd => (by cases hd)⟩
      show [] = (m.analysesBy ⟨m.components.length⟩).map (·.id)
      rw [h.analysesBy_of_le (Nat.le_refl _), List.map_nil]
  · obtain ⟨hid, howner, htidy⟩ := h.analysis k a ha
    exact ⟨hid, length_concatComponent m name ▸ Nat.lt_succ_of_lt howner, htidy⟩

/-- A name that finds a component keeps it; for another name a component is added. -/
theorem intern_cases (m : Model) (name : String) :
    (∃ id, m.componentId? name = some id ∧ m.intern name = (m, id)) ∨
      m.componentId? name = none ∧ m.intern name = (m.concatComponent name, ⟨m.components.length⟩) := by
  rcases h : m.componentId? name with _ | id
  · exact .inr ⟨rfl, by rw [intern, h]; rfl⟩
  · exact .inl ⟨id, rfl, by rw [intern, h]⟩

theorem prefix_intern (m : Model) (name : String) : m.names <+: (m.intern name).1.names := by
  rcases m.intern_cases name with ⟨id, -, h⟩ | ⟨-, h⟩
  · simp [h]
  · simp [h, names_concatComponent]

/-- A new component calls nothing. -/
@[simp] theorem childrenOf_intern (m : Model) (name : String) (id : ComponentId) :
    (m.intern name).1.childrenOf id = m.childrenOf id := by
  rcases m.intern_cases name with ⟨_, -, h⟩ | ⟨-, h⟩
  · rw [h]
  · rw [h, childrenOf, childrenOf, component?, component?, Model.concatComponent]
    rcases Nat.lt_trichotomy id.index m.components.length with hlt | heq | hlt
    · rw [List.getElem?_append_left hlt]
    · rw [heq, List.getElem?_concat_length, List.getElem?_eq_none (Nat.le_refl _)]
    · rw [List.getElem?_eq_none (by simp; omega), List.getElem?_eq_none (by omega)]

theorem WellFormed.mem_names_intern {m : Model} (h : m.WellFormed) {name n : String} :
    n ∈ (m.intern name).1.names ↔ n ∈ m.names ∨ n = name := by
  rcases m.intern_cases name with ⟨id, hid, heq⟩ | ⟨-, heq⟩
  · rw [heq]
    exact ⟨.inl, fun hn => hn.elim (fun hmem => hmem) fun hname => hname ▸ (h.index.1 hid).mem⟩
  · rw [heq, names_concatComponent, List.mem_append, List.mem_singleton]

theorem WellFormed.named_intern {m : Model} (h : m.WellFormed) (name : String) :
    (m.intern name).1.Named (m.intern name).2 name := by
  rcases m.intern_cases name with ⟨id, hid, heq⟩ | ⟨-, heq⟩
  · rw [heq]
    exact h.index.1 hid
  · rw [heq]
    exact m.named_concatComponent.2 (.inr ⟨rfl, rfl⟩)

theorem WellFormed.intern {m : Model} (h : m.WellFormed) (name : String) :
    (m.intern name).1.WellFormed := by
  rcases m.intern_cases name with ⟨_, -, heq⟩ | ⟨hnone, heq⟩
  · rw [heq]
    exact h
  · rw [heq]
    exact h.concatComponent (h.componentId?_eq_none.1 hnone)

theorem WellFormed.internAll {m : Model} (h : m.WellFormed) (ns : List String) :
    (m.internAll ns).1.WellFormed := by
  induction ns generalizing m with
  | nil => exact h
  | cons name rest ih => exact ih (h.intern name)

theorem prefix_internAll (m : Model) (ns : List String) : m.names <+: (m.internAll ns).1.names := by
  induction ns generalizing m with
  | nil => exact List.prefix_refl _
  | cons name rest ih => exact (m.prefix_intern name).trans (ih _)

theorem WellFormed.mem_names_internAll {m : Model} (h : m.WellFormed) {ns : List String} {n : String} :
    n ∈ (m.internAll ns).1.names ↔ n ∈ m.names ∨ n ∈ ns := by
  induction ns generalizing m with
  | nil => simp [Model.internAll]
  | cons name rest ih =>
    rw [Model.internAll]
    simp only [ih (h.intern name), h.mem_names_intern, List.mem_cons, or_assoc]

theorem WellFormed.named_internAll {m : Model} (h : m.WellFormed) (ns : List String) :
    List.Forall₂ (m.internAll ns).1.Named (m.internAll ns).2 ns := by
  induction ns generalizing m with
  | nil => exact .nil
  | cons name rest ih =>
    exact .cons ((h.named_intern name).mono (prefix_internAll _ rest)) (ih (h.intern name))

@[simp] theorem childrenOf_internAll (m : Model) (ns : List String) (id : ComponentId) :
    (m.internAll ns).1.childrenOf id = m.childrenOf id := by
  induction ns generalizing m with
  | nil => rfl
  | cons name rest ih => exact (ih _).trans (m.childrenOf_intern name id)

/-! ## Components changed -/

theorem names_updateComponent (m : Model) (id : ComponentId) {f : Component → Component}
    (hf : ∀ c, (f c).name = c.name) : (m.updateComponent id f).names = m.names := by
  refine List.ext_getElem? fun i => ?_
  rw [names_getElem?, names_getElem?, updateComponent, List.getElem?_modify]
  cases m.components[i]? with
  | none => rfl
  | some c =>
    simp only [Option.map_eq_map, Option.map_some]
    split
    · rw [hf]
    · rfl

theorem childrenOf_updateComponent (m : Model) (id d : ComponentId) (f : Component → Component) :
    (m.updateComponent id f).childrenOf d =
      match m.component? d with
      | some c => if id.index = d.index then (f c).children else c.children
      | none => [] := by
  rw [childrenOf, component?, updateComponent, List.getElem?_modify, component?]
  cases m.components[d.index]? with
  | none => rfl
  | some c =>
    simp only [Option.map_eq_map, Option.map_some]
    split <;> rfl

theorem WellFormed.updateComponent {m : Model} (h : m.WellFormed) (id : ComponentId)
    {f : Component → Component} (hname : ∀ c, (f c).name = c.name) (hid : ∀ c, (f c).id = c.id)
    (hanalyses : ∀ c, (f c).analyses = c.analyses)
    (hchildren : ∀ c, ∀ d ∈ (f c).children, d ∈ c.children ∨ d.index < m.components.length ∧ d ≠ id) :
    (m.updateComponent id f).WellFormed := by
  have hlength : (m.updateComponent id f).components.length = m.components.length :=
    List.length_modify ..
  have hnames := names_updateComponent m id hname
  refine ⟨?_, ?_, fun i c hc => ?_, fun k a ha => ?_⟩
  · rw [hnames]
    exact h.names
  · intro n d
    rw [Named, hnames]
    exact h.index
  · rw [Model.updateComponent, List.getElem?_modify, Option.map_eq_map, Option.map_eq_some_iff] at hc
    obtain ⟨old, hold, rfl⟩ := hc
    obtain ⟨holdId, holdAnalyses, holdChildren⟩ := h.component i old hold
    split
    · rename_i hi
      have hi : id = ⟨i⟩ := by
        cases id
        exact congrArg _ hi
      subst hi
      refine ⟨(hid old).trans holdId, (hanalyses old).trans holdAnalyses, fun d hd => ?_⟩
      rw [hlength]
      rcases hchildren old d hd with hd | hd
      · exact holdChildren d hd
      · exact hd
    · refine ⟨holdId, holdAnalyses, fun d hd => ?_⟩
      rw [hlength]
      exact holdChildren d hd
  · obtain ⟨haId, howner, htidy⟩ := h.analysis k a ha
    exact ⟨haId, by rw [hlength]; exact howner, htidy⟩

/-! ## Calls -/

/-- Record a call on both sides. -/
def addCall (m : Model) (p c : ComponentId) : Model :=
  (m.updateComponent p fun component => { component with children := component.children ++ [c] })
    |>.updateComponent c fun component => { component with parents := component.parents ++ [p] }

theorem names_addCall (m : Model) (p c : ComponentId) : (m.addCall p c).names = m.names := by
  rw [addCall, names_updateComponent, names_updateComponent]
  · exact fun _ => rfl
  · exact fun _ => rfl

theorem childrenOf_addCall {m : Model} {p : ComponentId} (hp : p.index < m.components.length)
    (c id : ComponentId) :
    (m.addCall p c).childrenOf id = m.childrenOf id ++ if id = p then [c] else [] := by
  -- the second update, of the callers of the child, changes no call
  have hcallers : ∀ m' : Model, (m'.updateComponent c fun component =>
      { component with parents := component.parents ++ [p] }).childrenOf id = m'.childrenOf id := by
    intro m'
    rw [childrenOf_updateComponent, childrenOf]
    cases m'.component? id with
    | none => rfl
    | some component => exact ite_self _
  rw [addCall, hcallers, childrenOf_updateComponent, childrenOf]
  by_cases hid : id = p
  · subst hid
    rw [component?, List.getElem?_eq_getElem hp]
    simp
  · have hindex : p.index ≠ id.index := by
      cases id
      cases p
      exact fun heq => hid (congrArg _ heq.symm)
    cases m.component? id with
    | none => simp [hid]
    | some component => simp [hid, hindex]

theorem WellFormed.addCall {m : Model} (h : m.WellFormed) {p c : ComponentId}
    (hc : c.index < m.components.length) (hne : c ≠ p) : (m.addCall p c).WellFormed := by
  have hparent : (m.updateComponent p fun component =>
      { component with children := component.children ++ [c] }).WellFormed := by
    refine h.updateComponent p (fun _ => rfl) (fun _ => rfl) (fun _ => rfl) fun component d hd => ?_
    refine (List.mem_append.1 hd).imp_right fun hd => ?_
    rw [List.mem_singleton.1 hd]
    exact ⟨hc, hne⟩
  exact hparent.updateComponent c (fun _ => rfl) (fun _ => rfl) (fun _ => rfl) fun component d hd => .inl hd

theorem calls_addCall {m : Model} {p c : ComponentId} {parent child : String} (hparent : m.Named p parent)
    (hchild : m.Named c child) (n n' : String) :
    (m.addCall p c).Calls n n' ↔ m.Calls n n' ∨ n = parent ∧ n' = child := by
  have hnamed : (m.addCall p c).Named = m.Named := by
    funext id name
    rw [Named, Named, names_addCall]
  rw [Calls, hnamed]
  constructor
  · rintro ⟨caller, callee, hn, hn', hcall⟩
    rw [childrenOf_addCall hparent.lt, List.mem_append] at hcall
    rcases hcall with hold | hnew
    · exact .inl ⟨caller, callee, hn, hn', hold⟩
    · split at hnew
      · rename_i heq
        subst heq
        rw [List.mem_singleton] at hnew
        subst hnew
        exact .inr ⟨hn.unique hparent, hn'.unique hchild⟩
      · cases hnew
  · rintro (⟨caller, callee, hn, hn', hcall⟩ | ⟨rfl, rfl⟩)
    · refine ⟨caller, callee, hn, hn', ?_⟩
      rw [childrenOf_addCall hparent.lt]
      exact List.mem_append_left _ hcall
    · refine ⟨p, c, hparent, hchild, ?_⟩
      rw [childrenOf_addCall hparent.lt, if_pos rfl]
      exact List.mem_append_right _ (List.mem_singleton_self c)

/-- A call between two names is recorded between their components, unless it is known. -/
theorem addChild_eq (m : Model) {parent child : String} (hne : parent ≠ child) :
    ∃ m' p c, m.internAll [parent, child] = (m', [p, c]) ∧
      m.addChild parent child = (if c ∈ m'.childrenOf p then m' else m'.addCall p c, none) := by
  obtain ⟨m₁, p, h₁⟩ : ∃ m₁ p, m.intern parent = (m₁, p) := ⟨_, _, rfl⟩
  obtain ⟨m₂, c, h₂⟩ : ∃ m₂ c, m₁.intern child = (m₂, c) := ⟨_, _, rfl⟩
  refine ⟨m₂, p, c, by simp only [internAll, h₁, h₂], ?_⟩
  simp only [addChild, hne, if_false, h₁, h₂]
  split
  · rfl
  · rfl

/-- `ChildAdded m m' parent child`: the model `m'` is `m` with the call from `parent` to `child`. -/
structure ChildAdded (m m' : Model) (parent child : String) : Prop where
  wellFormed : m'.WellFormed
  names : m.names <+: m'.names
  mem_names : ∀ n, n ∈ m'.names ↔ n ∈ m.names ∨ n = parent ∨ n = child
  calls : ∀ n n', m'.Calls n n' ↔ m.Calls n n' ∨ n = parent ∧ n' = child
  calls_nodup : (∀ id, (m.childrenOf id).Nodup) → ∀ id, (m'.childrenOf id).Nodup
  analyses : m'.analyses = m.analyses

theorem addChild_added {m : Model} (h : m.WellFormed) {parent child : String} (hne : parent ≠ child) :
    ∃ m', m.addChild parent child = (m', none) ∧ m.ChildAdded m' parent child := by
  obtain ⟨m₁, p, c, hintern, heq⟩ := m.addChild_eq hne
  have hwf := h.internAll [parent, child]
  have hprefix := m.prefix_internAll [parent, child]
  have hmem : ∀ n, n ∈ (m.internAll [parent, child]).1.names ↔ n ∈ m.names ∨ n ∈ [parent, child] :=
    fun n => h.mem_names_internAll
  have hnamed := h.named_internAll [parent, child]
  have hcalls := m.childrenOf_internAll [parent, child]
  have hanalyses := m.internAll_analyses [parent, child]
  rw [hintern] at hwf hprefix hmem hnamed hcalls hanalyses
  simp only [List.mem_cons, List.not_mem_nil, or_false] at hmem
  cases hnamed with
  | cons hparent hrest =>
    cases hrest with
    | cons hchild _ =>
      have hdistinct : c ≠ p := by
        rintro rfl
        exact hne (hparent.unique hchild)
      have hold : ∀ n n', m₁.Calls n n' ↔ m.Calls n n' := by
        intro n n'
        rw [Calls, ← h.calls_of_prefix hprefix]
        simp only [hcalls]
      refine ⟨_, heq, ?_⟩
      split
      · rename_i hknown
        refine ⟨hwf, hprefix, hmem, fun n n' => ?_, fun hnodup id => ?_, hanalyses⟩
        · rw [hold]
          refine ⟨.inl, fun hcase => hcase.elim (fun hcall => hcall) ?_⟩
          rintro ⟨rfl, rfl⟩
          exact (hold _ _).1 ⟨p, c, hparent, hchild, hknown⟩
        · rw [hcalls]
          exact hnodup id
      · rename_i hnew
        have hnames := m₁.names_addCall p c
        refine ⟨hwf.addCall hchild.lt hdistinct, ?_, ?_, fun n n' => ?_, fun hnodup id => ?_, hanalyses⟩
        · rw [hnames]
          exact hprefix
        · rw [hnames]
          exact hmem
        · rw [calls_addCall hparent hchild, hold]
        · rw [childrenOf_addCall hparent.lt, hcalls]
          split
          · rename_i hid
            subst hid
            rw [hcalls] at hnew
            exact (List.perm_append_singleton _ _).nodup_iff.2 (List.nodup_cons.2 ⟨hnew, hnodup id⟩)
          · rw [List.append_nil]
            exact hnodup id

/-! ## Analyses -/

/-- One more analysis, listed by its owner. -/
def concatAnalysis (m : Model) (a : Analysis) : Model :=
  { m with analyses := m.analyses ++ [a] }.updateComponent a.owner fun c =>
    { c with analyses := c.analyses ++ [a.id] }

theorem names_concatAnalysis (m : Model) (a : Analysis) : (m.concatAnalysis a).names = m.names :=
  names_updateComponent _ _ fun _ => rfl

theorem childrenOf_concatAnalysis (m : Model) (a : Analysis) (id : ComponentId) :
    (m.concatAnalysis a).childrenOf id = m.childrenOf id := by
  rw [concatAnalysis, childrenOf_updateComponent, childrenOf]
  rw [show component? { m with analyses := m.analyses ++ [a] } id = m.component? id from rfl]
  cases m.component? id with
  | none => rfl
  | some c => exact ite_self _

theorem analysesBy_concatAnalysis (m : Model) (a : Analysis) (id : ComponentId) :
    (m.concatAnalysis a).analysesBy id = m.analysesBy id ++ if a.owner = id then [a] else [] := by
  rw [analysesBy, concatAnalysis, updateComponent_analyses, List.filter_append, analysesBy]
  by_cases h : a.owner = id
  · simp [h]
  · simp [h]

theorem WellFormed.concatAnalysis {m : Model} (h : m.WellFormed) {a : Analysis}
    (hid : a.id = ⟨m.analyses.length⟩) (howner : a.owner.index < m.components.length) (htidy : a.Tidy) :
    (m.concatAnalysis a).WellFormed := by
  have hlength : (m.concatAnalysis a).components.length = m.components.length := List.length_modify ..
  refine ⟨?_, ?_, fun i c hc => ?_, fun k b hb => ?_⟩
  · rw [names_concatAnalysis]
    exact h.names
  · intro n d
    rw [Named, names_concatAnalysis]
    exact h.index
  · rw [Model.concatAnalysis, Model.updateComponent, List.getElem?_modify, Option.map_eq_map,
      Option.map_eq_some_iff] at hc
    obtain ⟨old, hold, rfl⟩ := hc
    obtain ⟨holdId, holdAnalyses, holdChildren⟩ := h.component i old hold
    by_cases hi : a.owner = ⟨i⟩
    · rw [if_pos (congrArg _ hi)]
      refine ⟨holdId, ?_, by rw [hlength]; exact holdChildren⟩
      rw [analysesBy_concatAnalysis, if_pos hi, List.map_append, ← holdAnalyses]
      rfl
    · have hindex : a.owner.index ≠ i := by
        intro heq
        subst heq
        exact hi rfl
      rw [if_neg hindex]
      refine ⟨holdId, ?_, by rw [hlength]; exact holdChildren⟩
      rw [analysesBy_concatAnalysis, if_neg hi, List.append_nil]
      exact holdAnalyses
  · rcases getElem?_concat_cases hb with hold | ⟨rfl, rfl⟩
    · obtain ⟨hbId, hbOwner, hbTidy⟩ := h.analysis k b hold
      exact ⟨hbId, by rw [hlength]; exact hbOwner, hbTidy⟩
    · exact ⟨hid, by rw [hlength]; exact howner, htidy⟩

theorem internAll_append (m : Model) (ns ns' : List String) :
    m.internAll (ns ++ ns') =
      (((m.internAll ns).1.internAll ns').1, (m.internAll ns).2 ++ ((m.internAll ns).1.internAll ns').2) := by
  induction ns generalizing m with
  | nil => rfl
  | cons name rest ih =>
    rw [List.cons_append]
    simp only [internAll, ih]
    rfl

/-- An analysis that starts is added once there are all the components that it mentions. -/
theorem WellFormed.addAnalysis_eq {m : Model} (h : m.WellFormed) (name : String) (context : AnalysisContext) :
    ∃ m' owner concrete abstracted,
      m.internAll (name :: (context.concrete ++ context.abstracted)) =
        (m', owner :: (concrete ++ abstracted)) ∧
      m'.Named owner name ∧ List.Forall₂ m'.Named concrete context.concrete ∧
      List.Forall₂ m'.Named abstracted context.abstracted ∧
      (m.addAnalysis name context).1 = m'.concatAnalysis
        { id := ⟨m'.analyses.length⟩, owner, concrete, abstracted, assumptions := context.assumptions } := by
  obtain ⟨m₁, owner, h₁⟩ : ∃ m₁ owner, m.intern name = (m₁, owner) := ⟨_, _, rfl⟩
  obtain ⟨m₂, concrete, h₂⟩ : ∃ m₂ concrete, m₁.internAll context.concrete = (m₂, concrete) := ⟨_, _, rfl⟩
  obtain ⟨m₃, abstracted, h₃⟩ : ∃ m₃ abstracted, m₂.internAll context.abstracted = (m₃, abstracted) :=
    ⟨_, _, rfl⟩
  have hall : m.internAll (name :: (context.concrete ++ context.abstracted)) =
      (m₃, owner :: (concrete ++ abstracted)) := by
    rw [Model.internAll, h₁]
    simp only [internAll_append, h₂, h₃]
  have hwf₁ := h.intern name
  rw [h₁] at hwf₁
  have hwf₂ := hwf₁.internAll context.concrete
  rw [h₂] at hwf₂
  have hprefix₂ := m₁.prefix_internAll context.concrete
  rw [h₂] at hprefix₂
  have hprefix₃ := m₂.prefix_internAll context.abstracted
  rw [h₃] at hprefix₃
  have howner := h.named_intern name
  rw [h₁] at howner
  have hconcrete := hwf₁.named_internAll context.concrete
  rw [h₂] at hconcrete
  have habstracted := hwf₂.named_internAll context.abstracted
  rw [h₃] at habstracted
  refine ⟨m₃, owner, concrete, abstracted, hall, howner.mono (hprefix₂.trans hprefix₃),
    hconcrete.imp fun _ _ hn => hn.mono hprefix₃, habstracted, ?_⟩
  simp only [addAnalysis, h₁, h₂, h₃]
  rfl

/-- `AnalysisAdded m m' name context a`: the model `m'` is `m` with the analysis `a` of the component of a
name, started with that context. -/
structure AnalysisAdded (m m' : Model) (name : String) (context : AnalysisContext) (a : Analysis) :
    Prop where
  wellFormed : m'.WellFormed
  names : m.names <+: m'.names
  mem_names : ∀ n, n ∈ m'.names ↔ n ∈ m.names ∨ n = name ∨ n ∈ context.concrete ∨ n ∈ context.abstracted
  calls : ∀ id, m'.childrenOf id = m.childrenOf id
  analyses : m'.analyses = m.analyses ++ [a]
  owner : m'.Named a.owner name
  concrete : List.Forall₂ m'.Named a.concrete context.concrete
  abstracted : List.Forall₂ m'.Named a.abstracted context.abstracted
  assumptions : a.assumptions = context.assumptions
  decoded : a.decoded = []
  postAnalyses : a.postAnalyses = []

theorem addAnalysis_added {m : Model} (h : m.WellFormed) (name : String) (context : AnalysisContext) :
    ∃ a, m.AnalysisAdded (m.addAnalysis name context).1 name context a := by
  obtain ⟨m', owner, concrete, abstracted, hall, howner, hconcrete, habstracted, heq⟩ :=
    h.addAnalysis_eq name context
  have hm' : (m.internAll (name :: (context.concrete ++ context.abstracted))).1 = m' := by rw [hall]
  have hwf : m'.WellFormed := hm' ▸ h.internAll _
  have hanalyses : m'.analyses = m.analyses := hm' ▸ m.internAll_analyses _
  obtain ⟨a, ha⟩ : ∃ a : Analysis, a =
      { id := ⟨m'.analyses.length⟩, owner, concrete, abstracted, assumptions := context.assumptions } :=
    ⟨_, rfl⟩
  have hnamed : (m'.concatAnalysis a).Named = m'.Named := by
    funext id n
    rw [Named, Named, names_concatAnalysis]
  rw [← ha] at heq
  refine ⟨a, ?_⟩
  rw [heq]
  subst ha
  exact
    { wellFormed := hwf.concatAnalysis rfl howner.lt (Analysis.tidy_of_empty rfl rfl)
      names := by
        rw [names_concatAnalysis, ← hm']
        exact m.prefix_internAll _
      mem_names := fun n => by
        rw [names_concatAnalysis, ← hm', h.mem_names_internAll, List.mem_cons, List.mem_append]
      calls := fun id => by rw [childrenOf_concatAnalysis, ← hm', childrenOf_internAll]
      analyses := by
        rw [← hanalyses]
        rfl
      owner := by
        rw [hnamed]
        exact howner
      concrete := by
        rw [hnamed]
        exact hconcrete
      abstracted := by
        rw [hnamed]
        exact habstracted
      assumptions := rfl
      decoded := rfl
      postAnalyses := rfl }

/-- Changing an analysis keeps the invariant as long as its handle, its owner and the state of its ledger
stay as they are. -/
theorem WellFormed.modifyAnalysis {m : Model} (h : m.WellFormed) (k : Nat) {f : Analysis → Analysis}
    (hid : ∀ a, (f a).id = a.id) (howner : ∀ a, (f a).owner = a.owner) (htidy : ∀ a, a.Tidy → (f a).Tidy) :
    ({ m with analyses := m.analyses.modify k f } : Model).WellFormed := by
  have hby : ∀ id, (({ m with analyses := m.analyses.modify k f } : Model).analysesBy id).map (·.id) =
      (m.analysesBy id).map (·.id) := by
    intro id
    rw [analysesBy, analysesBy]
    generalize m.analyses = analyses
    induction analyses generalizing k with
    | nil => simp
    | cons a rest ih =>
      cases k with
      | zero => simp [List.filter_cons, howner, apply_ite (List.map _), hid]
      | succ k =>
        rw [List.modify_succ_cons, List.filter_cons, List.filter_cons]
        split
        · rw [List.map_cons, List.map_cons, ih k]
        · exact ih k
  refine ⟨h.names, h.index, fun i c hc => ?_, fun j b hb => ?_⟩
  · obtain ⟨hcId, hcAnalyses, hcChildren⟩ := h.component i c hc
    exact ⟨hcId, hcAnalyses.trans (hby ⟨i⟩).symm, hcChildren⟩
  · rw [List.getElem?_modify, Option.map_eq_map, Option.map_eq_some_iff] at hb
    obtain ⟨a, ha, rfl⟩ := hb
    obtain ⟨haId, haOwner, haTidy⟩ := h.analysis j a ha
    split
    · exact ⟨(hid a).trans haId, by rw [howner]; exact haOwner, htidy a haTidy⟩
    · exact ⟨haId, haOwner, haTidy⟩

theorem WellFormed.addProperty {m m' : Model} (h : m.WellFormed) {id : AnalysisId} {p : Property}
    {answer : Except ModelError PropertyRef} (heq : m.addProperty id p = (m', answer)) : m'.WellFormed := by
  rcases m.addProperty_cases id p with ⟨-, hcase⟩ | ⟨a, -, hcase⟩
  · obtain ⟨rfl, -⟩ := Prod.mk.inj (hcase.symm.trans heq)
    exact h
  · obtain ⟨rfl, -⟩ := Prod.mk.inj (hcase.symm.trans heq)
    exact h.modifyAnalysis _ (fun _ => rfl) (fun _ => rfl) fun a ha => ha.push p

theorem WellFormed.attachPostAnalysis {m m' : Model} (h : m.WellFormed) {id : AnalysisId} {post : PostAnalysis}
    {refusal : Option ModelError} (heq : m.attachPostAnalysis id post = (m', refusal)) : m'.WellFormed := by
  rcases m.attachPostAnalysis_cases id post with ⟨-, hcase⟩ | ⟨-, hcase⟩
  · obtain ⟨rfl, -⟩ := Prod.mk.inj (hcase.symm.trans heq)
    exact h
  · obtain ⟨rfl, -⟩ := Prod.mk.inj (hcase.symm.trans heq)
    exact h.modifyAnalysis _ (fun _ => rfl) (fun _ => rfl) fun a ha => ⟨ha.names, ha.positions, ha.named⟩

end Model

/-! ## Models made by changes -/

/-- One of the four changes, with what is asked for. -/
inductive Change where
  | addAnalysis (component : String) (context : AnalysisContext)
  | addProperty (id : AnalysisId) (property : Property)
  | addChild (parent child : String)
  | attachPostAnalysis (id : AnalysisId) (post : PostAnalysis)

namespace Model

/-- The model that is there after a change, whether it was made or refused. -/
def change (m : Model) : Change → Model
  | .addAnalysis component context => (m.addAnalysis component context).1
  | .addProperty id property => (m.addProperty id property).1
  | .addChild parent child => (m.addChild parent child).1
  | .attachPostAnalysis id post => (m.attachPostAnalysis id post).1

/-- The model that a sequence of changes makes of the empty one. -/
def ofChanges (changes : List Change) : Model := changes.foldl change empty

theorem WellFormed.change {m : Model} (h : m.WellFormed) (c : Change) : (m.change c).WellFormed := by
  cases c with
  | addAnalysis component context =>
    obtain ⟨a, hadded⟩ := addAnalysis_added h component context
    exact hadded.wellFormed
  | addProperty id property => exact h.addProperty rfl
  | addChild parent child =>
    rw [Model.change]
    by_cases hne : parent = child
    · subst hne
      rw [addChild_self]
      exact h
    · obtain ⟨m', heq, hadded⟩ := addChild_added h hne
      rw [heq]
      exact hadded.wellFormed
  | attachPostAnalysis id post => exact h.attachPostAnalysis rfl

theorem wellFormed_ofChanges (changes : List Change) : (ofChanges changes).WellFormed :=
  List.foldlRecOn changes change empty_wellFormed fun _ h c _ => h.change c

end Model

end Verdicts
