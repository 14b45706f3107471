/-
Models that agree by name. A handle tells in which order components came into being; the name is what joins the
records that mention a component. `Agree` says of two models that they have the same components, that each component
calls the same others in the same order, and that it has the same analyses. Main statement: a projection then has the
same properties in both, in the same order (`Agree.withAnswer`).

Handles of one name are related by `SameName`, in one way on each side, so a search of one call graph takes the same
turns in the other (`Agree.visits`).
-/
import Verdicts.Proofs.Result.Projection
import Verdicts.Proofs.Result.Steps

namespace Verdicts

/-! ## Related lists -/

/-- Two lists whose items are related to those of a third are related. -/
theorem forall₂_join {α β γ : Type} {P : α → γ → Prop} {Q : β → γ → Prop} {as : List α} {bs : List β}
    {cs : List γ} (h : List.Forall₂ P as cs) (h' : List.Forall₂ Q bs cs) :
    List.Forall₂ (fun a b => ∃ c, P a c ∧ Q b c) as bs := by
  induction h generalizing bs with
  | nil =>
    cases h'
    exact .nil
  | cons ha _ ih =>
    cases h' with
    | cons hb hrest => exact .cons ⟨_, ha, hb⟩ (ih hrest)

/-- Where related items give the same, lists of them give the same. -/
theorem flatMap_eq_of_forall₂ {α β γ : Type} {R : α → β → Prop} {f : α → List γ} {g : β → List γ}
    {as : List α} {bs : List β} (h : List.Forall₂ R as bs) (hfg : ∀ a b, R a b → f a = g b) :
    as.flatMap f = bs.flatMap g := by
  induction h with
  | nil => rfl
  | cons hab _ ih => rw [List.flatMap_cons, List.flatMap_cons, hfg _ _ hab, ih]

theorem map_eq_of_forall₂ {α β γ : Type} {R : α → β → Prop} {f : α → γ} {g : β → γ} {as : List α}
    {bs : List β} (h : List.Forall₂ R as bs) (hfg : ∀ a b, R a b → f a = g b) : as.map f = bs.map g := by
  rw [List.map_eq_flatMap, List.map_eq_flatMap]
  exact flatMap_eq_of_forall₂ h fun a b hab => congrArg (fun c => [c]) (hfg a b hab)

theorem forall₂_toList {α β : Type} {R : α → β → Prop} {a : Option α} {b : Option β} (h : Option.Rel R a b) :
    List.Forall₂ R a.toList b.toList := by
  cases h with
  | none => exact .nil
  | some hab => exact .cons hab .nil

/-! ## Ledgers -/

/-- The ledger of some properties, entered one after the other. -/
def ledgerOf (ps : List Property) : List Attempts :=
  ps.zipIdx.foldl (fun ledger p => enterAttempt p.1.displayName p.2 ledger) []

theorem ledgerOf_concat (ps : List Property) (p : Property) :
    ledgerOf (ps ++ [p]) = enterAttempt p.displayName ps.length (ledgerOf ps) := by
  rw [ledgerOf, List.zipIdx_append, List.foldl_append, Nat.zero_add, List.zipIdx_singleton, List.foldl_cons,
    List.foldl_nil, ledgerOf]

namespace Model

/-- In every model that changes have made, the properties of an analysis tell its ledger. -/
theorem ledger_ofChanges (changes : List Change) :
    ∀ a ∈ (ofChanges changes).analyses, a.ledger = ledgerOf a.decoded := by
  refine ofChanges_induction (P := fun m => ∀ a ∈ m.analyses, a.ledger = ledgerOf a.decoded)
    (fun a ha => absurd ha List.not_mem_nil) (fun m m' hstep h => ?_) changes
  cases hstep with
  | component _ => exact h
  | call _ _ _ _ => exact h
  | analysis _ _ =>
    intro a ha
    rcases List.mem_append.1 ha with ha | ha
    · exact h a ha
    · rw [List.mem_singleton.1 ha]
      rfl
  | property _ =>
    refine forall_mem_modify h (fun a ha => ?_) _
    rw [Analysis.push, ledgerOf_concat, ha]
  | postAnalysis _ =>
    refine forall_mem_modify h (fun a ha => ?_) _
    exact ha

/-! ## Handles of one name -/

/-- Two handles, each of its model, are those of the components of one name. -/
def SameName (m m' : Model) (id id' : ComponentId) : Prop := ∃ name, m.Named id name ∧ m'.Named id' name

/-- The name of a component stands at its position among the names. -/
theorem nameOf_eq (m : Model) (id : ComponentId) : m.nameOf id = m.names[id.index]?.getD "?" := by
  rw [nameOf, component?, names_getElem?]
  cases m.components[id.index]? with
  | none => rfl
  | some c => rfl

theorem Named.nameOf {m : Model} {id : ComponentId} {name : String} (h : m.Named id name) :
    m.nameOf id = name := by
  rw [nameOf_eq, h, Option.getD_some]

/-- A handle in range is that of the component that carries its name. -/
theorem named_nameOf {m : Model} {id : ComponentId} (h : id.index < m.components.length) :
    m.Named id (m.nameOf id) := by
  rw [Named, nameOf_eq, names_getElem?, List.getElem?_eq_getElem h]
  rfl

theorem SameName.nameOf {m m' : Model} {id id' : ComponentId} (h : SameName m m' id id') :
    m.nameOf id = m'.nameOf id' := by
  obtain ⟨name, hid, hid'⟩ := h
  rw [hid.nameOf, hid'.nameOf]

theorem sameName_biUnique {m m' : Model} (h : m.WellFormed) (h' : m'.WellFormed) :
    Relator.BiUnique (SameName m m') := by
  constructor
  · rintro a b c ⟨name, ha, hc⟩ ⟨other, hb, hc'⟩
    obtain rfl := hc.unique hc'
    exact h.named_inj ha hb
  · rintro a b c ⟨name, ha, hb⟩ ⟨other, ha', hc⟩
    obtain rfl := ha.unique ha'
    exact h'.named_inj hb hc

/-! ## Models that agree -/

/-- Two analyses, each of its model, have the same in them; their handles may differ. -/
structure SameAnalysis (m m' : Model) (a a' : Analysis) : Prop where
  concrete : List.Forall₂ (SameName m m') a.concrete a'.concrete
  abstracted : List.Forall₂ (SameName m m') a.abstracted a'.abstracted
  assumptions : a.assumptions = a'.assumptions
  decoded : a.decoded = a'.decoded
  ledger : a.ledger = a'.ledger
  postAnalyses : a.postAnalyses = a'.postAnalyses

/-- Two models agree by name. -/
structure Agree (m m' : Model) : Prop where
  left : m.WellFormed
  right : m'.WellFormed
  names : m.names.Perm m'.names
  children : ∀ id id', SameName m m' id id' →
    List.Forall₂ (SameName m m') (m.childrenOf id) (m'.childrenOf id')
  analyses : ∀ id id', SameName m m' id id' →
    List.Forall₂ (SameAnalysis m m') (m.analysesBy id) (m'.analysesBy id')

/-- Each component has its like, and no two have the same. -/
theorem Agree.handles {m m' : Model} (h : Agree m m') :
    ∃ ids, List.Forall₂ (SameName m m') m.handles ids ∧ ids.Perm m'.handles := by
  have hnamed : ∀ {m : Model}, m.WellFormed → List.Forall₂ m.Named m.handles m.names := fun h => by
    rw [Model.handles, Model.names, List.forall₂_map_left_iff, List.forall₂_map_right_iff, List.forall₂_same]
    exact fun c hc => h.named_id hc
  obtain ⟨ids, hids, hperm⟩ := List.perm_comp_forall₂ h.names (hnamed h.right).flip
  exact ⟨ids, forall₂_join (hnamed h.left) hids.flip, hperm⟩

/-- One component calls another exactly if their likes do. -/
theorem Agree.calls_iff {m m' : Model} (h : Agree m m') {p p' c c' : ComponentId} (hp : SameName m m' p p')
    (hc : SameName m m' c c') : c ∈ m.childrenOf p ↔ c' ∈ m'.childrenOf p' :=
  List.rel_mem (sameName_biUnique h.left h.right) hc (h.children p p' hp)

/-! ## Searches -/

/-- A search takes the same turns in two models that agree. -/
theorem Agree.visits {m m' : Model} (h : Agree m m') {s s₁ : Search} {ids : List ComponentId}
    (hvisits : Search.Visits m.childrenOf s ids s₁) (s' : Search) (ids' : List ComponentId)
    (hids : List.Forall₂ (SameName m m') ids ids')
    (hs : List.Forall₂ (SameName m m') s.entered s'.entered) :
    ∃ s₁', Search.Visits m'.childrenOf s' ids' s₁' ∧
      List.Forall₂ (SameName m m') s₁.entered s₁'.entered := by
  -- a component was entered on one side exactly if its like was on the other
  have hmem := @List.rel_mem _ _ _ (sameName_biUnique h.left h.right)
  induction hvisits generalizing s' ids' with
  | nil =>
    cases hids
    exact ⟨s', .nil, hs⟩
  | again hid _ ih =>
    cases hids with
    | cons hhead hrest =>
      obtain ⟨s₁', hvisits, hs₁⟩ := ih s' _ hrest hs
      exact ⟨s₁', .again ((hmem hhead hs).1 hid) hvisits, hs₁⟩
  | first hid _ _ ihInner ihRest =>
    cases hids with
    | cons hhead hrest =>
      obtain ⟨inner, hinner, hentered⟩ :=
        ihInner (s'.enter _) _ (h.children _ _ hhead) (List.rel_append hs (.cons hhead .nil))
      obtain ⟨s₁', hvisits, hs₁⟩ := ihRest (inner.leave _) _ hrest hentered
      exact ⟨s₁', .first (mt (hmem hhead hs).2 hid) hinner hvisits, hs₁⟩

theorem Agree.descendants {m m' : Model} (h : Agree m m') {id id' : ComponentId} (hid : SameName m m' id id') :
    List.Forall₂ (SameName m m') (m.descendants id) (m'.descendants id') := by
  obtain ⟨s, hvisits, hs⟩ := h.visits (h.left.visits_search [id]) {} _ (.cons hid .nil) .nil
  rwa [(h.right.visits_search_iff _ s).1 hvisits] at hs

/-! ## Analyses -/

theorem SameAnalysis.property? {m m' : Model} {a a' : Analysis} (h : SameAnalysis m m' a a') :
    a.property? = a'.property? := by
  funext position
  rw [Analysis.property?, Analysis.property?, h.decoded]

theorem SameAnalysis.authoritative {m m' : Model} {a a' : Analysis} (h : SameAnalysis m m' a a') :
    a.authoritative = a'.authoritative := by
  rw [Analysis.authoritative, Analysis.authoritative, Analysis.authoritativePositions,
    Analysis.authoritativePositions, h.ledger, h.property?]

theorem SameAnalysis.withAnswer {m m' : Model} {a a' : Analysis} (h : SameAnalysis m m' a a')
    (answer : Answer) : a.withAnswer answer = a'.withAnswer answer := by
  rw [Analysis.withAnswer, Analysis.withAnswer, h.authoritative]

/-- The item in front of the last. -/
theorem head?_tail_reverse {α : Type} {l : List α} {x : α} :
    l.reverse.tail.head? = some x ↔ ∃ earlier last, l = earlier ++ [x, last] := by
  constructor
  · intro hx
    rcases hl : l.reverse with _ | ⟨last, _ | ⟨y, rest⟩⟩
    · rw [hl] at hx
      cases hx
    · rw [hl] at hx
      cases hx
    · rw [hl] at hx
      cases hx
      refine ⟨rest.reverse, last, ?_⟩
      rw [← List.reverse_reverse l, hl]
      simp
  · rintro ⟨earlier, last, rfl⟩
    simp

/-- Which analyses count is read off those of the component, the latest first. -/
theorem WellFormed.latest {m : Model} (h : m.WellFormed) (id : ComponentId) :
    m.lastAnalysis? id = (m.analysesBy id).reverse.head? ∧
      m.modeAnalysis? id = (m.analysesBy id).reverse.tail.head?.filter (·.checksModes) := by
  constructor
  · refine Option.ext fun a => ?_
    rw [h.lastAnalysis?_eq_some, IsLast, List.head?_reverse, List.getLast?_eq_some_iff]
  · refine Option.ext fun a => ?_
    rw [h.modeAnalysis?_eq_some, IsModes, Option.filter_eq_some_iff, head?_tail_reverse,
      Analysis.checksModes, List.any_eq_true]
    simp only [decide_eq_true_eq]

/-- The analyses of a component that count have the same in them. -/
theorem Agree.latest {m m' : Model} (h : Agree m m') {id id' : ComponentId} (hid : SameName m m' id id') :
    Option.Rel (SameAnalysis m m') (m.lastAnalysis? id) (m'.lastAnalysis? id') ∧
      Option.Rel (SameAnalysis m m') (m.modeAnalysis? id) (m'.modeAnalysis? id') := by
  obtain ⟨hlast, hmodes⟩ := h.left.latest id
  obtain ⟨hlast', hmodes'⟩ := h.right.latest id'
  rw [hlast, hlast', hmodes, hmodes']
  have hrev := List.rel_reverse (h.analyses id id' hid)
  generalize (m.analysesBy id).reverse = latest, (m'.analysesBy id').reverse = latest' at hrev
  cases hrev with
  | nil => exact ⟨.none, .none⟩
  | cons hfirst hrest =>
    refine ⟨.some hfirst, ?_⟩
    cases hrest with
    | nil => exact .none
    | @cons a a' _ _ hsecond _ =>
      have hchecks : a.checksModes = a'.checksModes := by
        rw [Analysis.checksModes, Analysis.checksModes, hsecond.decoded]
      simp only [List.tail_cons, List.head?_cons, Option.filter, hchecks]
      split
      · exact .some hsecond
      · exact .none

theorem Agree.relevantAnalyses {m m' : Model} (h : Agree m m') {id id' : ComponentId}
    (hid : SameName m m' id id') (answer : Answer) :
    List.Forall₂ (SameAnalysis m m') (m.relevantAnalyses id answer) (m'.relevantAnalyses id' answer) := by
  obtain ⟨hlast, hmodes⟩ := h.latest hid
  refine List.rel_append ?_ (forall₂_toList hlast)
  split
  · exact forall₂_toList hmodes
  · exact .nil

/-- A projection has the same properties in two models that agree. -/
theorem Agree.withAnswer {m m' : Model} (h : Agree m m') {id id' : ComponentId} (hid : SameName m m' id id')
    (answer : Answer) : m.withAnswer id answer = m'.withAnswer id' answer := by
  rw [h.left.withAnswer_eq, h.right.withAnswer_eq]
  refine flatMap_eq_of_forall₂ (h.descendants hid) fun d d' hd => ?_
  exact flatMap_eq_of_forall₂ (h.relevantAnalyses hd answer) fun a a' ha => ha.withAnswer answer

end Model

end Verdicts
