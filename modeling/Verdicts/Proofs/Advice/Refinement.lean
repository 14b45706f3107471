/-
Which subcomponents a component was verified with the definition of only. `Refines` says of two analyses of a
component that a subcomponent is abstract in the one and concrete in the other. Main statement: advice to strengthen
contracts names, each once, the subcomponents that are abstract in one analysis and concrete in the next. One that is
concrete only later is named if the analyses in between list it; otherwise it can be missed (`refinement_missed`).
-/
import Verdicts.Proofs.Advice.Found
import Verdicts.Proofs.Result.CalleeNames
import Verdicts.Proofs.Result.Coherence

namespace Verdicts

namespace Model

/-- The component is abstract in the `i`-th of the analyses and concrete in the `j`-th. -/
def Refines (analyses : List Analysis) (i j : Nat) (id : ComponentId) : Prop :=
  ∃ a b, analyses[i]? = some a ∧ analyses[j]? = some b ∧ id ∈ a.abstracted ∧ id ∈ b.concrete

/-- The analysis treats the component in one way or the other. -/
def Treats (a : Analysis) (id : ComponentId) : Prop := id ∈ a.abstracted ∨ id ∈ a.concrete

/-! ## Names entered one by one -/

theorem mem_foldl_enterName {names entered : List String} {name : String} :
    name ∈ names.foldl enterName entered ↔ name ∈ entered ∨ name ∈ names := by
  induction names generalizing entered with
  | nil => simp
  | cons first rest ih =>
    rw [List.foldl_cons, ih, enterName]
    split
    · rename_i hmem
      rw [List.mem_cons]
      constructor
      · rintro (hold | hrest)
        · exact .inl hold
        · exact .inr (.inr hrest)
      · rintro (hold | rfl | hrest)
        · exact .inl hold
        · exact .inl hmem
        · exact .inr hrest
    · simp [or_assoc]

theorem nodup_foldl_enterName {names entered : List String} (h : entered.Nodup) :
    (names.foldl enterName entered).Nodup := by
  induction names generalizing entered with
  | nil => exact h
  | cons first rest ih =>
    rw [List.foldl_cons]
    apply ih
    unfold enterName
    split
    · exact h
    · rename_i hnew
      exact (List.perm_append_singleton _ _).nodup_iff.2 (List.nodup_cons.2 ⟨hnew, h⟩)

/-! ## From one analysis to the next -/

theorem mem_zip_tail {α : Type} {l : List α} {x y : α} :
    (x, y) ∈ l.zip l.tail ↔ ∃ i, l[i]? = some x ∧ l[i + 1]? = some y := by
  simp only [List.mem_iff_getElem?, List.getElem?_zip_eq_some, List.getElem?_tail]

theorem refinedNames_eq (nameOf : ComponentId → String) (analyses : List Analysis) :
    refinedNames nameOf analyses =
      (((analyses.zip analyses.tail).reverse.flatMap fun p => p.1.abstracted.filter (· ∈ p.2.concrete)).map
        nameOf).foldl enterName [] := by
  rw [List.foldl_map]
  rfl

theorem refinedNames_nodup (nameOf : ComponentId → String) (analyses : List Analysis) :
    (refinedNames nameOf analyses).Nodup := by
  rw [refinedNames_eq]
  exact nodup_foldl_enterName List.nodup_nil

theorem mem_refinedNames {nameOf : ComponentId → String} {analyses : List Analysis} {name : String} :
    name ∈ refinedNames nameOf analyses ↔ ∃ id i, Refines analyses i (i + 1) id ∧ nameOf id = name := by
  rw [refinedNames_eq, mem_foldl_enterName, List.mem_map]
  constructor
  · rintro (hnil | ⟨id, hid, rfl⟩)
    · cases hnil
    · obtain ⟨⟨a, b⟩, hab, hid⟩ := List.mem_flatMap.1 hid
      obtain ⟨i, ha, hb⟩ := mem_zip_tail.1 (List.mem_reverse.1 hab)
      obtain ⟨habstract, hconcrete⟩ := List.mem_filter.1 hid
      exact ⟨id, i, ⟨a, b, ha, hb, habstract, of_decide_eq_true hconcrete⟩, rfl⟩
  · rintro ⟨id, i, ⟨a, b, ha, hb, habstract, hconcrete⟩, rfl⟩
    refine .inr ⟨id, List.mem_flatMap.2 ⟨(a, b), ?_, ?_⟩, rfl⟩
    · exact List.mem_reverse.2 (mem_zip_tail.2 ⟨i, ha, hb⟩)
    · exact List.mem_filter.2 ⟨habstract, decide_eq_true hconcrete⟩

/-- A subcomponent that is treated all the way from abstract to concrete changes from one analysis to the next. -/
theorem Refines.exists_next {analyses : List Analysis} {i j : Nat} {id : ComponentId} (h : Refines analyses i j id)
    (hlt : i < j) (htreated : ∀ k a, i < k → k < j → analyses[k]? = some a → Treats a id) :
    ∃ k, Refines analyses k (k + 1) id := by
  obtain ⟨n, rfl⟩ : ∃ n, j = i + 1 + n := ⟨j - (i + 1), by omega⟩
  induction n generalizing i with
  | zero => exact ⟨i, h⟩
  | succ n ih =>
    obtain ⟨a, b, ha, hb, habstract, hconcrete⟩ := h
    have hbound : i + 1 + (n + 1) < analyses.length := (List.getElem?_eq_some_iff.1 hb).1
    obtain ⟨next, hnext⟩ : ∃ next, analyses[i + 1]? = some next :=
      ⟨_, List.getElem?_eq_getElem (by omega)⟩
    -- the next analysis treats it as the first one does, or it is concrete there already
    rcases htreated (i + 1) next (by omega) (by omega) hnext with hstill | hchanged
    · have hindex : i + 1 + (n + 1) = i + 1 + 1 + n := by omega
      rw [hindex] at hb htreated
      refine ih ⟨next, b, hnext, hb, hstill, hconcrete⟩ (by omega) fun k c hik hkj hc => ?_
      exact htreated k c (by omega) hkj hc
    · exact ⟨i, a, next, ha, hnext, habstract, hchanged⟩

theorem Refines.named {m : Model} (hlinked : m.Linked) {owner id : ComponentId} {i j : Nat}
    (h : Refines (m.analysesBy owner) i j id) : m.Named id (m.nameOf id) := by
  obtain ⟨a, b, ha, -, habstract, -⟩ := h
  have hmem := (mem_analysesBy.1 (List.mem_of_getElem? ha)).1
  exact named_nameOf (hlinked.context a hmem id (List.mem_append_right _ habstract))

/-! ## The advice -/

/-- On every model that changes have made, advice to strengthen contracts names each of its subjects once, and names
the subcomponents that are abstract in one analysis of the component and concrete in the next. With that it names all
that are abstract in one analysis and concrete in a later one, as long as every analysis in between treats them. -/
theorem subjects_of_refinement (changes : List Change) (settings : DisplaySettings) :
    let m := ofChanges changes
    ∀ c ∈ m.components, ∀ s ∈ m.freeze.advise settings, s.component = c.name →
      s.kind = .strengthenSubComponentContract →
      s.subjects.Nodup ∧
        (∀ name, name ∈ s.subjects ↔ ∃ id i, m.Named id name ∧ Refines (m.analysesBy c.id) i (i + 1) id) ∧
        ∀ name id i j, i < j → m.Named id name → Refines (m.analysesBy c.id) i j id →
          (∀ k a, i < k → k < j → (m.analysesBy c.id)[k]? = some a → Treats a id) → name ∈ s.subjects := by
  intro m c hc s hs hname hkind
  have h : m.WellFormed := wellFormed_ofChanges changes
  have hlinked : m.Linked := linked_ofChanges changes
  obtain ⟨last, f, -, hfound, rfl⟩ := h.exists_found hc hs hname (by rw [hkind]; decide)
  have hsubjects : (f.suggest settings c.name).subjects = refinedNames m.nameOf (m.analysesBy c.id) := by
    cases hfound with
    | refined => rfl
    | _ => cases hkind
  have hmem : ∀ name, name ∈ (f.suggest settings c.name).subjects ↔
      ∃ id i, m.Named id name ∧ Refines (m.analysesBy c.id) i (i + 1) id := by
    intro name
    rw [hsubjects, mem_refinedNames]
    constructor
    · rintro ⟨id, i, hrefines, rfl⟩
      exact ⟨id, i, hrefines.named hlinked, hrefines⟩
    · rintro ⟨id, i, hnamed, hrefines⟩
      exact ⟨id, i, hrefines, hnamed.nameOf⟩
  refine ⟨hsubjects ▸ refinedNames_nodup _ _, hmem, fun name id i j hlt hnamed hrefines htreated => ?_⟩
  obtain ⟨k, hnext⟩ := hrefines.exists_next hlt htreated
  exact (hmem name).2 ⟨id, k, hnamed, hnext⟩

/-- Three analyses, in which two subcomponents become concrete one after the other. -/
def stepwiseRefinement : List Change :=
  [.addAnalysis "Top" { abstracted := ["Sub", "Other"] },
    .addAnalysis "Top" { concrete := ["Sub"], abstracted := ["Other"] },
    .addAnalysis "Top" { concrete := ["Sub", "Other"] }]

theorem subjects_of_refinement_stepwise :
    let m := ofChanges stepwiseRefinement
    ∃ c ∈ m.components, ∃ s ∈ m.freeze.advise {}, s.component = c.name ∧
      s.kind = .strengthenSubComponentContract ∧ s.subjects = ["Other", "Sub"] ∧
      ∀ name, name ∈ s.subjects ↔ ∃ id i, m.Named id name ∧ Refines (m.analysesBy c.id) i (i + 1) id := by
  intro m
  obtain ⟨c, hc, s, hs, hon, hkind, hsubjects⟩ : ∃ c ∈ m.components, ∃ s ∈ m.freeze.advise {},
      s.component = c.name ∧ s.kind = .strengthenSubComponentContract ∧ s.subjects = ["Other", "Sub"] := by
    decide +kernel
  have hrefined := subjects_of_refinement stepwiseRefinement {} c hc s hs hon hkind
  exact ⟨c, hc, s, hs, hon, hkind, hsubjects, hrefined.2.1⟩

/-- Three analyses, of which the one in the middle checks the modes and lists no subcomponent. -/
def interruptedRefinement : List Change :=
  [.addAnalysis "Top" { abstracted := ["Sub"] },
    .addAnalysis "Top" {},
    .addProperty ⟨1⟩ { name := "modes", scope := "Top", origin := .oneModeActive, answer := .valid },
    .addAnalysis "Top" { concrete := ["Sub"] }]

/-- A subcomponent that an analysis in between does not list is missed. -/
theorem refinement_missed :
    let m := ofChanges interruptedRefinement
    ∃ c ∈ m.components, ∃ s ∈ m.freeze.advise {}, s.component = c.name ∧
      s.kind = .strengthenSubComponentContract ∧
      ¬∀ name, name ∈ s.subjects ↔
        ∃ id i j, i < j ∧ m.Named id name ∧ Refines (m.analysesBy c.id) i j id := by
  intro m
  obtain ⟨c, hc, s, hs, hid, hon, hkind, hsubjects⟩ : ∃ c ∈ m.components, ∃ s ∈ m.freeze.advise {},
      c.id = ⟨0⟩ ∧ s.component = c.name ∧ s.kind = .strengthenSubComponentContract ∧ s.subjects = [] := by
    decide +kernel
  refine ⟨c, hc, s, hs, hon, hkind, fun hall => ?_⟩
  -- the first analysis has it abstract and the third one concrete
  obtain ⟨a, ha, habstract⟩ : ∃ a ∈ (m.analysesBy ⟨0⟩)[0]?, ⟨1⟩ ∈ a.abstracted := by decide +kernel
  obtain ⟨b, hb, hconcrete⟩ : ∃ b ∈ (m.analysesBy ⟨0⟩)[2]?, ⟨1⟩ ∈ b.concrete := by decide +kernel
  have hnamed : m.Named ⟨1⟩ "Sub" := by
    have hname : m.names[1]? = some "Sub" := by decide +kernel
    exact hname
  have hrefines : Refines (m.analysesBy c.id) 0 2 ⟨1⟩ := hid ▸ ⟨a, b, ha, hb, habstract, hconcrete⟩
  have hsub := (hall "Sub").2 ⟨⟨1⟩, 0, 2, by decide, hnamed, hrefines⟩
  rw [hsubjects] at hsub
  cases hsub

end Model

end Verdicts
