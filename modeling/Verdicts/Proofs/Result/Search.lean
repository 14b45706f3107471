/-
What a depth-first search enters and in which order it leaves. `Visits` states the search as a recursion
whose depth nothing bounds; `visits_visit` says that the bound of `Search.visit` is never met, so that
the search ends and both come to the same.

Main statements: a search enters exactly what its starting points reach (`Visits.entered_iff`), each
component once; it leaves what it has entered (`Visits.left_perm`); and it leaves a component behind those
that the component calls, unless these call it back (`Visits.ordered`). The order rests on an invariant:
the components that are entered and not left are those from which the search came, so each of them
reaches all that is searched.
-/
import Verdicts.Result.Traversal
import Mathlib.Data.List.Perm.Basic
import Mathlib.Logic.Relation

namespace Verdicts

namespace Search

/-- Enter a component. -/
def enter (s : Search) (id : ComponentId) : Search := { s with entered := s.entered ++ [id] }

/-- Leave a component. -/
def leave (s : Search) (id : ComponentId) : Search := { s with left := s.left ++ [id] }

variable {next : ComponentId → List ComponentId}

/-- A path along `next` leads from one component to the other, perhaps an empty one. -/
def Reaches (next : ComponentId → List ComponentId) : ComponentId → ComponentId → Prop :=
  Relation.ReflTransGen fun caller callee => callee ∈ next caller

/-- `Visits next s ids s'`: searching along `next` from each of `ids`, one after the other, leads from `s`
to `s'`. -/
inductive Visits (next : ComponentId → List ComponentId) : Search → List ComponentId → Search → Prop
  | nil {s : Search} : Visits next s [] s
  | again {s s' : Search} {id : ComponentId} {rest : List ComponentId} : id ∈ s.entered →
      Visits next s rest s' → Visits next s (id :: rest) s'
  | first {s inner s' : Search} {id : ComponentId} {rest : List ComponentId} : id ∉ s.entered →
      Visits next (s.enter id) (next id) inner → Visits next (inner.leave id) rest s' →
      Visits next s (id :: rest) s'

/-! ## What a search adds -/

/-- A search only adds to what was entered and left, and it leaves exactly what it enters. -/
theorem Visits.grows {s s' : Search} {ids : List ComponentId} (h : Visits next s ids s') :
    ∃ entered left, s'.entered = s.entered ++ entered ∧ s'.left = s.left ++ left ∧ left.Perm entered := by
  induction h with
  | nil => exact ⟨[], [], by simp, by simp, .nil⟩
  | again _ _ ih => exact ih
  | @first s inner s' id rest _ _ _ ihInner ihRest =>
    obtain ⟨entered₁, left₁, he₁, hl₁, hp₁⟩ := ihInner
    obtain ⟨entered₂, left₂, he₂, hl₂, hp₂⟩ := ihRest
    refine ⟨id :: entered₁ ++ entered₂, left₁ ++ [id] ++ left₂, ?_, ?_, ?_⟩
    · rw [he₂, leave, he₁, enter]
      simp
    · rw [hl₂, leave, hl₁, enter]
      simp
    · exact (List.perm_append_singleton id left₁ |>.trans (hp₁.cons id)).append hp₂

theorem Visits.entered_subset {s s' : Search} {ids : List ComponentId} (h : Visits next s ids s') :
    s.entered ⊆ s'.entered := by
  obtain ⟨entered, -, he, -, -⟩ := h.grows
  rw [he]
  exact List.subset_append_left ..

theorem Visits.left_perm {ids : List ComponentId} {s : Search} (h : Visits next {} ids s) :
    s.left.Perm s.entered := by
  obtain ⟨entered, left, he, hl, hp⟩ := h.grows
  rw [he, hl]
  exact hp

theorem Visits.starts_entered {s s' : Search} {ids : List ComponentId} (h : Visits next s ids s') :
    ids ⊆ s'.entered := by
  induction h with
  | nil => exact List.nil_subset _
  | again hid hrest ih => exact List.cons_subset.2 ⟨hrest.entered_subset hid, ih⟩
  | first _ hinner hrest _ ih =>
    refine List.cons_subset.2 ⟨hrest.entered_subset ?_, ih⟩
    exact hinner.entered_subset (List.mem_append_right _ (List.mem_singleton_self _))

/-- Each component is entered once. -/
theorem Visits.entered_nodup {s s' : Search} {ids : List ComponentId} (h : Visits next s ids s')
    (hs : s.entered.Nodup) : s'.entered.Nodup := by
  induction h with
  | nil => exact hs
  | again _ _ ih => exact ih hs
  | first hid _ _ ihInner ihRest =>
    refine ihRest (ihInner ?_)
    exact (List.perm_append_singleton _ _).nodup_iff.2 (List.nodup_cons.2 ⟨hid, hs⟩)

theorem Visits.left_nodup {ids : List ComponentId} {s : Search} (h : Visits next {} ids s) :
    s.left.Nodup :=
  h.left_perm.nodup_iff.2 (h.entered_nodup List.nodup_nil)

/-! ## What a search enters -/

theorem Visits.reached {s s' : Search} {ids : List ComponentId} (h : Visits next s ids s') :
    ∀ x ∈ s'.entered, x ∈ s.entered ∨ ∃ id ∈ ids, Reaches next id x := by
  induction h with
  | nil => exact fun x hx => .inl hx
  | again _ _ ih =>
    intro x hx
    rcases ih x hx with hs | ⟨start, hstart, hpath⟩
    · exact .inl hs
    · exact .inr ⟨start, List.mem_cons_of_mem _ hstart, hpath⟩
  | @first s inner s' id rest _ _ _ ihInner ihRest =>
    intro x hx
    rcases ihRest x hx with hinner | ⟨start, hstart, hpath⟩
    · rcases ihInner x hinner with hs | ⟨callee, hcallee, hpath⟩
      · rcases List.mem_append.1 hs with hs | hid
        · exact .inl hs
        · rw [List.mem_singleton.1 hid]
          exact .inr ⟨id, List.mem_cons_self .., .refl⟩
      · exact .inr ⟨id, List.mem_cons_self .., .head hcallee hpath⟩
    · exact .inr ⟨start, List.mem_cons_of_mem _ hstart, hpath⟩

/-- A component that is entered has those that it calls entered as well. -/
theorem Visits.closed {s s' : Search} {ids : List ComponentId} (h : Visits next s ids s') :
    ∀ x ∈ s'.entered, x ∈ s.entered ∨ next x ⊆ s'.entered := by
  induction h with
  | nil => exact fun x hx => .inl hx
  | again _ _ ih => exact ih
  | @first s inner s' id rest _ hinner hrest ihInner ihRest =>
    intro x hx
    have hkept : inner.entered ⊆ s'.entered := hrest.entered_subset
    rcases ihRest x hx with hx | hcallees
    · rcases ihInner x hx with hx | hcallees
      · rcases List.mem_append.1 hx with hx | hx
        · exact .inl hx
        · rw [List.mem_singleton.1 hx]
          exact .inr (List.Subset.trans hinner.starts_entered hkept)
      · exact .inr (List.Subset.trans hcallees hkept)
    · exact .inr hcallees

/-- A search enters what its starting points reach and nothing else. -/
theorem Visits.entered_iff {ids : List ComponentId} {s : Search} (h : Visits next {} ids s)
    (x : ComponentId) : x ∈ s.entered ↔ ∃ id ∈ ids, Reaches next id x := by
  constructor
  · intro hx
    exact (h.reached x hx).resolve_left List.not_mem_nil
  · rintro ⟨id, hid, hpath⟩
    induction hpath with
    | refl => exact h.starts_entered hid
    | tail _ hcall ih => exact ((h.closed _ ih).resolve_left List.not_mem_nil) hcall

/-! ## The order in which a search leaves -/

/-- Each component of a list stands behind those that it calls, as far as these do not reach it. -/
def CalleesFirst (next : ComponentId → List ComponentId) (ids : List ComponentId) : Prop :=
  ∀ before id after, ids = before ++ id :: after → ∀ callee ∈ next id,
    callee ∈ before ∨ Reaches next callee id

theorem CalleesFirst.concat {ids : List ComponentId} {id : ComponentId} (h : CalleesFirst next ids)
    (hid : ∀ callee ∈ next id, callee ∈ ids ∨ Reaches next callee id) :
    CalleesFirst next (ids ++ [id]) := by
  intro before x after heq
  rcases List.eq_nil_or_concat' after with rfl | ⟨after, last, rfl⟩
  · obtain ⟨rfl, rfl⟩ := List.append_singleton_inj.1 heq
    exact hid
  · rw [← List.cons_append, ← List.append_assoc] at heq
    exact h before x after (List.append_singleton_inj.1 heq).1

/-- A search that comes from the components that are entered and not left keeps the order. -/
theorem Visits.ordered {s s' : Search} {ids : List ComponentId} (h : Visits next s ids s')
    (hopen : ∀ x ∈ s.entered, x ∈ s.left ∨ ∀ id ∈ ids, Reaches next x id)
    (hs : CalleesFirst next s.left) : CalleesFirst next s'.left := by
  induction h with
  | nil => exact hs
  | again _ _ ih =>
    refine ih (fun x hx => (hopen x hx).imp_right fun hpath id hid => ?_) hs
    exact hpath id (List.mem_cons_of_mem _ hid)
  | @first s inner s' id rest _ hinner _ ihInner ihRest =>
    obtain ⟨entered, left, he, hl, hp⟩ := hinner.grows
    have hopenInner : ∀ x ∈ (s.enter id).entered,
        x ∈ (s.enter id).left ∨ ∀ callee ∈ next id, Reaches next x callee := by
      intro x hx
      rcases List.mem_append.1 hx with hx | hx
      · refine (hopen x hx).imp_right fun hpath callee hcall => ?_
        exact .tail (hpath id (List.mem_cons_self ..)) hcall
      · rw [List.mem_singleton.1 hx]
        exact .inr fun callee hcall => .single hcall
    -- what is entered inside is left inside, what was open before is open still
    have hinnerLeft : ∀ x ∈ inner.entered,
        x ∈ inner.left ∨ x = id ∨ ∀ start ∈ id :: rest, Reaches next x start := by
      intro x hx
      rw [he] at hx
      rw [hl]
      rcases List.mem_append.1 hx with hx | hx
      · rcases List.mem_append.1 hx with hx | hx
        · rcases hopen x hx with hx | hpath
          · exact .inl (List.mem_append_left _ hx)
          · exact .inr (.inr hpath)
        · exact .inr (.inl (List.mem_singleton.1 hx))
      · exact .inl (List.mem_append_right _ (hp.mem_iff.2 hx))
    have hleaves : CalleesFirst next (inner.leave id).left := by
      refine (ihInner hopenInner hs).concat fun callee hcall => ?_
      rcases hinnerLeft callee (hinner.starts_entered hcall) with hleft | rfl | hpath
      · exact .inl hleft
      · exact .inr .refl
      · exact .inr (hpath id (List.mem_cons_self ..))
    refine ihRest (fun x hx => ?_) hleaves
    rcases hinnerLeft x hx with hleft | rfl | hpath
    · exact .inl (List.mem_append_left _ hleft)
    · exact .inl (List.mem_append_right _ (List.mem_singleton_self _))
    · exact .inr fun start hstart => hpath start (List.mem_cons_of_mem _ hstart)

theorem Visits.calleesFirst {ids : List ComponentId} {s : Search} (h : Visits next {} ids s) :
    CalleesFirst next s.left := by
  refine h.ordered (fun x hx => absurd hx List.not_mem_nil) fun before id after heq => ?_
  exact absurd heq.symm (List.append_ne_nil_of_right_ne_nil _ (List.cons_ne_nil _ _))

/-! ## The bound is never met -/

theorem visit_again {fuel : Nat} {s : Search} {id : ComponentId} (h : id ∈ s.entered) :
    visit next (fuel + 1) s id = s := by
  rw [visit, if_pos h]

theorem visit_first {fuel : Nat} {s : Search} {id : ComponentId} (h : id ∉ s.entered) :
    visit next (fuel + 1) s id = ((next id).foldl (visit next fuel) (s.enter id)).leave id := by
  rw [visit, if_neg h]
  rfl

/-- How many of some components are still to be entered. -/
def unentered (all : List ComponentId) (s : Search) : Nat := all.countP (· ∉ s.entered)

theorem unentered_le {all : List ComponentId} {s s' : Search} (h : s.entered ⊆ s'.entered) :
    unentered all s' ≤ unentered all s := by
  refine List.countP_mono_left fun id _ hid => ?_
  simp only [decide_eq_true_eq] at hid ⊢
  exact fun hs => hid (h hs)

theorem unentered_enter_lt {all : List ComponentId} {s : Search} {id : ComponentId} (hall : id ∈ all)
    (hid : id ∉ s.entered) : unentered all (s.enter id) < unentered all s := by
  induction all with
  | nil => exact absurd hall List.not_mem_nil
  | cons head tail ih =>
    have htail : unentered tail (s.enter id) ≤ unentered tail s :=
      unentered_le (List.subset_append_left ..)
    simp only [unentered, List.countP_cons] at ih htail ⊢
    by_cases heq : head = id
    · have hentered : head ∈ (s.enter id).entered := by simp [enter, heq]
      have hnot : head ∉ s.entered := heq ▸ hid
      simp only [hentered, hnot, not_true, not_false_eq_true, decide_true, decide_false, if_true,
        Bool.false_eq_true, if_false]
      omega
    · have hiff : head ∈ (s.enter id).entered ↔ head ∈ s.entered := by simp [enter, heq]
      have hlt := ih ((List.mem_cons.1 hall).resolve_left (Ne.symm heq))
      simp only [hiff]
      omega

/-- With a bound above the number of components that are still to be entered, a search is the unbounded
one. A component that is none of `all` may be a starting point if it calls nothing. -/
theorem visits_visit {all : List ComponentId} (hcalls : ∀ id, next id ⊆ all) (fuel : Nat) (s : Search)
    (ids : List ComponentId) (hids : ∀ id ∈ ids, id ∈ all ∨ next id = []) (hfuel : unentered all s < fuel) :
    Visits next s ids (ids.foldl (visit next fuel) s) := by
  induction fuel generalizing s ids with
  | zero => exact absurd hfuel (Nat.not_lt_zero _)
  | succ fuel ihFuel =>
    induction ids generalizing s with
    | nil => exact .nil
    | cons id rest ihRest =>
      have hrest : ∀ x ∈ rest, x ∈ all ∨ next x = [] := fun x hx => hids x (List.mem_cons_of_mem _ hx)
      rw [List.foldl_cons]
      by_cases hid : id ∈ s.entered
      · rw [visit_again hid]
        exact .again hid (ihRest s hrest hfuel)
      · rw [visit_first hid]
        have hinner :
            Visits next (s.enter id) (next id) ((next id).foldl (visit next fuel) (s.enter id)) := by
          rcases hids id (List.mem_cons_self ..) with hall | hnone
          · have hlt := unentered_enter_lt hall hid
            exact ihFuel _ _ (fun x hx => .inl (hcalls id hx)) (by omega)
          · rw [hnone]
            exact .nil
        have hkept : s.entered ⊆ (((next id).foldl (visit next fuel) (s.enter id)).leave id).entered :=
          List.Subset.trans (List.subset_append_left ..) hinner.entered_subset
        exact .first hid hinner (ihRest _ hrest (Nat.lt_of_le_of_lt (unentered_le hkept) hfuel))

/-- A search has one outcome. -/
theorem Visits.unique {s s₁ s₂ : Search} {ids : List ComponentId} (h₁ : Visits next s ids s₁)
    (h₂ : Visits next s ids s₂) : s₁ = s₂ := by
  induction h₁ generalizing s₂ with
  | nil => cases h₂; rfl
  | again hid _ ih =>
    cases h₂ with
    | again _ hrest => exact ih hrest
    | first hnot _ _ => exact absurd hid hnot
  | first hid _ _ ihInner ihRest =>
    cases h₂ with
    | again hmem _ => exact absurd hmem hid
    | first _ hinner hrest =>
      obtain rfl := ihInner hinner
      exact ihRest hrest

end Search

end Verdicts
