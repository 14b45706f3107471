/-
Verdicts read off what was decoded, and off nothing else. `attemptsAt` are the attempts at a logical name, and
`namesWith` lists the names whose last attempt has a verdict, in the order in which the names were first decoded. Main
statement: in every analysis of a model that changes have made, these are the names of the properties that count and
have the verdict, in order (`Ordered.names_withAnswer`, `ordered_ofChanges`).
-/
import Verdicts.Proofs.Result.Steps
import Verdicts.Proofs.Result.Supersession

namespace Verdicts

/-- The attempts at a logical name, oldest first. -/
def attemptsAt (ps : List Property) (name : String) : List Property := ps.filter (·.displayName = name)

/-- The verdict of the last attempt at a logical name. -/
def verdictAt? (ps : List Property) (name : String) : Option Answer := (attemptsAt ps name).getLast?.map (·.answer)

/-- The logical names whose last attempt has a verdict, in the order in which the names were first decoded. -/
def namesWith (answer : Answer) (ps : List Property) : List String :=
  (ps.map (·.displayName)).eraseDups.filter (verdictAt? ps · = some answer)

/-- What is kept of the items that names find, by name. -/
theorem map_filter_filterMap {α β : Type} {find : α → Option β} {name : β → α}
    (hname : ∀ x y, find x = some y → name y = x) (q : β → Bool) (names : List α) :
    ((names.filterMap find).filter q).map name = names.filter fun x => (find x).any q := by
  induction names with
  | nil => rfl
  | cons x rest ih =>
    rcases hx : find x with _ | y
    · rw [List.filterMap_cons_none hx, ih]
      simp [hx]
    · rw [List.filterMap_cons_some hx, List.filter_cons, List.filter_cons, hx, Option.any_some]
      split
      · rw [List.map_cons, ih, hname x y hx]
      · exact ih

namespace Analysis

variable {a : Analysis}

theorem Tidy.latest?_eq_attemptsAt (h : a.Tidy) (name : String) :
    a.latest? name = (attemptsAt a.decoded name).getLast? :=
  h.latest?_eq name

/-- A property that counts is the last attempt at its name. -/
theorem Tidy.exists_attemptsAt (h : a.Tidy) {p : Property} (hp : p ∈ a.authoritative) :
    ∃ earlier, attemptsAt a.decoded p.displayName = earlier ++ [p] := by
  have hlatest := h.latest?_of_mem hp
  rw [h.latest?_eq_attemptsAt] at hlatest
  exact List.getLast?_eq_some_iff.1 hlatest

/-- The names of the properties that count and have a verdict are those whose last attempt has it, in the order of
first decoding. -/
theorem Ordered.names_withAnswer (h : a.Ordered) (answer : Answer) :
    (a.withAnswer answer).map (·.displayName) = namesWith answer a.decoded := by
  have hname : ∀ name p, a.latest? name = some p → p.displayName = name := fun _ _ => h.displayName_latest?
  rw [withAnswer, h.authoritative_eq, map_filter_filterMap hname, h.order, namesWith]
  refine List.filter_congr fun name _ => ?_
  rw [h.latest?_eq_attemptsAt, verdictAt?]
  cases (attemptsAt a.decoded name).getLast? <;> simp

theorem Tidy.nodup_names_withAnswer (h : a.Tidy) (answer : Answer) :
    ((a.withAnswer answer).map (·.displayName)).Nodup :=
  h.displayNames_nodup.sublist (List.filter_sublist.map _)

theorem Ordered.pushPostAnalysis (h : a.Ordered) (post : PostAnalysis) : (a.pushPostAnalysis post).Ordered :=
  ⟨⟨h.names, h.positions, h.named⟩, h.order⟩

end Analysis

namespace Model

theorem Step.ordered {m m' : Model} (hstep : Step m m') (h : ∀ a ∈ m.analyses, a.Ordered) :
    ∀ a ∈ m'.analyses, a.Ordered := by
  cases hstep with
  | component _ => exact h
  | call _ _ _ _ => exact h
  | analysis _ _ =>
    intro a ha
    rcases List.mem_append.1 ha with hold | hnew
    · exact h a hold
    · rw [List.mem_singleton.1 hnew]
      exact Analysis.ordered_of_empty rfl rfl
  | property _ => exact forall_mem_modify h (fun a ha => ha.push _) _
  | postAnalysis _ => exact forall_mem_modify h (fun a ha => ha.pushPostAnalysis _) _

theorem ordered_ofChanges (changes : List Change) : ∀ a ∈ (ofChanges changes).analyses, a.Ordered :=
  ofChanges_induction (P := fun m => ∀ a ∈ m.analyses, a.Ordered) (fun _ ha => absurd ha List.not_mem_nil)
    (fun _ _ hstep h => hstep.ordered h) changes

end Model

end Verdicts
