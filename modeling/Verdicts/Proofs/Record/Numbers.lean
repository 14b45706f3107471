/-
Numbers of records. A line, a column or a depth may be written as a number or as a text; whichever it is, and with whatever
blanks, sign and zeros around the digits, the field takes the number if it is below the limit of the field, and the record
is refused if it is not. Main statement: `Schema.takes_numbers`.
-/
import Mathlib.Data.List.Find
import Mathlib.Data.List.Pairwise
import Verdicts.Proofs.Json.Integers
import Verdicts.Proofs.Record.Members
import Verdicts.Proofs.Text.Decimal
import Verdicts.Record.Schema

namespace Verdicts

open Decimal (Denotes)

/-! ## Values that stand for a number -/

/-- The value stands for the number: as its literal, or as a text that denotes it. -/
inductive StandsFor (n : Nat) : Json → Prop
  | literal : StandsFor n (.number (.ofLiteral (Json.integer false n)))
  | text {text : String} : Denotes n text.toList → StandsFor n (.string text)

/-- The reader takes the numbers below a limit, and of texts only those that denote one. -/
structure TakesBelow (limit : Nat) (read : Read (Option Nat)) : Prop where
  takes : ∀ {n : Nat} {v : Json}, StandsFor n v → ∀ result, read v = .ok result ↔ n < limit ∧ result = some n
  refuses : ∀ {text : String}, (∀ n, ¬ Denotes n text.toList) → ∃ e, read (.string text) = .error e

namespace Read

theorem lenient64_string (text : String) (result : Option Nat) :
    lenient64 (.string text) = .ok result ↔ ∃ n, Denotes n text.toList ∧ n < Decimal.limit64 ∧ result = some n := by
  have hread : ∀ n, Decimal.unsigned? Decimal.limit64 (Text.trim text.toList) = some n ↔
      Denotes n text.toList ∧ n < Decimal.limit64 := by
    intro n
    rw [Decimal.unsigned?_eq_some_iff, Decimal.denotes_iff]
  rw [lenient64]
  cases hvalue : Decimal.unsigned? Decimal.limit64 (Text.trim text.toList) with
  | none =>
    refine ⟨fun h => (nomatch h), ?_⟩
    rintro ⟨n, hn, hlt, -⟩
    exact nomatch hvalue.symm.trans ((hread n).2 ⟨hn, hlt⟩)
  | some m =>
    constructor
    · rintro ⟨⟩
      exact ⟨m, ((hread m).1 hvalue).1, ((hread m).1 hvalue).2, rfl⟩
    · rintro ⟨n, hn, hlt, rfl⟩
      rw [Option.some.inj (hvalue.symm.trans ((hread n).2 ⟨hn, hlt⟩))]

theorem takesBelow_lenient64 : TakesBelow Decimal.limit64 lenient64 where
  takes := by
    rintro n v (_ | @⟨text, hn⟩) result
    · by_cases hlt : n < Decimal.limit64
      · rw [Json.Number.ofLiteral_natural hlt]
        exact ⟨fun h => ⟨hlt, (Except.ok.inj h).symm⟩, fun h => h.2 ▸ rfl⟩
      · obtain ⟨x, hx⟩ := Json.Number.ofLiteral_natural_large (Nat.le_of_not_lt hlt)
        rw [hx]
        exact ⟨fun h => (nomatch h), fun h => absurd h.1 hlt⟩
    · rw [lenient64_string]
      constructor
      · rintro ⟨m, hm, hlt, rfl⟩
        rw [hn.unique hm]
        exact ⟨hlt, rfl⟩
      · rintro ⟨hlt, rfl⟩
        exact ⟨n, hn, hlt, rfl⟩
  refuses := by
    intro text hnone
    cases hread : lenient64 (.string text) with
    | error e => exact ⟨e, rfl⟩
    | ok result =>
      obtain ⟨n, hn, -⟩ := (lenient64_string text result).1 hread
      exact absurd hn (hnone n)

theorem takesBelow_lenient32 : TakesBelow Decimal.limit32 lenient32 where
  takes := by
    intro n v hv result
    have h64 := takesBelow_lenient64.takes hv
    rw [lenient32]
    cases hread : lenient64 v with
    | error e =>
      refine ⟨fun h => (nomatch h), fun h => ?_⟩
      have hlt : n < Decimal.limit64 := Nat.lt_trans h.1 (by decide)
      exact nomatch hread.symm.trans ((h64 (some n)).2 ⟨hlt, rfl⟩)
    | ok found =>
      obtain ⟨-, rfl⟩ := (h64 found).1 hread
      show (if n < Decimal.limit32 then Except.ok (some n) else .error (DataError.tooWide n)) = .ok result ↔ _
      split
      · rename_i hlt
        exact ⟨fun h => ⟨hlt, (Except.ok.inj h).symm⟩, fun h => h.2 ▸ rfl⟩
      · rename_i hge
        exact ⟨fun h => (nomatch h), fun h => absurd h.1 hge⟩
  refuses := by
    intro text hnone
    obtain ⟨e, he⟩ := takesBelow_lenient64.refuses hnone
    refine ⟨e, ?_⟩
    rw [lenient32, he]
    rfl

example : lenient32 (.string "\t+04294967295 ") = .ok (some 4294967295) := by decide +kernel

example : lenient32 (.string "4294967296") = .error (.tooWide 4294967296) := by decide +kernel

end Read

/-! ## One member among others -/

namespace Shape

variable {σ : Type} {fields : List (Field σ)}

/-- What has been taken of the members of an object, with one field put in place besides. -/
def TakenWith (name : String) (put : σ → σ) (taken taken' : σ × List String) : Prop :=
  taken'.1 = put taken.1 ∧ ∀ other, other ≠ name → (other ∈ taken'.2 ↔ other ∈ taken.2)

theorem takeMembers_append (seen : List String) (s : σ) (before after : List (String × Json)) :
    takeMembers fields seen s (before ++ after) =
      (takeMembers fields seen s before).bind fun taken => takeMembers fields taken.2 taken.1 after := by
  induction before generalizing seen s with
  | nil => rfl
  | cons member before ih =>
    obtain ⟨key, v⟩ := member
    rw [List.cons_append, takeMembers, takeMembers]
    cases fields.find? (·.name == key) with
    | none => exact ih seen s
    | some f =>
      simp only
      split
      · rfl
      · cases f.read v with
        | error e => rfl
        | ok put => exact ih (key :: seen) (put s)

theorem Independent.eq_or_commute (h : Independent fields) {f g : Field σ} (hf : f ∈ fields) (hg : g ∈ fields) :
    g = f ∨ g.name ≠ f.name ∧ g.Commute f := by
  by_cases heq : g = f
  · exact .inl heq
  · have hsymm : Std.Symm fun f g : Field σ => f.name ≠ g.name ∧ f.Commute g := ⟨fun _ _ h => ⟨h.1.symm, h.2.symm⟩⟩
    exact .inr (List.Pairwise.forall h hg hf heq)

theorem find?_name (h : Independent fields) {f : Field σ} (hf : f ∈ fields) : fields.find? (·.name == f.name) = some f := by
  cases hfind : fields.find? (·.name == f.name) with
  | none => exact absurd (beq_self_eq_true f.name) (List.find?_eq_none.1 hfind f hf)
  | some g =>
    rcases h.eq_or_commute hf (List.mem_of_find?_eq_some hfind) with rfl | hother
    · rfl
    · exact absurd (beq_iff_eq.1 (List.find?_some (p := fun g : Field σ => g.name == f.name) hfind)) hother.1

/-- Members of other names are taken alike whether a field is in place already or not. -/
theorem takeMembers_put (hfields : Independent fields) {f : Field σ} (hf : f ∈ fields) {v : Json} {put : σ → σ}
    (hput : f.read v = .ok put) {members : List (String × Json)} (hnew : f.name ∉ members.map (·.1))
    {taken taken' : σ × List String} (h : TakenWith f.name put taken taken') :
    (∃ e, takeMembers fields taken.2 taken.1 members = .error e ∧ takeMembers fields taken'.2 taken'.1 members = .error e) ∨
      ∃ last last', takeMembers fields taken.2 taken.1 members = .ok last ∧
        takeMembers fields taken'.2 taken'.1 members = .ok last' ∧ TakenWith f.name put last last' := by
  induction members generalizing taken taken' with
  | nil => exact .inr ⟨taken, taken', rfl, rfl, h⟩
  | cons member rest ih =>
    obtain ⟨key, w⟩ := member
    rw [List.map_cons, List.mem_cons, not_or] at hnew
    rw [takeMembers, takeMembers]
    cases hfind : fields.find? (·.name == key) with
    | none => exact ih hnew.2 h
    | some g =>
      have hname : g.name = key := beq_iff_eq.1 (List.find?_some (p := fun g : Field σ => g.name == key) hfind)
      have hcommute : g.Commute f := by
        rcases hfields.eq_or_commute hf (List.mem_of_find?_eq_some hfind) with rfl | hother
        · exact absurd hname hnew.1
        · exact hother.2
      have hseen := h.2 key (Ne.symm hnew.1)
      simp only
      by_cases hmem : key ∈ taken.2
      · rw [if_pos hmem, if_pos (hseen.2 hmem)]
        exact .inl ⟨_, rfl, rfl⟩
      · rw [if_neg hmem, if_neg (mt hseen.1 hmem)]
        cases hread : g.read w with
        | error e => exact .inl ⟨e, rfl, rfl⟩
        | ok put' =>
          have hnext : TakenWith f.name put (put' taken.1, key :: taken.2) (put' taken'.1, key :: taken'.2) := by
            refine ⟨?_, fun other hother => by rw [List.mem_cons, List.mem_cons, h.2 other hother]⟩
            simp only
            rw [h.1]
            exact hcommute w v put' put taken.1 hread hput
          exact ih hnew.2 hnext

/-- Whether something is missing does not depend on a field that may be left out. -/
theorem find?_missing (hfields : Independent fields) {f : Field σ} (hf : f ∈ fields) (hoptional : f.required = false)
    {put : σ → σ} {taken taken' : σ × List String} (h : TakenWith f.name put taken taken') :
    fields.find? (fun g => g.required && !taken'.2.contains g.name) =
      fields.find? (fun g => g.required && !taken.2.contains g.name) := by
  refine List.find?_congr fun g hg => ?_
  rcases hfields.eq_or_commute hf hg with rfl | hother
  · rw [hoptional, Bool.false_and, Bool.false_and]
  · congr 2
    rw [Bool.eq_iff_iff, List.contains_iff_mem, List.contains_iff_mem]
    exact h.2 g.name hother.1

/-- A member that may be left out adds its field to what the others give. -/
theorem ofMembers_insert {shape : Shape σ} (hfields : Independent shape.fields) {f : Field σ} (hf : f ∈ shape.fields)
    (hoptional : f.required = false) {before after : List (String × Json)}
    (hnew : f.name ∉ (before ++ after).map (·.1)) (v : Json) (s' : σ) :
    shape.ofMembers (before ++ (f.name, v) :: after) = .ok s' ↔
      ∃ put s, f.read v = .ok put ∧ shape.ofMembers (before ++ after) = .ok s ∧ s' = put s := by
  rw [List.map_append, List.mem_append, not_or] at hnew
  unfold ofMembers
  rw [takeMembers_append, takeMembers_append]
  cases hbefore : takeMembers shape.fields [] shape.blank before with
  | error e =>
    refine iff_of_false (by rintro ⟨⟩) ?_
    rintro ⟨_, _, _, ⟨⟩, _⟩
  | ok taken =>
    have hunseen : f.name ∉ taken.2 := by
      rw [seen_of_takeMembers hbefore hf]
      simpa using hnew.1
    simp only [Except.bind, takeMembers, find?_name hfields hf, if_neg hunseen]
    cases hread : f.read v with
    | error e =>
      refine iff_of_false (by rintro ⟨⟩) ?_
      rintro ⟨_, _, ⟨⟩, _⟩
    | ok put =>
      have hwith : TakenWith f.name put taken (put taken.1, f.name :: taken.2) :=
        ⟨rfl, fun other hother => by rw [List.mem_cons, or_iff_right hother]⟩
      rcases takeMembers_put hfields hf hread hnew.2 hwith with ⟨e, herror, herror'⟩ | ⟨last, last', hlast, hlast', hsame⟩
      · simp only [herror, herror']
        refine iff_of_false (by rintro ⟨⟩) ?_
        rintro ⟨_, _, _, ⟨⟩, _⟩
      · simp only [hlast, hlast', find?_missing hfields hf hoptional hsame]
        cases shape.fields.find? (fun g => g.required && !last.2.contains g.name) with
        | some g =>
          refine iff_of_false (by rintro ⟨⟩) ?_
          rintro ⟨_, _, _, ⟨⟩, _⟩
        | none =>
          constructor
          · rintro ⟨⟩
            exact ⟨put, last.1, rfl, rfl, hsame.1⟩
          · rintro ⟨_, _, ⟨⟩, ⟨⟩, rfl⟩
            exact congrArg Except.ok hsame.1

end Shape

/-! ## Fields of numbers -/

section Fields

variable {σ : Type}

/-- The shape takes a number below a limit by one of its members, which may stand anywhere among the others: the structure
is what these give, with the number put in place. A text that denotes no number is refused. -/
structure TakesNumber (shape : Shape σ) (name : String) (put : Option Nat → σ → σ) (limit : Nat) : Prop where
  takes : ∀ before after n v, name ∉ (before ++ after).map (·.1) → StandsFor n v →
    ∀ s', shape.ofMembers (before ++ (name, v) :: after) = .ok s' ↔
      n < limit ∧ ∃ s, shape.ofMembers (before ++ after) = .ok s ∧ s' = put (some n) s
  refuses : ∀ before after text, name ∉ (before ++ after).map (·.1) → (∀ n, ¬ Denotes n text.toList) →
    ∃ e, shape.ofMembers (before ++ (name, .string text) :: after) = .error e

theorem takesNumber {shape : Shape σ} {name : String} {put : Option Nat → σ → σ} {limit : Nat} {read : Read (Option Nat)}
    (hfields : Shape.Independent shape.fields) (hf : Field.optional name read put ∈ shape.fields)
    (hread : TakesBelow limit read) : TakesNumber shape name put limit where
  takes := by
    intro before after n v hnew hv s'
    have hplaced : ∀ placed, (Field.optional name read put).read v = .ok placed ↔ n < limit ∧ placed = put (some n) := by
      intro placed
      show (read v).map put = .ok placed ↔ _
      constructor
      · intro h
        cases hresult : read v with
        | error e => rw [hresult] at h; cases h
        | ok result =>
          obtain ⟨hlt, rfl⟩ := (hread.takes hv result).1 hresult
          rw [hresult] at h
          exact ⟨hlt, (Except.ok.inj h).symm⟩
      · rintro ⟨hlt, rfl⟩
        rw [(hread.takes hv (some n)).2 ⟨hlt, rfl⟩]
        rfl
    refine (Shape.ofMembers_insert hfields hf rfl hnew v s').trans ⟨?_, ?_⟩
    · rintro ⟨placed, s, hput, hothers, rfl⟩
      obtain ⟨hlt, rfl⟩ := (hplaced placed).1 hput
      exact ⟨hlt, s, hothers, rfl⟩
    · rintro ⟨hlt, s, hothers, rfl⟩
      exact ⟨put (some n), s, (hplaced _).2 ⟨hlt, rfl⟩, hothers, rfl⟩
  refuses := by
    intro before after text hnew hnone
    cases hresult : shape.ofMembers (before ++ (name, .string text) :: after) with
    | error e => exact ⟨e, rfl⟩
    | ok s' =>
      obtain ⟨placed, s, hput, -⟩ := (Shape.ofMembers_insert hfields hf rfl hnew _ s').1 hresult
      obtain ⟨e, he⟩ := hread.refuses hnone
      have hfailed : (Field.optional name read put).read (.string text) = .error e := congrArg (Except.map put) he
      exact nomatch hfailed.symm.trans hput

end Fields

namespace Schema

open Shape (Independent)

/-- Every number of a record that may be written as a text: the depth of a property or of progress has 64 bits, and lines
and columns have 32. -/
theorem takes_numbers :
    TakesNumber property "k" (fun k s => { s with k }) (2 ^ 64) ∧
      TakesNumber property "line" (fun line s => { s with line }) (2 ^ 32) ∧
      TakesNumber property "column" (fun column s => { s with column }) (2 ^ 32) ∧
      TakesNumber progress "k" (fun k s => { s with k }) (2 ^ 64) ∧
      TakesNumber log "line" (fun line s => { s with line }) (2 ^ 32) ∧
      TakesNumber log "column" (fun column s => { s with column }) (2 ^ 32) ∧
      TakesNumber element "line" (fun line s => { s with line }) (2 ^ 32) ∧
      TakesNumber element "column" (fun column s => { s with column }) (2 ^ 32) := by
  have hproperty : Independent property.fields := by
    simp [Independent, property, Field.needed, Field.optional, Field.commute_of_put]
  have hprogress : Independent progress.fields := by
    simp [Independent, progress, Field.optional, Field.commute_of_put]
  have hlog : Independent log.fields := by
    simp [Independent, log, Field.needed, Field.optional, Field.commute_of_put]
  have helement : Independent element.fields := by
    simp [Independent, element, Field.needed, Field.optional, Field.commute_of_put]
  have h64 : TakesBelow (2 ^ 64) Read.lenient64 := Read.takesBelow_lenient64
  have h32 : TakesBelow (2 ^ 32) Read.lenient32 := Read.takesBelow_lenient32
  refine ⟨takesNumber hproperty ?_ h64, takesNumber hproperty ?_ h32, takesNumber hproperty ?_ h32,
    takesNumber hprogress ?_ h64, takesNumber hlog ?_ h32, takesNumber hlog ?_ h32, takesNumber helement ?_ h32,
    takesNumber helement ?_ h32⟩
  all_goals simp [property, progress, log, element]

end Schema

end Verdicts
