/-
What a shape reads of an object. If no key is repeated and the fields of the shape do not interfere, the members may as
well be looked up field by field. So their order does not matter, nor do members that are no fields. Main statements:
`Shape.ofMembers_congr`, `Shape.takeItems_congr`.
-/
import Mathlib.Data.List.Forall2
import Verdicts.Proofs.Text.Keyed
import Verdicts.Record.Shape

namespace Verdicts

/-! ## Results without the errors -/

section Results

variable {ε α β : Type}

theorem toOption_bind (x : Except ε α) (f : α → Except ε β) :
    (x >>= f).toOption = x.toOption.bind fun a => (f a).toOption := by
  cases x <;> rfl

theorem toOption_map (x : Except ε α) (f : α → β) : (x.map f).toOption = x.toOption.map f := by
  cases x <;> rfl

/-- Two computations that give the same, but for the errors. -/
theorem toOption_cases {x y : Except ε α} (h : x.toOption = y.toOption) :
    (∃ e e', x = .error e ∧ y = .error e') ∨ ∃ a, x = .ok a ∧ y = .ok a := by
  cases x with
  | error e =>
    cases y with
    | error e' => exact .inl ⟨e, e', rfl, rfl⟩
    | ok b => cases h
  | ok a =>
    cases y with
    | error e' => cases h
    | ok b =>
      cases h
      exact .inr ⟨a, rfl, rfl⟩

end Results

/-! ## Fields -/

variable {σ : Type}

namespace Field

/-- It does not matter which of the two fields is put in place first. -/
def Commute (f g : Field σ) : Prop :=
  ∀ v w put put' s, f.read v = .ok put → g.read w = .ok put' → put (put' s) = put' (put s)

theorem Commute.symm {f g : Field σ} (h : Commute f g) : Commute g f :=
  fun v w put put' s hput hput' => (h w v put' put s hput' hput).symm

theorem commute_of_put {α β : Type} {name name' : String} {required required' : Bool} {read : Read α} {read' : Read β}
    {put : α → σ → σ} {put' : β → σ → σ} (h : ∀ a b s, put a (put' b s) = put' b (put a s)) :
    Commute ⟨name, required, fun v => (read v).map put⟩ ⟨name', required', fun v => (read' v).map put'⟩ := by
  intro v w placed placed' s hplaced hplaced'
  cases hv : read v with
  | error e =>
    simp only [hv] at hplaced
    cases hplaced
  | ok a =>
    cases hw : read' w with
    | error e =>
      simp only [hw] at hplaced'
      cases hplaced'
    | ok b =>
      simp only [hv] at hplaced
      simp only [hw] at hplaced'
      cases hplaced
      cases hplaced'
      exact h a b s

/-- The fields are the same, but for how they read values outside `P`. -/
def SameOn (P : Json → Prop) (f f' : Field σ) : Prop :=
  f.name = f'.name ∧ f.required = f'.required ∧ ∀ v, P v → f.read v = f'.read v

/-- The fields of a structure, each looked up among members. -/
def gather (members : List (String × Json)) : List (Field σ) → σ → Option σ
  | [], s => some s
  | f :: fields, s =>
    match members.lookup f.name with
    | some v => (f.read v).toOption.bind fun put => gather members fields (put s)
    | none => gather members fields s

end Field

open Verdicts.Field (gather)

namespace Shape

/-- Fields of different names that do not interfere. -/
def Independent (fields : List (Field σ)) : Prop := fields.Pairwise fun f g => f.name ≠ g.name ∧ f.Commute g

variable {fields : List (Field σ)}

/-! ## Looking fields up -/

theorem gather_nil (fields : List (Field σ)) (s : σ) : gather [] fields s = some s := by
  induction fields with
  | nil => rfl
  | cons f fields ih => exact ih

/-- A member that is no field does not count. -/
theorem gather_unknown {key : String} {v : Json} {members : List (String × Json)} (h : ∀ f ∈ fields, f.name ≠ key)
    (s : σ) : gather ((key, v) :: members) fields s = gather members fields s := by
  induction fields generalizing s with
  | nil => rfl
  | cons f fields ih =>
    have hrest := ih fun g hg => h g (List.mem_cons_of_mem _ hg)
    unfold gather
    rw [Keyed.lookup_cons_eq, if_neg (h f (List.mem_cons_self ..))]
    cases members.lookup f.name with
    | none => exact hrest s
    | some w => simp only [hrest]

/-- A field that is met first may be put in place first. -/
theorem gather_known (hfields : Independent fields) {f : Field σ} (hf : f ∈ fields) {v : Json}
    {members : List (String × Json)} (hnew : f.name ∉ members.map (·.1)) (s : σ) :
    gather ((f.name, v) :: members) fields s =
      (f.read v).toOption.bind fun put => gather members fields (put s) := by
  induction fields generalizing s with
  | nil => cases hf
  | cons g fields ih =>
    obtain ⟨hg, hrest⟩ := List.pairwise_cons.1 hfields
    rcases List.mem_cons.1 hf with rfl | hf
    -- it is the first field, and no other has its name
    · have hnone := Keyed.lookup_eq_none.2 hnew
      rw [gather, Keyed.lookup_cons_eq, if_pos rfl]
      simp only
      congr 1
      funext put
      rw [gather_unknown fun g' hg' => (hg g' hg').1.symm, gather, hnone]
    -- another field is put in place before it, and they commute
    · obtain ⟨hname, hcommute⟩ := hg f hf
      rw [gather, Keyed.lookup_cons_eq, if_neg hname]
      simp only [gather]
      cases members.lookup g.name with
      | none => exact ih hrest hf s
      | some w =>
        simp only [ih hrest hf]
        cases hput : f.read v with
        | error e =>
          cases g.read w <;> rfl
        | ok put =>
          cases hput' : g.read w with
          | error e => rfl
          | ok put' =>
            have hsame := hcommute w v put' put s hput' hput
            simp only [Except.toOption, Option.bind_some]
            rw [hsame]

/-! ## Taking members in their order -/

theorem takeMembers_eq_gather (hfields : Independent fields) {members : List (String × Json)}
    (hdistinct : (members.map (·.1)).Nodup) {seen : List String} (hseen : ∀ key ∈ members.map (·.1), key ∉ seen) (s : σ) :
    (takeMembers fields seen s members).toOption.map (·.1) = gather members fields s := by
  -- on the members, in the order in which they are taken
  induction members generalizing seen s with
  | nil => exact (gather_nil fields s).symm
  | cons member rest ih =>
    obtain ⟨key, v⟩ := member
    rw [List.map_cons, List.nodup_cons] at hdistinct
    have hrest : ∀ other ∈ rest.map (·.1), other ∉ seen :=
      fun other hother => hseen other (List.mem_cons_of_mem _ hother)
    rw [takeMembers]
    cases hfind : fields.find? (·.name == key) with
    | none =>
      have hunknown : ∀ f ∈ fields, f.name ≠ key := by
        intro f hf hname
        exact absurd (beq_iff_eq.2 hname) (List.find?_eq_none.1 hfind f hf)
      rw [gather_unknown hunknown]
      exact ih hdistinct.2 hrest s
    | some f =>
      have hname : f.name = key := beq_iff_eq.1 (List.find?_some (p := fun f : Field σ => f.name == key) hfind)
      subst hname
      rw [gather_known hfields (List.mem_of_find?_eq_some hfind) hdistinct.1]
      simp only
      rw [if_neg (hseen f.name (List.mem_cons_self ..))]
      cases f.read v with
      | error e => rfl
      | ok put =>
        refine ih hdistinct.2 ?_ (put s)
        intro other hother hmem
        rcases List.mem_cons.1 hmem with rfl | hmem
        · exact hdistinct.1 hother
        · exact hrest other hother hmem

/-- The fields seen are those whose names are among the keys. -/
theorem seen_of_takeMembers {members : List (String × Json)} {seen seen' : List String} {s s' : σ}
    (h : takeMembers fields seen s members = .ok (s', seen')) {f : Field σ} (hf : f ∈ fields) :
    f.name ∈ seen' ↔ f.name ∈ seen ∨ f.name ∈ members.map (·.1) := by
  induction members generalizing seen s with
  | nil =>
    cases h
    simp
  | cons member rest ih =>
    obtain ⟨key, v⟩ := member
    rw [takeMembers] at h
    rw [List.map_cons, List.mem_cons]
    cases hfind : fields.find? (·.name == key) with
    | none =>
      have hname : f.name ≠ key := fun hname => List.find?_eq_none.1 hfind f hf (beq_iff_eq.2 hname)
      simp only [hfind] at h
      rw [ih h, or_iff_right hname]
    | some g =>
      simp only [hfind] at h
      split at h
      · cases h
      · split at h
        · rw [ih h, List.mem_cons, or_left_comm, or_assoc]
        · cases h

theorem ofMembers_eq_gather {shape : Shape σ} (hfields : Independent shape.fields) {members : List (String × Json)}
    (hdistinct : (members.map (·.1)).Nodup) :
    (shape.ofMembers members).toOption =
      if ∀ f ∈ shape.fields, f.required = true → f.name ∈ members.map (·.1) then
        gather members shape.fields shape.blank
      else none := by
  have hunseen : ∀ key ∈ members.map (·.1), key ∉ ([] : List String) := fun _ _ => List.not_mem_nil
  rw [← takeMembers_eq_gather hfields hdistinct hunseen]
  unfold ofMembers
  cases htake : takeMembers shape.fields [] shape.blank members with
  | error e =>
    simp only [Except.toOption, Option.map_none, ite_self]
  | ok taken =>
    obtain ⟨s, seen⟩ := taken
    have hseen : ∀ f ∈ shape.fields, (seen.contains f.name = true ↔ f.name ∈ members.map (·.1)) := by
      intro f hf
      rw [List.contains_iff_mem, seen_of_takeMembers htake hf, or_iff_right List.not_mem_nil]
    simp only
    cases hfind : shape.fields.find? fun field => field.required && !seen.contains field.name with
    | none =>
      rw [if_pos]
      · rfl
      · intro f hf hrequired
        have hfound := List.find?_eq_none.1 hfind f hf
        rw [hrequired, Bool.true_and, Bool.not_eq_true', Bool.not_eq_false] at hfound
        exact (hseen f hf).1 hfound
    | some f =>
      have hf := List.mem_of_find?_eq_some hfind
      have hmissing := List.find?_some (p := fun field : Field σ => field.required && !seen.contains field.name) hfind
      rw [Bool.and_eq_true, Bool.not_eq_true', ← Bool.not_eq_true, hseen f hf] at hmissing
      rw [if_neg fun hall => hmissing.2 (hall f hf hmissing.1)]
      rfl

/-! ## Reading with other fields -/

theorem find?_forall₂ {α β : Type} {R : α → β → Prop} {p : α → Bool} {q : β → Bool} {as : List α} {bs : List β}
    (h : List.Forall₂ R as bs) (hpq : ∀ a b, R a b → p a = q b) :
    (as.find? p = none ∧ bs.find? q = none) ∨ ∃ a b, as.find? p = some a ∧ bs.find? q = some b ∧ R a b := by
  induction h with
  | nil => exact .inl ⟨rfl, rfl⟩
  | @cons a b as bs hab _ ih =>
    rw [List.find?_cons, List.find?_cons, ← hpq a b hab]
    cases p a with
    | true => exact .inr ⟨a, b, rfl, rfl, hab⟩
    | false => exact ih

variable {P : Json → Prop} {fields' : List (Field σ)}

theorem takeMembers_sameOn (h : List.Forall₂ (Field.SameOn P) fields fields') {members : List (String × Json)}
    (hmembers : ∀ m ∈ members, P m.2) (seen : List String) (s : σ) :
    takeMembers fields seen s members = takeMembers fields' seen s members := by
  induction members generalizing seen s with
  | nil => rfl
  | cons member rest ih =>
    obtain ⟨key, v⟩ := member
    have hrest := ih fun m hm => hmembers m (List.mem_cons_of_mem _ hm)
    rw [takeMembers, takeMembers]
    rcases find?_forall₂ (p := (·.name == key)) (q := (·.name == key)) h fun f f' hff => by rw [hff.1] with
      ⟨hnone, hnone'⟩ | ⟨f, f', hf, hf', hsame⟩
    · rw [hnone, hnone']
      exact hrest seen s
    · rw [hf, hf']
      simp only [hsame.2.2 v (hmembers (key, v) (List.mem_cons_self ..)), hrest]

theorem takeItems_sameOn {shape shape' : Shape σ} (hname : shape.name = shape'.name)
    (hlength : shape.fields.length = shape'.fields.length) (h : List.Forall₂ (Field.SameOn P) fields fields')
    {items : List Json} (hitems : ∀ v ∈ items, P v) (total index : Nat) (s : σ) :
    shape.takeItems total index s fields items = shape'.takeItems total index s fields' items := by
  induction h generalizing items index s with
  | nil =>
    cases items with
    | nil => rfl
    | cons v items => rw [takeItems, takeItems, hlength]
  | @cons f f' fields fields' hsame _ ih =>
    obtain ⟨_, hrequired, hread⟩ := hsame
    cases items with
    | nil =>
      rw [takeItems, takeItems, hrequired, hname, hlength, ih hitems]
    | cons v items =>
      rw [takeItems, takeItems, hread v (hitems v (List.mem_cons_self ..))]
      simp only [ih fun w hw => hitems w (List.mem_cons_of_mem _ hw)]

/-- Shapes with the same fields read a value alike if their fields read its parts alike. -/
theorem read_sameOn {shape shape' : Shape σ} (hname : shape.name = shape'.name) (hblank : shape.blank = shape'.blank)
    (h : List.Forall₂ (Field.SameOn P) shape.fields shape'.fields) {v : Json}
    (hitems : ∀ items, v = .array items → ∀ w ∈ items, P w)
    (hmembers : ∀ members, v = .object members → ∀ m ∈ members, P m.2) : shape.read v = shape'.read v := by
  cases v with
  | object members =>
    unfold read ofMembers
    simp only
    rw [takeMembers_sameOn h (hmembers members rfl), hblank]
    split
    · rfl
    · rename_i s seen _
      have hrequired : ∀ f f' : Field σ, f.SameOn P f' →
          (f.required && !seen.contains f.name) = (f'.required && !seen.contains f'.name) := by
        intro f f' hsame
        rw [hsame.1, hsame.2.1]
      rcases find?_forall₂ h hrequired with ⟨hnone, hnone'⟩ | ⟨f, f', hf, hf', hsame⟩
      · rw [hnone, hnone']
      · rw [hf, hf']
        simp only [hsame.1]
  | array items =>
    unfold read
    simp only
    rw [takeItems_sameOn hname h.length_eq h (hitems items rfl), hblank]
  | _ =>
    unfold read
    simp only [hname]

/-! ## Reading other values with the same result -/

/-- A field reads the same of two objects: of both nothing, or values that give the same. -/
def Reads (f : Field σ) (members members' : List (String × Json)) : Prop :=
  (members.lookup f.name = none ∧ members'.lookup f.name = none) ∨
    ∃ v v', members.lookup f.name = some v ∧ members'.lookup f.name = some v' ∧
      (f.read v).toOption = (f.read v').toOption

theorem gather_congr {members members' : List (String × Json)} (h : ∀ f ∈ fields, Reads f members members') (s : σ) :
    gather members fields s = gather members' fields s := by
  induction fields generalizing s with
  | nil => rfl
  | cons f fields ih =>
    have hrest := ih fun g hg => h g (List.mem_cons_of_mem _ hg)
    unfold gather
    rcases h f (List.mem_cons_self ..) with ⟨hnone, hnone'⟩ | ⟨v, v', hv, hv', hread⟩
    · rw [hnone, hnone']
      exact hrest s
    · rw [hv, hv']
      simp only
      rw [hread]
      congr 1
      funext put
      exact hrest (put s)

theorem ofMembers_congr {shape : Shape σ} (hfields : Independent shape.fields) {members members' : List (String × Json)}
    (hdistinct : (members.map (·.1)).Nodup) (hdistinct' : (members'.map (·.1)).Nodup)
    (h : ∀ f ∈ shape.fields, Reads f members members') :
    (shape.ofMembers members).toOption = (shape.ofMembers members').toOption := by
  have hkeys : ∀ f ∈ shape.fields, (f.name ∈ members.map (·.1) ↔ f.name ∈ members'.map (·.1)) := by
    intro f hf
    rw [← not_iff_not, ← Keyed.lookup_eq_none, ← Keyed.lookup_eq_none]
    rcases h f hf with ⟨hnone, hnone'⟩ | ⟨v, v', hv, hv', _⟩
    · simp [hnone, hnone']
    · simp [hv, hv']
  rw [ofMembers_eq_gather hfields hdistinct, ofMembers_eq_gather hfields hdistinct', gather_congr h]
  refine if_congr ?_ rfl rfl
  exact forall₂_congr fun f hf => imp_congr_right fun _ => hkeys f hf

theorem takeItems_congr {shape : Shape σ} {items items' : List Json} (hlength : items.length = items'.length)
    (h : ∀ (index : Nat) (f : Field σ) (v v' : Json), fields[index]? = some f → items[index]? = some v → items'[index]? = some v' →
      (f.read v).toOption = (f.read v').toOption) (total index : Nat) (s : σ) :
    (shape.takeItems total index s fields items).toOption = (shape.takeItems total index s fields items').toOption := by
  induction fields generalizing items items' index s with
  | nil =>
    cases items <;> cases items' <;> first | rfl | cases hlength
  | cons f fields ih =>
    cases items with
    | nil =>
      cases items' with
      | nil => rfl
      | cons _ _ => cases hlength
    | cons v items =>
      cases items' with
      | nil => cases hlength
      | cons v' items' =>
        have hread := h 0 f v v' rfl rfl rfl
        have hrest := ih (Nat.succ.inj hlength) fun index g w w' hg hw hw' => h (index + 1) g w w' hg hw hw'
        rw [takeItems, takeItems]
        rcases toOption_cases hread with ⟨e, e', hput, hput'⟩ | ⟨put, hput, hput'⟩
        · rw [hput, hput']
          rfl
        · rw [hput, hput']
          exact hrest (index + 1) (put s)

end Shape

end Verdicts
