/-
Reading records that are spelt. A record is read as its members say, if it is within the limits of the reader, and
refused otherwise. Two records with the same content are within the limits both or neither, provided that the members
which the schema does not know are. Main statement: `read_sameContent`.
-/
import Verdicts.Proofs.Json.Reading
import Verdicts.Proofs.Record.Content

namespace Verdicts

open Json (Fits ItemsFit MembersFit nestingLimit)

open Json.Spelling (Spells)

/-! ## Unknown members within limits -/

theorem itemsFit_iff {room : Nat} {items : List Json} : ItemsFit room items ↔ ∀ v ∈ items, Fits room v := by
  induction items with
  | nil => simp [Json.itemsFit_nil]
  | cons v rest ih => rw [Json.itemsFit_cons, ih, List.forall_mem_cons]

theorem membersFit_iff {room : Nat} {members : List (String × Json)} :
    MembersFit room members ↔ ∀ m ∈ members, Fits room m.2 := by
  induction members with
  | nil => simp [Json.membersFit_nil]
  | cons m rest ih => rw [Json.membersFit_cons, ih, List.forall_mem_cons]

/-- The members that the form does not know are within the limits where `room` more arrays and objects may be open. -/
inductive ExtrasFit : Nat → Form → Json → Prop
  | scalar {room : Nat} {form : Form} {v : Json} : v.isScalar = true → ExtrasFit room form v
  | array {room : Nat} {form : Form} {items : List Json} :
      (∀ (index : Nat) (v : Json), items[index]? = some v → ExtrasFit (room - 1) (form.item index) v) →
      ExtrasFit room form (.array items)
  | object {room : Nat} {form : Form} {members : List (String × Json)} :
      (∀ key known v, form.member? key = some known → (key, v) ∈ members → ExtrasFit (room - 1) known v) →
      (∀ key v, form.member? key = none → (key, v) ∈ members → Fits (room - 1) v) →
      ExtrasFit room form (.object members)

theorem Alike.symm {form : Form} {v v' : Json} (h : Alike form v v') : Alike form v' v := by
  induction h with
  | scalar hscalar => exact .scalar hscalar
  | array hlength _ ih => exact .array hlength.symm fun index v v' hv hv' => ih index v' v hv' hv
  | object hdistinct hdistinct' hkeys _ ih =>
    exact .object hdistinct' hdistinct (fun key known hknown => (hkeys key known hknown).symm)
      fun key known v v' hknown hv hv' => ih key known v' v hknown hv' hv

theorem Alike.fits {form : Form} {v v' : Json} (h : Alike form v v') {room : Nat} (hextras' : ExtrasFit room form v')
    (hfits : Fits room v) : Fits room v' := by
  induction h generalizing room with
  | scalar _ => exact hfits
  | @array form items items' hlength _ ih =>
    rw [Json.fits_array, itemsFit_iff] at hfits ⊢
    refine ⟨hfits.1, fun v' hv' => ?_⟩
    obtain ⟨index, hindex, rfl⟩ := List.mem_iff_getElem.1 hv'
    have hat' := List.getElem?_eq_getElem hindex
    have hat := List.getElem?_eq_getElem (hlength.symm ▸ hindex : index < items.length)
    rcases hextras' with hscalar | hitems
    · cases hscalar
    · exact ih index _ _ hat hat' (hitems index _ hat') (hfits.2 _ (List.getElem_mem _))
  | @object form members members' _ _ hkeys _ ih =>
    rw [Json.fits_object, membersFit_iff] at hfits ⊢
    refine ⟨hfits.1, ?_⟩
    rintro ⟨key, v'⟩ hv'
    rcases hextras' with hscalar | _ | ⟨hknown, hunknown⟩
    · cases hscalar
    cases hform : form.member? key with
    | none => exact hunknown key v' hform hv'
    | some known =>
      obtain ⟨⟨_, v⟩, hv, rfl⟩ := List.mem_map.1 ((hkeys key known hform).2 (List.mem_map.2 ⟨_, hv', rfl⟩))
      exact ih _ known v v' hform hv hv' (hknown _ known v' hform hv') (hfits.2 _ hv)

/-- Records with the same content: alike, and with unknown members within the limits of the reader. -/
structure SameContent (members members' : List (String × Json)) : Prop where
  alike : Alike (.ofRecord members) (.object members) (.object members')
  extras : ExtrasFit nestingLimit (.ofRecord members) (.object members)
  extras' : ExtrasFit nestingLimit (.ofRecord members) (.object members')

theorem SameContent.fits_iff {members members' : List (String × Json)} (h : SameContent members members') :
    Fits nestingLimit (.object members) ↔ Fits nestingLimit (.object members') :=
  ⟨h.alike.fits h.extras', h.alike.symm.fits h.extras⟩

/-! ## Reading -/

namespace Record

theorem read_of_fits {members : List (String × Json)} {text : Bytes} (h : Spells (.value (.object members)) text)
    (hfits : Fits nestingLimit (.object members)) : read text = ofMembers text members := by
  have hgoes := (Json.Reader.goes_spelt h).1 hfits
  unfold Json.Reader.goes at hgoes
  unfold read
  cases hrun : Json.Reader.initial.run text with
  | error stuck => rw [hrun] at hgoes; cases hgoes
  | ok r =>
    rw [hrun] at hgoes
    cases hgoes
    rfl

theorem read_of_not_fits {members : List (String × Json)} {text : Bytes}
    (h : Spells (.value (.object members)) text) (hfits : ¬Fits nestingLimit (.object members)) :
    (read text).toOption = none := by
  have hgoes := (Json.Reader.goes_spelt h).2 hfits
  unfold Json.Reader.goes at hgoes
  unfold read
  cases hrun : Json.Reader.initial.run text with
  | error stuck => rfl
  | ok r => rw [hrun] at hgoes; cases hgoes

/-- Records with the same content are read as the same, or both refused, however they are spelt. -/
theorem read_sameContent {members members' : List (String × Json)} {text text' : Bytes}
    (h : Spells (.value (.object members)) text) (h' : Spells (.value (.object members')) text')
    (hsame : SameContent members members') : (read text).toOption = (read text').toOption := by
  by_cases hfits : Fits nestingLimit (.object members)
  · rw [read_of_fits h hfits, read_of_fits h' (hsame.fits_iff.1 hfits)]
    exact ofMembers_alike hsame.alike text text'
  · rw [read_of_not_fits h hfits, read_of_not_fits h' fun hfits' => hfits (hsame.fits_iff.2 hfits')]

end Record

end Verdicts
