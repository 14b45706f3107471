/-
When two values have the same content. It depends on what is read of them, their form: whether a text, a number or the
like is asked for, a list, some members of an object, or the value as a whole. Values are alike in a form if they differ
only in the order of members and in members that the form does not know. Main statement: `Alike.canonical_eq`, what is
kept of values that are read whole.
-/
import Verdicts.Proofs.Text.Keyed
import Verdicts.Record.Reader

namespace Verdicts

/-! ## Forms -/

/-- The structures of which records consist. -/
inductive Structure where
  | stream
  | block
  | runtime
  | answer
  | property
  | log
  | analysisStart
  | postAnalysisStart
  | element
  | node
  | elementSet
  | progress
  deriving DecidableEq, Repr

/-- What is read of a value. -/
inductive Form where
  /-- A value without parts. -/
  | plain
  /-- Everything. -/
  | whole
  | list (items : Form)
  | pair (first second : Form)
  | fields (of : Structure)
  /-- Besides `rest`, the member that names the kind of a record. -/
  | tagged (rest : Form)
  deriving DecidableEq, Repr

/-- The fields of a structure, in their order. -/
def Structure.fields : Structure → List (String × Form)
  | stream => [("name", .plain), ("type", .plain), ("class", .plain), ("instantValues", .list (.pair .plain .whole))]
  | block =>
    [("blockType", .plain), ("name", .plain), ("streams", .list (.fields .stream)), ("subnodes", .list (.fields .block))]
  | runtime => [("unit", .plain), ("timeout", .plain), ("value", .plain)]
  | answer => [("source", .plain), ("value", .plain)]
  | property =>
    [("name", .plain), ("scope", .plain), ("line", .plain), ("column", .plain), ("source", .plain),
      ("runtime", .fields .runtime), ("k", .plain), ("answer", .fields .answer),
      ("counterExample", .list (.fields .block)), ("inductiveCounterExample", .list (.fields .block))]
  | log =>
    [("level", .plain), ("source", .plain), ("file", .plain), ("line", .plain), ("column", .plain), ("value", .whole)]
  | analysisStart =>
    [("top", .plain), ("concrete", .list .plain), ("abstract", .list .plain),
      ("assumptions", .list (.pair .plain .plain))]
  | postAnalysisStart => [("name", .plain)]
  | element => [("category", .plain), ("name", .plain), ("line", .plain), ("column", .plain)]
  | node => [("name", .plain), ("elements", .list (.fields .element))]
  | elementSet => [("class", .plain), ("nodes", .list (.fields .node))]
  | progress => [("source", .plain), ("k", .plain)]

namespace Form

/-- The form of the item at an index. A structure may also be written as the list of its fields. -/
def item : Form → Nat → Form
  | whole, _ => whole
  | list items, _ => items
  | pair first _, 0 => first
  | pair _ second, 1 => second
  | fields s, index => (s.fields[index]?.map (·.2)).getD plain
  | _, _ => plain

/-- The form of the member with a key, if the key is known. -/
def member? : Form → String → Option Form
  | whole, _ => some whole
  | fields s, key => s.fields.lookup key
  | tagged rest, key => if key = Record.kindKey then some plain else rest.member? key
  | _, _ => none

/-- The form of the members of a record besides its kind. -/
def ofKind : RecordKind → Form
  | .options => whole
  | .log => fields .log
  | .analysisStart => fields .analysisStart
  | .property => fields .property
  | .analysisStop => plain
  | .postAnalysisStart => fields .postAnalysisStart
  | .elementSet => fields .elementSet
  | .postAnalysisEnd => plain
  | .progress => fields .progress

/-- The form of a record with given members. Of a record of no known kind the kind is all that matters. -/
def ofRecord (members : List (String × Json)) : Form :=
  match members.lookup Record.kindKey with
  | some (.string name) => tagged (((RecordKind.ofText? name).map ofKind).getD plain)
  | _ => tagged plain

end Form

/-! ## Alike values -/

/-- Whether a value has neither items nor members. -/
def Json.isScalar : Json → Bool
  | .array _ | .object _ => false
  | _ => true

/-- The values have the same content. -/
inductive Alike : Form → Json → Json → Prop
  | scalar {form : Form} {v : Json} : v.isScalar = true → Alike form v v
  | array {form : Form} {items items' : List Json} : items.length = items'.length →
      (∀ index v v', items[index]? = some v → items'[index]? = some v' → Alike (form.item index) v v') →
      Alike form (.array items) (.array items')
  /-- No key is repeated; the known keys are the same, with alike values. -/
  | object {form : Form} {members members' : List (String × Json)} : (members.map (·.1)).Nodup →
      (members'.map (·.1)).Nodup →
      (∀ key known, form.member? key = some known → (key ∈ members.map (·.1) ↔ key ∈ members'.map (·.1))) →
      (∀ key known v v', form.member? key = some known → (key, v) ∈ members → (key, v') ∈ members' →
        Alike known v v') →
      Alike form (.object members) (.object members')

namespace Json

theorem canonicalItems_eq (items : List Json) : canonicalItems items = items.map canonical := by
  induction items with
  | nil => rfl
  | cons item rest ih => rw [canonicalItems, ih, List.map_cons]

theorem canonicalMembers_eq (members : List (String × Json)) :
    canonicalMembers members = members.map fun m => (m.1, canonical m.2) := by
  induction members with
  | nil => rfl
  | cons member rest ih => rw [canonicalMembers, ih, List.map_cons]

end Json

/-- Values that are alike as a whole differ only in the order of members, and that is not kept. -/
theorem Alike.canonical_eq {v v' : Json} (h : Alike .whole v v') : v.canonical = v'.canonical := by
  generalize hform : Form.whole = form at h
  induction h with
  | scalar _ => rfl
  | @array form items items' hlength _ ih =>
    subst hform
    rw [Json.canonical, Json.canonical, Json.canonicalItems_eq, Json.canonicalItems_eq]
    congr 1
    refine List.ext_getElem? fun index => ?_
    rw [List.getElem?_map, List.getElem?_map]
    by_cases hindex : index < items.length
    · have hindex' : index < items'.length := hlength ▸ hindex
      rw [List.getElem?_eq_getElem hindex, List.getElem?_eq_getElem hindex', Option.map_some, Option.map_some,
        ih index _ _ (List.getElem?_eq_getElem hindex) (List.getElem?_eq_getElem hindex') rfl]
    · have hindex' : ¬index < items'.length := hlength ▸ hindex
      rw [List.getElem?_eq_none (Nat.le_of_not_lt hindex), List.getElem?_eq_none (Nat.le_of_not_lt hindex')]
  | @object form members members' hdistinct hdistinct' hkeys _ ih =>
    subst hform
    rw [Json.canonical, Json.canonical, Json.canonicalMembers_eq, Json.canonicalMembers_eq]
    have hkept : ∀ {ms : List (String × Json)}, (ms.map (·.1)).Nodup →
        ((ms.map fun m => (m.1, m.2.canonical)).map (·.1)).Nodup := by
      intro ms hms
      rw [List.map_map]
      exact hms
    congr 1
    -- both are sorted by key, so it suffices that they have the same entries
    refine Keyed.ofList_perm (hkept hdistinct) ?_
    refine (List.perm_ext_iff_of_nodup (hkept hdistinct).of_map (hkept hdistinct').of_map).2 ?_
    rintro ⟨key, value⟩
    have hkey := hkeys key .whole rfl
    simp only [List.mem_map, Prod.exists, Prod.mk.injEq, exists_and_right, exists_eq_right] at hkey ⊢
    constructor
    · rintro ⟨_, v, hv, rfl, rfl⟩
      obtain ⟨v', hv'⟩ := hkey.1 ⟨v, hv⟩
      exact ⟨_, v', hv', rfl, (ih _ _ v v' rfl hv hv' rfl).symm⟩
    · rintro ⟨_, v', hv', rfl, rfl⟩
      obtain ⟨v, hv⟩ := hkey.2 ⟨v', hv'⟩
      exact ⟨_, v, hv, rfl, ih _ _ v v' rfl hv hv' rfl⟩

end Verdicts
