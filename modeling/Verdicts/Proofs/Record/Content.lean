/-
Records with the same content. Every reader of the schema gives the same for alike values, or nothing for both: texts and
numbers because they are equal, structures because their fields do not interfere. Main statement: `ofMembers_alike`, for
the members of two records.
-/
import Verdicts.Proofs.Record.Alike
import Verdicts.Proofs.Record.Members

namespace Verdicts

/-- The reader gives the same for values that are alike in the form, or nothing for both. -/
def Respects {α : Type} (form : Form) (read : Read α) : Prop :=
  ∀ v v', Alike form v v' → (read v).toOption = (read v').toOption

namespace Respects

section Readers

variable {α β : Type}

theorem of_cases {form : Form} {read : Read α}
    (harray : ∀ items items', Alike form (.array items) (.array items') →
      (read (.array items)).toOption = (read (.array items')).toOption)
    (hobject : ∀ members members', Alike form (.object members) (.object members') →
      (read (.object members)).toOption = (read (.object members')).toOption) : Respects form read := by
  intro v v' h
  cases h with
  | scalar _ => rfl
  | array hlength hitems => exact harray _ _ (.array hlength hitems)
  | object hdistinct hdistinct' hkeys hvalues => exact hobject _ _ (.object hdistinct hdistinct' hkeys hvalues)

/-- A reader that refuses arrays and objects. -/
theorem scalar {read : Read α} (harray : ∀ items, (read (.array items)).toOption = none)
    (hobject : ∀ members, (read (.object members)).toOption = none) (form : Form) : Respects form read :=
  of_cases (fun items items' _ => by rw [harray, harray]) fun members members' _ => by rw [hobject, hobject]

theorem string (form : Form) : Respects form Read.string := scalar (fun _ => rfl) (fun _ => rfl) form

theorem bool (form : Form) : Respects form Read.bool := scalar (fun _ => rfl) (fun _ => rfl) form

theorem natural (form : Form) : Respects form Read.natural := scalar (fun _ => rfl) (fun _ => rfl) form

theorem double (form : Form) : Respects form Read.double := scalar (fun _ => rfl) (fun _ => rfl) form

theorem lenient64 (form : Form) : Respects form Read.lenient64 := scalar (fun _ => rfl) (fun _ => rfl) form

theorem lenient32 (form : Form) : Respects form Read.lenient32 := scalar (fun _ => rfl) (fun _ => rfl) form

theorem whole : Respects .whole Read.whole := by
  intro v v' h
  unfold Read.whole
  rw [h.canonical_eq]

theorem map {form : Form} {read : Read α} (h : Respects form read) (f : α → β) :
    Respects form fun v => (read v).map f := by
  intro v v' hv
  rw [toOption_map, toOption_map, h v v' hv]

theorem option {form : Form} {read : Read α} (h : Respects form read) : Respects form (Read.option read) := by
  apply of_cases
  · intro items items' hitems
    exact h.map some _ _ hitems
  · intro members members' hmembers
    exact h.map some _ _ hmembers

theorem items_congr {read : Read α} {items items' : List Json} (hlength : items.length = items'.length)
    (h : ∀ (index : Nat) (v v' : Json), items[index]? = some v → items'[index]? = some v' →
      (read v).toOption = (read v').toOption) :
    (Read.items read items).toOption = (Read.items read items').toOption := by
  induction items generalizing items' with
  | nil =>
    cases items' with
    | nil => rfl
    | cons v' items' => cases hlength
  | cons v items ih =>
    cases items' with
    | nil => cases hlength
    | cons v' items' =>
      have hrest := ih (Nat.succ.inj hlength) fun index w w' hw hw' => h (index + 1) w w' hw hw'
      rw [Read.items, Read.items, toOption_bind, toOption_bind, h 0 v v' rfl rfl]
      congr 1
      funext first
      rw [toOption_bind, toOption_bind, hrest]

theorem list {form : Form} {read : Read α} (h : Respects form read) : Respects (.list form) (Read.list read) := by
  apply of_cases
  · rintro _ _ (_ | ⟨hlength, hitems⟩)
    · rfl
    · exact items_congr hlength fun index v v' hv hv' => h v v' (hitems index v v' hv hv')
  · intro _ _ _
    rfl

theorem pair {form form' : Form} {first : Read α} {second : Read β} (h : Respects form first)
    (h' : Respects form' second) : Respects (.pair form form') (Read.pair first second) := by
  apply of_cases
  · rintro items items' (_ | ⟨hlength, hitems⟩)
    · rfl
    · match items, items' with
      | [], [] => rfl
      | a :: rest, a' :: rest' =>
        have ha : (first a).toOption = (first a').toOption := h a a' (hitems 0 a a' rfl rfl)
        rw [Read.pair, Read.pair, toOption_bind, toOption_bind, ha]
        congr 1
        funext read
        match rest, rest' with
        | [], [] => rfl
        | b :: rest, b' :: rest' =>
          have hb : (second b).toOption = (second b').toOption := h' b b' (hitems 1 b b' rfl rfl)
          have hempty : rest.isEmpty = rest'.isEmpty := by
            cases rest <;> cases rest' <;> first | rfl | cases hlength
          simp only
          rw [toOption_bind, toOption_bind, hb, hempty]
          congr 1
          funext read'
          split <;> rfl
  · intro _ _ _
    rfl

end Readers

/-! ## Structures -/

section Shapes

variable {σ α : Type}

/-- A field as the form of its structure has it. -/
def Models (f : Field σ) (entry : String × Form) : Prop := f.name = entry.1 ∧ Respects entry.2 f.read

theorem Models.needed {name : String} {form : Form} {read : Read α} (h : Respects form read) (put : α → σ → σ) :
    Models (.needed name read put) (name, form) :=
  ⟨rfl, h.map put⟩

theorem Models.optional {name : String} {form : Form} {read : Read α} (h : Respects form read) (put : α → σ → σ) :
    Models (.optional name read put) (name, form) :=
  ⟨rfl, h.map put⟩

theorem models_getElem? {fields : List (Field σ)} {entries : List (String × Form)}
    (h : List.Forall₂ Models fields entries) {index : Nat} {f : Field σ} (hf : fields[index]? = some f) :
    ∃ entry, entries[index]? = some entry ∧ Models f entry := by
  induction h generalizing index with
  | nil => cases hf
  | @cons g entry fields entries hg _ ih =>
    cases index with
    | zero =>
      cases hf
      exact ⟨entry, rfl, hg⟩
    | succ index => exact ih hf

theorem models_lookup {fields : List (Field σ)} {entries : List (String × Form)} (hdistinct : Shape.Independent fields)
    (h : List.Forall₂ Models fields entries) {f : Field σ} (hf : f ∈ fields) :
    ∃ form, entries.lookup f.name = some form ∧ Respects form f.read := by
  induction h with
  | nil => cases hf
  | @cons g entry fields entries hg _ ih =>
    obtain ⟨hnames, hrest⟩ := List.pairwise_cons.1 hdistinct
    rw [Keyed.lookup_cons_eq]
    rcases List.mem_cons.1 hf with rfl | hf
    · exact ⟨entry.2, by rw [if_pos hg.1], hg.2⟩
    · rw [if_neg (hg.1 ▸ (hnames f hf).1.symm)]
      exact ih hrest hf

/-- A shape whose fields respect the forms that its structure gives them. -/
theorem shape {shape : Shape σ} {s : Structure} (hdistinct : Shape.Independent shape.fields)
    (h : List.Forall₂ Models shape.fields s.fields) : Respects (.fields s) shape.read := by
  apply of_cases
  · rintro items items' (_ | ⟨hlength, hitems⟩)
    · rfl
    · unfold Shape.read
      simp only
      rw [hlength]
      refine Shape.takeItems_congr hlength ?_ _ _ _
      intro index f v v' hf hv hv'
      obtain ⟨entry, hentry, _, hread⟩ := models_getElem? h hf
      have halike := hitems index v v' hv hv'
      rw [Form.item, hentry] at halike
      exact hread v v' halike
  · rintro members members' (_ | _ | ⟨hdistinct', hdistinct'', hkeys, hvalues⟩)
    · rfl
    · refine Shape.ofMembers_congr hdistinct hdistinct' hdistinct'' ?_
      intro f hf
      obtain ⟨form, hform, hread⟩ := models_lookup hdistinct h hf
      have hkey := not_congr (hkeys f.name form hform)
      rw [← Keyed.lookup_eq_none, ← Keyed.lookup_eq_none] at hkey
      cases hv : members.lookup f.name with
      | none => exact .inl ⟨hv, hkey.1 hv⟩
      | some v =>
        cases hv' : members'.lookup f.name with
        | none => rw [hkey.2 hv'] at hv; cases hv
        | some v' =>
          have halike := hvalues _ _ _ _ hform (Keyed.mem_of_lookup hv) (Keyed.mem_of_lookup hv')
          exact .inr ⟨v, v', hv, hv', hread v v' halike⟩

end Shapes

end Respects

/-! ## The schema

The fields of a shape are independent because each is put in a place of its own. -/

namespace Schema

open Shape (Independent)

open Respects

theorem respects_stream : Respects (.fields .stream) stream.read := by
  have hfields : Independent stream.fields := by
    simp [Independent, stream, Field.needed, Field.optional, Field.commute_of_put]
  exact .shape hfields (.cons (.needed (.string _) _) (.cons (.optional (.string _) _)
    (.cons (.optional (.string _) _) (.cons (.optional (.list (.pair (.natural _) .whole)) _) .nil))))

theorem respects_block {callees : Read (List TraceBlock)} (h : Respects (.list (.fields .block)) callees) :
    Respects (.fields .block) (block callees).read := by
  have hfields : Independent (block callees).fields := by
    simp [Independent, block, Field.needed, Field.optional, Field.commute_of_put]
  exact .shape hfields (.cons (.optional (.string _) _) (.cons (.needed (.string _) _)
    (.cons (.optional (.list respects_stream) _) (.cons (.optional h _) .nil))))

/-! ### Blocks -/

theorem itemDepth_lt {items : List Json} {v : Json} (h : v ∈ items) : v.depth < (Json.array items).depth := by
  rw [Json.depth]
  induction items with
  | nil => cases h
  | cons item rest ih =>
    rw [Json.itemsDepth]
    rcases List.mem_cons.1 h with rfl | h
    · omega
    · have hrest := ih h
      omega

theorem memberDepth_lt {members : List (String × Json)} {m : String × Json} (h : m ∈ members) :
    m.2.depth < (Json.object members).depth := by
  rw [Json.depth]
  induction members with
  | nil => cases h
  | cons member rest ih =>
    obtain ⟨key, v⟩ := member
    rw [Json.membersDepth]
    rcases List.mem_cons.1 h with rfl | h
    · simp only
      omega
    · have hrest := ih h
      omega

theorem list_congr {α : Type} {read read' : Read α} {v : Json} (h : ∀ w, w.depth < v.depth → read w = read' w) :
    Read.list read v = Read.list read' v := by
  cases v with
  | array items =>
    unfold Read.list
    simp only
    have hitems : ∀ w ∈ items, read w = read' w := fun w hw => h w (itemDepth_lt hw)
    clear h
    induction items with
    | nil => rfl
    | cons w rest ih =>
      rw [Read.items, Read.items, hitems w (List.mem_cons_self ..), ih fun w' hw => hitems w' (List.mem_cons_of_mem _ hw)]
  | _ => rfl

/-- A block is read with any fuel that exceeds its depth. -/
theorem readBlock_fuel {fuel fuel' : Nat} {v : Json} (h : v.depth < fuel) (h' : v.depth < fuel') :
    readBlock fuel v = readBlock fuel' v := by
  induction fuel generalizing fuel' v with
  | zero => omega
  | succ fuel ih =>
    cases fuel' with
    | zero => omega
    | succ fuel' =>
      rw [readBlock, readBlock]
      -- what is called is nested less deep, so that the fuel left exceeds it as well
      let P (w : Json) : Prop := w.depth < v.depth
      have hcallees : ∀ w, P w → Read.list (readBlock fuel) w = Read.list (readBlock fuel') w := by
        intro w (hw : w.depth < v.depth)
        exact list_congr fun w' hw' => ih (by omega) (by omega)
      have hfields : List.Forall₂ (Field.SameOn P) (block (Read.list (readBlock fuel))).fields
          (block (Read.list (readBlock fuel'))).fields := by
        have hsame : ∀ f : Field TraceBlock, f.SameOn P f := fun f => ⟨rfl, rfl, fun _ _ => rfl⟩
        refine .cons (hsame _) (.cons (hsame _) (.cons (hsame _) (.cons ⟨rfl, rfl, ?_⟩ .nil)))
        intro w hw
        show (Read.list (readBlock fuel) w).map _ = (Read.list (readBlock fuel') w).map _
        rw [hcallees w hw]
      refine Shape.read_sameOn ?_ ?_ hfields ?_ ?_
      · rfl
      · rfl
      · rintro items rfl w hw
        exact itemDepth_lt hw
      · rintro members rfl m hm
        exact memberDepth_lt hm

theorem respects_readBlock (fuel : Nat) : Respects (.fields .block) (readBlock fuel) := by
  induction fuel with
  | zero =>
    intro v v' _
    rfl
  | succ fuel ih => exact respects_block (.list ih)

theorem respects_blocks : Respects (.list (.fields .block)) blocks := by
  intro v v' h
  -- one fuel that suffices for both
  have hfuel : ∀ w : Json, w.depth ≤ max v.depth v'.depth →
      blocks w = Read.list (readBlock (max v.depth v'.depth + 1)) w := by
    intro w hw
    exact list_congr fun w' hw' => readBlock_fuel (by omega) (by omega)
  rw [hfuel v (Nat.le_max_left ..), hfuel v' (Nat.le_max_right ..)]
  exact (respects_readBlock _).list v v' h

/-! ### The other structures -/

theorem respects_runtime : Respects (.fields .runtime) runtime.read := by
  have hfields : Independent runtime.fields := by
    simp [Independent, runtime, Field.needed, Field.optional, Field.commute_of_put]
  exact .shape hfields (.cons (.optional (.option (.string _)) _) (.cons (.optional (.bool _) _)
    (.cons (.needed (.double _) _) .nil)))

theorem respects_answer : Respects (.fields .answer) answer.read := by
  have hfields : Independent answer.fields := by
    simp [Independent, answer, Field.needed, Field.optional, Field.commute_of_put]
  exact .shape hfields (.cons (.optional (.option (.string _)) _) (.cons (.needed (.string _) _) .nil))

theorem respects_property : Respects (.fields .property) property.read := by
  have hfields : Independent property.fields := by
    simp [Independent, property, Field.needed, Field.optional, Field.commute_of_put]
  exact .shape hfields (.cons (.needed (.string _) _) (.cons (.optional (.option (.string _)) _)
    (.cons (.optional (.lenient32 _) _) (.cons (.optional (.lenient32 _) _) (.cons (.needed (.string _) _)
    (.cons (.optional (.option respects_runtime) _) (.cons (.optional (.lenient64 _) _)
    (.cons (.needed respects_answer _) (.cons (.optional (.option respects_blocks) _)
    (.cons (.optional (.option respects_blocks) _) .nil))))))))))

theorem respects_log : Respects (.fields .log) log.read := by
  have hfields : Independent log.fields := by
    simp [Independent, log, Field.needed, Field.optional, Field.commute_of_put]
  exact .shape hfields (.cons (.needed (.string _) _) (.cons (.optional (.option (.string _)) _)
    (.cons (.optional (.option (.string _)) _) (.cons (.optional (.lenient32 _) _) (.cons (.optional (.lenient32 _) _)
    (.cons (.optional .whole _) .nil))))))

theorem respects_analysisStart : Respects (.fields .analysisStart) analysisStart.read := by
  have hfields : Independent analysisStart.fields := by
    simp [Independent, analysisStart, Field.needed, Field.optional, Field.commute_of_put]
  exact .shape hfields (.cons (.needed (.string _) _) (.cons (.optional (.list (.string _)) _)
    (.cons (.optional (.list (.string _)) _) (.cons (.optional (.list (.pair (.string _) (.natural _))) _) .nil))))

theorem respects_postAnalysisStart : Respects (.fields .postAnalysisStart) postAnalysisStart.read := by
  have hfields : Independent postAnalysisStart.fields := by
    simp [Independent, postAnalysisStart]
  exact .shape hfields (.cons (.needed (.string _) _) .nil)

theorem respects_element : Respects (.fields .element) element.read := by
  have hfields : Independent element.fields := by
    simp [Independent, element, Field.needed, Field.optional, Field.commute_of_put]
  exact .shape hfields (.cons (.optional (.string _) _) (.cons (.needed (.string _) _)
    (.cons (.optional (.lenient32 _) _) (.cons (.optional (.lenient32 _) _) .nil))))

theorem respects_node : Respects (.fields .node) node.read := by
  have hfields : Independent node.fields := by
    simp [Independent, node, Field.needed, Field.optional, Field.commute_of_put]
  exact .shape hfields (.cons (.needed (.string _) _) (.cons (.optional (.list respects_element) _) .nil))

theorem respects_elementSet : Respects (.fields .elementSet) elementSet.read := by
  have hfields : Independent elementSet.fields := by
    simp [Independent, elementSet, Field.optional, Field.commute_of_put]
  exact .shape hfields (.cons (.optional (.string _) _) (.cons (.optional (.list respects_node) _) .nil))

theorem respects_progress : Respects (.fields .progress) progress.read := by
  have hfields : Independent progress.fields := by
    simp [Independent, progress, Field.optional, Field.commute_of_put]
  exact .shape hfields (.cons (.optional (.option (.string _)) _) (.cons (.optional (.lenient64 _) _) .nil))

/-- Alike members give the same record of a kind, or none. -/
theorem record_alike {kind : RecordKind} {members members' : List (String × Json)}
    (h : Alike (.ofKind kind) (.object members) (.object members')) :
    (record kind members).toOption = (record kind members').toOption := by
  unfold record
  cases kind with
  | options =>
    simp only
    rw [h.canonical_eq]
  | log => exact respects_log.map _ _ _ h
  | analysisStart => exact respects_analysisStart.map _ _ _ h
  | property => exact respects_property.map _ _ _ h
  | analysisStop => rfl
  | postAnalysisStart => exact respects_postAnalysisStart.map _ _ _ h
  | elementSet => exact respects_elementSet.map _ _ _ h
  | postAnalysisEnd => rfl
  | progress => exact respects_progress.map _ _ _ h

end Schema

/-! ## Records -/

namespace Record

open Schema (record)

theorem kindAmong_eq {found : Option RecordKind} {members : List (String × Json)} (h : kindKey ∉ members.map (·.1)) :
    kindAmong found members = .ok found := by
  induction members with
  | nil => rfl
  | cons member rest ih =>
    obtain ⟨key, v⟩ := member
    rw [List.map_cons, List.mem_cons, not_or] at h
    unfold kindAmong
    rw [if_neg (Ne.symm h.1)]
    exact ih h.2

/-- With no key repeated, the kind is that of the one member that names it. -/
theorem kindAmong_eq_lookup {members : List (String × Json)} (hdistinct : (members.map (·.1)).Nodup) :
    kindAmong none members =
      match members.lookup kindKey with
      | none => .ok none
      | some v => (readKind v).map some := by
  induction members with
  | nil => rfl
  | cons member rest ih =>
    obtain ⟨key, v⟩ := member
    rw [List.map_cons, List.nodup_cons] at hdistinct
    unfold kindAmong
    rw [Keyed.lookup_cons_eq]
    by_cases hkey : key = kindKey
    · subst hkey
      rw [if_pos rfl, if_pos rfl]
      simp only
      cases readKind v with
      | error e => rfl
      | ok kind => exact kindAmong_eq hdistinct.1
    · rw [if_neg hkey, if_neg (Ne.symm hkey)]
      exact ih hdistinct.2

theorem ofMembers_eq_lookup (text : Bytes) {members : List (String × Json)}
    (hdistinct : (members.map (·.1)).Nodup) :
    (ofMembers text members).toOption =
      (members.lookup kindKey).bind fun v => (readKind v).toOption.bind fun kind =>
        (record kind (members.filter (·.1 ≠ kindKey))).toOption := by
  unfold ofMembers
  rw [kindAmong_eq_lookup hdistinct]
  cases members.lookup kindKey with
  | none => rfl
  | some v =>
    cases hkind : readKind v with
    | error e => simp [hkind, Except.map, Except.toOption]
    | ok kind =>
      simp only [hkind, Except.map, Except.toOption, Option.bind_some]
      cases record kind _ <;> rfl

theorem respects_readKind (form : Form) : Respects form readKind := .scalar (fun _ => rfl) (fun _ => rfl) form

theorem ofRecord_eq {members : List (String × Json)} {v : Json} {kind : RecordKind}
    (hv : members.lookup kindKey = some v) (hkind : readKind v = .ok kind) :
    Form.ofRecord members = .tagged (.ofKind kind) := by
  unfold readKind at hkind
  unfold Form.ofRecord
  rw [hv]
  cases v with
  | string name =>
    simp only at hkind ⊢
    cases htext : RecordKind.ofText? name with
    | none => rw [htext] at hkind; cases hkind
    | some found =>
      rw [htext] at hkind
      cases hkind
      rfl
  | _ => cases hkind

theorem mem_untagged {members : List (String × Json)} {key : String} :
    key ∈ (members.filter (·.1 ≠ kindKey)).map (·.1) ↔ key ∈ members.map (·.1) ∧ key ≠ kindKey := by
  simp only [List.mem_map, List.mem_filter, decide_eq_true_eq]
  constructor
  · rintro ⟨m, ⟨hm, hkey⟩, rfl⟩
    exact ⟨⟨m, hm, rfl⟩, hkey⟩
  · rintro ⟨⟨m, hm, rfl⟩, hkey⟩
    exact ⟨m, ⟨hm, hkey⟩, rfl⟩

theorem untagged_nodup {members : List (String × Json)} (h : (members.map (·.1)).Nodup) :
    ((members.filter (·.1 ≠ kindKey)).map (·.1)).Nodup :=
  h.sublist (List.filter_sublist.map _)

theorem alike_untagged {form : Form} {members members' : List (String × Json)}
    (h : Alike (.tagged form) (.object members) (.object members')) :
    Alike form (.object (members.filter (·.1 ≠ kindKey))) (.object (members'.filter (·.1 ≠ kindKey))) := by
  rcases h with _ | _ | ⟨hdistinct, hdistinct', hkeys, hvalues⟩
  · contradiction
  refine .object (untagged_nodup hdistinct) (untagged_nodup hdistinct') ?_ ?_
  · intro key known hknown
    rw [mem_untagged, mem_untagged]
    refine and_congr_left fun hkey => hkeys key known ?_
    rw [Form.member?, if_neg hkey, hknown]
  · intro key known v v' hknown hv hv'
    have hkey : key ≠ kindKey := by
      simpa using (List.mem_filter.1 hv).2
    refine hvalues key known v v' ?_ (List.mem_filter.1 hv).1 (List.mem_filter.1 hv').1
    rw [Form.member?, if_neg hkey, hknown]

/-- Alike records name their kinds alike. -/
theorem alike_kind {form : Form} {members members' : List (String × Json)}
    (h : Alike (.tagged form) (.object members) (.object members')) :
    (members.lookup kindKey = none ∧ members'.lookup kindKey = none) ∨
      ∃ v v', members.lookup kindKey = some v ∧ members'.lookup kindKey = some v' ∧ Alike .plain v v' := by
  rcases h with _ | _ | ⟨_, _, hkeys, hvalues⟩
  · contradiction
  have htag : (Form.tagged form).member? kindKey = some .plain := if_pos rfl
  have hkey := not_congr (hkeys kindKey .plain htag)
  rw [← Keyed.lookup_eq_none, ← Keyed.lookup_eq_none] at hkey
  cases hv : members.lookup kindKey with
  | none => exact .inl ⟨rfl, hkey.1 hv⟩
  | some v =>
    cases hv' : members'.lookup kindKey with
    | none => rw [hkey.2 hv'] at hv; cases hv
    | some v' => exact .inr ⟨v, v', rfl, rfl, hvalues _ _ _ _ htag (Keyed.mem_of_lookup hv) (Keyed.mem_of_lookup hv')⟩

theorem exists_tagged (members : List (String × Json)) : ∃ form, Form.ofRecord members = .tagged form := by
  unfold Form.ofRecord
  split <;> exact ⟨_, rfl⟩

/-- Records with alike members are read as the same record, or both refused. -/
theorem ofMembers_alike {members members' : List (String × Json)}
    (h : Alike (.ofRecord members) (.object members) (.object members')) (text text' : Bytes) :
    (ofMembers text members).toOption = (ofMembers text' members').toOption := by
  have hdistinct : (members.map (·.1)).Nodup ∧ (members'.map (·.1)).Nodup := by
    rcases h with _ | _ | ⟨hdistinct, hdistinct', _, _⟩
    · contradiction
    exact ⟨hdistinct, hdistinct'⟩
  rw [ofMembers_eq_lookup text hdistinct.1, ofMembers_eq_lookup text' hdistinct.2]
  obtain ⟨form, hform⟩ := exists_tagged members
  rw [hform] at h
  rcases alike_kind h with ⟨hnone, hnone'⟩ | ⟨v, v', hv, hv', hkinds⟩
  · rw [hnone, hnone']
    rfl
  · rw [hv, hv', Option.bind_some, Option.bind_some, ← respects_readKind .plain v v' hkinds]
    cases hkind : readKind v with
    | error e => rfl
    | ok kind =>
      rw [ofRecord_eq hv hkind] at hform
      cases hform
      exact Schema.record_alike (alike_untagged h)

end Record

end Verdicts
