/-
The table of final verdicts and what the reports show of it. A row is a component, a logical name and a
verdict, taken from the last analysis of the component. A report as JSON lists the rows, as a reader finds
them by the keys (`Json.verdictRows?`), and the text for a component has one block of lines for each of its
rows, which begins with the line of the verdict (`VerdictBlock`). Where nothing that is shown has a line break,
these lines are read back from the text.
-/
import Verdicts.Proofs.Display.TraceTable
import Verdicts.Proofs.Result.Lookup
import Verdicts.Proofs.Result.Supersession
import Verdicts.Report

namespace Verdicts

namespace Model

variable {m : Model}

/-! ## Rows -/

/-- The rows of one component. -/
def rowsOf (m : Model) (c : Component) : List (String × String × Answer) :=
  match m.lastAnalysis? c.id with
  | some last => last.authoritative.map fun p => (c.name, p.displayName, p.answer)
  | none => []

theorem finalVerdicts_eq (m : Model) : m.finalVerdicts = m.components.flatMap m.rowsOf := rfl

theorem rowsOf_eq {c : Component} {last : Analysis} (h : m.lastAnalysis? c.id = some last) :
    m.rowsOf c = last.authoritative.map fun p => (c.name, p.displayName, p.answer) := by
  rw [rowsOf, h]

theorem component_of_mem_rowsOf {c : Component} {row : String × String × Answer} (h : row ∈ m.rowsOf c) :
    row.1 = c.name := by
  unfold rowsOf at h
  split at h
  · obtain ⟨p, -, rfl⟩ := List.mem_map.1 h
    rfl
  · cases h

theorem WellFormed.mem_rowsOf (h : m.WellFormed) {c : Component} {row : String × String × Answer} :
    row ∈ m.rowsOf c ↔ row.1 = c.name ∧ ∃ last, m.IsLast c.id last ∧
      ∃ p, last.Answers row.2.2 p ∧ p.displayName = row.2.1 := by
  constructor
  · intro hrow
    refine ⟨component_of_mem_rowsOf hrow, ?_⟩
    unfold rowsOf at hrow
    split at hrow
    · rename_i last hlast
      have hlast := h.lastAnalysis?_eq_some.1 hlast
      obtain ⟨p, hp, rfl⟩ := List.mem_map.1 hrow
      obtain ⟨i, hi⟩ := (h.tidy hlast.mem.1).mem_authoritative.1 hp
      exact ⟨last, hlast, p, ⟨i, hi, rfl⟩, rfl⟩
    · cases hrow
  · obtain ⟨top, name, answer⟩ := row
    rintro ⟨rfl, last, hlast, p, ⟨i, hi, rfl⟩, rfl⟩
    rw [rowsOf_eq (h.lastAnalysis?_eq_some.2 hlast)]
    exact List.mem_map.2 ⟨p, (h.tidy hlast.mem.1).mem_authoritative.2 ⟨i, hi⟩, rfl⟩

theorem WellFormed.mem_finalVerdicts (h : m.WellFormed) {top name : String} {answer : Answer} :
    (top, name, answer) ∈ m.finalVerdicts ↔ ∃ id last, m.Named id top ∧ m.IsLast id last ∧
      ∃ p, last.Answers answer p ∧ p.displayName = name := by
  rw [finalVerdicts_eq, List.mem_flatMap]
  constructor
  · rintro ⟨c, hc, hrow⟩
    obtain ⟨rfl, last, hlast, hp⟩ := h.mem_rowsOf.1 hrow
    exact ⟨c.id, last, h.named_id hc, hlast, hp⟩
  · rintro ⟨id, last, hnamed, hlast, hp⟩
    obtain ⟨c, hc, rfl⟩ := List.mem_map.1 hnamed.mem
    obtain rfl := h.named_inj (h.named_id hc) hnamed
    exact ⟨c, hc, h.mem_rowsOf.2 ⟨rfl, last, hlast, hp⟩⟩

theorem WellFormed.rowsOf_nodup (h : m.WellFormed) (c : Component) :
    ((m.rowsOf c).map fun row => (row.1, row.2.1)).Nodup := by
  unfold rowsOf
  split
  · rename_i last hlast
    have htidy := h.tidy (h.lastAnalysis?_eq_some.1 hlast).mem.1
    have hnames : (last.authoritative.map (·.displayName)).Nodup := htidy.displayNames_nodup
    rw [List.map_map]
    exact (List.pairwise_map.1 hnames).map _ fun p q hne heq => hne (congrArg Prod.snd heq)
  · exact List.nodup_nil

/-- No two rows are about one property of one component. -/
theorem WellFormed.finalVerdicts_nodup (h : m.WellFormed) :
    (m.finalVerdicts.map fun row => (row.1, row.2.1)).Nodup := by
  rw [finalVerdicts_eq, List.map_flatMap, List.nodup_flatMap]
  refine ⟨fun c _ => h.rowsOf_nodup c, ?_⟩
  -- the rows of two components differ in the name of the component
  refine (List.pairwise_map.1 h.names).imp ?_
  intro c c' hne pair hpair hpair'
  obtain ⟨row, hrow, rfl⟩ := List.mem_map.1 hpair
  obtain ⟨row', hrow', heq⟩ := List.mem_map.1 hpair'
  rw [← component_of_mem_rowsOf hrow, ← component_of_mem_rowsOf hrow'] at hne
  exact hne (congrArg Prod.fst heq).symm

/-- The rows that name a component are those of the component. -/
theorem WellFormed.filter_finalVerdicts (h : m.WellFormed) {c : Component} (hc : c ∈ m.components) :
    m.finalVerdicts.filter (·.1 = c.name) = m.rowsOf c := by
  have hrows : ∀ d ∈ m.components, (m.rowsOf d).filter (·.1 = c.name) = if d = c then m.rowsOf d else [] := by
    intro d hd
    split
    · rename_i heq
      subst heq
      refine List.filter_eq_self.2 fun row hrow => ?_
      simpa using component_of_mem_rowsOf hrow
    · rename_i hne
      refine List.filter_eq_nil_iff.2 fun row hrow => ?_
      rw [component_of_mem_rowsOf hrow, decide_eq_true_eq]
      exact fun hname => hne (List.inj_on_of_nodup_map h.names hd hc hname)
  obtain ⟨front, back, hsplit⟩ := List.append_of_mem hc
  have hnodup : m.components.Nodup := List.Nodup.of_map _ h.names
  rw [finalVerdicts_eq, List.filter_flatMap, List.flatMap_congr hrows, hsplit]
  rw [hsplit, List.nodup_middle, List.nodup_cons, List.mem_append, not_or] at hnodup
  have hothers : ∀ l : List Component, c ∉ l → (l.flatMap fun d => if d = c then m.rowsOf d else []) = [] := by
    intro l hl
    refine List.flatMap_eq_nil_iff.2 fun d hd => if_neg ?_
    rintro rfl
    exact hl hd
  rw [List.flatMap_append, List.flatMap_cons, hothers front hnodup.1.1, hothers back hnodup.1.2, if_pos rfl]
  simp

end Model

/-! ## The report as JSON -/

namespace Json

/-- The value of a member of an object. -/
def member? (key : String) : Json → Option Json
  | .object members => (members.find? (·.1 = key)).map (·.2)
  | _ => none

def text? : Json → Option String
  | .string text => some text
  | _ => none

def items? : Json → Option (List Json)
  | .array items => some items
  | _ => none

/-- The names of a component and of a property, and the answer on the property. -/
def verdictRow? (component : String) (property : Json) : Option (String × String × String) := do
  let name ← (← property.member? "name").text?
  let answer ← (← property.member? "answer").text?
  pure (component, name, answer)

/-- The rows for one component. -/
def componentRows? (component : Json) : Option (List (String × String × String)) := do
  let name ← (← component.member? "name").text?
  let properties ← (← component.member? "properties").items?
  properties.mapM (verdictRow? name)

/-- What a reader of a report lists of its components. -/
def verdictRows? (report : Json) : Option (List (String × String × String)) := do
  let components ← (← report.member? "components").items?
  let rows ← components.mapM componentRows?
  pure rows.flatten

end Json

theorem mapM_eq_some_map {α β : Type} {f : α → Option β} {g : α → β} (l : List α)
    (h : ∀ x ∈ l, f x = some (g x)) : l.mapM f = some (l.map g) := by
  induction l with
  | nil => rfl
  | cons x l ih =>
    rw [List.mapM_cons, h x List.mem_cons_self, ih fun y hy => h y (List.mem_cons_of_mem _ hy)]
    rfl

/-- A row as the reports spell it. -/
def spelledRow (row : String × String × Answer) : String × String × String :=
  (row.1, row.2.1, row.2.2.text)

theorem verdictRow?_toJson (component : String) (p : Property) :
    Json.verdictRow? component p.toJson = some (spelledRow (component, p.displayName, p.answer)) := by
  simp [Json.verdictRow?, Property.toJson, Json.member?, Json.text?, spelledRow]

theorem componentRows?_componentJson? {m : Model} {c : Component} {json : Json}
    (h : Report.componentJson? m c = some json) :
    json.componentRows? = some ((m.rowsOf c).map spelledRow) := by
  obtain ⟨last, hlast, rfl⟩ := Option.map_eq_some_iff.1 h
  have hrows : (last.authoritative.map Property.toJson).mapM (Json.verdictRow? c.name) =
      some ((m.rowsOf c).map spelledRow) := by
    rw [List.mapM_map, Model.rowsOf_eq hlast, List.map_map]
    exact mapM_eq_some_map _ fun p _ => verdictRow?_toJson c.name p
  simpa [Json.componentRows?, Json.member?, Json.text?, Json.items?] using hrows

namespace Report

/-- The rows that a reader lists from a report as JSON are those of the table, in its order. -/
theorem verdictRows?_toJson (r : Report) :
    r.toJson.verdictRows? = some (r.frozen.model.finalVerdicts.map spelledRow) := by
  have hrows : ∀ cs : List Component,
      ((cs.filterMap (componentJson? r.frozen.model)).mapM Json.componentRows?).map List.flatten =
        some ((cs.flatMap r.frozen.model.rowsOf).map spelledRow) := by
    intro cs
    induction cs with
    | nil => rfl
    | cons c cs ih =>
      rcases hjson : componentJson? r.frozen.model c with _ | json
      · -- a component without an analysis is not listed and has no rows
        have hlast := Option.map_eq_none_iff.1 hjson
        rw [List.filterMap_cons_none hjson, ih, List.flatMap_cons, Model.rowsOf, hlast, List.nil_append]
      · rw [List.filterMap_cons_some hjson, List.mapM_cons, componentRows?_componentJson? hjson]
        obtain ⟨rows, hmapM, hflatten⟩ := Option.map_eq_some_iff.1 ih
        rw [hmapM, List.flatMap_cons, List.map_append, ← hflatten]
        rfl
  have hall := hrows r.frozen.model.components
  simp only [toJson, Json.verdictRows?, Json.member?, Json.items?]
  simpa [Model.finalVerdicts_eq, Option.bind_eq_some_iff] using hall

end Report

/-! ## The text for a component -/

/-- What stands behind the name of a property: the depth at which it was answered, if there is one. -/
def depthNote : Option Nat → String
  | some k => " (k = " ++ Nat.repr k ++ ")"
  | none => ""

/-- The block of a row: the line of the verdict, and behind it nothing but the tables of the trace of the
property that counts. -/
def VerdictBlock (settings : DisplaySettings) (last : Analysis) (row : String × String × Answer)
    (block : List String) : Prop :=
  ∃ p, last.latest? row.2.1 = some p ∧ p.answer = row.2.2 ∧
    block = (Text.padRight 12 row.2.2.text ++ " " ++ settings.name row.2.1 ++ depthNote p.k) ::
      ((p.trace.bind (·.tableLines? settings)).getD [])

theorem verdictBlock_displayLines (settings : DisplaySettings) {last : Analysis} (htidy : last.Tidy)
    (component : String) {p : Property} (hp : p ∈ last.authoritative) :
    VerdictBlock settings last (component, p.displayName, p.answer) (p.displayLines settings) := by
  refine ⟨p, htidy.latest?_of_mem hp, rfl, ?_⟩
  have hline : p.verdictLine settings =
      Text.padRight 12 p.answer.text ++ " " ++ settings.name p.displayName ++ depthNote p.k := by
    unfold Property.verdictLine depthNote
    cases p.k <;> rfl
  rw [Property.displayLines, hline]

/-- There is a line break in the name of a property or in its trace. -/
def Property.Broken (p : Property) : Prop := Text.Broken p.displayName ∨ ∃ t ∈ p.trace, t.Broken

theorem DisplaySettings.broken_name {settings : DisplaySettings} (h : ¬settings.Broken) {text : String} :
    Text.Broken (settings.name text) ↔ Text.Broken text := by
  rw [Broken, not_or] at h
  simp [name, h]

theorem not_broken_displayLines {settings : DisplaySettings} {p : Property} (hsettings : ¬settings.Broken)
    (hp : ¬p.Broken) : ∀ line ∈ p.displayLines settings, ¬Text.Broken line := by
  rw [Property.Broken, not_or] at hp
  obtain ⟨hname, htrace⟩ := hp
  refine List.forall_mem_cons.2 ⟨?_, fun line hline => ?_⟩
  · have hanswer : ∀ answer : Answer, ¬Text.Broken answer.text := by
      intro answer
      cases answer <;> decide
    have hdepth : ¬Text.Broken (depthNote p.k) := by
      have hopen : ¬Text.Broken " (k = " := by decide
      have hclose : ¬Text.Broken ")" := by decide
      unfold depthNote
      cases p.k with
      | none => exact (by decide : ¬Text.Broken "")
      | some k => simp [hopen, hclose, Text.not_broken_repr]
    have hblank : ¬Text.Broken " " := by decide
    have hline : p.verdictLine settings =
        Text.padRight 12 p.answer.text ++ " " ++ settings.name p.displayName ++ depthNote p.k := rfl
    rw [hline]
    simp [hanswer, hblank, hdepth, hname, DisplaySettings.broken_name hsettings]
  · rcases ht : p.trace with _ | t
    · simp [ht] at hline
    · rw [ht, Option.bind_some] at hline
      rcases hlines : t.tableLines? settings with _ | lines
      · simp [hlines] at hline
      · rw [hlines, Option.getD_some] at hline
        exact Trace.not_broken_tableLines hlines hsettings (fun hbroken => htrace ⟨t, ht, hbroken⟩) line hline

theorem not_broken_titleLine {settings : DisplaySettings} {c : Component} (hsettings : ¬settings.Broken)
    (hname : ¬Text.Broken c.name) : ¬Text.Broken (c.titleLine settings) := by
  have hfront : ¬Text.Broken "=== " := by decide
  have hopen : ¬Text.Broken " (" := by decide
  have hback : ¬Text.Broken " analyses) ===" := by decide
  simp [Component.titleLine, hfront, hopen, hback, hname, Text.not_broken_repr,
    DisplaySettings.broken_name hsettings]

namespace Model

variable {m : Model}

theorem WellFormed.exists_lastAnalysis? (h : m.WellFormed) {c : Component} (hc : c ∈ m.components)
    (hanalyzed : c.analyses ≠ []) : ∃ last, m.lastAnalysis? c.id = some last := by
  rw [h.analyses_eq (h.component?_id hc), ne_eq, List.map_eq_nil_iff] at hanalyzed
  obtain ⟨earlier, last, heq⟩ := (List.eq_nil_or_concat' (m.analysesBy c.id)).resolve_left hanalyzed
  exact ⟨last, h.lastAnalysis?_eq_some.2 ⟨earlier, heq⟩⟩

/-- The text for an analyzed component has, behind its title, one block for each of its rows, in their
order; if there is no line break in what is shown, these are the lines that are read back from it. -/
theorem WellFormed.displayComponent_eq (h : m.WellFormed) {c : Component} (hc : c ∈ m.components)
    (hanalyzed : c.analyses ≠ []) (settings : DisplaySettings) :
    ∃ last blocks, m.lastAnalysis? c.id = some last ∧
      List.Forall₂ (VerdictBlock settings last) (m.finalVerdicts.filter (·.1 = c.name)) blocks ∧
      m.displayComponent settings c.id = Text.lines (c.titleLine settings :: blocks.flatten) ∧
      (¬settings.Broken → ¬Text.Broken c.name → (∀ p ∈ last.authoritative, ¬p.Broken) →
        Text.linesOf (m.displayComponent settings c.id) = c.titleLine settings :: blocks.flatten) := by
  obtain ⟨last, hlast⟩ := h.exists_lastAnalysis? hc hanalyzed
  have htidy : last.Tidy := h.tidy (h.lastAnalysis?_eq_some.1 hlast).mem.1
  have hlines : m.displayComponent settings c.id =
      Text.lines (c.titleLine settings :: (last.authoritative.map (·.displayLines settings)).flatten) := by
    rw [displayComponent, componentLines, h.component?_id hc, hlast, ← List.flatMap_def]
  refine ⟨last, last.authoritative.map (·.displayLines settings), hlast, ?_, hlines,
    fun hsettings hname hshown => ?_⟩
  · rw [h.filter_finalVerdicts hc, rowsOf_eq hlast, List.forall₂_map_left_iff, List.forall₂_map_right_iff,
      List.forall₂_same]
    exact fun p hp => verdictBlock_displayLines settings htidy c.name hp
  · rw [hlines]
    refine Text.linesOf_lines (List.forall_mem_cons.2 ⟨not_broken_titleLine hsettings hname, fun line hline => ?_⟩)
    rw [← List.flatMap_def] at hline
    obtain ⟨p, hp, hline⟩ := List.mem_flatMap.1 hline
    exact not_broken_displayLines hsettings (hshown p hp) line hline

/-- The table is made up of the rows of the components, in the order of the components. -/
theorem WellFormed.finalVerdicts_eq_flatMap (h : m.WellFormed) :
    m.finalVerdicts = m.components.flatMap fun c => m.finalVerdicts.filter (·.1 = c.name) :=
  (List.flatMap_congr fun _ hc => h.filter_finalVerdicts hc).symm

end Model

end Verdicts
