/-
The verdicts that the records of a run state (`States`): those of the reports that belong to the last
analysis of a component, of which the last one with a logical name counts. Main statement: they are the rows
of the table of final verdicts, and all reports show that table.
-/
import Verdicts.Proofs.Report.VerdictTable
import Verdicts.Proofs.Stream.Current
import Verdicts.Proofs.Stream.Routing
import Mathlib.Data.List.Induction

namespace Verdicts

namespace RecordOrder

open Model (getElem?_concat_cases)

/-! ## What the records state -/

/-- Behind the records `front` the last analysis of the component `top` starts. -/
def LastStart (rs front : List Record) (top : String) : Prop :=
  ∃ context back, rs = front ++ .analysisStart top context :: back ∧
    ∀ context', .analysisStart top context' ∉ back

/-- Of the reports with a logical name that belong to the `k`-th analysis, the last one has that answer. -/
def Answered (rs : List Record) (k : Nat) (name : String) (answer : Answer) : Prop :=
  ∃ j report, Belongs rs k j report ∧ logicalName report.name = name ∧
    Answer.ofText? report.answer = some answer ∧
    ∀ j' report', j < j' → Belongs rs k j' report' → logicalName report'.name ≠ name

/-- The verdict on a property of a component, as the reports state it that belong to the last analysis of
the component. -/
def States (rs : List Record) (top name : String) (answer : Answer) : Prop :=
  ∃ front, LastStart rs front top ∧ Answered rs (starts front) name answer

/-! ## The last analysis -/

/-- The analysis of a number starts somewhere. -/
theorem exists_start_at {rs : List Record} {k : Nat} (h : k < starts rs) :
    ∃ front top context back, rs = front ++ .analysisStart top context :: back ∧ starts front = k := by
  induction rs using List.reverseRecOn with
  | nil => exact absurd h (Nat.not_lt_zero k)
  | append_singleton rs r ih =>
    by_cases hk : k < starts rs
    · obtain ⟨front, top, context, back, rfl, hfront⟩ := ih hk
      exact ⟨front, top, context, back ++ [r], by simp, hfront⟩
    · -- then the last record is the start
      rw [starts_concat] at h
      cases r with
      | analysisStart top context =>
        rw [if_pos (by rfl)] at h
        exact ⟨rs, top, context, [], rfl, by omega⟩
      | _ => exact absurd h hk

theorem isLast_iff {m : Model} {id : ComponentId} {a : Analysis} :
    m.IsLast id a ↔ ∃ front back, m.analyses = front ++ a :: back ∧ a.owner = id ∧
      ∀ b ∈ back, b.owner ≠ id := by
  simp only [Model.IsLast, Model.analysesBy]
  constructor
  · rintro ⟨earlier, heq⟩
    obtain ⟨front, rest, hsplit, -, hrest⟩ := List.filter_eq_append_iff.1 heq
    obtain ⟨between, back, rfl, -, howner, hback⟩ := List.filter_eq_cons_iff.1 hrest
    refine ⟨front ++ between, back, by rw [hsplit, List.append_assoc], by simpa using howner, fun b hb => ?_⟩
    simpa using List.filter_eq_nil_iff.1 hback b hb
  · rintro ⟨front, back, hsplit, howner, hback⟩
    have hnone : back.filter (·.owner = id) = [] := by
      refine List.filter_eq_nil_iff.2 fun b hb => ?_
      simpa using hback b hb
    exact ⟨front.filter (·.owner = id), by simp [hsplit, howner, hnone]⟩

section Routed

variable {rs : List Record} {m : Model}

theorem Routed.owner_iff (h : Routed rs m) {front back : List Record} {top name : String}
    {context : AnalysisContext} {id : ComponentId} {a : Analysis} (hnamed : m.Named id name)
    (heq : rs = front ++ .analysisStart top context :: back) (ha : m.analyses[starts front]? = some a) :
    a.owner = id ↔ top = name := by
  obtain ⟨a', ha', hannounced, -⟩ := h.analysis front top context back heq
  rw [ha] at ha'
  cases ha'
  constructor
  · rintro rfl
    exact Option.some.inj (hannounced.owner.symm.trans hnamed)
  · rintro rfl
    exact h.wellFormed.named_inj hannounced.owner hnamed

/-- The last analysis of a component is the one that its last start starts. -/
theorem Routed.isLast_iff_lastStart (h : Routed rs m) {id : ComponentId} {top : String}
    (hnamed : m.Named id top) {a : Analysis} :
    m.IsLast id a ↔ ∃ front, LastStart rs front top ∧ m.analyses[starts front]? = some a := by
  rw [isLast_iff]
  constructor
  · rintro ⟨before, behind, hsplit, howner, hbehind⟩
    have hlt : before.length < starts rs := by
      rw [← h.count, hsplit, List.length_append, List.length_cons]
      omega
    obtain ⟨front, top', context, back, heq, hfront⟩ := exists_start_at hlt
    have ha : m.analyses[starts front]? = some a := by simp [hfront, hsplit]
    obtain rfl := (h.owner_iff hnamed heq ha).1 howner
    refine ⟨front, ⟨context, back, heq, fun context' hmem => ?_⟩, ha⟩
    -- a later start of the component would start a later analysis of it
    obtain ⟨between, rest, rfl⟩ := List.append_of_mem hmem
    have hlater : rs = (front ++ .analysisStart top' context :: between) ++
        .analysisStart top' context' :: rest := by rw [heq, List.append_assoc]; rfl
    obtain ⟨b, hb, -, -⟩ := h.analysis _ _ _ _ hlater
    refine hbehind b ?_ ((h.owner_iff hnamed hlater hb).2 rfl)
    rw [starts_append, starts_start, hfront, hsplit, List.getElem?_append_right (by omega)] at hb
    rw [show before.length + (starts between + 1) - before.length = starts between + 1 by omega,
      List.getElem?_cons_succ] at hb
    exact List.mem_of_getElem? hb
  · rintro ⟨front, ⟨context, back, heq, hback⟩, ha⟩
    obtain ⟨hlt, hget⟩ := List.getElem?_eq_some_iff.1 ha
    refine ⟨m.analyses.take (starts front), m.analyses.drop (starts front + 1), ?_,
      (h.owner_iff hnamed heq ha).2 rfl, fun b hb howner => ?_⟩
    · rw [← hget, List.getElem_cons_drop, List.take_append_drop]
    · obtain ⟨i, hi⟩ := List.mem_iff_getElem?.1 hb
      rw [List.getElem?_drop] at hi
      have hlt' : starts front + 1 + i < starts rs := by
        rw [← h.count]
        exact (List.getElem?_eq_some_iff.1 hi).1
      obtain ⟨front', top', context', back', heq', hfront'⟩ := exists_start_at hlt'
      obtain rfl := (h.owner_iff hnamed heq' (by rw [hfront']; exact hi)).1 howner
      -- the later start is behind the last one of the component
      rw [heq] at heq'
      rcases append_cons_eq_append heq' with ⟨rest, -, rfl⟩ | ⟨rest, rfl, -⟩
      · exact hback context' (by simp)
      · rw [starts_append] at hfront'
        omega

end Routed

/-! ## The properties that count -/

theorem Belongs.report_unique {rs : List Record} {k j : Nat} {report report' : PropertyReport}
    (h : Belongs rs k j report) (h' : Belongs rs k j report') : report = report' := by
  have heq := h.1.symm.trans h'.1
  cases heq
  rfl

theorem Gives.displayName {top : String} {report : PropertyReport} {p : Property} (h : Gives top report p) :
    p.displayName = logicalName report.name := by
  rw [Property.displayName, h.name]

/-- The reports that belong to an analysis answer as the properties that count in it. -/
theorem Delivered.answers_iff {rs : List Record} {k : Nat} {top : String} {a : Analysis}
    (h : Delivered rs k top a.decoded) {name : String} {answer : Answer} :
    (∃ p, a.Answers answer p ∧ p.displayName = name) ↔ Answered rs k name answer := by
  obtain ⟨positions, hsorted, hmem, hall⟩ := h
  obtain ⟨hlength, hgives⟩ := List.forall₂_iff_get.1 hall
  simp only [List.get_eq_getElem] at hgives
  have hmono : ∀ i i' (hi : i < positions.length) (hi' : i' < positions.length), i < i' →
      positions[i] < positions[i'] := fun i i' hi hi' => List.pairwise_iff_getElem.1 hsorted i i' hi hi'
  have hindex : ∀ j report, Belongs rs k j report → ∃ i, ∃ hi : i < positions.length, positions[i] = j :=
    fun j report hb => List.mem_iff_getElem.1 ((hmem j).2 ⟨report, hb⟩)
  constructor
  · rintro ⟨p, ⟨i, ⟨hp, hlast⟩, rfl⟩, rfl⟩
    obtain ⟨hi, rfl⟩ := List.getElem?_eq_some_iff.1 hp
    obtain ⟨report, hbelongs, hp⟩ := hgives i (hlength ▸ hi) hi
    refine ⟨_, report, hbelongs, hp.displayName.symm, hp.answer, fun j' report' hlt hbelongs' => ?_⟩
    obtain ⟨i', hi', rfl⟩ := hindex j' report' hbelongs'
    have hlater : i < i' := by
      refine Nat.lt_of_not_le fun hle => ?_
      rcases Nat.lt_or_eq_of_le hle with hlt' | rfl
      · exact Nat.lt_asymm hlt (hmono i' i hi' (hlength ▸ hi) hlt')
      · exact Nat.lt_irrefl _ hlt
    obtain ⟨report'', hbelongs'', hp'⟩ := hgives i' hi' (hlength ▸ hi')
    rw [hbelongs'.report_unique hbelongs'', ← hp'.displayName]
    exact hlast i' _ hlater (List.getElem?_eq_getElem _)
  · rintro ⟨j, report, hbelongs, rfl, hanswer, hlast⟩
    obtain ⟨i, hi, rfl⟩ := hindex j report hbelongs
    obtain ⟨report', hbelongs', hp⟩ := hgives i hi (hlength ▸ hi)
    obtain rfl := hbelongs.report_unique hbelongs'
    refine ⟨_, ⟨i, ⟨List.getElem?_eq_getElem _, fun i' q hlt hq => ?_⟩,
      Option.some.inj (hp.answer.symm.trans hanswer)⟩, hp.displayName⟩
    obtain ⟨hi', rfl⟩ := List.getElem?_eq_some_iff.1 hq
    obtain ⟨report', hbelongs', hq'⟩ := hgives i' (hlength ▸ hi') hi'
    rw [hq'.displayName, hp.displayName]
    exact hlast _ report' (hmono i i' hi (hlength ▸ hi') hlt) hbelongs'

/-! ## The table -/

/-- The rows of the table are the verdicts that the records state. -/
theorem Routed.mem_finalVerdicts {rs : List Record} {m : Model} (h : Routed rs m) {top name : String}
    {answer : Answer} : (top, name, answer) ∈ m.finalVerdicts ↔ States rs top name answer := by
  rw [h.wellFormed.mem_finalVerdicts]
  constructor
  · rintro ⟨id, last, hnamed, hlast, hp⟩
    obtain ⟨front, ⟨context, back, heq, hback⟩, ha⟩ := (h.isLast_iff_lastStart hnamed).1 hlast
    obtain ⟨a, ha', -, hdelivered⟩ := h.analysis front top context back heq
    rw [ha] at ha'
    cases ha'
    exact ⟨front, ⟨context, back, heq, hback⟩, hdelivered.answers_iff.1 hp⟩
  · rintro ⟨front, ⟨context, back, heq, hback⟩, hanswered⟩
    obtain ⟨a, ha, hannounced, hdelivered⟩ := h.analysis front top context back heq
    have hlast : m.IsLast a.owner a :=
      (h.isLast_iff_lastStart hannounced.owner).2 ⟨front, ⟨context, back, heq, hback⟩, ha⟩
    exact ⟨a.owner, a, hannounced.owner, hlast, hdelivered.answers_iff.2 hanswered⟩

/-- The table of final verdicts behind records that are taken in has a row exactly for each verdict that they
state, and no two rows are about one property of one component. A report as JSON lists these rows in this
order. The text for an analyzed component has one verdict line for each row of the component, in this order
too, each followed by nothing but the tables of a trace, and if there is no line break in what is shown, these
lines are read back from it; the table is made up of the rows of the components, as the report goes through
them. An output that ends between two records is decoded to that model if these are its records. -/
theorem verdictTable_stated (rs : List (Nat × Record)) (h : (acceptAll {} rs).2 = none) :
    let m := (acceptAll {} rs).1.model
    (∀ top name answer, (top, name, answer) ∈ m.finalVerdicts ↔ States (rs.map (·.2)) top name answer) ∧
      (m.finalVerdicts.map fun row => (row.1, row.2.1)).Nodup ∧
      (∀ transcript settings, ({ frozen := m.freeze, transcript, settings } : Report).toJson.verdictRows? =
        some (m.finalVerdicts.map fun row => (row.1, row.2.1, row.2.2.text))) ∧
      (∀ c ∈ m.components, c.analyses ≠ [] → ∀ settings, ∃ last blocks, m.lastAnalysis? c.id = some last ∧
        List.Forall₂ (VerdictBlock settings last) (m.finalVerdicts.filter (·.1 = c.name)) blocks ∧
        m.displayComponent settings c.id = Text.lines (c.titleLine settings :: blocks.flatten) ∧
        (¬settings.Broken → ¬Text.Broken c.name → (∀ p ∈ last.authoritative, ¬p.Broken) →
          Text.linesOf (m.displayComponent settings c.id) = c.titleLine settings :: blocks.flatten)) ∧
      (m.finalVerdicts = m.components.flatMap fun c => m.finalVerdicts.filter (·.1 = c.name)) ∧
      ∀ output, (Scanner.scan {} output).ending = .between →
        List.Forall₂ Reads (Scanner.scan {} output).records rs →
        ∃ d, decodeOutput output = .ok d ∧ d.model = m := by
  intro m
  obtain ⟨hrouted, houtput⟩ := acceptAll_routed rs h
  refine ⟨fun _ _ _ => hrouted.mem_finalVerdicts, hrouted.wellFormed.finalVerdicts_nodup,
    fun transcript settings => Report.verdictRows?_toJson _,
    fun c hc hanalyzed settings => hrouted.wellFormed.displayComponent_eq hc hanalyzed settings,
    hrouted.wellFormed.finalVerdicts_eq_flatMap, fun output hending hreads => ?_⟩
  obtain ⟨d, hd, hintake⟩ := houtput output hending hreads
  exact ⟨d, hd, congrArg Intake.model hintake⟩

/-- A run that goes back to a property after an analysis inside of another, and to a component after that. -/
def retriedRun : List (Nat × Record) :=
  [(0, .analysisStart "Top" ⟨["Sub"], [], []⟩),
    (10, .property { sampleReport "early" none with answer := "falsifiable" }),
    (20, .analysisStop),
    (30, .analysisStart "Top" ⟨["Sub"], [], []⟩),
    (40, .property { sampleReport "ok[1]" none with answer := "unknown" }),
    (50, .analysisStart "Sub" {}),
    (60, .property (sampleReport "inner" none)),
    (70, .analysisStop),
    (80, .property (sampleReport "other" none)),
    (90, .property (sampleReport "ok[2]" none)),
    (100, .analysisStop)]

theorem retriedRun_stated :
    (acceptAll {} retriedRun).2 = none ∧
      (acceptAll {} retriedRun).1.model.finalVerdicts =
        [("Top", "ok", .valid), ("Top", "other", .valid), ("Sub", "inner", .valid)] ∧
      States (retriedRun.map (·.2)) "Top" "ok" .valid ∧
      ¬States (retriedRun.map (·.2)) "Top" "early" .falsifiable := by
  have hnone : (acceptAll {} retriedRun).2 = none := rfl
  have htable : (acceptAll {} retriedRun).1.model.finalVerdicts =
      [("Top", "ok", .valid), ("Top", "other", .valid), ("Sub", "inner", .valid)] := by rfl
  have hstated := (verdictTable_stated retriedRun hnone).1
  refine ⟨hnone, htable, ?_, ?_⟩
  · rw [← hstated, htable]
    simp
  · rw [← hstated, htable]
    simp

end RecordOrder

end Verdicts
