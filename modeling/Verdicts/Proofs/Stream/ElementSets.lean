/-
What becomes of the element sets of post-analyses. A post-analysis is added to its analysis when it ends, and until
then its element sets are not part of the model. Main statement: whatever is fed, the model handed back holds each
element set that an end of a post-analysis follows, once and in order, and none of those decoded behind the last end
(`elementSets_kept`). So an output that stops or fails inside a post-analysis loses what was decoded of it
(`brokenOutput_loses`).

`Model.Holds` says which post-analyses a model holds as a journal of all of them, in the order of their ends.
`Journaled.step` carries it over one record.
-/
import Verdicts.Proofs.Result.Supersession
import Verdicts.Proofs.Stream.PostAnalyses

namespace Verdicts

/-! ## Journals -/

namespace Model

/-- The element sets that the analyses hold. -/
def elementSets (m : Model) : List ElementSet :=
  m.analyses.flatMap fun a => a.postAnalyses.flatMap (·.elementSets)

/-- Each analysis holds the post-analyses that the journal lists with its number, in the order of the
journal, and the journal lists no others. -/
structure Holds (m : Model) (journal : List (Nat × PostAnalysis)) : Prop where
  known : ∀ e ∈ journal, e.1 < m.analyses.length
  held : ∀ k a, m.analyses[k]? = some a → a.postAnalyses = (journal.filter (·.1 = k)).map (·.2)

variable {m m' : Model} {journal : List (Nat × PostAnalysis)}

theorem Holds.of_map_eq (h : m.Holds journal)
    (heq : m'.analyses.map (·.postAnalyses) = m.analyses.map (·.postAnalyses)) : m'.Holds journal where
  known e he := by
    have hlength := congrArg List.length heq
    rw [List.length_map, List.length_map] at hlength
    rw [hlength]
    exact h.known e he
  held k a ha := by
    have hk := congrArg (·[k]?) heq
    simp only [List.getElem?_map, ha, Option.map_some] at hk
    obtain ⟨b, hb, hsame⟩ := Option.map_eq_some_iff.1 hk.symm
    rw [← hsame]
    exact h.held k b hb

/-- An analysis without post-analyses adds nothing to the journal. -/
theorem Holds.concat (h : m.Holds journal) {a : Analysis} (ha : a.postAnalyses = [])
    (heq : m'.analyses = m.analyses ++ [a]) : m'.Holds journal where
  known e he := by
    rw [heq, List.length_append]
    exact Nat.lt_add_right _ (h.known e he)
  held k b hb := by
    rw [heq] at hb
    rcases getElem?_concat_cases hb with hold | ⟨rfl, rfl⟩
    · exact h.held k b hold
    · have hnone : journal.filter (·.1 = m.analyses.length) = [] := by
        refine List.filter_eq_nil_iff.2 fun e he => ?_
        simpa using Nat.ne_of_lt (h.known e he)
      rw [ha, hnone, List.map_nil]

theorem Holds.attach (h : m.Holds journal) {k : Nat} (hk : k < m.analyses.length) (post : PostAnalysis) :
    Holds { m with analyses := m.analyses.modify k (·.pushPostAnalysis post) } (journal ++ [(k, post)]) where
  known e he := by
    rw [List.length_modify]
    rcases List.mem_append.1 he with he | he
    · exact h.known e he
    · rw [List.mem_singleton.1 he]
      exact hk
  held k' a ha := by
    simp only [List.getElem?_modify, Option.map_eq_map, Option.map_eq_some_iff] at ha
    obtain ⟨b, hb, rfl⟩ := ha
    have hold := h.held k' b hb
    split
    · rename_i hsame
      simp [Analysis.pushPostAnalysis, hold, hsame]
    · rename_i hother
      simp [hold, hother]

/-- The element sets of the analyses are those of the journal. -/
theorem Holds.elementSets_perm (h : m.Holds journal) :
    m.elementSets.Perm (journal.flatMap (·.2.elementSets)) := by
  have hposts : m.analyses.map (·.postAnalyses) =
      (List.range m.analyses.length).map fun k => (journal.filter (·.1 = k)).map (·.2) := by
    refine List.ext_getElem? fun k => ?_
    rcases ha : m.analyses[k]? with _ | a
    · have hlength := List.getElem?_eq_none_iff.1 ha
      simp [hlength]
    · have hlt := (List.getElem?_eq_some_iff.1 ha).1
      rw [List.getElem?_map, ha, Option.map_some, List.getElem?_map, List.getElem?_range hlt, Option.map_some,
        h.held k a ha]
  have hgroups : ((List.range m.analyses.length).flatMap fun k => journal.filter (·.1 = k)).Perm journal :=
    flatMap_filter_perm (·.1) _ List.nodup_range journal fun e he => List.mem_range.2 (h.known e he)
  have heq : m.elementSets =
      ((List.range m.analyses.length).flatMap fun k => journal.filter (·.1 = k)).flatMap (·.2.elementSets) := by
    calc m.elementSets
        = (m.analyses.map (·.postAnalyses)).flatMap fun posts => posts.flatMap (·.elementSets) := by
          rw [elementSets, List.flatMap_map]
      _ = _ := by
          rw [hposts, List.flatMap_map, List.flatMap_assoc]
          simp only [List.flatMap_map]
  rw [heq]
  exact hgroups.flatMap_right _

end Model

namespace RecordOrder

open Model (elementSets)

/-! ## What the records have ended -/

/-- The records, cut behind the last end of a post-analysis. -/
structure Cut (rs front tail : List Record) : Prop where
  split : rs = front ++ tail
  ended : front = [] ∨ ∃ earlier, front = earlier ++ [.postAnalysisEnd]
  unended : ∀ r ∈ tail, r.kind ≠ .postAnalysisEnd

theorem Cut.concat {rs front tail : List Record} (h : Cut rs front tail) {r : Record}
    (hr : r.kind ≠ .postAnalysisEnd) : Cut (rs ++ [r]) front (tail ++ [r]) where
  split := by rw [h.split, List.append_assoc]
  ended := h.ended
  unended r' hr' := by
    rcases List.mem_append.1 hr' with hold | hnew
    · exact h.unended r' hold
    · rw [List.mem_singleton.1 hnew]
      exact hr

theorem setsIn_append (rs more : List Record) : setsIn (rs ++ more) = setsIn rs ++ setsIn more :=
  List.filterMap_append

/-- The element sets of the post-analysis that is running. -/
def pendingSets (i : Intake) : List ElementSet := (i.postAnalysis.map (·.elementSets)).getD []

/-- The model of the intake holds the journal. Up to the last end of a post-analysis, the records have the element
sets of the journal, and behind it those of the post-analysis that is running. -/
structure Journaled (rs : List Record) (i : Intake) (journal : List (Nat × PostAnalysis))
    (front tail : List Record) : Prop where
  holds : i.model.Holds journal
  cut : Cut rs front tail
  ended : setsIn front = journal.flatMap (·.2.elementSets)
  pending : setsIn tail = pendingSets i

/-- A record that neither adds an element set nor ends a post-analysis. -/
theorem Journaled.aside {rs front tail : List Record} {i after : Intake} {journal : List (Nat × PostAnalysis)}
    (h : Journaled rs i journal front tail) {r : Record} (hend : r.kind ≠ .postAnalysisEnd)
    (hset : r.kind ≠ .elementSet) (hholds : after.model.Holds journal)
    (hpending : pendingSets after = pendingSets i) :
    Journaled (rs ++ [r]) after journal front (tail ++ [r]) where
  holds := hholds
  cut := h.cut.concat hend
  ended := h.ended
  pending := by
    have hnone : setsIn [r] = [] := by cases r <;> simp [setsIn, Record.kind] at hset ⊢
    rw [setsIn_append, hnone, List.append_nil, h.pending, hpending]

/-- One record that is taken in. -/
theorem Journaled.step {rs front tail : List Record} {i after : Intake} {journal : List (Nat × PostAnalysis)}
    {offset : Nat} {r : Record} (h : Journaled rs i journal front tail) (hfollows : Follows rs i)
    (hh : i.Handled offset r after none) :
    ∃ journal' front' tail', Journaled (rs ++ [r]) after journal' front' tail' := by
  cases hh with
  | options => exact ⟨_, _, _, h.aside (by simp [Record.kind]) (by simp [Record.kind]) h.holds rfl⟩
  | log => exact ⟨_, _, _, h.aside (by simp [Record.kind]) (by simp [Record.kind]) h.holds rfl⟩
  | progress => exact ⟨_, _, _, h.aside (by simp [Record.kind]) (by simp [Record.kind]) h.holds rfl⟩
  | analysisStop => exact ⟨_, _, _, h.aside (by simp [Record.kind]) (by simp [Record.kind]) h.holds rfl⟩
  | @analysisStart top context =>
    obtain ⟨a, hstarted⟩ := exists_started hfollows.routed.wellFormed top context
    exact ⟨_, _, _, h.aside (by simp [Record.kind]) (by simp [Record.kind])
      (h.holds.concat hstarted.postAnalyses hstarted.analyses) rfl⟩
  | @property report id rest p m ref hr hp hm =>
    obtain rfl := Model.addProperty_eq hm
    exact ⟨_, _, _, h.aside (by simp [Record.kind]) (by simp [Record.kind])
      (h.holds.of_map_eq (map_modify_eq _ _ fun _ => rfl)) rfl⟩
  | @postAnalysisStart name hp =>
    -- none is running, so there is nothing pending before and behind
    have hpending : pendingSets i = [] := by rw [pendingSets, hp]; rfl
    exact ⟨_, _, _, h.aside (by simp [Record.kind]) (by simp [Record.kind]) h.holds hpending.symm⟩
  | @elementSet set post hp =>
    refine ⟨journal, front, tail ++ [.elementSet set], h.holds, h.cut.concat (by simp [Record.kind]), h.ended, ?_⟩
    have hpending : pendingSets i = post.elementSets := by rw [pendingSets, hp]; rfl
    rw [setsIn_append, h.pending, hpending]
    rfl
  | @postAnalysisEnd post target m hp ht hm =>
    obtain rfl := Model.attachPostAnalysis_eq hm
    have hpending : pendingSets i = post.elementSets := by rw [pendingSets, hp]; rfl
    refine ⟨journal ++ [(target.index, post)], rs ++ [.postAnalysisEnd], [],
      h.holds.attach (hfollows.sound.target ht) post,
      ⟨(List.append_nil _).symm, .inr ⟨rs, rfl⟩, fun _ hr => absurd hr List.not_mem_nil⟩, ?_, rfl⟩
    rw [setsIn_append, h.cut.split, setsIn_append, h.ended, h.pending, hpending, List.flatMap_append]
    simp [setsIn]

/-- What holds of an intake behind records that it has taken in, with a journal of what they have ended. -/
structure Recorded (rs : List Record) (i : Intake) : Prop where
  follows : Follows rs i
  journaled : ∃ journal front tail, Journaled rs i journal front tail

theorem recorded_empty : Recorded [] {} where
  follows := follows_empty
  journaled := ⟨[], [], [], ⟨fun _ he => absurd he List.not_mem_nil, fun k a ha => by simp at ha⟩,
    ⟨rfl, .inl rfl, fun _ hr => absurd hr List.not_mem_nil⟩, rfl, rfl⟩

theorem Recorded.count {rs : List Record} {i : Intake} (h : Recorded rs i) : Recorded rs i.count := by
  obtain ⟨journal, front, tail, hj⟩ := h.journaled
  exact ⟨h.follows.count, journal, front, tail, hj.holds, hj.cut, hj.ended, hj.pending⟩

theorem Recorded.step {rs : List Record} {i after : Intake} {offset : Nat} {r : Record} (h : Recorded rs i)
    (hh : i.Handled offset r after none) : Recorded (rs ++ [r]) after := by
  obtain ⟨journal, front, tail, hj⟩ := h.journaled
  exact ⟨h.follows.step hh, hj.step h.follows hh⟩

theorem acceptAll_recorded (rs : List (Nat × Record)) (hnone : (acceptAll {} rs).2 = none) :
    Recorded (rs.map (·.2)) (acceptAll {} rs).1 :=
  acceptAll_keeps (fun _ _ h => h.follows.sound) (fun _ _ h => h.count) (fun _ _ _ _ _ h hh => h.step hh)
    recorded_empty rs hnone

/-! ## From the bytes -/

/-- Where decoding does not fail, every record was read and taken in. -/
theorem exists_records {d d' : Decoder} {t : Bytes} (h : d.run t = (d', none)) :
    ∃ rs, List.Forall₂ Reads (d.scanner.scan t).records rs ∧ acceptAll d.intake rs = (d'.intake, none) := by
  induction t generalizing d with
  | nil =>
    cases h
    exact ⟨[], .nil, rfl⟩
  | cons b t ih =>
    rw [Decoder.run, Decoder.step] at h
    rw [Scanner.scan]
    rcases hb : d.scanner.step b with _ | ⟨s, _ | raw⟩
    · rw [hb] at h
      cases h
    · rw [hb] at h
      exact ih (d := { d with scanner := s }) h
    · rw [hb] at h
      simp only at h ⊢
      rcases hread : Record.read raw.text with fault | r
      · simp [Decoder.take, hread] at h
      · have htake : Decoder.take d.intake raw = d.intake.count.accept raw.start r := by
          rw [Decoder.take, hread]
        rw [htake] at h
        rcases haccept : d.intake.count.accept raw.start r with ⟨i, _ | e⟩
        · rw [haccept] at h
          obtain ⟨rs, hreads, hrs⟩ := ih (d := ⟨s, i, false⟩) h
          refine ⟨(raw.start, r) :: rs, .cons ⟨rfl, hread⟩ hreads, ?_⟩
          rw [acceptAll, haccept]
          exact hrs
        · rw [haccept] at h
          cases h

/-- The element sets that are decoded from raw records. -/
def setsRead (raws : List RawRecord) : List ElementSet :=
  raws.filterMap fun raw =>
    match Record.read raw.text with
    | .ok (.elementSet set) => some set
    | _ => none

theorem setsRead_eq {raws : List RawRecord} {rs : List (Nat × Record)} (h : List.Forall₂ Reads raws rs) :
    setsRead raws = setsIn (rs.map (·.2)) := by
  induction h with
  | nil => rfl
  | @cons raw p raws rs hp _ ih =>
    unfold setsRead setsIn at ih ⊢
    rw [List.filterMap_cons, List.map_cons, List.filterMap_cons, hp.2, ih]
    rcases p.2 with _ | _ | _ | _ | _ | _ | _ | _ | _ <;> rfl

section

open Decoder

theorem fed_feeds (chunks : List Bytes) : fed (chunks.map .feed ++ [.finish]) = chunks.flatten := by
  induction chunks with
  | nil => rfl
  | cons chunk chunks ih =>
    rw [List.map_cons, List.cons_append, fed, ih, List.flatten_cons]

/-- Whether decoding fails or not, the model handed back is that of a part fed without failure, and what stands behind
the part is the failure. -/
theorem exists_fed_part (chunks : List Bytes) :
    ∃ before rest d, chunks.flatten = before ++ rest ∧ run {} before = (d, none) ∧
      (calls {} (chunks.map .feed ++ [.finish])).1.model = d.model ∧
      (firstFailure (calls {} (chunks.map .feed ++ [.finish])).2 = none ∧ rest = [] ∨
        ∃ i e decoded, firstFailure (calls {} (chunks.map .feed ++ [.finish])).2 = some e ∧
          Failure i before.length rest e decoded) := by
  rcases h : firstFailure (calls {} (chunks.map .feed ++ [.finish])).2 with _ | e
  · have hrun := run_fed (d := {}) rfl h
    rw [fed_feeds] at hrun
    exact ⟨chunks.flatten, [], _, (List.append_nil _).symm, hrun, rfl, .inl ⟨h, rfl⟩⟩
  · obtain ⟨before, rest, i, decoded, hsplit, hfeed, hfailure, hleft, -⟩ := partial_result h
    have hmodel := hleft.model
    rw [hfeed] at hmodel
    rw [feed_of_live rfl] at hfeed
    exact ⟨before, rest, _, hsplit, hfeed, hmodel, .inr ⟨i, e, decoded, h, hfailure⟩⟩

/-- However an output is cut into chunks and wherever decoding ends or fails, the records in front of the failure are
taken in, and the model handed back is that of these records. It holds the element sets decoded up to the last end of
a post-analysis: each once, and in the order of the records if the post-analyses are taken in the order of their ends.
Those decoded behind that end belong to a post-analysis that is still running, and the model has none of them. So it
has as many as were decoded exactly if none was decoded behind the last end. -/
theorem elementSets_kept (chunks : List Bytes) :
    let d := (calls {} (chunks.map .feed ++ [.finish])).1
    let failure := firstFailure (calls {} (chunks.map .feed ++ [.finish])).2
    ∃ before rest rs journal front tail,
      chunks.flatten = before ++ rest ∧
      (failure = none ∧ rest = [] ∨
        ∃ i e decoded, failure = some e ∧ Failure i before.length rest e decoded) ∧
      List.Forall₂ Reads (Scanner.scan {} before).records rs ∧ (acceptAll {} rs).2 = none ∧
      Cut (rs.map (·.2)) front tail ∧
      d.model.Holds journal ∧ journal.flatMap (·.2.elementSets) = setsIn front ∧
      d.model.elementSets.Perm (setsIn front) ∧
      setsIn tail = pendingSets (acceptAll {} rs).1 ∧
      (d.model.elementSets.length = (setsRead (Scanner.scan {} before).records).length ↔ setsIn tail = []) := by
  intro d failure
  obtain ⟨before, rest, d', hsplit, hrun, hmodel, hfailure⟩ := exists_fed_part chunks
  obtain ⟨rs, hreads, haccepted⟩ := exists_records hrun
  have hnone : (acceptAll {} rs).2 = none := congrArg Prod.snd haccepted
  obtain ⟨journal, front, tail, hjournal⟩ := (acceptAll_recorded rs hnone).journaled
  have hholds : d.model.Holds journal := by
    have hsame : d.model = (acceptAll {} rs).1.model :=
      hmodel.trans (congrArg Intake.model (congrArg Prod.fst haccepted)).symm
    rw [hsame]
    exact hjournal.holds
  have hperm : d.model.elementSets.Perm (setsIn front) := by
    rw [hjournal.ended]
    exact hholds.elementSets_perm
  refine ⟨before, rest, rs, journal, front, tail, hsplit, hfailure, hreads, hnone, hjournal.cut, hholds,
    hjournal.ended.symm, hperm, hjournal.pending, ?_⟩
  rw [setsRead_eq hreads, hjournal.cut.split, setsIn_append, List.length_append, hperm.length_eq,
    ← List.length_eq_zero_iff]
  omega

end

/-- An output that fails inside of a post-analysis: the last record stops an analysis, and none is running. -/
def brokenOutput : Bytes :=
  ("[\x7b\"objectType\":\"analysisStart\",\"top\":\"A\"\x7d," ++
    "\x7b\"objectType\":\"analysisStop\"\x7d," ++
    "\x7b\"objectType\":\"postAnalysisStart\",\"name\":\"ivc\"\x7d," ++
    "\x7b\"objectType\":\"modelElementSet\",\"class\":\"must\",\"nodes\":[]\x7d," ++
    "\x7b\"objectType\":\"analysisStop\"\x7d]").toUTF8.toList

/-- The element set is decoded in front of the failure, behind an analysis that it is about; but the model handed back
has no element set. -/
theorem brokenOutput_loses :
    Decoder.firstFailure (Decoder.calls {} ([brokenOutput].map .feed ++ [.finish])).2 =
        some (.outOfOrder .analysisStop 179 .noAnalysisRunning) ∧
      (Scanner.scan {} (brokenOutput.take 178)).records.map
          (fun raw => (Record.read raw.text).toOption.map Record.kind) =
        [some .analysisStart, some .analysisStop, some .postAnalysisStart, some .elementSet] ∧
      setsRead (Scanner.scan {} (brokenOutput.take 178)).records = [⟨"must", []⟩] ∧
      (Decoder.calls {} ([brokenOutput].map .feed ++ [.finish])).1.model.elementSets = [] := by
  decide +kernel

end RecordOrder

end Verdicts
