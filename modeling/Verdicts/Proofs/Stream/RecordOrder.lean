/-
The order in which records may come. `Grammatical` states it for a sequence of records alone, without
the state of an intake: analyses are stopped only if they were started, answers come inside of analyses
and are spelt as known, post-analyses do not overlap, and none ends before an analysis was started. Main
statement: a sequence is taken in exactly if it is grammatical, and is otherwise refused at the first
record that breaks a rule.

`Tracks` is the invariant that links an intake to the records behind it. `Tracks.step` says what one
record does to it, `acceptAll_cases` carries it over a sequence, and `run_reads` leads from the bytes of an
output to the sequence of its records.
-/
import Verdicts.Proofs.Stream.Recovery
import Mathlib.Data.List.Forall2

namespace Verdicts

namespace RecordOrder

/-! ## The rules -/

/-- How many analyses the records start. -/
def starts (rs : List Record) : Nat := rs.countP (·.kind = .analysisStart)

/-- How many analyses the records stop. -/
def stops (rs : List Record) : Nat := rs.countP (·.kind = .analysisStop)

/-- Behind the records a post-analysis is running: one was started, and none has ended since. -/
def PostRunning (rs : List Record) : Prop :=
  ∃ before name behind, rs = before ++ .postAnalysisStart name :: behind ∧
    ∀ r ∈ behind, r.kind ≠ .postAnalysisEnd

/-- The origin of a property and the answer on it are spelt as known. -/
def Spelt : Record → Prop
  | .property report => Origin.ofText? report.origin ≠ none ∧ Answer.ofText? report.answer ≠ none
  | _ => True

/-- The sequences of records that keep to the rules. That `before ++ [r]` is a prefix says that `r` comes
right behind `before`. -/
structure Grammatical (rs : List Record) : Prop where
  balanced : ∀ before, before <+: rs → stops before ≤ starts before
  property : ∀ before report, before ++ [.property report] <+: rs →
    stops before < starts before ∧ Spelt (.property report)
  postAnalysisStart : ∀ before name, before ++ [.postAnalysisStart name] <+: rs → ¬PostRunning before
  elementSet : ∀ before set, before ++ [.elementSet set] <+: rs → PostRunning before
  postAnalysisEnd : ∀ before, before ++ [.postAnalysisEnd] <+: rs → PostRunning before
  attached : ∀ before, before ++ [.postAnalysisEnd] <+: rs → ∃ r ∈ before, r.kind = .analysisStart

/-- A record may come behind others as far as its kind is concerned. -/
def InOrder (before : List Record) : Record → Prop
  | .analysisStop => stops before < starts before
  | .property _ => stops before < starts before
  | .postAnalysisStart _ => ¬PostRunning before
  | .elementSet _ => PostRunning before
  | .postAnalysisEnd => PostRunning before ∧ ∃ r ∈ before, r.kind = .analysisStart
  | _ => True

/-- `Broken before offset r e`: the record `r` that begins at `offset` breaks a rule behind `before`, and
`e` reports it: the order first, then the spelling of the origin, then that of the answer. -/
inductive Broken (before : List Record) (offset : Nat) : Record → DecodeError → Prop
  | order {r : Record} {fault : OrderFault} : ¬InOrder before r →
      Broken before offset r (.outOfOrder r.kind offset fault)
  | origin {report : PropertyReport} : InOrder before (.property report) →
      Origin.ofText? report.origin = none →
      Broken before offset (.property report) (.unknownValue .origin report.origin offset)
  | answer {report : PropertyReport} : InOrder before (.property report) →
      Origin.ofText? report.origin ≠ none → Answer.ofText? report.answer = none →
      Broken before offset (.property report) (.unknownValue .answer report.answer offset)

/-! ## One more record -/

theorem starts_concat (rs : List Record) (r : Record) :
    starts (rs ++ [r]) = starts rs + if r.kind = .analysisStart then 1 else 0 := by
  simp [starts]

theorem stops_concat (rs : List Record) (r : Record) :
    stops (rs ++ [r]) = stops rs + if r.kind = .analysisStop then 1 else 0 := by
  simp [stops]

theorem exists_start_iff (rs : List Record) : (∃ r ∈ rs, r.kind = .analysisStart) ↔ 0 < starts rs := by
  simp [starts]

theorem postRunning_concat (rs : List Record) (r : Record) :
    PostRunning (rs ++ [r]) ↔
      r.kind = .postAnalysisStart ∨ PostRunning rs ∧ r.kind ≠ .postAnalysisEnd := by
  constructor
  · rintro ⟨before, name, behind, heq, hbehind⟩
    rcases List.eq_nil_or_concat' behind with rfl | ⟨behind', last, rfl⟩
    · obtain ⟨-, rfl⟩ := List.append_singleton_inj.1 heq
      exact .inl rfl
    · rw [← List.cons_append, ← List.append_assoc] at heq
      obtain ⟨rfl, rfl⟩ := List.append_singleton_inj.1 heq
      refine .inr ⟨⟨before, name, behind', rfl, fun r' hr' => ?_⟩, ?_⟩
      · exact hbehind r' (List.mem_append_left _ hr')
      · exact hbehind r (List.mem_append_right _ (List.mem_singleton_self r))
  · rintro (hkind | ⟨⟨before, name, behind, rfl, hbehind⟩, hkind⟩)
    · cases r <;> cases hkind
      exact ⟨rs, _, [], rfl, fun _ h => absurd h List.not_mem_nil⟩
    · refine ⟨before, name, behind ++ [r], by simp, fun r' hr' => ?_⟩
      rcases List.mem_append.1 hr' with hr' | hr'
      · exact hbehind r' hr'
      · rw [List.mem_singleton.1 hr']
        exact hkind

theorem not_postRunning_nil : ¬PostRunning [] := by
  rintro ⟨before, name, behind, heq, -⟩
  exact absurd heq.symm (List.append_ne_nil_of_right_ne_nil _ (List.cons_ne_nil _ _))

/-- The beginning of a grammatical sequence is grammatical. -/
theorem Grammatical.of_prefix {rs front : List Record} (h : Grammatical rs) (hp : front <+: rs) :
    Grammatical front where
  balanced before hb := h.balanced before (hb.trans hp)
  property before report hb := h.property before report (hb.trans hp)
  postAnalysisStart before name hb := h.postAnalysisStart before name (hb.trans hp)
  elementSet before set hb := h.elementSet before set (hb.trans hp)
  postAnalysisEnd before hb := h.postAnalysisEnd before (hb.trans hp)
  attached before hb := h.attached before (hb.trans hp)

theorem grammatical_nil : Grammatical [] := by
  have hne : ∀ (before : List Record) (r : Record), ¬before ++ [r] <+: [] := fun before r h =>
    absurd (List.prefix_nil.1 h) (List.append_ne_nil_of_right_ne_nil _ (List.cons_ne_nil _ _))
  refine ⟨fun before h => ?_, ?_, ?_, ?_, ?_, ?_⟩
  · rw [List.prefix_nil.1 h]
    exact Nat.le_refl _
  · exact fun before _ h => absurd h (hne before _)
  · exact fun before _ h => absurd h (hne before _)
  · exact fun before _ h => absurd h (hne before _)
  · exact fun before h => absurd h (hne before _)
  · exact fun before h => absurd h (hne before _)

/-- The last record of a grammatical sequence is in order and spelt as known. -/
theorem Grammatical.last {rs : List Record} {r : Record} (h : Grammatical (rs ++ [r])) :
    InOrder rs r ∧ Spelt r := by
  have hself := List.prefix_refl (rs ++ [r])
  cases r with
  | property report => exact h.property rs report hself
  | analysisStop =>
    have hbalanced := h.balanced _ hself
    rw [stops_concat, starts_concat] at hbalanced
    exact ⟨hbalanced, trivial⟩
  | postAnalysisStart name => exact ⟨h.postAnalysisStart rs name hself, trivial⟩
  | elementSet set => exact ⟨h.elementSet rs set hself, trivial⟩
  | postAnalysisEnd => exact ⟨⟨h.postAnalysisEnd rs hself, h.attached rs hself⟩, trivial⟩
  | options value => exact ⟨trivial, trivial⟩
  | log entry => exact ⟨trivial, trivial⟩
  | analysisStart top context => exact ⟨trivial, trivial⟩
  | progress source k => exact ⟨trivial, trivial⟩

/-- A grammatical sequence may go on with a record that is in order and spelt as known. -/
theorem Grammatical.concat {rs : List Record} {r : Record} (h : Grammatical rs) (horder : InOrder rs r)
    (hspelt : Spelt r) : Grammatical (rs ++ [r]) := by
  -- a record right behind a prefix is the last one or comes earlier
  have hcases : ∀ {before : List Record} {r' : Record}, before ++ [r'] <+: rs ++ [r] →
      before = rs ∧ r' = r ∨ before ++ [r'] <+: rs := fun hp =>
    (List.prefix_concat_iff.1 hp).imp List.append_singleton_inj.1 id
  constructor
  · intro before hp
    rcases List.prefix_concat_iff.1 hp with rfl | hp
    · have hrs := h.balanced rs (List.prefix_refl rs)
      rw [stops_concat, starts_concat]
      cases r with
      | analysisStop => exact horder
      | analysisStart _ _ => exact Nat.le_succ_of_le hrs
      | _ => exact hrs
    · exact h.balanced before hp
  · intro before report hp
    rcases hcases hp with ⟨rfl, rfl⟩ | hp
    · exact ⟨horder, hspelt⟩
    · exact h.property before report hp
  · intro before name hp
    rcases hcases hp with ⟨rfl, rfl⟩ | hp
    · exact horder
    · exact h.postAnalysisStart before name hp
  · intro before set hp
    rcases hcases hp with ⟨rfl, rfl⟩ | hp
    · exact horder
    · exact h.elementSet before set hp
  · intro before hp
    rcases hcases hp with ⟨rfl, rfl⟩ | hp
    · exact horder.1
    · exact h.postAnalysisEnd before hp
  · intro before hp
    rcases hcases hp with ⟨rfl, rfl⟩ | hp
    · exact horder.2
    · exact h.attached before hp

/-- A sequence that goes on with a record that breaks a rule is not grammatical. -/
theorem Broken.not_grammatical {before : List Record} {offset : Nat} {r : Record} {e : DecodeError}
    (h : Broken before offset r e) : ¬Grammatical (before ++ [r]) := by
  intro hg
  obtain ⟨horder, hspelt⟩ := hg.last
  cases h with
  | order hnot => exact hnot horder
  | origin _ horigin => exact hspelt.1 horigin
  | answer _ _ hanswer => exact hspelt.2 hanswer

/-! ## What an intake knows of the records behind it -/

/-- `Tracks rs i`: the state of the intake `i` is what the records `rs` have made of it. -/
structure Tracks (rs : List Record) (i : Intake) : Prop where
  sound : i.Sound
  running : i.running.length + stops rs = starts rs
  postAnalysis : i.postAnalysis ≠ none ↔ PostRunning rs
  target : i.postAnalysisTarget? ≠ none ↔ 0 < starts rs

theorem tracks_empty : Tracks [] {} where
  sound := Intake.empty_sound
  running := rfl
  postAnalysis := ⟨fun h => absurd rfl h, fun h => absurd h not_postRunning_nil⟩
  target := ⟨fun h => absurd rfl h, fun h => absurd h (Nat.lt_irrefl 0)⟩

theorem Tracks.count {rs : List Record} {i : Intake} (h : Tracks rs i) : Tracks rs i.count :=
  ⟨h.sound.count, h.running, h.postAnalysis, h.target⟩

/-- Where an analysis is running, more were started than stopped. -/
theorem Tracks.inside {rs : List Record} {i : Intake} (h : Tracks rs i) {id : AnalysisId}
    {rest : List AnalysisId} (hr : i.running = id :: rest) : stops rs < starts rs := by
  have hrunning := h.running
  rw [hr, List.length_cons] at hrunning
  omega

theorem Tracks.outside {rs : List Record} {i : Intake} (h : Tracks rs i) (hr : i.running = []) :
    ¬stops rs < starts rs := by
  have hrunning := h.running
  rw [hr, List.length_nil] at hrunning
  omega

theorem Tracks.postRunning {rs : List Record} {i : Intake} (h : Tracks rs i) {post : PostAnalysis}
    (hp : i.postAnalysis = some post) : PostRunning rs :=
  h.postAnalysis.1 (by rw [hp]; exact Option.some_ne_none _)

theorem Tracks.not_postRunning {rs : List Record} {i : Intake} (h : Tracks rs i)
    (hp : i.postAnalysis = none) : ¬PostRunning rs :=
  fun hrunning => h.postAnalysis.2 hrunning hp

/-- A record that starts and stops no analysis is tracked if the post-analysis is. -/
theorem Tracks.other {rs : List Record} {i after : Intake} {r : Record} (h : Tracks rs i)
    (hs : after.Sound) (hstart : r.kind ≠ .analysisStart) (hstop : r.kind ≠ .analysisStop)
    (hrunning : after.running = i.running) (hstopped : after.lastStopped = i.lastStopped)
    (hpost : after.postAnalysis ≠ none ↔ PostRunning (rs ++ [r])) : Tracks (rs ++ [r]) after := by
  have hstarts : starts (rs ++ [r]) = starts rs := by rw [starts_concat, if_neg hstart]; rfl
  have hstops : stops (rs ++ [r]) = stops rs := by rw [stops_concat, if_neg hstop]; rfl
  refine ⟨hs, ?_, hpost, ?_⟩
  · rw [hstarts, hstops, hrunning]
    exact h.running
  · rw [hstarts, Intake.postAnalysisTarget?, hstopped, hrunning]
    exact h.target

/-- A record that has nothing to do with analyses is tracked. -/
theorem Tracks.aside {rs : List Record} {i after : Intake} {r : Record} (h : Tracks rs i) (hs : after.Sound)
    (hkind : r.kind ∉ [.analysisStart, .analysisStop, .postAnalysisStart, .postAnalysisEnd])
    (hrunning : after.running = i.running) (hstopped : after.lastStopped = i.lastStopped)
    (hpost : after.postAnalysis ≠ none ↔ i.postAnalysis ≠ none) : Tracks (rs ++ [r]) after := by
  simp only [List.mem_cons, List.not_mem_nil, or_false, not_or] at hkind
  obtain ⟨hstart, hstop, hpostStart, hpostEnd⟩ := hkind
  refine h.other hs hstart hstop hrunning hstopped ?_
  rw [hpost, h.postAnalysis, postRunning_concat]
  simp only [hpostStart, hpostEnd, false_or, ne_eq, not_false_eq_true, and_true]

/-- One record: either it is in order and spelt as known, is taken in and tracked, or it is refused for
the rule that it breaks. -/
theorem Tracks.step {rs : List Record} {i after : Intake} {offset : Nat} {r : Record}
    {refusal : Option DecodeError} (h : Tracks rs i) (hh : i.Handled offset r after refusal) :
    (refusal = none ∧ InOrder rs r ∧ Spelt r ∧ Tracks (rs ++ [r]) after) ∨
      ∃ e, refusal = some e ∧ Broken rs offset r e := by
  have hs := hh.sound h.sound
  cases hh with
  | options => exact .inl ⟨rfl, trivial, trivial, h.aside hs (by simp [Record.kind]) rfl rfl Iff.rfl⟩
  | log => exact .inl ⟨rfl, trivial, trivial, h.aside hs (by simp [Record.kind]) rfl rfl Iff.rfl⟩
  | progress => exact .inl ⟨rfl, trivial, trivial, h.aside hs (by simp [Record.kind]) rfl rfl Iff.rfl⟩
  | @analysisStart top context =>
    have hrunning := h.running
    refine .inl ⟨rfl, trivial, trivial, hs, ?_, ?_, ?_⟩
    · rw [starts_concat, stops_concat, List.length_cons]
      simp only [Record.kind, if_true, reduceCtorEq, if_false]
      omega
    · rw [postRunning_concat, ← h.postAnalysis]
      simp [Record.kind]
    · rw [starts_concat]
      simp [Intake.postAnalysisTarget?, Record.kind]
  | @property report id rest p m ref hr hp hm =>
    exact .inl ⟨rfl, h.inside hr, Intake.propertyOf_ok hp,
      h.aside hs (by simp [Record.kind]) rfl rfl Iff.rfl⟩
  | outsideAnalysis hr => exact .inr ⟨_, rfl, .order (h.outside hr)⟩
  | @misspelt report id rest e hr hp =>
    rcases Intake.propertyOf_error hp with ⟨horigin, rfl⟩ | ⟨horigin, hanswer, rfl⟩
    · exact .inr ⟨_, rfl, .origin (h.inside hr) horigin⟩
    · exact .inr ⟨_, rfl, .answer (h.inside hr) horigin hanswer⟩
  | @analysisStop id rest hr =>
    have hinside := h.inside hr
    have hrunning := h.running
    rw [hr, List.length_cons] at hrunning
    refine .inl ⟨rfl, hinside, trivial, hs, ?_, ?_, ?_⟩
    · rw [starts_concat, stops_concat]
      simp only [Record.kind, if_true, reduceCtorEq, if_false]
      omega
    · rw [postRunning_concat, ← h.postAnalysis]
      simp [Record.kind]
    · -- the analysis that stops was started, so both sides hold
      rw [starts_concat]
      simp only [Intake.postAnalysisTarget?, Option.some_or, ne_eq, reduceCtorEq, not_false_eq_true, true_iff]
      omega
  | nothingToStop hr => exact .inr ⟨_, rfl, .order (h.outside hr)⟩
  | @postAnalysisStart name hp =>
    refine .inl ⟨rfl, h.not_postRunning hp, trivial,
      h.other hs (by simp [Record.kind]) (by simp [Record.kind]) rfl rfl ?_⟩
    rw [postRunning_concat]
    simp [Record.kind]
  | postAnalysisRunning hp => exact .inr ⟨_, rfl, .order fun hnot => hnot (h.postRunning hp)⟩
  | @elementSet set post hp =>
    exact .inl ⟨rfl, h.postRunning hp, trivial, h.aside hs (by simp [Record.kind]) rfl rfl (by simp [hp])⟩
  | setOutside hp => exact .inr ⟨_, rfl, .order (h.not_postRunning hp)⟩
  | @postAnalysisEnd post target m hp ht hm =>
    have hstarted := h.target.1 (by rw [ht]; exact Option.some_ne_none _)
    refine .inl ⟨rfl, ⟨h.postRunning hp, (exists_start_iff rs).2 hstarted⟩, trivial,
      h.other hs (by decide) (by decide) rfl rfl ?_⟩
    rw [postRunning_concat]
    simp [Record.kind]
  | nothingToEnd hp => exact .inr ⟨_, rfl, .order fun hend => h.not_postRunning hp hend.1⟩
  | nothingToAttachTo hp ht =>
    -- an analysis that was started is running still or was stopped, and one of them is the target
    exact .inr ⟨_, rfl, .order fun hend => h.target.2 ((exists_start_iff rs).1 hend.2) ht⟩

/-! ## Sequences of records -/

/-- Take in records, each with the offset at which it begins, up to the first that is refused. -/
def acceptAll (i : Intake) : List (Nat × Record) → Intake × Option DecodeError
  | [] => (i, none)
  | (offset, r) :: rest =>
    match i.count.accept offset r with
    | (i, none) => acceptAll i rest
    | (i, some e) => (i, some e)

/-- What holds of an intake and the records behind it, and is kept by each record that is taken in, holds behind more
records that are taken in. -/
theorem acceptAll_keeps {Inv : List Record → Intake → Prop} (hsound : ∀ rs i, Inv rs i → i.Sound)
    (hcount : ∀ rs i, Inv rs i → Inv rs i.count)
    (hstep : ∀ rs i offset r after, Inv rs i → i.Handled offset r after none → Inv (rs ++ [r]) after)
    {before : List Record} {i : Intake} (h : Inv before i) (rs : List (Nat × Record))
    (hnone : (acceptAll i rs).2 = none) : Inv (before ++ rs.map (·.2)) (acceptAll i rs).1 := by
  induction rs generalizing before i with
  | nil =>
    rw [List.map_nil, List.append_nil]
    exact h
  | cons p rs ih =>
    obtain ⟨offset, r⟩ := p
    have hcounted := hcount before i h
    have hh := Intake.accept_handled (hsound before _ hcounted) offset r
    rw [acceptAll] at hnone ⊢
    rcases haccept : i.count.accept offset r with ⟨after, _ | e⟩
    · rw [haccept] at hh hnone
      rw [List.map_cons, List.append_cons]
      exact ih (hstep before _ offset r after hcounted hh) hnone
    · rw [haccept] at hnone
      cases hnone

/-- Behind a grammatical sequence, either more records are all taken in and the whole is grammatical, or
the first of them that breaks a rule is refused for it. -/
theorem acceptAll_cases {before : List Record} {i : Intake} (h : Tracks before i) (hg : Grammatical before)
    (rs : List (Nat × Record)) :
    ((acceptAll i rs).2 = none ∧ Grammatical (before ++ rs.map (·.2))) ∨
      ∃ front offset r back e, rs = front ++ (offset, r) :: back ∧
        Grammatical (before ++ front.map (·.2)) ∧ (acceptAll i rs).2 = some e ∧
        Broken (before ++ front.map (·.2)) offset r e := by
  induction rs generalizing before i with
  | nil =>
    left
    rw [List.map_nil, List.append_nil]
    exact ⟨rfl, hg⟩
  | cons p rs ih =>
    obtain ⟨offset, r⟩ := p
    have hh := Intake.accept_handled h.count.sound offset r
    rw [acceptAll]
    rcases haccept : i.count.accept offset r with ⟨after, refusal⟩
    rw [haccept] at hh
    rcases h.count.step hh with ⟨rfl, horder, hspelt, htracks⟩ | ⟨e, rfl, hbroken⟩
    · rw [List.map_cons, List.append_cons]
      rcases ih htracks (hg.concat horder hspelt) with
        hall | ⟨front, offset', r', back, e, rfl, hfront, hsome, hbroken⟩
      · exact .inl hall
      · rw [List.append_assoc] at hfront hbroken
        exact .inr ⟨(offset, r) :: front, offset', r', back, e, rfl, hfront, hsome, hbroken⟩
    · right
      refine ⟨[], offset, r, rs, e, rfl, ?_, rfl, ?_⟩
      · rw [List.map_nil, List.append_nil]
        exact hg
      · rw [List.map_nil, List.append_nil]
        exact hbroken

/-- A sequence of records is taken in exactly if it is grammatical. -/
theorem acceptAll_none_iff (rs : List (Nat × Record)) :
    (acceptAll {} rs).2 = none ↔ Grammatical (rs.map (·.2)) := by
  rcases acceptAll_cases tracks_empty grammatical_nil rs with
    ⟨hnone, hall⟩ | ⟨front, offset, r, back, e, rfl, -, hsome, hbroken⟩
  · exact ⟨fun _ => hall, fun _ => hnone⟩
  · constructor
    · intro hnone
      rw [hnone] at hsome
      cases hsome
    · intro hall
      refine absurd (hall.of_prefix ⟨back.map (·.2), ?_⟩) hbroken.not_grammatical
      rw [List.nil_append, List.map_append, List.map_cons, List.append_assoc]
      rfl

/-! ## The records of an output -/

/-- `Reads raw p`: the text `raw` is that of the record `p.2`, which begins at `p.1`. -/
def Reads (raw : RawRecord) (p : Nat × Record) : Prop :=
  p.1 = raw.start ∧ Record.read raw.text = .ok p.2

/-- A decoder takes in the records of its input one after the other. -/
theorem run_reads {d : Decoder} {t : Bytes} {rs : List (Nat × Record)}
    (hstray : (d.scanner.scan t).stray = none) (hreads : List.Forall₂ Reads (d.scanner.scan t).records rs) :
    (d.run t).1.intake = (acceptAll d.intake rs).1 ∧ (d.run t).2 = (acceptAll d.intake rs).2 := by
  induction t generalizing d rs with
  | nil =>
    cases hreads
    exact ⟨rfl, rfl⟩
  | cons b t ih =>
    rw [Scanner.scan] at hstray hreads
    rw [Decoder.run, Decoder.step]
    rcases hb : d.scanner.step b with _ | ⟨s, _ | raw⟩
    · rw [hb] at hstray
      cases hstray
    · rw [hb] at hstray hreads
      exact ih (d := { d with scanner := s }) hstray hreads
    · rw [hb] at hstray hreads
      cases hreads with
      | @cons _ p _ rs' hp hrest =>
        obtain ⟨offset, r⟩ := p
        obtain ⟨rfl, hread⟩ := hp
        simp only [Decoder.take, hread, acceptAll]
        rcases d.intake.count.accept raw.start r with ⟨i, _ | e⟩
        · exact ih (d := ⟨s, i, false⟩) hstray hrest
        · exact ⟨rfl, rfl⟩

/-- Decoding an output that ends between two records, and of which every record can be read, comes to
taking in its records. -/
theorem decodeOutput_reads {output : Bytes} {rs : List (Nat × Record)}
    (hending : (Scanner.scan {} output).ending = .between)
    (hreads : List.Forall₂ Reads (Scanner.scan {} output).records rs) :
    ((acceptAll {} rs).2 = none →
        decodeOutput output = .ok (Decoder.waiting (acceptAll {} rs).1 output.length)) ∧
      ∀ e, (acceptAll {} rs).2 = some e →
        ∃ d, decodeOutput output = .error ⟨e, d⟩ ∧ d.intake = (acceptAll {} rs).1 := by
  obtain ⟨hstray, hdepth⟩ := (Scanner.ending_between_iff _).1 hending
  obtain ⟨hintake, hanswer⟩ := run_reads (d := {}) hstray hreads
  have hlive := Decoder.run_aborted (d := {}) rfl output
  rw [← hintake, ← hanswer, Decoder.decodeOutput_eq, Decoder.complete]
  rcases hrun : Decoder.run {} output with ⟨d, _ | e⟩
  · rw [hrun] at hlive
    obtain ⟨-, hscanner⟩ := Decoder.scan_of_run hrun
    have hd : d = Decoder.waiting d.intake output.length := by
      have hoffset := Scanner.scan_offset hstray
      rw [hscanner] at hdepth hoffset
      exact Decoder.eq_waiting hlive hdepth (hoffset.trans (Nat.zero_add _))
    constructor
    · intro _
      rw [hd]
      rfl
    · intro e he
      cases he
  · constructor
    · intro hnone
      cases hnone
    · intro e' he
      cases he
      exact ⟨d, rfl, rfl⟩

/-! ## The grammar of records -/

/-- A sequence of records is taken in exactly if it is grammatical. Otherwise it has a first record that
breaks a rule: what stands in front of that record is grammatical, with it it is not, and the refusal
reports it, as out of order or as misspelt. An output that ends between two records, and of which every
record can be read, is decoded exactly if its records are taken in, and is refused as they are. -/
theorem taken_in_iff_grammatical (rs : List (Nat × Record)) :
    ((acceptAll {} rs).2 = none ↔ Grammatical (rs.map (·.2))) ∧
      (¬Grammatical (rs.map (·.2)) → ∃ front offset r back e, rs = front ++ (offset, r) :: back ∧
        Grammatical (front.map (·.2)) ∧ ¬Grammatical (front.map (·.2) ++ [r]) ∧
        (acceptAll {} rs).2 = some e ∧ Broken (front.map (·.2)) offset r e) ∧
      ∀ output, (Scanner.scan {} output).ending = .between →
        List.Forall₂ Reads (Scanner.scan {} output).records rs →
        ((acceptAll {} rs).2 = none →
            decodeOutput output = .ok (Decoder.waiting (acceptAll {} rs).1 output.length)) ∧
          ∀ e, (acceptAll {} rs).2 = some e →
            ∃ d, decodeOutput output = .error ⟨e, d⟩ ∧ d.intake = (acceptAll {} rs).1 := by
  refine ⟨acceptAll_none_iff rs, fun hnot => ?_, fun output => decodeOutput_reads⟩
  rcases acceptAll_cases tracks_empty grammatical_nil rs with
    ⟨-, hall⟩ | ⟨front, offset, r, back, e, rfl, hfront, hsome, hbroken⟩
  · exact absurd hall hnot
  · exact ⟨front, offset, r, back, e, rfl, hfront, hbroken.not_grammatical, hsome, hbroken⟩

end RecordOrder

end Verdicts
