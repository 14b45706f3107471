/-
What a record does to an intake. `Intake.Handled` lists all that can happen, with what is known
afterwards and the reason of a refusal; `accept_handled` says that nothing else does, on every intake
whose handles are in range (`Intake.Sound`), which every intake is that begins empty. Two facts follow: a
refused record leaves the model and the transcript as they were, and it is refused for coming out of
order or for a spelling, at its own offset.
-/
import Verdicts.Proofs.Result.Growth
import Verdicts.Stream.Decoder

namespace Verdicts

namespace Intake

/-! ## Handles in range -/

/-- The analyses that an intake refers to are analyses of its model. -/
structure Sound (i : Intake) : Prop where
  running : ∀ id ∈ i.running, id.index < i.model.analyses.length
  lastStopped : ∀ id ∈ i.lastStopped, id.index < i.model.analyses.length

theorem empty_sound : Sound {} := ⟨fun _ h => (by cases h), fun _ h => (by cases h)⟩

theorem Sound.count {i : Intake} (h : i.Sound) : i.count.Sound := ⟨h.running, h.lastStopped⟩

theorem Sound.target {i : Intake} (h : i.Sound) {id : AnalysisId} (ht : i.postAnalysisTarget? = some id) :
    id.index < i.model.analyses.length := by
  unfold postAnalysisTarget? at ht
  cases hl : i.lastStopped with
  | some stopped =>
    rw [hl, Option.some_or] at ht
    cases ht
    exact h.lastStopped _ hl
  | none =>
    rw [hl, Option.none_or] at ht
    exact h.running _ (List.mem_of_mem_head? ht)

/-- Calls are recorded without fail: the component under analysis itself is left out. -/
theorem addCallees_ok (m : Model) (top : String) (callees : List String) :
    (addCallees m top callees).2 = none ∧ (addCallees m top callees).1.analyses = m.analyses := by
  induction callees generalizing m with
  | nil => exact ⟨rfl, rfl⟩
  | cons callee rest ih =>
    unfold addCallees
    split
    · exact ih m
    · rename_i hne
      obtain ⟨m', h, ha⟩ := m.addChild_ok (Ne.symm hne)
      rw [h, ← ha]
      exact ih m'

/-! ## All that can happen to a record -/

/-- The model behind the start of an analysis. -/
def startedModel (m : Model) (top : String) (context : AnalysisContext) : Model :=
  ((addCallees m top (context.concrete ++ context.abstracted)).1.addAnalysis top context).1

/-- The start of an analysis is never refused. -/
theorem startAnalysis_eq (i : Intake) (top : String) (context : AnalysisContext) :
    i.startAnalysis top context =
      ({ i with
        model := startedModel i.model top context
        running := ⟨i.model.analyses.length⟩ :: i.running
        lastStopped := none }, none) := by
  obtain ⟨hnone, hanalyses⟩ := addCallees_ok i.model top (context.concrete ++ context.abstracted)
  rw [startAnalysis, startedModel]
  rcases h : addCallees i.model top (context.concrete ++ context.abstracted) with ⟨m, _ | e⟩
  · rw [h] at hanalyses
    simp only [← hanalyses, ← Model.addAnalysis_id m top context]
  · rw [h] at hnone
    cases hnone

/-- `Handled i offset r after refusal`: the record `r` that begins at `offset` turns what is known from
`i` into `after`, and is refused for the reason given, if one is. -/
inductive Handled (i : Intake) (offset : Nat) : Record → Intake → Option DecodeError → Prop
  | options {value : Json} : Handled i offset (.options value)
      { i with transcript := { i.transcript with options := some value } } none
  | log {entry : LogEntry} : Handled i offset (.log entry)
      { i with transcript := { i.transcript with logs := i.transcript.logs ++ [entry] } } none
  | analysisStart {top : String} {context : AnalysisContext} : Handled i offset (.analysisStart top context)
      { i with
        model := startedModel i.model top context
        running := ⟨i.model.analyses.length⟩ :: i.running
        lastStopped := none } none
  | property {report : PropertyReport} {id : AnalysisId} {rest : List AnalysisId} {p : Property} {m : Model}
      {ref : PropertyRef} : i.running = id :: rest → propertyOf i.model id offset report = .ok p →
      i.model.addProperty id p = (m, .ok ref) → Handled i offset (.property report) { i with model := m } none
  | outsideAnalysis {report : PropertyReport} : i.running = [] → Handled i offset (.property report) i
      (some (.outOfOrder .property offset (.outsideAnalysis report.name)))
  | misspelt {report : PropertyReport} {id : AnalysisId} {rest : List AnalysisId} {e : DecodeError} :
      i.running = id :: rest → propertyOf i.model id offset report = .error e →
      Handled i offset (.property report) i (some e)
  | analysisStop {id : AnalysisId} {rest : List AnalysisId} : i.running = id :: rest →
      Handled i offset .analysisStop { i with running := rest, lastStopped := some id } none
  | nothingToStop : i.running = [] → Handled i offset .analysisStop i
      (some (.outOfOrder .analysisStop offset .noAnalysisRunning))
  | postAnalysisStart {name : String} : i.postAnalysis = none →
      Handled i offset (.postAnalysisStart name) { i with postAnalysis := some { name } } none
  | postAnalysisRunning {name : String} {post : PostAnalysis} : i.postAnalysis = some post →
      Handled i offset (.postAnalysisStart name) i
        (some (.outOfOrder .postAnalysisStart offset (.postAnalysisRunning post.name)))
  | elementSet {set : ElementSet} {post : PostAnalysis} : i.postAnalysis = some post →
      Handled i offset (.elementSet set)
        { i with postAnalysis := some { post with elementSets := post.elementSets ++ [set] } } none
  | setOutside {set : ElementSet} : i.postAnalysis = none → Handled i offset (.elementSet set) i
      (some (.outOfOrder .elementSet offset .noPostAnalysisRunning))
  | postAnalysisEnd {post : PostAnalysis} {target : AnalysisId} {m : Model} : i.postAnalysis = some post →
      i.postAnalysisTarget? = some target → i.model.attachPostAnalysis target post = (m, none) →
      Handled i offset .postAnalysisEnd { i with model := m, postAnalysis := none } none
  | nothingToEnd : i.postAnalysis = none → Handled i offset .postAnalysisEnd i
      (some (.outOfOrder .postAnalysisEnd offset .noPostAnalysisRunning))
  | nothingToAttachTo {post : PostAnalysis} : i.postAnalysis = some post → i.postAnalysisTarget? = none →
      Handled i offset .postAnalysisEnd { i with postAnalysis := none }
        (some (.outOfOrder .postAnalysisEnd offset .noAnalysisToAttachTo))
  | progress {source : Option String} {k : Option Nat} : Handled i offset (.progress source k)
      { i with transcript := noteProgress i.transcript source k } none

/-- An intake with its handles in range never meets an error of its model. -/
theorem accept_handled {i : Intake} (hs : i.Sound) (offset : Nat) (r : Record) :
    Handled i offset r (i.accept offset r).1 (i.accept offset r).2 := by
  cases r with
  | options value => exact .options
  | log entry => exact .log
  | analysisStart top context =>
    rw [accept, startAnalysis_eq]
    exact .analysisStart
  | property report =>
    rw [accept, addReport]
    cases hr : i.running with
    | nil => exact .outsideAnalysis hr
    | cons id rest =>
      simp only
      rcases hp : propertyOf i.model id offset report with e | p
      · exact .misspelt hr hp
      · -- the innermost analysis is one of the model, so the model takes the property
        have hid := hs.running id (hr ▸ List.mem_cons_self ..)
        obtain ⟨m, ref, hm, -⟩ := Model.addProperty_ok hid p
        have hproperty := Handled.property hr hp hm
        simp only [hm]
        rwa [hr] at hproperty
  | analysisStop =>
    rw [accept, stopAnalysis]
    cases hr : i.running with
    | nil => exact .nothingToStop hr
    | cons id rest => exact .analysisStop hr
  | postAnalysisStart name =>
    rw [accept, startPostAnalysis]
    cases hp : i.postAnalysis with
    | none => exact .postAnalysisStart hp
    | some post => exact .postAnalysisRunning hp
  | elementSet set =>
    rw [accept, addElementSet]
    cases hp : i.postAnalysis with
    | none => exact .setOutside hp
    | some post => exact .elementSet hp
  | postAnalysisEnd =>
    rw [accept, endPostAnalysis]
    cases hp : i.postAnalysis with
    | none => exact .nothingToEnd hp
    | some post =>
      have htarget : postAnalysisTarget? { i with postAnalysis := none } = i.postAnalysisTarget? := rfl
      simp only [htarget]
      cases ht : i.postAnalysisTarget? with
      | none => exact .nothingToAttachTo hp ht
      | some target =>
        obtain ⟨m, hm, -⟩ := Model.attachPostAnalysis_ok (hs.target ht) post
        simp only [hm]
        exact .postAnalysisEnd hp ht hm
  | progress source k => exact .progress

/-! ## Refusals -/

/-- A property is refused for a spelling: that of its origin, or that of its verdict if the origin is
known. -/
theorem propertyOf_error {m : Model} {id : AnalysisId} {offset : Nat} {report : PropertyReport}
    {e : DecodeError} (h : propertyOf m id offset report = .error e) :
    (Origin.ofText? report.origin = none ∧ e = .unknownValue .origin report.origin offset) ∨
      (Origin.ofText? report.origin ≠ none ∧ Answer.ofText? report.answer = none ∧
        e = .unknownValue .answer report.answer offset) := by
  unfold propertyOf at h
  split at h
  · rename_i horigin
    cases h
    exact .inl ⟨horigin, rfl⟩
  · rename_i origin horigin
    split at h
    · rename_i hanswer
      cases h
      exact .inr ⟨by rw [horigin]; exact Option.some_ne_none _, hanswer, rfl⟩
    · cases h

/-- A property with known spellings is not refused for them. -/
theorem propertyOf_ok {m : Model} {id : AnalysisId} {offset : Nat} {report : PropertyReport} {p : Property}
    (h : propertyOf m id offset report = .ok p) :
    Origin.ofText? report.origin ≠ none ∧ Answer.ofText? report.answer ≠ none := by
  unfold propertyOf at h
  split at h
  · cases h
  · rename_i origin horigin
    split at h
    · cases h
    · rename_i answer hanswer
      rw [horigin, hanswer]
      exact ⟨Option.some_ne_none _, Option.some_ne_none _⟩

/-- A refused record leaves the model and the transcript as they were. It is refused for coming out of
order or for a spelling, and the refusal is reported at the record. -/
theorem Handled.refused {i after : Intake} {offset : Nat} {r : Record} {e : DecodeError}
    (h : Handled i offset r after (some e)) :
    after.model = i.model ∧ after.transcript = i.transcript ∧
      ((∃ fault, e = .outOfOrder r.kind offset fault) ∨ ∃ field value, e = .unknownValue field value offset) := by
  cases h with
  | misspelt _ hp =>
    refine ⟨rfl, rfl, .inr ?_⟩
    rcases propertyOf_error hp with ⟨-, rfl⟩ | ⟨-, -, rfl⟩
    · exact ⟨_, _, rfl⟩
    · exact ⟨_, _, rfl⟩
  | outsideAnalysis _ => exact ⟨rfl, rfl, .inl ⟨_, rfl⟩⟩
  | nothingToStop _ => exact ⟨rfl, rfl, .inl ⟨_, rfl⟩⟩
  | postAnalysisRunning _ => exact ⟨rfl, rfl, .inl ⟨_, rfl⟩⟩
  | setOutside _ => exact ⟨rfl, rfl, .inl ⟨_, rfl⟩⟩
  | nothingToEnd _ => exact ⟨rfl, rfl, .inl ⟨_, rfl⟩⟩
  | nothingToAttachTo _ _ => exact ⟨rfl, rfl, .inl ⟨_, rfl⟩⟩

/-! ## Sound intakes stay sound -/

/-- Handles in range stay in range when the model grows. -/
theorem Sound.grow {i after : Intake} (h : i.Sound)
    (hlength : i.model.analyses.length ≤ after.model.analyses.length) (hrunning : after.running = i.running)
    (hstopped : after.lastStopped = i.lastStopped) : after.Sound :=
  ⟨fun id hid => Nat.lt_of_lt_of_le (h.running id (hrunning ▸ hid)) hlength,
    fun id hid => Nat.lt_of_lt_of_le (h.lastStopped id (hstopped ▸ hid)) hlength⟩

theorem startedModel_length (m : Model) (top : String) (context : AnalysisContext) :
    (startedModel m top context).analyses.length = m.analyses.length + 1 := by
  rw [startedModel, Model.addAnalysis_length, (addCallees_ok m top _).2]

theorem Handled.sound {i after : Intake} {offset : Nat} {r : Record} {refusal : Option DecodeError}
    (h : Handled i offset r after refusal) (hs : i.Sound) : after.Sound := by
  cases h with
  | analysisStart =>
    -- the new handle is the last of the grown model
    constructor
    · intro id hid
      rw [startedModel_length]
      rcases List.mem_cons.1 hid with rfl | hid
      · exact Nat.lt_succ_self _
      · exact Nat.lt_succ_of_lt (hs.running id hid)
    · intro id hid
      cases hid
  | property hr hp hm =>
    obtain ⟨m, ref, hm', hlength⟩ := Model.addProperty_ok (hs.running _ (hr ▸ List.mem_cons_self ..)) _
    rw [hm] at hm'
    cases hm'
    exact hs.grow (Nat.le_of_eq hlength.symm) rfl rfl
  | analysisStop hr =>
    constructor
    · intro id hid
      exact hs.running id (hr ▸ List.mem_cons_of_mem _ hid)
    · intro id hid
      cases hid
      exact hs.running _ (hr ▸ List.mem_cons_self ..)
  | postAnalysisEnd hp ht hm =>
    obtain ⟨m, hm', hlength⟩ := Model.attachPostAnalysis_ok (hs.target ht) _
    rw [hm] at hm'
    cases hm'
    exact hs.grow (Nat.le_of_eq hlength.symm) rfl rfl
  | options => exact hs.grow (Nat.le_refl _) rfl rfl
  | log => exact hs.grow (Nat.le_refl _) rfl rfl
  | postAnalysisStart _ => exact hs.grow (Nat.le_refl _) rfl rfl
  | elementSet _ => exact hs.grow (Nat.le_refl _) rfl rfl
  | nothingToAttachTo _ _ => exact hs.grow (Nat.le_refl _) rfl rfl
  | progress => exact hs.grow (Nat.le_refl _) rfl rfl
  | outsideAnalysis _ => exact hs
  | misspelt _ _ => exact hs
  | nothingToStop _ => exact hs
  | postAnalysisRunning _ => exact hs
  | setOutside _ => exact hs
  | nothingToEnd _ => exact hs

end Intake

namespace Decoder

open Intake

/-- A record that cannot be read changes nothing; one that can is counted and handled. -/
theorem take_cases {i : Intake} (hs : i.Sound) (raw : RawRecord) :
    (∃ fault, Record.read raw.text = .error fault ∧ take i raw = (i, some (.malformed raw.start fault))) ∨
      ∃ r, Record.read raw.text = .ok r ∧ take i raw = i.count.accept raw.start r ∧
        Handled i.count raw.start r (take i raw).1 (take i raw).2 := by
  rcases h : Record.read raw.text with fault | r
  · left
    exact ⟨fault, rfl, by rw [take, h]⟩
  · right
    have htake : take i raw = i.count.accept raw.start r := by rw [take, h]
    exact ⟨r, rfl, htake, htake ▸ accept_handled hs.count raw.start r⟩

theorem take_sound {i : Intake} (hs : i.Sound) (raw : RawRecord) : (take i raw).1.Sound := by
  rcases take_cases hs raw with ⟨fault, -, h⟩ | ⟨r, -, -, h⟩
  · rw [h]; exact hs
  · exact h.sound hs.count

/-- The intake of a decoder stays sound with every byte. -/
theorem step_sound {d : Decoder} (hs : d.intake.Sound) (b : UInt8) : (d.step b).1.intake.Sound := by
  unfold step
  rcases d.scanner.step b with _ | ⟨scanner, _ | raw⟩
  · exact hs
  · exact hs
  · exact take_sound hs raw

theorem run_sound {d : Decoder} (hs : d.intake.Sound) (t : Bytes) : (d.run t).1.intake.Sound := by
  induction t generalizing d with
  | nil => exact hs
  | cons b t ih =>
    have hb := step_sound hs b
    rw [run]
    rcases h : d.step b with ⟨d', _ | e⟩
    · rw [h] at hb
      exact ih hb
    · rw [h] at hb
      exact hb

end Decoder

end Verdicts
