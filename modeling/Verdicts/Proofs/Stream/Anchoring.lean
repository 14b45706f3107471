/-
The handles that a decoder keeps lead to something. The analyses on its stack and the one stopped last are analyses
of its model, and their owners are components of it (`Model.Anchors`). An intake has a way out wherever a handle might
lead nowhere and wherever a component might be recorded as its own callee; `FallsBack` says when one is taken. Main
statement: whatever is fed, none ever is, so no call answers with an error of the model.
-/
import Verdicts.Proofs.Stream.Growth

namespace Verdicts

namespace Model

/-- A handle leads to an analysis and from there to the component that it is about. -/
def Anchors (m : Model) (id : AnalysisId) : Prop :=
  ∃ a c, m.analysis? id = some a ∧ m.component? a.owner = some c

theorem WellFormed.anchors {m : Model} (h : m.WellFormed) {id : AnalysisId}
    (hid : id.index < m.analyses.length) : m.Anchors id := by
  obtain ⟨a, ha⟩ := analysis?_of_lt hid
  have howner := (h.analysis id.index a ha).owner
  exact ⟨a, m.components[a.owner.index], ha, List.getElem?_eq_getElem howner⟩

end Model

namespace Intake

/-- `FallsBack i r`: to take in the record `r`, one of the ways out is taken. -/
inductive FallsBack (i : Intake) : Record → Prop
  /-- A call is refused: a component would call itself. -/
  | call {top : String} {context : AnalysisContext} {m : Model} {e : ModelError} :
      addCallees i.model top (context.concrete ++ context.abstracted) = (m, some e) →
      FallsBack i (.analysisStart top context)
  /-- A property is refused: there is no such analysis. -/
  | property {report : PropertyReport} {id : AnalysisId} {rest : List AnalysisId} {p : Property}
      {e : ModelError} : i.running = id :: rest → (i.model.addProperty id p).2 = .error e →
      FallsBack i (.property report)
  /-- A property without a scope finds no component to take the scope from. -/
  | scope {report : PropertyReport} {id : AnalysisId} {rest : List AnalysisId} : i.running = id :: rest →
      report.scope = none → ((i.model.analysis? id).bind fun a => i.model.component? a.owner) = none →
      FallsBack i (.property report)
  /-- A post-analysis is refused: there is no such analysis. -/
  | attach {post : PostAnalysis} {id : AnalysisId} {e : ModelError} : i.postAnalysisTarget? = some id →
      (i.model.attachPostAnalysis id post).2 = some e → FallsBack i .postAnalysisEnd

theorem Sound.not_fallsBack {i : Intake} (hs : i.Sound) (hwf : i.model.WellFormed) (r : Record) :
    ¬i.FallsBack r := by
  intro h
  cases h with
  | @call top context m e hcall =>
    have hnone := (addCallees_ok i.model top (context.concrete ++ context.abstracted)).1
    rw [hcall] at hnone
    cases hnone
  | @property report id rest p e hr hm =>
    obtain ⟨m', ref, hok, -⟩ := Model.addProperty_ok (hs.running id (hr ▸ List.mem_cons_self ..)) p
    rw [hok] at hm
    cases hm
  | @scope report id rest hr _ hnone =>
    obtain ⟨a, c, ha, hc⟩ := hwf.anchors (hs.running id (hr ▸ List.mem_cons_self ..))
    simp [ha, hc] at hnone
  | @attach post id e ht hm =>
    obtain ⟨m', hok, -⟩ := Model.attachPostAnalysis_ok (hs.target ht) post
    rw [hok] at hm
    cases hm

end Intake

namespace Decoder

theorem take_ne_model {i : Intake} (hs : i.Sound) (raw : RawRecord) (e : ModelError) :
    (take i raw).2 ≠ some (.model e) := by
  intro he
  rcases take_cases hs raw with ⟨fault, -, h⟩ | ⟨r, -, -, h⟩
  · rw [h] at he
    cases he
  · rw [he] at h
    rcases h.refused with ⟨-, -, ⟨fault, heq⟩ | ⟨field, value, heq⟩⟩ <;> cases heq

theorem step_ne_model {d : Decoder} (hs : d.intake.Sound) (b : UInt8) (e : ModelError) :
    (d.step b).2 ≠ some (.model e) := by
  unfold step
  rcases d.scanner.step b with _ | ⟨scanner, _ | raw⟩
  · simp
  · simp
  · exact take_ne_model hs raw e

theorem run_ne_model {d : Decoder} (hs : d.intake.Sound) (t : Bytes) (e : ModelError) :
    (d.run t).2 ≠ some (.model e) := by
  induction t generalizing d with
  | nil => simp
  | cons b t ih =>
    have hb := step_ne_model hs b e
    have hsb := step_sound hs b
    rcases h : d.step b with ⟨d', _ | e'⟩
    · rw [h] at hsb
      rw [run_cons_none h]
      exact ih hsb
    · rw [h] at hb
      rw [run_cons_some h]
      exact hb

theorem call_ne_model {d : Decoder} (hs : d.intake.Sound) (c : Call) (e : ModelError) :
    (d.call c).2 ≠ some (.model e) := by
  cases c with
  | feed chunk =>
    simp only [call, feed]
    split
    · simp
    · exact run_ne_model hs chunk e
  | finish =>
    simp only [call, finish]
    split
    · simp
    · -- the end of the output finds a record that is still open, or nothing
      cases d.scanner.pending? <;> simp

theorem calls_ne_model {d : Decoder} (hs : d.intake.Sound) (cs : List Call) (e : ModelError) :
    some (.model e) ∉ (d.calls cs).2 := by
  induction cs generalizing d with
  | nil => simp
  | cons c cs ih =>
    rw [calls_cons, List.mem_cons, not_or]
    exact ⟨(call_ne_model hs c e).symm, ih (call_changed hs c).1⟩

/-- Behind any calls, whatever they fed and wherever it was cut: no call has answered with an error of the model; each
handle on the stack, and that of the analysis stopped last, leads to an analysis of the model and to the component
that owns it; and no record that may come next falls back. -/
theorem handles_anchored (cs : List Call) :
    let d := (calls {} cs).1
    (∀ e, some (.model e) ∉ (calls {} cs).2) ∧
      (∀ id, id ∈ d.intake.running ∨ d.intake.lastStopped = some id → d.model.Anchors id) ∧
      ∀ r, ¬d.intake.count.FallsBack r := by
  intro d
  obtain ⟨hs, hchanged⟩ := calls_changed (d := {}) Intake.empty_sound cs
  have hwf : d.model.WellFormed := hchanged.of_ofChanges Model.wellFormed_ofChanges
  refine ⟨calls_ne_model Intake.empty_sound cs, ?_, hs.count.not_fallsBack hwf⟩
  rintro id (hid | hid)
  · exact hwf.anchors (hs.running id hid)
  · exact hwf.anchors (hs.lastStopped id hid)

end Decoder

end Verdicts
