/-
A model that is decoded grows as one does that is changed directly. Each record that is taken in makes some of the
four changes, and so does each call of a decoder (`Decoder.call_changed`). Main statement: a model that changes have
made is extended by further changes, and a model that a decoder has decoded by further calls: what a handle or a
name found before it finds afterwards.
-/
import Verdicts.Proofs.Result.Extension
import Verdicts.Proofs.Stream.Admission
import Verdicts.Proofs.Stream.Chunking

namespace Verdicts

namespace Intake

open Model (Changed)

theorem changed_addProperty {m m' : Model} {id : AnalysisId} {p : Property}
    {answer : Except ModelError PropertyRef} (h : m.addProperty id p = (m', answer)) : m.Changed m' := by
  have hchange := Changed.single m (.addProperty id p)
  rwa [Model.change, h] at hchange

theorem changed_attachPostAnalysis {m m' : Model} {id : AnalysisId} {post : PostAnalysis}
    {refusal : Option ModelError} (h : m.attachPostAnalysis id post = (m', refusal)) : m.Changed m' := by
  have hchange := Changed.single m (.attachPostAnalysis id post)
  rwa [Model.change, h] at hchange

theorem changed_addCallees (m : Model) (top : String) (callees : List String) :
    m.Changed (addCallees m top callees).1 := by
  induction callees generalizing m with
  | nil => exact .refl m
  | cons callee rest ih =>
    rw [addCallees]
    split
    · exact ih m
    · have hchange := Changed.single m (.addChild top callee)
      rw [Model.change] at hchange
      rcases h : m.addChild top callee with ⟨m', _ | e⟩
      · rw [h] at hchange
        exact hchange.trans (ih m')
      · rw [h] at hchange
        exact hchange

theorem changed_startedModel (m : Model) (top : String) (context : AnalysisContext) :
    m.Changed (startedModel m top context) :=
  (changed_addCallees m top _).trans (.single _ (.addAnalysis top context))

/-- Whatever happens to a record, the model is changed by some of the four changes. -/
theorem Handled.changed {i after : Intake} {offset : Nat} {r : Record} {refusal : Option DecodeError}
    (h : i.Handled offset r after refusal) : i.model.Changed after.model := by
  cases h with
  | @analysisStart top context => exact changed_startedModel i.model top context
  | property _ _ hm => exact changed_addProperty hm
  | postAnalysisEnd _ _ hm => exact changed_attachPostAnalysis hm
  | _ => exact .refl _

end Intake

namespace Decoder

open Model (Changed)

theorem take_changed {i : Intake} (hs : i.Sound) (raw : RawRecord) : i.model.Changed (take i raw).1.model := by
  rcases take_cases hs raw with ⟨fault, -, h⟩ | ⟨r, -, -, h⟩
  · rw [h]
    exact .refl _
  · exact h.changed

theorem step_changed {d : Decoder} (hs : d.intake.Sound) (b : UInt8) : d.model.Changed (d.step b).1.model := by
  rw [step]
  rcases d.scanner.step b with _ | ⟨scanner, _ | raw⟩
  · exact .refl _
  · exact .refl _
  · exact take_changed hs raw

theorem run_changed {d : Decoder} (hs : d.intake.Sound) (t : Bytes) : d.model.Changed (d.run t).1.model := by
  induction t generalizing d with
  | nil => exact .refl _
  | cons b t ih =>
    have hb := step_changed hs b
    have hsb := step_sound hs b
    rcases h : d.step b with ⟨d', _ | e⟩
    · rw [h] at hb hsb
      rw [run_cons_none h]
      exact hb.trans (ih hsb)
    · rw [h] at hb
      rw [run_cons_some h]
      exact hb

/-- A call keeps the handles of a decoder in range and changes its model by some of the four changes. -/
theorem call_changed {d : Decoder} (hs : d.intake.Sound) (c : Call) :
    (d.call c).1.intake.Sound ∧ d.model.Changed (d.call c).1.model := by
  cases hd : d.aborted with
  | true =>
    rw [call_of_aborted hd]
    exact ⟨hs, .refl _⟩
  | false =>
    cases c with
    | feed chunk =>
      rw [call, feed_of_live hd]
      exact ⟨run_sound hs chunk, run_changed hs chunk⟩
    | finish =>
      simp only [call, finish, hd, Bool.false_eq_true, if_false]
      split
      · exact ⟨hs, .refl _⟩
      · exact ⟨hs, .refl _⟩

theorem calls_changed {d : Decoder} (hs : d.intake.Sound) (cs : List Call) :
    (d.calls cs).1.intake.Sound ∧ d.model.Changed (d.calls cs).1.model := by
  induction cs generalizing d with
  | nil => exact ⟨hs, .refl _⟩
  | cons c cs ih =>
    obtain ⟨hsc, hc⟩ := call_changed hs c
    obtain ⟨hscs, hcs⟩ := ih hsc
    exact ⟨hscs, hc.trans hcs⟩

/-- A model that changes have made is extended by further changes: everything that it has stays under the handle
and the name under which it was found. A change is refused exactly if it is about an analysis that there is not or
lets a component call itself, and then the model stays as it is. A model that a decoder has decoded, on any calls, is
one that changes have made, and further calls extend it. -/
theorem handles_keep_meaning (before more : List Change) :
    let m := Model.ofChanges before
    let m' := Model.ofChanges (before ++ more)
    m.Extends m' ∧
      (∀ ref p, m.property? ref = some p → m'.property? ref = some p) ∧
      (∀ name id, m.componentId? name = some id → m'.componentId? name = some id) ∧
      (∀ c e, m.refusal? c = some e ↔ m.Refuses c e) ∧
      (∀ c e, m.refusal? c = some e → m.change c = m) ∧
      ∀ cs ds : List Call,
        let d := (calls {} cs).1
        let d' := (calls {} (cs ++ ds)).1
        (∃ changes, d.model = Model.ofChanges changes) ∧ d.model.Extends d'.model := by
  intro m m'
  have hwf : m.WellFormed := Model.wellFormed_ofChanges before
  have hext : m.Extends m' := Changed.extends ⟨more, List.foldl_append ..⟩ hwf
  refine ⟨hext, fun ref p => hext.property?, fun name id => hext.componentId? hwf (Model.wellFormed_ofChanges _),
    fun c e => Model.refusal?_eq_some, fun c e => Model.change_of_refused, fun cs ds => ?_⟩
  obtain ⟨hs, hcs⟩ := calls_changed (d := {}) Intake.empty_sound cs
  have hds := (calls_changed hs ds).2
  rw [calls_append]
  exact ⟨hcs, hds.extends (hcs.of_ofChanges Model.wellFormed_ofChanges)⟩

end Decoder

end Verdicts
