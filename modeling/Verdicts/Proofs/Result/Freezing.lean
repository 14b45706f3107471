/-
Freezing goes unnoticed. Whoever holds a model changes it, asks it for projections, freezes it and takes it back, in
any order; a frozen model looks its projections up among those that were computed when it was frozen. Main statement:
what the holder is told, and the model that is left, are what they are for one who never freezes it and has every
projection computed anew.
-/
import Verdicts.Proofs.Result.Projection

namespace Verdicts

/-- A model as it is held. -/
inductive Held where
  | live (m : Model)
  | frozen (f : FrozenModel)

/-- What is done with a model that is held. A change of a frozen model takes the model back first. -/
inductive Use where
  | change (c : Change)
  | ask (id : ComponentId) (answer : Answer)
  | freeze
  | thaw

/-- What is told in reply. -/
inductive Reply where
  | analysis (id : AnalysisId)
  | property (ref : PropertyRef)
  | done
  | refused (e : ModelError)
  | properties (found : List Property)

namespace Model

/-- The reply to a change: the handle of what was added, or the reason of a refusal. -/
def replyTo (m : Model) : Change → Reply
  | .addAnalysis component context => .analysis (m.addAnalysis component context).2
  | .addProperty id property =>
    match (m.addProperty id property).2 with
    | .ok ref => .property ref
    | .error e => .refused e
  | .addChild parent child =>
    match (m.addChild parent child).2 with
    | none => .done
    | some e => .refused e
  | .attachPostAnalysis id post =>
    match (m.attachPostAnalysis id post).2 with
    | none => .done
    | some e => .refused e

/-- One use by a holder who never freezes the model. -/
def use (m : Model) : Use → Model × List Reply
  | .change c => (m.change c, [m.replyTo c])
  | .ask id answer => (m, [.properties (m.withAnswer id answer)])
  | .freeze => (m, [])
  | .thaw => (m, [])

def uses (m : Model) : List Use → Model × List Reply
  | [] => (m, [])
  | u :: us => (((m.use u).1.uses us).1, (m.use u).2 ++ ((m.use u).1.uses us).2)

end Model

namespace Held

/-- The model, taken back if it is frozen. -/
def model : Held → Model
  | live m => m
  | frozen f => f.thaw

def use : Held → Use → Held × List Reply
  | h, .change c => (live (h.model.change c), [h.model.replyTo c])
  | live m, .ask id answer => (live m, [.properties (m.withAnswer id answer)])
  | frozen f, .ask id answer => (frozen f, [.properties (f.withAnswer id answer)])
  | h, .freeze => (frozen h.model.freeze, [])
  | h, .thaw => (live h.model, [])

def uses (h : Held) : List Use → Held × List Reply
  | [] => (h, [])
  | u :: us => (((h.use u).1.uses us).1, (h.use u).2 ++ ((h.use u).1.uses us).2)

/-- `Of m h`: what is held is `m`, as it is or frozen. -/
inductive Of (m : Model) : Held → Prop
  | live : Of m (live m)
  | frozen : Of m (frozen m.freeze)

theorem Of.model_eq {m : Model} {h : Held} (hm : Of m h) : h.model = m := by
  cases hm <;> rfl

theorem Of.use {m : Model} {h : Held} (hm : Of m h) (hwf : m.WellFormed) (u : Use) :
    Of (m.use u).1 (h.use u).1 ∧ (m.use u).1.WellFormed ∧ (h.use u).2 = (m.use u).2 := by
  have hmodel := hm.model_eq
  cases u with
  | change c =>
    rw [Held.use, hmodel]
    exact ⟨.live, hwf.change c, rfl⟩
  | ask id answer =>
    cases hm with
    | live => exact ⟨.live, hwf, rfl⟩
    | frozen =>
      rw [Held.use, hwf.withAnswer_freeze]
      exact ⟨.frozen, hwf, rfl⟩
  | freeze =>
    rw [Held.use, hmodel]
    exact ⟨.frozen, hwf, rfl⟩
  | thaw =>
    rw [Held.use, hmodel]
    exact ⟨.live, hwf, rfl⟩

theorem Of.uses {m : Model} {h : Held} (hm : Of m h) (hwf : m.WellFormed) (us : List Use) :
    Of (m.uses us).1 (h.uses us).1 ∧ (h.uses us).2 = (m.uses us).2 := by
  induction us generalizing m h with
  | nil => exact ⟨hm, rfl⟩
  | cons u us ih =>
    obtain ⟨hu, hwfu, hreply⟩ := hm.use hwf u
    obtain ⟨hus, hreplies⟩ := ih hu hwfu
    rw [Held.uses, Model.uses, hreply, hreplies]
    exact ⟨hus, rfl⟩

end Held

namespace Model

/-- A model that changes have made answers frozen as it does live, whatever handle is asked for; for a handle that is
not part of it there is nothing to answer. Taken back it is what it was, and over any uses, however often it is frozen
and taken back in between, all replies and the model that is left are those of one that is never frozen. -/
theorem freezing_unnoticed (changes : List Change) :
    let m := ofChanges changes
    (∀ id answer, m.freeze.withAnswer id answer = m.withAnswer id answer) ∧
      (∀ id answer, m.components.length ≤ id.index → m.freeze.withAnswer id answer = []) ∧
      m.freeze.thaw = m ∧
      ∀ us, ((Held.live m).uses us).2 = (m.uses us).2 ∧ ((Held.live m).uses us).1.model = (m.uses us).1 := by
  intro m
  have hwf : m.WellFormed := wellFormed_ofChanges changes
  refine ⟨hwf.withAnswer_freeze, fun id answer hid => ?_, rfl, fun us => ?_⟩
  · have hout : id ∉ m.handles := fun hmem => Nat.not_lt_of_le hid (hwf.mem_handles.1 hmem)
    rw [hwf.withAnswer_freeze, withAnswer, hwf.refsWithAnswer_of_not_mem hout]
    rfl
  · obtain ⟨hus, hreplies⟩ := Held.Of.uses .live hwf us
    exact ⟨hreplies, hus.model_eq⟩

end Model

end Verdicts
