/-
What the lines of evidence say. A description mentions properties one after the other, each by its logical name in
brackets and with its verdict behind it (`Describes`). The lines on a group of properties (`TellsGroup`), on a
subcomponent (`TellsChild`), on a gap between modes (`gapLine`) and on a failed induction (`hintLine`) are written out;
main statements: the evidence has these lines and no others in their place.
-/
import Verdicts.Advice.Suggestion

namespace Verdicts

/-! ## Descriptions -/

/-- The text is the logical name of a property in its brackets, with the verdict behind it. -/
inductive Mentions (settings : DisplaySettings) (p : Property) : String → Prop
  | falsifiable : p.answer = .falsifiable →
      Mentions settings p (settings.openBracket ++ p.displayName ++ settings.closeBracket ++ " (falsifiable)")
  | unknown : p.answer = .unknown →
      Mentions settings p (settings.openBracket ++ p.displayName ++ settings.closeBracket ++ " (unknown)")

/-- The text mentions the properties in order, each of them once, with commas between them. -/
inductive Describes (settings : DisplaySettings) : List Property → String → Prop
  | last {p : Property} {text : String} : Mentions settings p text → Describes settings [p] text
  | more {p q : Property} {ps : List Property} {text rest : String} : Mentions settings p text →
      Describes settings (q :: ps) rest → Describes settings (p :: q :: ps) (text ++ ", " ++ rest)

theorem mentions_of_unresolved (settings : DisplaySettings) {p : Property}
    (h : p.answer = .falsifiable ∨ p.answer = .unknown) :
    Mentions settings p (settings.name p.displayName ++ " (" ++ p.answer.text ++ ")") := by
  rcases h with h | h
  · rw [h, String.append_assoc, String.append_assoc]
    exact .falsifiable h
  · rw [h, String.append_assoc, String.append_assoc]
    exact .unknown h

/-- Properties that are open are described as they are. -/
theorem describes_describe (settings : DisplaySettings) {ps : List Property} (hne : ps ≠ [])
    (h : ∀ p ∈ ps, p.answer = .falsifiable ∨ p.answer = .unknown) :
    Describes settings ps (Evidence.describe settings ps) := by
  induction ps with
  | nil => exact absurd rfl hne
  | cons p ps ih =>
    have hp := mentions_of_unresolved settings (h p List.mem_cons_self)
    cases ps with
    | nil =>
      rw [Evidence.describe, List.map_singleton, String.intercalate_singleton]
      exact .last hp
    | cons q ps =>
      rw [Evidence.describe, List.map_cons, List.map_cons, String.intercalate_cons_cons]
      exact .more hp (ih (List.cons_ne_nil _ _) fun r hr => h r (List.mem_cons_of_mem _ hr))

/-! ## Lines -/

/-- The line describes the assumptions that one component declares; `verdict` says what they are. -/
def TellsGroup (settings : DisplaySettings) (verdict : String) (g : ScopeGroup) (line : String) : Prop :=
  ∃ text, Describes settings g.members text ∧
    line = s!"The assumptions of {settings.name g.scope} are {verdict}: {text}."

/-- The line describes what is open in a subcomponent. -/
def TellsChild (settings : DisplaySettings) (child : String × List Property) (line : String) : Prop :=
  ∃ text, Describes settings child.2 text ∧ line = s!"{settings.name child.1} has unresolved properties: {text}."

/-- The line on a state that the modes of `n` do not cover. A trace that leads there is told by its length. -/
def gapLine (n shown : String) : Option Trace → String
  | some t =>
    s!"The modes of {n} are not exhaustive: {shown} is falsifiable (no mode is active after {t.length} step(s))."
  | none => s!"The modes of {n} are not exhaustive: {shown} is falsifiable."

/-- The hint on an attempt whose induction failed: how deep it was, if this is known, and how long the trace is. -/
def hintLine (shown : String) (length : Nat) : Option Nat → String
  | some k => s!"Hint: {shown} is not {k}-inductive; the inductive step fails on a trace of {length} step(s). " ++
      "Strengthening it with auxiliary invariants may let induction succeed."
  | none => s!"Hint: {shown} is not inductive; the inductive step fails on a trace of {length} step(s). " ++
      "Strengthening it with auxiliary invariants may let induction succeed."

namespace Evidence

theorem tellsGroup (settings : DisplaySettings) (verdict : String) {g : ScopeGroup} (hne : g.members ≠ [])
    (h : ∀ p ∈ g.members, p.answer = .falsifiable ∨ p.answer = .unknown) :
    TellsGroup settings verdict g (group settings verdict g) :=
  ⟨_, describes_describe settings hne h, rfl⟩

theorem tellsChild (settings : DisplaySettings) {name : String} {ps : List Property} (hne : ps ≠ [])
    (h : ∀ p ∈ ps, p.answer = .falsifiable ∨ p.answer = .unknown) :
    TellsChild settings (name, ps) (child settings name ps) :=
  ⟨_, describes_describe settings hne h, rfl⟩

theorem modeGap_eq (settings : DisplaySettings) (n : String) (p : Property) :
    modeGap settings n p = gapLine n (settings.name p.displayName) p.trace := by
  unfold modeGap gapLine
  generalize settings.name p.displayName = shown
  cases p.trace with
  | none => simp [← String.toList_inj, toString]
  | some t =>
    generalize t.length = length
    simp [← String.toList_inj, toString]

theorem hint_eq (shown : String) (h : InductionHint) : hint shown h = hintLine shown h.length h.depth := by
  unfold hint hintLine
  cases h.depth with
  | none => simp [← String.toList_inj, toString]
  | some k => simp [← String.toList_inj, toString]

end Evidence

end Verdicts
