/-
Only what the records say matters, not how they are written. Two outputs whose records have the same content are both
decoded or both refused, and what is known in the end is the same: blanks, escapes, the order of members, members that
the schema does not know and the separators around records make no difference. Main statement: `spelling_irrelevant`.
-/
import Verdicts.Proofs.Record.Spelling
import Verdicts.Proofs.Stream.Boundaries
import Verdicts.Proofs.Stream.Recovery

namespace Verdicts

open Json.Spelling (Spells SpellsText SpellsChars)

open Scanner (Separators)

/-- `Writes records t`: the output `t` consists of the records, each with the members given, and separators. -/
inductive Writes : List (List (String × Json)) → Bytes → Prop
  | ended {gap : Bytes} : Separators gap → Writes [] gap
  | record {gap text rest : Bytes} {members : List (String × Json)} {records : List (List (String × Json))} :
      Separators gap → Spells (.value (.object members)) text → Writes records rest →
      Writes (members :: records) (gap ++ text ++ rest)

theorem separators_nil : Separators [] := fun _ h => absurd h List.not_mem_nil

namespace Intake

/-- What is known after a record, and whether it was refused. -/
def outcome (result : Intake × Option DecodeError) : Intake × Bool := (result.1, result.2.isSome)

/-- Where a record stands shows in errors only. -/
theorem accept_outcome (i : Intake) (offset offset' : Nat) (r : Record) :
    outcome (i.accept offset r) = outcome (i.accept offset' r) := by
  cases r with
  | options value => rfl
  | log entry => rfl
  | analysisStart top context => rfl
  | property report =>
    unfold accept addReport
    cases i.running with
    | nil => rfl
    | cons id rest =>
      unfold propertyOf
      simp only
      cases Origin.ofText? report.origin with
      | none => rfl
      | some origin =>
        cases Answer.ofText? report.answer with
        | none => rfl
        | some answer => rfl
  | analysisStop =>
    unfold accept stopAnalysis
    cases i.running <;> rfl
  | postAnalysisStart name =>
    unfold accept startPostAnalysis
    cases i.postAnalysis <;> rfl
  | elementSet set =>
    unfold accept addElementSet
    cases i.postAnalysis <;> rfl
  | postAnalysisEnd =>
    unfold accept endPostAnalysis
    cases i.postAnalysis with
    | none => rfl
    | some post =>
      simp only
      cases postAnalysisTarget? _ with
      | none => rfl
      | some target => rfl
  | progress source k => rfl

end Intake

namespace Decoder

open Intake (outcome)

theorem take_outcome {text text' : Bytes} (h : (Record.read text).toOption = (Record.read text').toOption) (i : Intake)
    (offset offset' : Nat) : outcome (take i ⟨offset, text⟩) = outcome (take i ⟨offset', text'⟩) := by
  unfold take
  simp only
  rcases toOption_cases h with ⟨fault, fault', hread, hread'⟩ | ⟨r, hread, hread'⟩
  · rw [hread, hread']
    rfl
  · rw [hread, hread']
    exact Intake.accept_outcome _ _ _ _

theorem complete_of_spells {members : List (String × Json)} {text : Bytes}
    (h : Spells (.value (.object members)) text) (offset : Nat) : Complete offset text := by
  have hnext := Scanner.next_object separators_nil h.derives offset []
  rw [List.append_nil] at hnext
  exact hnext

/-- What is known when an output has been completed, or at the failure, and whether there is a failure. -/
theorem complete_outcome {records records' : List (List (String × Json))}
    (hsame : List.Forall₂ SameContent records records') {t t' : Bytes} (h : Writes records t) (h' : Writes records' t')
    (i : Intake) (offset offset' : Nat) :
    outcome (((waiting i offset).complete t).1.intake, ((waiting i offset).complete t).2) =
      outcome (((waiting i offset').complete t').1.intake, ((waiting i offset').complete t').2) := by
  -- on the records; each leaves the same behind, though not at the same offset
  induction hsame generalizing t t' i offset offset' with
  | nil =>
    cases h with
    | ended hgap =>
      cases h' with
      | ended hgap' =>
        rw [complete, run_separators i offset hgap, complete, run_separators i offset' hgap']
        rfl
  | cons hmembers _ ih =>
    cases h with
    | @record gap text rest _ _ hgap htext hrest =>
      cases h' with
      | @record gap' text' rest' _ _ hgap' htext' hrest' =>
        have htake := take_outcome (Record.read_sameContent htext htext' hmembers) i (offset + gap.length)
          (offset' + gap'.length)
        rw [List.append_assoc, List.append_assoc, complete_append (run_separators i offset hgap),
          complete_append (run_separators i offset' hgap')]
        rcases htaken : take i ⟨offset + gap.length, text⟩ with ⟨j, _ | e⟩
        · rcases htaken' : take i ⟨offset' + gap'.length, text'⟩ with ⟨j', _ | e'⟩
          · rw [htaken, htaken'] at htake
            cases htake
            rw [complete_taken (complete_of_spells htext _) htaken, complete_taken (complete_of_spells htext' _) htaken']
            exact ih hrest hrest' _ _ _
          · rw [htaken, htaken'] at htake
            cases htake
        · rcases htaken' : take i ⟨offset' + gap'.length, text'⟩ with ⟨j', _ | e'⟩
          · rw [htaken, htaken'] at htake
            cases htake
          · rw [htaken, htaken'] at htake
            cases htake
            rw [complete_refused (complete_of_spells htext _) htaken,
              complete_refused (complete_of_spells htext' _) htaken']
            rfl

/-- The decoder at the end of an output, or where decoding it failed. -/
def decoded (output : Bytes) : Decoder :=
  match decodeOutput output with
  | .ok d => d
  | .error failure => failure.decoded

theorem decoded_eq (output : Bytes) : decoded output = (complete {} output).1 := by
  unfold decoded
  rw [decodeOutput_eq]
  rcases complete {} output with ⟨d, _ | e⟩ <;> rfl

theorem exists_decoded_iff (output : Bytes) :
    (∃ d, decodeOutput output = .ok d) ↔ (complete {} output).2.isSome = false := by
  rw [decodeOutput_eq]
  rcases complete {} output with ⟨d, _ | e⟩
  · simp
  · simp

/-- Take two outputs whose records have pairwise the same content. One is decoded if and only if the other is, and the
models and transcripts are equal, also those left where decoding failed. -/
theorem spelling_irrelevant {records records' : List (List (String × Json))} {output output' : Bytes}
    (h : Writes records output) (h' : Writes records' output') (hsame : List.Forall₂ SameContent records records') :
    ((∃ d, decodeOutput output = .ok d) ↔ ∃ d', decodeOutput output' = .ok d') ∧
      (decoded output).model = (decoded output').model ∧
      (decoded output).transcript = (decoded output').transcript := by
  have houtcome := complete_outcome hsame h h' {} 0 0
  obtain ⟨hintake, hfailure⟩ := Prod.mk.inj houtcome
  have hintake' : (decoded output).intake = (decoded output').intake := by
    rw [decoded_eq, decoded_eq]
    exact hintake
  refine ⟨?_, ?_, ?_⟩
  · rw [exists_decoded_iff, exists_decoded_iff]
    exact Eq.congr_left hfailure
  · exact congrArg Intake.model hintake'
  · exact congrArg Intake.transcript hintake'

/-! ## One record, written in two ways -/

open Json.Spelling (blanks_nil quoted spellsChar_plain spellsText_quoted spells_quoted)

/-- A post-analysis starts. -/
def plainMembers : List (String × Json) := [("objectType", .string "postAnalysisStart"), ("name", .string "ivc")]

/-- The same in another order, with a member that the schema does not know. -/
def markedMembers (mark : Json) : List (String × Json) :=
  [("name", .string "ivc"), ("mark", mark), ("objectType", .string "postAnalysisStart")]

def plainText : Bytes :=
  0x7B :: (quoted "objectType" ++ 0x3A :: quoted "postAnalysisStart" ++ 0x2C :: (quoted "name" ++ 0x3A :: quoted "ivc"))
    ++ [0x7D]

/-- A key with its second letter escaped. -/
def escapedName : Bytes := [0x22, 0x6E, 0x5C, 0x75, 0x30, 0x30, 0x36, 0x31, 0x6D, 0x65, 0x22]

/-- The text of the marked record; `mark` is the text of the mark. Some tokens have blanks around them. -/
def markedText (mark : Bytes) : Bytes :=
  0x7B :: (escapedName ++ [0x20] ++ 0x3A :: quoted "ivc" ++ 0x2C :: ([0x0A] ++ quoted "mark" ++ 0x3A :: ([0x20] ++ mark)
    ++ 0x2C :: (quoted "objectType" ++ 0x3A :: quoted "postAnalysisStart"))) ++ [0x7D]

theorem spells_tag : SpellsText "objectType" (quoted "objectType") := spellsText_quoted (by decide +kernel)

theorem spells_kind : Spells (.value (.string "postAnalysisStart")) (quoted "postAnalysisStart") :=
  spells_quoted (by decide +kernel)

theorem spells_name : Spells (.value (.string "ivc")) (quoted "ivc") := spells_quoted (by decide +kernel)

theorem spells_plain : Spells (.value (.object plainMembers)) plainText := by
  have hkey : SpellsText "name" (quoted "name") := spellsText_quoted (by decide +kernel)
  have h := Spells.object (.moreMembers blanks_nil spells_tag blanks_nil blanks_nil spells_kind blanks_nil
    (.lastMember blanks_nil hkey blanks_nil blanks_nil spells_name blanks_nil))
  simp only [List.nil_append, List.append_nil] at h
  exact h

theorem spells_escapedName : SpellsText "name" escapedName := by
  have hdigit : ∀ b : UInt8, 0x30 ≤ b ∧ b ≤ 0x39 → Json.Grammar.IsHexDigit b := fun b hb => .inl hb
  have hunit : Json.Spelling.SpellsUnit 'a'.toNat [0x30, 0x30, 0x36, 0x31] :=
    Json.Spelling.SpellsUnit.mk (a := 0x30) (b := 0x30) (c := 0x36) (d := 0x31) (hdigit _ (by decide))
      (hdigit _ (by decide)) (hdigit _ (by decide)) (hdigit _ (by decide))
  have hchars : SpellsChars "name".toList [0x6E, 0x5C, 0x75, 0x30, 0x30, 0x36, 0x31, 0x6D, 0x65] :=
    .cons (spellsChar_plain rfl) (.cons (.code hunit) (.cons (spellsChar_plain rfl)
      (.cons (spellsChar_plain rfl) .nil)))
  exact .mk hchars

theorem spells_marked {mark : Json} {t : Bytes} (hmark : Spells (.value mark) t) :
    Spells (.value (.object (markedMembers mark))) (markedText t) := by
  have hspace : Json.Grammar.Blanks [0x20] := by simp [Json.Grammar.Blanks]
  have hbreak : Json.Grammar.Blanks [0x0A] := by simp [Json.Grammar.Blanks]
  have hkey : SpellsText "mark" (quoted "mark") := spellsText_quoted (by decide +kernel)
  have h := Spells.object (.moreMembers blanks_nil spells_escapedName hspace blanks_nil spells_name blanks_nil
    (.moreMembers hbreak hkey blanks_nil hspace hmark blanks_nil
      (.lastMember blanks_nil spells_tag blanks_nil blanks_nil spells_kind blanks_nil)))
  simp only [List.nil_append, List.append_nil] at h
  exact h

/-- The schema knows two members of a record that starts a post-analysis. -/
theorem known_member {key : String} {known : Form}
    (h : (Form.ofRecord plainMembers).member? key = some known) :
    known = .plain ∧ (key = "objectType" ∨ key = "name") := by
  have hform : Form.ofRecord plainMembers = .tagged (.fields .postAnalysisStart) := rfl
  rw [hform, Form.member?] at h
  split at h
  · cases h
    exact ⟨rfl, .inl ‹_›⟩
  · rw [Form.member?, Structure.fields, Keyed.lookup_cons_eq] at h
    split at h
    · cases h
      exact ⟨rfl, .inr ‹_›⟩
    · cases h

theorem alike_marked (mark : Json) :
    Alike (.ofRecord plainMembers) (.object plainMembers) (.object (markedMembers mark)) := by
  have hkeys : (markedMembers mark).map (·.1) = ["name", "mark", "objectType"] := rfl
  refine .object (by decide) (by rw [hkeys]; decide) ?_ ?_
  · intro key known hknown
    obtain ⟨-, rfl | rfl⟩ := known_member hknown
    · rw [hkeys]
      decide
    · rw [hkeys]
      decide
  · intro key known v v' hknown hv hv'
    obtain ⟨rfl, rfl | rfl⟩ := known_member hknown
    · have hvalue : v = .string "postAnalysisStart" ∧ v' = .string "postAnalysisStart" := by
        simpa [plainMembers, markedMembers] using And.intro hv hv'
      rw [hvalue.1, hvalue.2]
      exact .scalar rfl
    · have hvalue : v = .string "ivc" ∧ v' = .string "ivc" := by
        simpa [plainMembers, markedMembers] using And.intro hv hv'
      rw [hvalue.1, hvalue.2]
      exact .scalar rfl

theorem extrasFit_plain : ExtrasFit Json.nestingLimit (.ofRecord plainMembers) (.object plainMembers) := by
  have hcases : ∀ {key : String} {v : Json}, (key, v) ∈ plainMembers →
      v.isScalar = true ∧ (Form.ofRecord plainMembers).member? key ≠ none := by
    intro key v hv
    obtain ⟨rfl, rfl⟩ | ⟨rfl, rfl⟩ :
        (key = "objectType" ∧ v = .string "postAnalysisStart") ∨ (key = "name" ∧ v = .string "ivc") := by
      simpa [plainMembers] using hv
    · exact ⟨rfl, by decide⟩
    · exact ⟨rfl, by decide⟩
  refine .object ?_ ?_
  · intro key known v _ hv
    exact .scalar (hcases hv).1
  · intro key v hform hv
    exact absurd hform (hcases hv).2

theorem extrasFit_marked {mark : Json} (h : Json.Fits (Json.nestingLimit - 1) mark) :
    ExtrasFit Json.nestingLimit (.ofRecord plainMembers) (.object (markedMembers mark)) := by
  have hcases : ∀ {key : String} {v : Json}, (key, v) ∈ markedMembers mark →
      (key = "mark" ∧ v = mark) ∨ (key ≠ "mark" ∧ v.isScalar = true ∧
        (Form.ofRecord plainMembers).member? key ≠ none) := by
    intro key v hv
    obtain ⟨rfl, rfl⟩ | ⟨rfl, rfl⟩ | ⟨rfl, rfl⟩ :
        (key = "name" ∧ v = .string "ivc") ∨ (key = "mark" ∧ v = mark) ∨
          (key = "objectType" ∧ v = .string "postAnalysisStart") := by
      simpa [markedMembers] using hv
    · exact .inr ⟨by decide, rfl, by decide⟩
    · exact .inl ⟨rfl, rfl⟩
    · exact .inr ⟨by decide, rfl, by decide⟩
  refine .object ?_ ?_
  · intro key known v hform hv
    obtain ⟨rfl, rfl⟩ | ⟨-, hscalar, -⟩ := hcases hv
    · have hunknown : (Form.ofRecord plainMembers).member? "mark" = none := by decide
      rw [hunknown] at hform
      cases hform
    · exact .scalar hscalar
  · intro key v hform hv
    obtain ⟨rfl, rfl⟩ | ⟨-, -, hknown⟩ := hcases hv
    · exact h
    · exact absurd hform hknown

theorem writes_single {members : List (String × Json)} {before text behind : Bytes} (hbefore : Separators before)
    (htext : Spells (.value (.object members)) text) (hbehind : Separators behind) :
    Writes [members] (before ++ text ++ behind) :=
  .record hbefore htext (.ended hbehind)

theorem spelling_irrelevant_marked :
    let output : Bytes := [0x5B] ++ plainText ++ [0x5D]
    let output' : Bytes := [] ++ markedText [0x5B, 0x6E, 0x75, 0x6C, 0x6C, 0x5D] ++ [0x0A]
    Writes [plainMembers] output ∧ Writes [markedMembers (.array [.null])] output' ∧
      List.Forall₂ SameContent [plainMembers] [markedMembers (.array [.null])] ∧
      ((∃ d, decodeOutput output = .ok d) ↔ ∃ d', decodeOutput output' = .ok d') ∧
      (decoded output).model = (decoded output').model ∧
      (decoded output).transcript = (decoded output').transcript := by
  intro output output'
  have hmark : Spells (.value (.array [.null])) [0x5B, 0x6E, 0x75, 0x6C, 0x6C, 0x5D] :=
    .array (.lastItem blanks_nil .null blanks_nil)
  have hone : ∀ b : UInt8, isSeparator b = true → Separators [b] := fun b hb c hc => List.mem_singleton.1 hc ▸ hb
  have hwrites : Writes [plainMembers] output := writes_single (hone _ rfl) spells_plain (hone _ rfl)
  have hwrites' : Writes [markedMembers (.array [.null])] output' :=
    writes_single separators_nil (spells_marked hmark) (hone _ rfl)
  have hsame : List.Forall₂ SameContent [plainMembers] [markedMembers (.array [.null])] :=
    .cons ⟨alike_marked _, extrasFit_plain, extrasFit_marked ⟨by decide, rfl⟩⟩ .nil
  exact ⟨hwrites, hwrites', hsame, spelling_irrelevant hwrites hwrites' hsame⟩

/-- Members that the schema does not know are read all the same: a number too large for a double makes the record one
that is not JSON, wherever it stands. -/
theorem oversized_mark_refused :
    let oversized : Bytes := [0x31, 0x65, 0x39, 0x39, 0x39]
    let members' := markedMembers (.number (.ofLiteral oversized))
    Writes [plainMembers] ([] ++ plainText ++ []) ∧ Writes [members'] ([] ++ markedText oversized ++ []) ∧
      Alike (.ofRecord plainMembers) (.object plainMembers) (.object members') ∧
      (Json.object members').depth ≤ Json.nestingLimit ∧
      (∃ d, decodeOutput ([] ++ plainText ++ []) = .ok d) ∧
      ¬∃ d, decodeOutput ([] ++ markedText oversized ++ []) = .ok d := by
  intro oversized members'
  have hnumeral : Json.Grammar.Numeral oversized := by
    have hwhole : Json.Grammar.Whole [0x31] := .digits ⟨by simp, by simp [Json.Grammar.IsDigit]⟩ (by simp)
    have hexponent : Json.Grammar.Exponent (0x65 :: [] ++ [0x39, 0x39, 0x39]) :=
      .digits (.inl rfl) (.inl rfl) ⟨by simp, by simp [Json.Grammar.IsDigit]⟩
    exact .mk (.inl rfl) hwhole .absent hexponent
  refine ⟨writes_single separators_nil spells_plain separators_nil,
    writes_single separators_nil (spells_marked (.number hnumeral)) separators_nil, alike_marked _, by decide, ?_, ?_⟩
  · rw [exists_decoded_iff]
    decide +kernel
  · rw [exists_decoded_iff]
    decide +kernel

end Decoder

end Verdicts
