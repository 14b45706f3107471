/-
Every output that can be decoded is UTF-8: separators are ASCII, and a record that can be read is UTF-8 as a whole. The
invariant is that a decoder which has not failed has read UTF-8 up to where the record begins that it is in.
-/
import Verdicts.Proofs.Json.Encoding
import Verdicts.Proofs.Stream.Chunking
import Verdicts.Proofs.Stream.Scanning

namespace Verdicts

open Utf8

theorem separator_ascii {b : UInt8} (h : isSeparator b = true) : b.toNat < 0x80 := by
  unfold isSeparator at h
  simp only [Bool.or_eq_true, beq_iff_eq] at h
  rcases h with ((((((rfl | rfl) | rfl) | rfl) | rfl) | rfl) | rfl) | rfl <;> decide

/-- The text of a record that can be read is UTF-8. -/
theorem Record.valid_of_read {text : Bytes} {record : Record} (h : read text = .ok record) : Valid text := by
  unfold read at h
  split at h
  · cases h
  · rename_i r hrun
    split at h
    · rename_i members hfinished
      exact Json.Reader.valid_of_run hrun hfinished
    · cases h
    · cases h

namespace Decoder

/-- What is UTF-8 of the bytes that a decoder has read. -/
def Encoded (t : Bytes) (d : Decoder) : Prop :=
  match d.scanner.state with
  | .between => Valid t
  | .inside _ _ _ taken => ∃ front, t = front ++ taken.reverse ∧ Valid front

/-- A record is taken in only if its text is UTF-8. -/
theorem valid_of_take {i i' : Intake} {raw : RawRecord} (h : take i raw = (i', none)) : Valid raw.text := by
  unfold take at h
  split at h
  · cases h
  · exact Record.valid_of_read ‹_›

theorem Encoded.step {t : Bytes} {d d' : Decoder} {b : UInt8} (h : Encoded t d) (hstep : d.step b = (d', none)) :
    Encoded (t ++ [b]) d' := by
  obtain ⟨⟨offset, state⟩, i, aborted⟩ := d
  unfold Decoder.step at hstep
  cases state with
  | between =>
    by_cases hbrace : b = 0x7B
    · subst hbrace
      rw [Scanner.step_brace] at hstep
      cases hstep
      exact ⟨t, rfl, h⟩
    · by_cases hseparator : isSeparator b = true
      · rw [Scanner.step_separator hseparator] at hstep
        cases hstep
        exact h.append (valid_ascii (separator_ascii hseparator))
      · have hnone : Scanner.step ⟨offset, .between⟩ b = none :=
          (Scanner.step_eq_none_iff _ _).2 ⟨rfl, hbrace, Bool.not_eq_true _ ▸ hseparator⟩
        rw [hnone] at hstep
        cases hstep
  | inside start depth lexical taken =>
    obtain ⟨front, hfront, hvalid⟩ := h
    have hfront' : t ++ [b] = front ++ (b :: taken).reverse := by
      rw [hfront, List.reverse_cons, List.append_assoc]
    rcases Scanner.inner_cases start depth lexical taken b with ⟨depth', lexical', hinner⟩ | hinner
    · rw [Scanner.step_inside hinner] at hstep
      cases hstep
      exact ⟨front, hfront', hvalid⟩
    · rw [Scanner.step_inside hinner] at hstep
      simp only at hstep
      rcases htake : take i ⟨start, (b :: taken).reverse⟩ with ⟨i', _ | e⟩
      · rw [htake] at hstep
        cases hstep
        rw [hfront']
        exact hvalid.append (valid_of_take htake)
      · rw [htake] at hstep
        cases hstep

theorem Encoded.run {t u : Bytes} {d d' : Decoder} (h : Encoded t d) (hrun : d.run u = (d', none)) :
    Encoded (t ++ u) d' := by
  induction u generalizing t d with
  | nil =>
    cases hrun
    rw [List.append_nil]
    exact h
  | cons b u ih =>
    rcases hstep : d.step b with ⟨d₁, _ | e⟩
    · rw [run_cons_none hstep] at hrun
      rw [← List.singleton_append, ← List.append_assoc]
      exact ih (h.step hstep) hrun
    · rw [run_cons_some hstep] at hrun
      cases hrun

/-- An output that can be decoded to its end is UTF-8. -/
theorem valid_of_decodeOutput {output : Bytes} {d : Decoder} (h : decodeOutput output = .ok d) : Valid output := by
  rw [decodeOutput_eq, complete] at h
  rcases hrun : run {} output with ⟨d', _ | e⟩
  · have hencoded : Encoded ([] ++ output) d' := Encoded.run (show Encoded [] {} from rfl) hrun
    have hlive := run_aborted (d := {}) rfl output
    rw [hrun] at h hlive
    obtain ⟨⟨offset, state⟩, i, aborted⟩ := d'
    cases hlive
    cases state with
    | between => exact hencoded
    | inside start depth lexical taken => cases h
  · rw [hrun] at h
    cases h

end Decoder

end Verdicts
