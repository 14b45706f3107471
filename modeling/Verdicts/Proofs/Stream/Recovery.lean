/-
What is left of an output that cannot be decoded. In front of the record or byte at which decoding
fails stands a part that is fed without failure. What that part tells is kept, and nothing is added to
it, except that a record which was read and then refused is counted.

`Failure` lists the ways to fail. `exists_failure` finds the one that an output ends in, by induction on
its length, one record after the other, and `Failure.leaves` says what each of them leaves.
-/
import Verdicts.Proofs.Stream.Admission
import Verdicts.Proofs.Stream.Chunking
import Verdicts.Proofs.Stream.Scanning

namespace Verdicts

namespace Decoder

open Scanner Intake

/-! ## Between two records -/

/-- A decoder between two records, at an offset. -/
def waiting (i : Intake) (offset : Nat) : Decoder := { scanner := ⟨offset, .between⟩, intake := i }

/-- A decoder that has not failed and is at depth zero is one between two records. -/
theorem eq_waiting {d : Decoder} {offset : Nat} (hd : d.aborted = false) (hdepth : d.scanner.depth = 0)
    (hoffset : d.scanner.offset = offset) : d = waiting d.intake offset := by
  obtain ⟨⟨offset', state⟩, i, aborted⟩ := d
  cases hd
  cases hoffset
  cases state with
  | between => rfl
  | inside => cases hdepth

/-- `Complete offset text`: the text of a record that begins at `offset` is complete at its last byte. -/
def Complete (offset : Nat) (text : Bytes) : Prop :=
  next ⟨offset, .between⟩ text = .found ⟨offset + text.length, .between⟩ ⟨offset, text⟩ []

/-- Separators change nothing but the offset. -/
theorem run_separators (i : Intake) (offset : Nat) {gap : Bytes} (hgap : Separators gap) :
    (waiting i offset).run gap = (waiting i (offset + gap.length), none) := by
  rw [run_eq_next, waiting, next_separators hgap]
  rfl

/-- Decoding goes on behind a record exactly if it is taken in. -/
theorem run_record {i : Intake} {offset : Nat} {text : Bytes} (h : Complete offset text) (rest : Bytes) :
    (waiting i offset).run (text ++ rest) =
      match take i ⟨offset, text⟩ with
      | (i, none) => (waiting i (offset + text.length)).run rest
      | (i, some e) => ({ waiting i (offset + text.length) with aborted := true }, some e) := by
  rw [run_eq_next, waiting, next_append_of_found h]
  rfl

theorem complete_taken {i i' : Intake} {offset : Nat} {text : Bytes} (h : Complete offset text)
    (htake : take i ⟨offset, text⟩ = (i', none)) (rest : Bytes) :
    (waiting i offset).complete (text ++ rest) = (waiting i' (offset + text.length)).complete rest := by
  rw [complete, run_record h, htake]
  rfl

theorem complete_refused {i i' : Intake} {offset : Nat} {text : Bytes} {e : DecodeError}
    (h : Complete offset text) (htake : take i ⟨offset, text⟩ = (i', some e)) (rest : Bytes) :
    (waiting i offset).complete (text ++ rest) =
      ({ waiting i' (offset + text.length) with aborted := true }, some e) := by
  rw [complete, run_record h, htake]

/-! ## The ways to fail -/

/-- `Failure i offset t e decoded`: where a decoder stands between two records at `offset` and knows `i`,
`t` begins with what fails with `e`. `decoded` says whether that is a record that was read. -/
inductive Failure (i : Intake) (offset : Nat) : Bytes → DecodeError → Bool → Prop
  /-- A record is not JSON of its schema. -/
  | undecodable {text rest : Bytes} {fault : RecordFault} : Complete offset text →
      Record.read text = .error fault → Failure i offset (text ++ rest) (.malformed offset fault) false
  | outOfOrder {text rest : Bytes} {r : Record} {fault : OrderFault} : Complete offset text →
      Record.read text = .ok r → (i.count.accept offset r).2 = some (.outOfOrder r.kind offset fault) →
      Failure i offset (text ++ rest) (.outOfOrder r.kind offset fault) true
  /-- The origin of a property or the answer on it is not spelt as any that is known. -/
  | unknownValue {text rest : Bytes} {r : Record} {field : SpelledField} {value : String} :
      Complete offset text → Record.read text = .ok r →
      (i.count.accept offset r).2 = some (.unknownValue field value offset) →
      Failure i offset (text ++ rest) (.unknownValue field value offset) true
  | stray {b : UInt8} {rest : Bytes} : b ≠ 0x7B → isSeparator b = false →
      Failure i offset (b :: rest) (.unexpectedByte offset b) false
  /-- The output ends inside a record. -/
  | unterminated {inside : Bytes} {s : Scanner} : next ⟨offset, .between⟩ (0x7B :: inside) = .exhausted s →
      s.pending? = some offset → Failure i offset (0x7B :: inside) (.unterminated offset) false

/-- A record that is read and refused fails in one of two ways. -/
theorem Failure.of_refused {i : Intake} (hs : i.Sound) {offset : Nat} {text : Bytes} {r : Record}
    {e : DecodeError} (htext : Complete offset text) (hread : Record.read text = .ok r)
    (haccept : (i.count.accept offset r).2 = some e) (rest : Bytes) :
    Failure i offset (text ++ rest) e true := by
  have hhandled := accept_handled hs.count offset r
  rw [haccept] at hhandled
  obtain ⟨-, -, ⟨fault, rfl⟩ | ⟨field, value, rfl⟩⟩ := hhandled.refused
  · exact .outOfOrder htext hread haccept
  · exact .unknownValue htext hread haccept

/-! ## What a failure leaves -/

/-- `Left d p decoded`: what a decoder `d` knows is what `p` knows, except that it counts one more record
if `decoded` says so. -/
structure Left (d p : Decoder) (decoded : Bool) : Prop where
  model : d.model = p.model
  transcript : d.transcript = { p.transcript with records := p.transcript.records + decoded.toNat }

/-- A record that is read and refused is counted and changes nothing else. -/
theorem left_of_refused {i : Intake} (hs : i.Sound) {offset : Nat} {text : Bytes} {r : Record}
    {e : DecodeError} (htext : Complete offset text) (hread : Record.read text = .ok r)
    (haccept : (i.count.accept offset r).2 = some e) (rest : Bytes) :
    ((waiting i offset).complete (text ++ rest)).2 = some e ∧
      Left ((waiting i offset).complete (text ++ rest)).1 (waiting i offset) true := by
  have hhandled := accept_handled hs.count offset r
  have htake : take i ⟨offset, text⟩ = i.count.accept offset r := by rw [take, hread]
  rcases h : i.count.accept offset r with ⟨i', refusal⟩
  rw [h] at haccept hhandled htake
  cases haccept
  obtain ⟨hmodel, htranscript, -⟩ := hhandled.refused
  rw [complete_refused htext htake]
  exact ⟨rfl, hmodel, htranscript⟩

/-- Behind a failure the model is what it was before, and so is the transcript, except that a record
that was read is counted. -/
theorem Failure.left {i : Intake} (hs : i.Sound) {offset : Nat} {t : Bytes} {e : DecodeError} {decoded : Bool}
    (h : Failure i offset t e decoded) :
    ((waiting i offset).complete t).2 = some e ∧
      Left ((waiting i offset).complete t).1 (waiting i offset) decoded := by
  cases h with
  | @undecodable text rest fault htext hread =>
    have htake : take i ⟨offset, text⟩ = (i, some (.malformed offset fault)) := by rw [take, hread]
    rw [complete_refused htext htake]
    exact ⟨rfl, rfl, rfl⟩
  | outOfOrder htext hread haccept => exact left_of_refused hs htext hread haccept _
  | unknownValue htext hread haccept => exact left_of_refused hs htext hread haccept _
  | @stray b rest hbrace hb =>
    have hstep : Scanner.step ⟨offset, .between⟩ b = none := (step_eq_none_iff _ _).2 ⟨rfl, hbrace, hb⟩
    rw [complete, run_eq_next, waiting, next_cons_none hstep]
    exact ⟨rfl, rfl, rfl⟩
  | @unterminated inside s hnext hpending =>
    rw [complete, run_eq_next, waiting, hnext]
    simp only [finish, hpending, Bool.false_eq_true, if_false]
    exact ⟨trivial, rfl, rfl⟩

/-- A failure is the one that completing the output comes to. -/
theorem Failure.unique {i : Intake} (hs : i.Sound) {offset : Nat} {t : Bytes} {e e' : DecodeError}
    {decoded : Bool} (h : Failure i offset t e' decoded) (he : ((waiting i offset).complete t).2 = some e) :
    Failure i offset t e decoded := by
  have hsame : some e' = some e := (h.left hs).1.symm.trans he
  cases hsame
  exact h

/-! ## Where an output fails -/

/-- An output that cannot be completed has a failure in it, and what stands in front of the failure is
fed without one. -/
theorem exists_failure {i : Intake} (hs : i.Sound) {offset : Nat} {t : Bytes} {e : DecodeError}
    (h : ((waiting i offset).complete t).2 = some e) :
    ∃ before rest i' decoded, t = before ++ rest ∧
      (waiting i offset).run before = (waiting i' (offset + before.length), none) ∧
      i'.Sound ∧ Failure i' (offset + before.length) rest e decoded := by
  induction hn : t.length using Nat.strongRecOn generalizing i t offset with
  | _ n ih =>
    have hfront := next_front t offset
    generalize hnext : next ⟨offset, .between⟩ t = found at hfront
    cases hfront with
    | separators hgap =>
      rw [complete, run_separators i offset hgap] at h
      cases h
    | @pending gap inside d lexical hgap =>
      have hrun := run_separators i offset hgap
      rw [complete_append hrun] at h
      rw [next_append_of_exhausted (next_separators hgap offset)] at hnext
      exact ⟨gap, _, i, false, rfl, hrun, hs, Failure.unique hs (.unterminated hnext rfl) h⟩
    | @stray gap rest b hgap hbrace hb =>
      have hrun := run_separators i offset hgap
      rw [complete_append hrun] at h
      exact ⟨gap, _, i, false, rfl, hrun, hs, Failure.unique hs (.stray hbrace hb) h⟩
    | @record gap text rest hgap htext =>
      have hrun := run_separators i offset hgap
      rw [List.append_assoc, next_append_of_exhausted (next_separators hgap offset)] at hnext
      have hcomplete : Complete (offset + gap.length) text := next_found_alone hnext
      rw [List.append_assoc, complete_append hrun] at h
      have hi := take_sound hs ⟨offset + gap.length, text⟩
      rcases take_cases hs ⟨offset + gap.length, text⟩ with ⟨fault, hread, -⟩ | ⟨r, hread, htake, -⟩
      · exact ⟨gap, _, i, false, List.append_assoc _ _ _, hrun, hs,
          Failure.unique hs (.undecodable hcomplete hread) h⟩
      · rcases htaken : take i ⟨offset + gap.length, text⟩ with ⟨i', _ | e'⟩
        · -- the record is taken in, so the failure is in what stands behind it
          rw [htaken] at hi
          rw [complete_taken hcomplete htaken] at h
          have hlength : rest.length < n := by
            have hlt := next_found_length hnext
            rw [← hn, List.append_assoc, List.length_append]
            omega
          obtain ⟨before, rest', i'', decoded, rfl, hbefore, hs'', hfailure⟩ := ih rest.length hlength hi h rfl
          have hoffset : offset + gap.length + text.length + before.length =
              offset + (gap ++ text ++ before).length := by
            rw [List.length_append, List.length_append, Nat.add_assoc, Nat.add_assoc, Nat.add_assoc]
          rw [hoffset] at hbefore hfailure
          have hrun' : (waiting i offset).run (gap ++ text ++ before) =
              (waiting i'' (offset + (gap ++ text ++ before).length), none) := by
            rw [← hbefore, List.append_assoc, run_append, hrun]
            simp only [run_record hcomplete, htaken]
          exact ⟨gap ++ text ++ before, rest', i'', decoded, (List.append_assoc _ _ _).symm, hrun', hs'',
            hfailure⟩
        · have haccept : (i.count.accept (offset + gap.length) r).2 = some e' := by rw [← htake, htaken]
          exact ⟨gap, _, i, true, List.append_assoc _ _ _, hrun, hs,
            Failure.unique hs (.of_refused hs hcomplete hread haccept rest) h⟩

/-! ## Partial results -/

/-- An output on which decoding fails, however it is cut into chunks, begins with a part that is fed
without failure and ends between two records; what stands behind that part is the failure. The model
left is that of the part alone, and so is the transcript, except that one more record is counted if the
failing record was read. No later call changes the decoder, and each answers that decoding was aborted. -/
theorem partial_result {chunks : List Bytes} {e : DecodeError}
    (h : firstFailure (calls {} (chunks.map .feed ++ [.finish])).2 = some e) :
    ∃ before rest i decoded, chunks.flatten = before ++ rest ∧
      feed {} before = (waiting i before.length, none) ∧ Failure i before.length rest e decoded ∧
      Left (calls {} (chunks.map .feed ++ [.finish])).1 (feed {} before).1 decoded ∧
      ∀ ds, (calls {} (chunks.map .feed ++ [.finish])).1.calls ds =
        ((calls {} (chunks.map .feed ++ [.finish])).1, List.replicate ds.length (some .aborted)) := by
  obtain ⟨hstate, hfailure⟩ := calls_flatten {} chunks
  obtain ⟨hcomplete, hanswer⟩ := calls_complete (d := {}) rfl chunks.flatten
  have hlater := calls_behind_failure h
  rw [hfailure, hanswer] at h
  obtain ⟨before, rest, i, decoded, hsplit, hrun, hs, hf⟩ := @exists_failure {} empty_sound 0 _ _ h
  rw [Nat.zero_add] at hrun hf
  have hfeed : feed {} before = (waiting i before.length, none) := (feed_of_live rfl before).trans hrun
  have hsame : complete {} (before ++ rest) = (waiting i before.length).complete rest :=
    complete_append hrun rest
  refine ⟨before, rest, i, decoded, hsplit, hfeed, hf, ?_, hlater⟩
  rw [hstate, hcomplete, hsplit, hsame, hfeed]
  exact (hf.left hs).2

/-- An analysis with two properties. The first is answered; the answer on the second is misspelt. One chunk ends inside
the record of the first, the next inside that of the second, and the output goes on behind it. -/
def misspeltAnswer : List Bytes :=
  [("[\x7b\"objectType\":\"analysisStart\",\"top\":\"A\"\x7d," ++
      "\x7b\"objectType\":\"property\",\"name\":\"p\",\"sou").toUTF8.toList,
    ("rce\":\"Guarantee\",\"answer\":\x7b\"value\":\"valid\"\x7d\x7d," ++
      "\x7b\"objectType\":\"property\",\"name\":\"q\",").toUTF8.toList,
    ("\"source\":\"Guarantee\",\"answer\":\x7b\"value\":\"maybe\"\x7d\x7d," ++
      "\x7b\"objectType\":\"analysisStop\"\x7d]").toUTF8.toList]

/-- The analysis and the first of its properties are kept, and the record with the misspelt answer is counted. -/
theorem partial_result_of_misspeltAnswer :
    let called := calls {} (misspeltAnswer.map .feed ++ [.finish])
    let e : DecodeError := .unknownValue .answer "maybe" 127
    firstFailure called.2 = some e ∧ called.1.model.finalVerdicts = [("A", "p", .valid)] ∧
      called.1.transcript.records = 3 ∧
      ∃ before rest i decoded, misspeltAnswer.flatten = before ++ rest ∧
        feed {} before = (waiting i before.length, none) ∧ Failure i before.length rest e decoded ∧
        Left called.1 (feed {} before).1 decoded ∧
        ∀ ds, called.1.calls ds = (called.1, List.replicate ds.length (some .aborted)) := by
  intro called e
  have h : firstFailure called.2 = some e := by decide +kernel
  exact ⟨h, by decide +kernel, by decide +kernel, partial_result h⟩

end Decoder

end Verdicts
