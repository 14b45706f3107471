/-
Decoding an output that was read as text and written again. Bytes that are not ASCII decide nothing about where
records begin and end, and what stands in front of the failure of an output is UTF-8. So the rewritten output fails
where the output does and in the same way, unless the record that could not be read can be read once it is rewritten
(`Mended`). Main statement: `decode_rewritten`.

The scanners of both outputs are related by `SamePlace`; `next_masked` carries it from one run of bytes to the next.
-/
import Verdicts.Proofs.Stream.Encoding
import Verdicts.Proofs.Stream.Recovery
import Verdicts.Proofs.Text.Replacing
import Mathlib.Data.List.Basic

namespace Verdicts

open Utf8

/-- An error is the same as another, but for what is wrong with a record that is not JSON of its schema and for the
byte that stands where none may stand. -/
inductive DecodeError.Matches : DecodeError → DecodeError → Prop
  | same (e : DecodeError) : Matches e e
  | malformed (offset : Nat) (fault fault' : RecordFault) : Matches (.malformed offset fault) (.malformed offset fault')
  | unexpectedByte (offset : Nat) (b b' : UInt8) : Matches (.unexpectedByte offset b) (.unexpectedByte offset b')

namespace Scanner

/-! ## Bytes that are not ASCII -/

/-- The bytes that a scanner looks for are ASCII. -/
theorem inner_high {b : UInt8} (hb : High b) (start d : Nat) (lexical : Lexical) (taken : Bytes) :
    inner start d lexical taken b =
      (.inside start d (if lexical = .escape then .string else lexical) (b :: taken), none) := by
  have hne : ∀ c : UInt8, c.toNat < 0x80 → b ≠ c := by
    rintro c hc rfl
    exact absurd hb (Nat.not_le.2 hc)
  unfold inner
  cases lexical with
  | escape => rfl
  | string => simp [hne 0x5C (by decide), hne 0x22 (by decide)]
  | code =>
    simp [hne 0x22 (by decide), hne 0x7B (by decide), hne 0x5B (by decide), hne 0x7D (by decide),
      hne 0x5D (by decide)]

/-- A run of bytes that are not ASCII leaves a scanner at its place in the record, behind an escape that it ends. -/
theorem next_high {xs : Bytes} (hxs : xs ≠ []) (hhigh : ∀ x ∈ xs, High x) (offset start d : Nat)
    (lexical : Lexical) (taken : Bytes) :
    ∃ offset' taken', next ⟨offset, .inside start d lexical taken⟩ xs =
      .exhausted ⟨offset', .inside start d (if lexical = .escape then .string else lexical) taken'⟩ := by
  induction xs generalizing offset lexical taken with
  | nil => exact absurd rfl hxs
  | cons x xs ih =>
    obtain ⟨hx, hrest⟩ := List.forall_mem_cons.1 hhigh
    rw [next_cons_quiet (step_inside (inner_high hx start d lexical taken) offset)]
    by_cases hnil : xs = []
    · exact ⟨_, _, by rw [hnil, next_nil]⟩
    · obtain ⟨offset', taken', h⟩ := ih hnil hrest (offset + 1)
        (if lexical = .escape then .string else lexical) (x :: taken)
      refine ⟨offset', taken', h.trans ?_⟩
      cases lexical <;> rfl

/-- Two scanners are at one place in the structure of one record, whatever bytes they have taken. -/
inductive SamePlace : Scanner → Scanner → Prop
  | inside {offset offset' start d : Nat} {lexical : Lexical} {taken taken' : Bytes} :
      SamePlace ⟨offset, .inside start d lexical taken⟩ ⟨offset', .inside start d lexical taken'⟩

/-- From one place in a record, masked bytes lead to one place, or complete the record with the same rest. -/
theorem next_masked {t u : Bytes} (h : Masked t u) {s s' : Scanner} (hs : SamePlace s s') :
    (∃ s₁ s₁', s.next t = .exhausted s₁ ∧ s'.next u = .exhausted s₁' ∧ SamePlace s₁ s₁') ∨
      ∃ s₁ s₁' record record' rest rest', s.next t = .found s₁ record rest ∧
        s'.next u = .found s₁' record' rest' ∧ Masked rest rest' := by
  induction h generalizing s s' with
  | nil => exact .inl ⟨s, s', rfl, rfl, hs⟩
  | @ascii b t u hb hrest ih =>
    obtain ⟨⟩ := hs
    rename_i offset offset' start d lexical taken taken'
    rcases inner_settled start d lexical b with ⟨d', lexical', h⟩ | h
    · rw [next_cons_quiet (step_inside (h taken) offset), next_cons_quiet (step_inside (h taken') offset')]
      exact ih .inside
    · rw [next_cons_found (step_inside (h taken) offset), next_cons_found (step_inside (h taken') offset')]
      exact .inr ⟨_, _, _, _, _, _, rfl, rfl, hrest⟩
  | @run xs ys t u hxs hys hhigh hhigh' hrest ih =>
    obtain ⟨⟩ := hs
    rename_i offset offset' start d lexical taken taken'
    obtain ⟨o, k, h⟩ := next_high hxs hhigh offset start d lexical taken
    obtain ⟨o', k', h'⟩ := next_high hys hhigh' offset' start d lexical taken'
    rw [next_append_of_exhausted h, next_append_of_exhausted h']
    exact ih .inside

/-- So do masked bytes behind the opening brace of a record. -/
theorem next_brace_masked {t u : Bytes} (h : Masked t u) (offset : Nat) :
    (∃ s s', next ⟨offset, .between⟩ (0x7B :: t) = .exhausted s ∧ next ⟨offset, .between⟩ (0x7B :: u) = .exhausted s' ∧
        SamePlace s s') ∨
      ∃ s s' record record' rest rest', next ⟨offset, .between⟩ (0x7B :: t) = .found s record rest ∧
        next ⟨offset, .between⟩ (0x7B :: u) = .found s' record' rest' ∧ Masked rest rest' := by
  rw [next_cons_quiet (step_brace offset), next_cons_quiet (step_brace offset)]
  exact next_masked h .inside

end Scanner

namespace Decoder

open Scanner Intake

/-! ## Records -/

theorem Complete.exists_brace {offset : Nat} {text : Bytes} (h : Complete offset text) :
    ∃ inside, text = 0x7B :: inside := by
  have hfront := next_front text offset
  rw [show next ⟨offset, .between⟩ text = _ from h] at hfront
  generalize hfound : Next.found ⟨offset + text.length, .between⟩ ⟨offset, text⟩ [] = found at hfront
  generalize ht : text = t at hfront
  cases hfront with
  | @record gap record rest _ hhead =>
    obtain ⟨-, hrecord, -⟩ := Next.found.inj hfound
    obtain ⟨-, hsame⟩ := RawRecord.mk.inj hrecord
    rw [← ht, hsame]
    exact ⟨_, List.eq_cons_of_mem_head? hhead⟩
  | _ => cases hfound

theorem Complete.exists_last {offset : Nat} {text : Bytes} (h : Complete offset text) :
    ∃ front b, text = front ++ [b] ∧ b.toNat < 0x80 := by
  rcases List.eq_nil_or_concat' text with rfl | ⟨front, b, rfl⟩
  · cases h
  · -- any other byte than an ASCII one is refused or goes on with the record, and completes none
    refine ⟨front, b, rfl, Nat.lt_of_not_le fun hb => ?_⟩
    obtain ⟨s, hs⟩ := next_of_prefix h (List.prefix_append front [b]) (by simp)
    rw [Complete, next_append_of_exhausted hs] at h
    obtain ⟨offset', state⟩ := s
    cases state with
    | between =>
      by_cases hseparator : isSeparator b = true
      · rw [next_cons_quiet (step_separator hseparator offset')] at h
        cases h
      · have hbrace : b ≠ 0x7B := by
          rintro rfl
          exact absurd hb (by decide)
        rw [next_cons_none ((step_eq_none_iff _ b).2 ⟨rfl, hbrace, Bool.not_eq_true _ ▸ hseparator⟩)] at h
        cases h
    | inside start d lexical taken =>
      rw [next_cons_quiet (step_inside (inner_high hb start d lexical taken) offset')] at h
      cases h

theorem complete_of_found {offset : Nat} {inside : Bytes} {s : Scanner} {record : RawRecord}
    (h : next ⟨offset, .between⟩ (0x7B :: inside) = .found s record []) : Complete offset (0x7B :: inside) := by
  have hstep := next_cons_quiet (step_brace offset) inside
  rcases next_inside inside (offset + 1) offset 0 .code [0x7B] with ⟨d, lexical, hnext⟩ | ⟨text, rest, rfl, hnext⟩
  · rw [hstep, hnext] at h
    cases h
  · rw [hstep, hnext] at h
    obtain ⟨-, -, rfl⟩ := Next.found.inj h
    rw [Complete, hstep, hnext, List.append_nil, List.length_cons]
    simp [Nat.add_assoc, Nat.add_comm 1]

/-- The masked text of a record is that of a record. -/
theorem Complete.masked {offset : Nat} {text text' : Bytes} (h : Complete offset text) (hmasked : Masked text text') :
    Complete offset text' := by
  obtain ⟨inside, rfl⟩ := h.exists_brace
  obtain ⟨inside', rfl, hinside⟩ := hmasked.cons_ascii (by decide)
  rcases next_brace_masked hinside offset with
    ⟨s, s', hs, -, -⟩ | ⟨s, s', record, record', rest, rest', hs, hs', hrest⟩
  · cases hs.symm.trans h
  · obtain ⟨-, -, rfl⟩ := Next.found.inj (hs.symm.trans h)
    obtain rfl := hrest.eq_nil
    exact complete_of_found hs'

theorem rewritten_record {offset : Nat} {text : Bytes} (h : Complete offset text) (rest : Bytes) :
    rewritten (text ++ rest) = rewritten text ++ rewritten rest := by
  obtain ⟨front, b, rfl, hb⟩ := h.exists_last
  have hlast : rewritten (front ++ [b]) = rewritten front ++ [b] := rewritten_append_ascii hb front []
  rw [List.append_assoc, List.singleton_append, rewritten_append_ascii hb, hlast, List.append_assoc,
    List.singleton_append]

/-! ## Failures -/

/-- `Mends offset text`: a record that cannot be read as it is and can be once it is rewritten. -/
structure Mends (offset : Nat) (text : Bytes) : Prop where
  complete : Complete offset text
  unreadable : ∃ fault, Record.read text = .error fault
  readable : ∃ r, Record.read (rewritten text) = .ok r

/-- In a rewritten output a failure stays what it is, unless it is that of a record that is mended. -/
theorem Failure.rewritten {i : Intake} {offset : Nat} {t : Bytes} {e : DecodeError} {decoded : Bool}
    (h : Failure i offset t e decoded) :
    (∃ e', Failure i offset (rewritten t) e' decoded ∧ e'.Matches e) ∨
      ∃ text rest, t = text ++ rest ∧ Mends offset text := by
  cases h with
  | @undecodable text rest fault htext hread =>
    rcases hreread : Record.read (Utf8.rewritten text) with fault' | r
    · -- the record keeps its end, and still cannot be read
      left
      rw [rewritten_record htext]
      exact ⟨_, .undecodable (htext.masked (masked_rewritten text)) hreread, .malformed offset fault' fault⟩
    · exact .inr ⟨text, rest, rfl, htext, ⟨fault, hread⟩, ⟨r, hreread⟩⟩
  | @outOfOrder text rest r fault htext hread haccept =>
    left
    rw [(Record.valid_of_read hread).rewritten_append]
    exact ⟨_, .outOfOrder htext hread haccept, .same _⟩
  | @unknownValue text rest r field value htext hread haccept =>
    left
    rw [(Record.valid_of_read hread).rewritten_append]
    exact ⟨_, .unknownValue htext hread haccept, .same _⟩
  | @stray b rest hbrace hb =>
    left
    obtain ⟨y, rest', hrest, hy⟩ := (masked_rewritten (b :: rest)).exists_head
    rw [hrest]
    rcases hy with rfl | ⟨-, hhigh⟩
    · exact ⟨_, .stray hbrace hb, .same _⟩
    · have hbrace' : y ≠ 0x7B := by
        rintro rfl
        exact absurd hhigh (by decide)
      have hy' : isSeparator y = false :=
        Bool.eq_false_iff.2 fun h => absurd (separator_ascii h) (Nat.not_lt.2 hhigh)
      exact ⟨_, .stray hbrace' hy', .unexpectedByte offset y b⟩
  | @unterminated inside s hnext hpending =>
    left
    have hbrace : Utf8.rewritten (0x7B :: inside) = 0x7B :: Utf8.rewritten inside :=
      (valid_ascii (b := 0x7B) (by decide)).rewritten_append inside
    rw [hbrace]
    rcases next_brace_masked (masked_rewritten inside) offset with
      ⟨s₁, s', hs₁, hs', hplace⟩ | ⟨s₁, s', record, record', rest, rest', hs₁, -, -⟩
    · cases hs₁.symm.trans hnext
      have hpending' : s'.pending? = some offset := by
        cases hplace
        exact hpending
      exact ⟨_, .unterminated hs' hpending', .same _⟩
    · cases hs₁.symm.trans hnext

theorem Failure.of_malformed {i : Intake} {offset place : Nat} {t : Bytes} {fault : RecordFault} {decoded : Bool}
    (h : Failure i offset t (.malformed place fault) decoded) : place = offset ∧ decoded = false := by
  cases h
  exact ⟨rfl, rfl⟩

/-- A record that is mended is not malformed any more, nor does anything that begins behind it stand where it
stands. -/
theorem Mends.not_malformed {i : Intake} (hs : i.Sound) {offset : Nat} {text : Bytes} (h : Mends offset text)
    (rest : Bytes) (fault : RecordFault) :
    ((waiting i offset).complete (rewritten text ++ rest)).2 ≠ some (.malformed offset fault) := by
  intro hfailed
  have htext : Complete offset (rewritten text) := h.complete.masked (masked_rewritten text)
  obtain ⟨r, hread⟩ := h.readable
  have htake : take i ⟨offset, rewritten text⟩ = i.count.accept offset r := by rw [take, hread]
  rcases haccept : i.count.accept offset r with ⟨i', _ | e⟩
  · -- the record is taken in, and it is not empty, so a later one begins at another byte
    rw [haccept] at htake
    have hs' : i'.Sound := by
      have hsound := take_sound hs ⟨offset, rewritten text⟩
      rwa [htake] at hsound
    rw [complete_taken htext htake] at hfailed
    obtain ⟨before, rest', i'', decoded, -, -, -, hfailure⟩ := exists_failure hs' hfailed
    obtain ⟨inside, hinside⟩ := htext.exists_brace
    have hoffset := hfailure.of_malformed.1
    rw [hinside, List.length_cons] at hoffset
    omega
  · have hrefused : Failure i offset (rewritten text ++ rest) e true :=
      .of_refused hs htext hread (by rw [haccept]) rest
    cases (hrefused.unique hs hfailed).of_malformed.2

/-! ## Outputs -/

/-- The output fails at a record that cannot be read as it is and can be once it is rewritten. -/
def Mended (raw : Bytes) : Prop :=
  ∃ before text rest i, raw = before ++ (text ++ rest) ∧ feed {} before = (waiting i before.length, none) ∧
    Mends before.length text

theorem valid_of_feed {i : Intake} {offset : Nat} {before : Bytes} (h : feed {} before = (waiting i offset, none)) :
    Valid before := by
  rw [feed_of_live rfl] at h
  exact Encoded.run (show Encoded [] {} from rfl) h

/-- An output that is mended fails as malformed at the record, and once it is rewritten it does not. -/
theorem Mended.not_matches {raw : Bytes} {e e' : DecodeError} {d d' : Decoder} (hmended : Mended raw)
    (h : decodeOutput raw = .error ⟨e, d⟩) (hagain : decodeOutput (rewritten raw) = .error ⟨e', d'⟩) :
    ¬e'.Matches e := by
  obtain ⟨before, text, rest, i, rfl, hbefore, hmends⟩ := hmended
  have hrun : run {} before = (waiting i before.length, none) := (feed_of_live rfl before).symm.trans hbefore
  have hs : i.Sound := by
    have hsound := run_sound (d := {}) empty_sound before
    rwa [hrun] at hsound
  obtain ⟨fault, hread⟩ := hmends.unreadable
  have hfailure : Failure i before.length (text ++ rest) (.malformed before.length fault) false :=
    .undecodable hmends.complete hread
  have hfailed := (hfailure.left hs).1
  rw [← complete_append hrun, decodeOutput_eq_error_iff.1 h] at hfailed
  cases hfailed
  rw [decodeOutput_eq_error_iff, (valid_of_feed hbefore).rewritten_append, complete_append hrun,
    rewritten_record hmends.complete] at hagain
  have hnot := hmends.not_malformed hs (rewritten rest)
  rw [hagain] at hnot
  intro hmatches
  cases hmatches with
  | same => exact hnot _ rfl
  | malformed _ fault' => exact hnot _ rfl

theorem exists_matches {raw : Bytes} {e : DecodeError} {d : Decoder} (h : decodeOutput raw = .error ⟨e, d⟩)
    (hmended : ¬Mended raw) :
    ∃ e' d', decodeOutput (rewritten raw) = .error ⟨e', d'⟩ ∧ e'.Matches e ∧ d'.model = d.model := by
  have hcomplete := decodeOutput_eq_error_iff.1 h
  have hfailed : ((waiting {} 0).complete raw).2 = some e := congrArg Prod.snd hcomplete
  obtain ⟨before, rest, i, decoded, rfl, hrun, hs, hfailure⟩ := exists_failure empty_sound hfailed
  rw [Nat.zero_add] at hrun hfailure
  have hbefore : feed {} before = (waiting i before.length, none) := (feed_of_live rfl before).trans hrun
  rcases hfailure.rewritten with ⟨e', hfailure', hmatches⟩ | ⟨text, rest, rfl, hmends⟩
  · -- both failures stand at the same byte, behind the same part
    have hsame : complete {} (before ++ rest) = (waiting i before.length).complete rest := complete_append hrun rest
    have hagain : complete {} (rewritten (before ++ rest)) =
        (waiting i before.length).complete (rewritten rest) := by
      rw [(valid_of_feed hbefore).rewritten_append]
      exact complete_append hrun _
    obtain ⟨-, hleft⟩ := hfailure.left hs
    obtain ⟨herror, hleft'⟩ := hfailure'.left hs
    rw [← hsame, hcomplete] at hleft
    rw [← hagain] at herror hleft'
    refine ⟨e', (complete {} (rewritten (before ++ rest))).1, ?_, hmatches, ?_⟩
    · rw [decodeOutput_eq_error_iff, ← herror]
    · rw [hleft'.model, hleft.model]
  · exact absurd ⟨before, text, rest, i, rfl, hbefore, hmends⟩ hmended

/-- An output that cannot be decoded fails in the same way, at the same byte and with the same model, once it is
rewritten, exactly if it is not mended by that. -/
theorem decode_rewritten {raw : Bytes} {e : DecodeError} {d : Decoder} (h : decodeOutput raw = .error ⟨e, d⟩) :
    (∃ e' d', decodeOutput (rewritten raw) = .error ⟨e', d'⟩ ∧ e'.Matches e ∧ d'.model = d.model) ↔
      ¬Mended raw :=
  ⟨fun ⟨_, _, hagain, hmatches, _⟩ hmended => hmended.not_matches h hagain hmatches, exists_matches h⟩

end Decoder

end Verdicts
