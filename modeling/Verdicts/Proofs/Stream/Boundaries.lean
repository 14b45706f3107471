/-
The records that the scanner cuts out of an output are its JSON objects. Brackets are counted without
telling braces from square ones, and strings are told apart by quotes and backslashes alone; that this
is enough is an induction over the grammar of JSON: each phrase leaves the scanner as deep as it found
it (`kept_of_derives`), because the brackets of a phrase are balanced outside of its strings and a
string ends at its first quote behind no backslash.
-/
import Verdicts.Proofs.Json.Grammar
import Verdicts.Proofs.Stream.Admission
import Verdicts.Proofs.Stream.Chunking
import Verdicts.Proofs.Stream.Scanning

namespace Verdicts

namespace Scanner

open Json.Grammar

/-! ## Bytes that keep the depth -/

/-- Bytes that belong to any record they are met in, and that leave the scanner where it stood, in
`lexical` and as deep as before. -/
def Kept (lexical : Lexical) (t : Bytes) : Prop :=
  ∀ (offset start d : Nat) (taken : Bytes),
    next ⟨offset, .inside start d lexical taken⟩ t =
      .exhausted ⟨offset + t.length, .inside start d lexical (t.reverse ++ taken)⟩

theorem Kept.nil (lexical : Lexical) : Kept lexical [] := fun _ _ _ _ => rfl

theorem Kept.append {lexical : Lexical} {t u : Bytes} (ht : Kept lexical t) (hu : Kept lexical u) :
    Kept lexical (t ++ u) := by
  intro offset start d taken
  rw [next_append_of_exhausted (ht offset start d taken), hu, List.length_append, Nat.add_assoc,
    List.reverse_append, List.append_assoc]

/-- One byte that changes neither the depth nor what the scanner is in. -/
theorem Kept.single {lexical : Lexical} {b : UInt8}
    (h : ∀ start d taken, inner start d lexical taken b = (.inside start d lexical (b :: taken), none)) :
    Kept lexical [b] := by
  intro offset start d taken
  rw [next_cons_quiet (step_inside (h start d taken) offset)]
  rfl

theorem Kept.of_forall {lexical : Lexical} {t : Bytes} (h : ∀ b ∈ t, Kept lexical [b]) :
    Kept lexical t := by
  induction t with
  | nil => exact .nil lexical
  | cons b t ih =>
    exact Kept.append (h b (List.mem_cons_self ..)) (ih fun c hc => h c (List.mem_cons_of_mem _ hc))

/-- Bytes that have no meaning to the scanner outside of strings. -/
def IsPlain (b : UInt8) : Prop :=
  b ≠ 0x22 ∧ b ≠ 0x7B ∧ b ≠ 0x5B ∧ b ≠ 0x7D ∧ b ≠ 0x5D

instance (b : UInt8) : Decidable (IsPlain b) :=
  inferInstanceAs (Decidable (b ≠ 0x22 ∧ b ≠ 0x7B ∧ b ≠ 0x5B ∧ b ≠ 0x7D ∧ b ≠ 0x5D))

theorem kept_plain {b : UInt8} (h : IsPlain b) : Kept .code [b] := by
  obtain ⟨hquote, hbrace, hbracket, hbrace', hbracket'⟩ := h
  refine Kept.single fun start d taken => ?_
  simp only [inner, hquote, hbrace, hbracket, hbrace', hbracket', or_self, if_false]

theorem kept_word {t : Bytes} (h : t.all (fun b => decide (IsPlain b)) = true) : Kept .code t :=
  Kept.of_forall fun b hb => kept_plain (of_decide_eq_true (List.all_eq_true.1 h b hb))

/-- Bytes between two that lead the scanner in and out again are kept as a whole, if they are kept in
there. -/
theorem Kept.enclosed {lexical within : Lexical} {opening closing : UInt8} (deeper : Nat → Nat)
    (hopen : ∀ start d taken, inner start d lexical taken opening =
      (.inside start (deeper d) within (opening :: taken), none))
    (hclose : ∀ start d taken, inner start (deeper d) within taken closing =
      (.inside start d lexical (closing :: taken), none))
    {t : Bytes} (ht : Kept within t) : Kept lexical (opening :: t ++ [closing]) := by
  intro offset start d taken
  rw [List.cons_append, next_cons_quiet (step_inside (hopen start d taken) offset),
    next_append_of_exhausted (ht _ _ _ _), next_cons_quiet (step_inside (hclose start d _) _), next_nil]
  simp only [List.length_cons, List.length_append, List.length_nil, List.reverse_cons,
    List.reverse_append, List.reverse_nil, List.nil_append, List.append_assoc, List.cons_append]
  congr 2
  omega

/-- Bytes in brackets are kept if those between the brackets are. -/
theorem Kept.bracketed {opening closing : UInt8} {t : Bytes} (ho : opening = 0x7B ∨ opening = 0x5B)
    (hc : closing = 0x7D ∨ closing = 0x5D) (ht : Kept .code t) :
    Kept .code (opening :: t ++ [closing]) := by
  refine Kept.enclosed (· + 1) ?_ ?_ ht
  · rcases ho with rfl | rfl <;> exact fun _ _ _ => rfl
  · rcases hc with rfl | rfl <;> exact fun _ _ _ => rfl

/-! ## Strings -/

theorem kept_string_byte {b : UInt8} (hquote : b ≠ 0x22) (hbackslash : b ≠ 0x5C) :
    Kept .string [b] := by
  refine Kept.single fun start d taken => ?_
  simp only [inner, hquote, hbackslash, if_false]

/-- The byte behind a backslash has no meaning to the scanner. -/
theorem kept_escape (b : UInt8) : Kept .string [0x5C, b] := fun _ _ _ _ => rfl

theorem hexDigit_plain {b : UInt8} (h : IsHexDigit b) : b ≠ 0x22 ∧ b ≠ 0x5C := by
  simp only [IsHexDigit, IsDigit, UInt8.le_iff_toNat_le, UInt8.reduceToNat] at h
  constructor
  · rintro rfl
    simp only [UInt8.reduceToNat] at h
    omega
  · rintro rfl
    simp only [UInt8.reduceToNat] at h
    omega

theorem kept_character {t : Bytes} (h : Character t) : Kept .string t := by
  cases h with
  | plain _ hquote hbackslash =>
    refine Kept.of_forall fun b hb => ?_
    obtain ⟨h1, h2⟩ := encode_plain hquote hbackslash b hb
    exact kept_string_byte h1 h2
  | escape _ => exact kept_escape _
  | @code digits _ hdigits =>
    refine Kept.append (kept_escape 0x75) (Kept.of_forall fun b hb => ?_)
    obtain ⟨h1, h2⟩ := hexDigit_plain (hdigits b hb)
    exact kept_string_byte h1 h2

theorem kept_characters {t : Bytes} (h : Characters t) : Kept .string t := by
  induction h with
  | nil => exact .nil .string
  | cons hc _ ih => exact Kept.append (kept_character hc) ih

/-- A string is kept, whatever its characters are. -/
theorem kept_text {t : Bytes} (h : Text t) : Kept .code t := by
  cases h with
  | mk hcontent => exact Kept.enclosed id (fun _ _ _ => rfl) (fun _ _ _ => rfl) (kept_characters hcontent)

/-! ## Numbers and blanks -/

theorem kept_blanks {t : Bytes} (h : Blanks t) : Kept .code t := by
  refine Kept.of_forall fun b hb => kept_plain ?_
  rcases h b hb with rfl | rfl | rfl | rfl <;> decide

theorem digit_plain {b : UInt8} (h : IsDigit b) : IsPlain b := by
  simp only [IsDigit, UInt8.le_iff_toNat_le, UInt8.reduceToNat] at h
  refine ⟨?_, ?_, ?_, ?_, ?_⟩ <;> rintro rfl <;> simp only [UInt8.reduceToNat] at h <;> omega

theorem kept_digits {t : Bytes} (h : Digits t) : Kept .code t :=
  Kept.of_forall fun b hb => kept_plain (digit_plain (h.2 b hb))

theorem kept_whole {t : Bytes} (h : Whole t) : Kept .code t := by
  cases h with
  | zero => exact kept_plain (by decide)
  | digits h _ => exact kept_digits h

theorem kept_fraction {t : Bytes} (h : Fraction t) : Kept .code t := by
  cases h with
  | absent => exact .nil .code
  | digits h => exact Kept.append (kept_plain (b := 0x2E) (by decide)) (kept_digits h)

theorem kept_exponent {t : Bytes} (h : Exponent t) : Kept .code t := by
  cases h with
  | absent => exact .nil .code
  | @digits mark sign t hmark hsign ht =>
    have hm : Kept .code [mark] := by
      rcases hmark with rfl | rfl <;> exact kept_plain (by decide)
    have hs : Kept .code sign := by
      rcases hsign with rfl | rfl | rfl
      · exact .nil .code
      · exact kept_plain (by decide)
      · exact kept_plain (by decide)
    exact Kept.append (Kept.append hm hs) (kept_digits ht)

theorem kept_numeral {t : Bytes} (h : Numeral t) : Kept .code t := by
  cases h with
  | mk hsign hwhole hfraction hexponent =>
    have hs : Kept .code _ := hsign.elim (fun h => h ▸ Kept.nil .code)
      (fun h => h ▸ kept_plain (b := 0x2D) (by decide))
    exact ((hs.append (kept_whole hwhole)).append (kept_fraction hfraction)).append
      (kept_exponent hexponent)

/-! ## Phrases -/

/-- Every phrase is kept: outside of its strings, its brackets are balanced. -/
theorem kept_of_derives {phrase : Phrase} {t : Bytes} (h : Derives phrase t) : Kept .code t := by
  have hcomma : Kept .code [0x2C] := kept_plain (by decide)
  have hcolon : Kept .code [0x3A] := kept_plain (by decide)
  -- a phrase is put together of phrases, tokens and blanks, or encloses one in brackets
  induction h with
  | null => exact kept_word rfl
  | true => exact kept_word rfl
  | false => exact kept_word rfl
  | numeral ht => exact kept_numeral ht
  | text ht => exact kept_text ht
  | emptyArray ht => exact (kept_blanks ht).bracketed (.inr rfl) (.inr rfl)
  | array _ ih => exact ih.bracketed (.inr rfl) (.inr rfl)
  | object _ ih => exact ih
  | emptyObject ht => exact (kept_blanks ht).bracketed (.inl rfl) (.inl rfl)
  | ofMembers _ ih => exact ih.bracketed (.inl rfl) (.inl rfl)
  | element hbefore _ hbehind ih => exact ((kept_blanks hbefore).append ih).append (kept_blanks hbehind)
  | lastElement _ ih => exact ih
  | moreElements _ _ ih ihrest => exact ih.append (hcomma.append ihrest)
  | member hbefore hkey hbehind _ ih =>
    exact (((kept_blanks hbefore).append (kept_text hkey)).append (kept_blanks hbehind)).append
      (hcolon.append ih)
  | lastMember _ ih => exact ih
  | moreMembers _ _ ih ihrest => exact ih.append (hcomma.append ihrest)

/-- What stands between the braces of an object is kept. -/
theorem object_braces {t : Bytes} (h : Derives .object t) :
    ∃ content, t = 0x7B :: content ++ [0x7D] ∧ Kept .code content := by
  cases h with
  | emptyObject ht => exact ⟨_, rfl, kept_blanks ht⟩
  | ofMembers ht => exact ⟨_, rfl, kept_of_derives ht⟩

/-- An object behind separators is the next record, and nothing behind it is read. -/
theorem next_object {gap text : Bytes} (hgap : Separators gap) (htext : Derives .object text)
    (offset : Nat) (rest : Bytes) :
    next ⟨offset, .between⟩ (gap ++ text ++ rest) =
      .found ⟨offset + gap.length + text.length, .between⟩ ⟨offset + gap.length, text⟩ rest := by
  obtain ⟨content, rfl, hcontent⟩ := object_braces htext
  have hclose : ∀ (start : Nat) (taken : Bytes), inner start 0 .code taken 0x7D =
      (.between, some ⟨start, (0x7D :: taken).reverse⟩) := fun _ _ => rfl
  rw [List.append_assoc, next_append_of_exhausted (next_separators hgap offset), List.cons_append,
    List.cons_append, next_cons_quiet (step_brace _), List.append_assoc,
    next_append_of_exhausted (hcontent _ _ _ _), List.singleton_append,
    next_cons_found (step_inside (hclose _ _) _)]
  simp only [List.length_cons, List.length_append, List.length_nil, List.reverse_cons,
    List.reverse_append, List.reverse_nil, List.nil_append, List.cons_append, List.reverse_reverse]
  congr 2
  omega

end Scanner

namespace Decoder

open Scanner Json.Grammar

/-! ## Refused bytes -/

/-- Decoding fails at a byte between two records only if the scanner refuses it there. -/
theorem run_unexpected {d d' : Decoder} (hs : d.intake.Sound) {t : Bytes} {offset : Nat} {b : UInt8}
    (h : d.run t = (d', some (.unexpectedByte offset b))) :
    ∃ before rest d'', t = before ++ b :: rest ∧ d.run before = (d'', none) ∧
      d''.scanner.step b = none ∧ d''.scanner.offset = offset := by
  induction t generalizing d with
  | nil => cases h
  | cons c t ih =>
    rcases hc : d.step c with ⟨d₁, _ | e⟩
    · have hs₁ := step_sound hs c
      rw [hc] at hs₁
      rw [run_cons_none hc] at h
      obtain ⟨before, rest, d'', rfl, hbefore, hstep, hoffset⟩ := ih hs₁ h
      exact ⟨c :: before, rest, d'', rfl, by rw [run_cons_none hc]; exact hbefore, hstep, hoffset⟩
    · rw [run_cons_some hc] at h
      unfold step at hc
      rcases hstep : d.scanner.step c with _ | ⟨s, _ | raw⟩
      · rw [hstep] at hc
        cases hc
        cases h
        exact ⟨[], t, d, rfl, rfl, hstep, rfl⟩
      · rw [hstep] at hc; cases hc
      -- a record that is refused is reported for what it is
      · rw [hstep] at hc
        have he : (take d.intake raw).2 = some (.unexpectedByte offset b) :=
          (congrArg Prod.snd hc).trans (congrArg Prod.snd h)
        rcases take_cases hs raw with ⟨fault, -, ht⟩ | ⟨r, -, -, ht⟩
        · rw [ht] at he; cases he
        · rw [he] at ht
          obtain ⟨-, -, ⟨fault, hf⟩ | ⟨field, value, hf⟩⟩ := ht.refused
          · cases hf
          · cases hf

/-- Decoding fails at a byte between two records exactly if the scan of the input ends there and
nothing failed before it. -/
theorem feed_unexpected_iff (t : Bytes) (offset : Nat) (b : UInt8) :
    (feed {} t).2 = some (.unexpectedByte offset b) ↔
      (scan {} t).ending = .stray offset b ∧ (feed {} (t.take offset)).2 = none := by
  rw [feed_of_live rfl, feed_of_live rfl]
  constructor
  · intro h
    obtain ⟨before, rest, d, rfl, hbefore, hstep, rfl⟩ :=
      run_unexpected (d := {}) Intake.empty_sound (Prod.ext rfl h)
    obtain ⟨hnone, hscanner⟩ := scan_of_run hbefore
    obtain ⟨hdepth, hbrace, hseparator⟩ := (step_eq_none_iff _ b).1 hstep
    have hlength : before.length = d.scanner.offset := by
      rw [← hscanner]
      exact ((scan_offset hnone).trans (Nat.zero_add _)).symm
    constructor
    · refine (scan_stray_iff _ _ _).2 ⟨before, rest, rfl, hlength, ?_, hbrace, hseparator⟩
      exact (ending_between_iff _).2 ⟨hnone, by rw [hscanner]; exact hdepth⟩
    · rw [← hlength, List.take_left, hbefore]
  · -- nothing fails before the byte, so the decoder gets to where the scan stands
    rintro ⟨hending, hnone⟩
    obtain ⟨before, rest, rfl, rfl, hbetween, hbrace, hseparator⟩ := (scan_stray_iff _ _ _).1 hending
    rw [List.take_left] at hnone
    rcases hbefore : run {} before with ⟨d, _ | e⟩
    · obtain ⟨hstray, hscanner⟩ := scan_of_run hbefore
      have hdepth := ((ending_between_iff _).1 hbetween).2
      have hoffset := scan_offset hstray
      rw [hscanner] at hdepth hoffset
      have hstep := (step_eq_none_iff _ b).2 ⟨hdepth, hbrace, hseparator⟩
      have hfail : d.step b = ({ d with aborted := true }, some (.unexpectedByte d.scanner.offset b)) := by
        rw [step, hstep]
      rw [run_append, hbefore]
      simp only [run_cons_some hfail, hoffset]
      exact congrArg (fun n => some (DecodeError.unexpectedByte n b)) (Nat.zero_add _)
    · rw [hbefore] at hnone
      cases hnone

/-- Where nothing failed, finishing fails exactly if a record is pending, with the offset of its opening
brace. -/
theorem finish_of_calls {cs : List Call} (h : firstFailure (calls {} cs).2 = none) :
    (calls {} cs).1.finish.2 =
      match (scan {} (fed cs)).ending with
      | .pending start => some (.unterminated start)
      | _ => none := by
  have hlive := calls_aborted (d := {}) rfl cs
  obtain ⟨hnone, hscanner⟩ := scan_of_run (run_fed (d := {}) rfl h)
  rw [h] at hlive
  rw [finish, hlive, Scan.ending, show scan {} (fed cs) = scan ({} : Decoder).scanner (fed cs) from rfl,
    hnone, hscanner]
  rcases (calls {} cs).1.scanner.pending? with _ | start <;> rfl

/-! ## Record boundaries are object boundaries -/

/-- Between two records the scanner takes a JSON object behind any separators as the next record, with
the offset of its opening brace, at its last byte and not before, and reads nothing behind it. Every
input is laid out around the records taken from it: they begin with an opening brace, follow one
another, and have nothing but separators around them, up to a record that is pending or a byte that is
refused; they are the records that a decoder takes in. A byte is refused exactly at depth zero, where it
is neither a separator nor an opening brace; decoding fails with it unless it failed before. Finishing
fails exactly if a record is pending. The depth changes by what each byte says and is never brought below
zero. -/
theorem boundaries_exact :
    (∀ (offset : Nat) (gap text rest : Bytes), Separators gap → Derives .object text →
      next ⟨offset, .between⟩ (gap ++ text ++ rest) =
        .found ⟨offset + gap.length + text.length, .between⟩ ⟨offset + gap.length, text⟩ rest ∧
      ∀ part, part <+: gap ++ text → part ≠ gap ++ text →
        ∃ s, next ⟨offset, .between⟩ part = .exhausted s) ∧
    (∀ input, Layout 0 input (scan {} input).records (scan {} input).ending) ∧
    (∀ (d : Decoder) (input : Bytes), d.run input =
      match d.scanner.next input with
      | .exhausted s => ({ d with scanner := s }, none)
      | .stray s b => ({ d with scanner := s, aborted := true }, some (.unexpectedByte s.offset b))
      | .found s raw rest =>
        match take d.intake raw with
        | (i, none) => run ⟨s, i, false⟩ rest
        | (i, some e) => (⟨s, i, true⟩, some e)) ∧
    (∀ input offset b, (scan {} input).ending = .stray offset b ↔
      ∃ before rest, input = before ++ b :: rest ∧ before.length = offset ∧
        (scan {} before).ending = .between ∧ b ≠ 0x7B ∧ isSeparator b = false) ∧
    (∀ input offset b, (feed {} input).2 = some (.unexpectedByte offset b) ↔
      (scan {} input).ending = .stray offset b ∧ (feed {} (input.take offset)).2 = none) ∧
    (∀ cs, firstFailure (calls {} cs).2 = none →
      (calls {} cs).1.finish.2 =
        match (scan {} (fed cs)).ending with
        | .pending start => some (.unterminated start)
        | _ => none) ∧
    ∀ (s s' : Scanner) (b : UInt8) (record : Option RawRecord), s.step b = some (s', record) →
      (s'.depth : Int) = s.depth + s.shift b := by
  refine ⟨fun offset gap text rest hgap htext => ⟨next_object hgap htext offset rest, ?_⟩,
    fun input => scan_layout input 0, run_eq_next, scan_stray_iff, feed_unexpected_iff,
    fun cs => finish_of_calls, fun s s' b record => step_depth⟩
  intro part hpart hne
  have hall := next_object hgap htext offset []
  rw [List.append_nil] at hall
  exact next_of_prefix hall hpart hne

end Decoder

end Verdicts
