/-
What the scanner does with any bytes. `Scanner.next` reads up to the end of one record and
`Scanner.scan` to the end of the input; `Layout` says what an input looks like around its records. Main
statements: `scan_layout`, that every input is laid out around the records taken from it, and
`Decoder.run_eq_next`, that a decoder takes in one record after the other.

The invariant of a scanner inside a record is that the bytes taken are those read since the opening
brace; it is carried by `next_inside` from one byte to the next.
-/
import Verdicts.Proofs.Stream.Chunking
import Mathlib.Data.List.TakeWhile

namespace Verdicts

namespace Scanner

/-! ## Depth -/

/-- How many brackets are open: none between two records, one behind the opening brace of a record. -/
def depth (s : Scanner) : Nat :=
  match s.state with
  | .between => 0
  | .inside _ depth _ _ => depth + 1

/-- By how much a byte changes the depth. Brackets of a string do not count, and between two records
only the opening brace of the next one does. -/
def shift (s : Scanner) (b : UInt8) : Int :=
  match s.state with
  | .between => if b = 0x7B then 1 else 0
  | .inside _ _ .code _ =>
    if b = 0x7B ∨ b = 0x5B then 1 else if b = 0x7D ∨ b = 0x5D then -1 else 0
  | .inside .. => 0

/-- The depth after a byte is the depth before it, changed as the byte says. As a depth is a natural
number, no closing bracket brings it below zero. -/
theorem step_depth {s s' : Scanner} {b : UInt8} {record : Option RawRecord}
    (h : s.step b = some (s', record)) : (s'.depth : Int) = s.depth + s.shift b := by
  obtain ⟨offset, state⟩ := s
  cases state with
  | between =>
    simp only [step] at h
    split at h
    · rename_i hb
      cases h
      simp [depth, shift, hb]
    · rename_i hb
      split at h
      · cases h
        simp [depth, shift, hb]
      · cases h
  | inside start d lexical taken =>
    cases lexical with
    | escape => cases h; simp [depth, shift]
    | string =>
      simp only [step, inner] at h
      split at h
      · cases h; simp [depth, shift]
      · split at h
        · cases h; simp [depth, shift]
        · cases h; simp [depth, shift]
    | code =>
      simp only [step, inner] at h
      split at h
      · rename_i hq
        cases h
        simp [depth, shift, hq]
      · split at h
        · rename_i ho
          cases h
          simp [depth, shift, ho]
        · rename_i ho
          split at h
          · rename_i hc
            cases d with
            | zero => cases h; simp [depth, shift, ho, hc]
            | succ d =>
              cases h
              simp only [depth, shift]
              rw [if_neg ho, if_pos hc]
              omega
          · rename_i hc
            cases h
            simp [depth, shift, ho, hc]

/-- A scanner refuses a byte exactly if it is at depth zero and the byte is neither a separator nor
the opening brace of a record. -/
theorem step_eq_none_iff (s : Scanner) (b : UInt8) :
    s.step b = none ↔ s.depth = 0 ∧ b ≠ 0x7B ∧ isSeparator b = false := by
  obtain ⟨offset, state⟩ := s
  cases state with
  | between =>
    by_cases hb : b = 0x7B
    · simp [step, depth, hb]
    · by_cases hs : isSeparator b = true <;> simp [step, depth, hb, hs]
  | inside start d lexical taken => simp [step, depth]

/-! ## One byte -/

theorem step_brace (offset : Nat) :
    step ⟨offset, .between⟩ 0x7B = some (⟨offset + 1, .inside offset 0 .code [0x7B]⟩, none) := rfl

theorem step_separator {b : UInt8} (h : isSeparator b = true) (offset : Nat) :
    step ⟨offset, .between⟩ b = some (⟨offset + 1, .between⟩, none) := by
  have hb : b ≠ 0x7B := by
    rintro rfl
    exact absurd h (by decide)
  simp [step, hb, h]

/-- What a byte inside a record does is settled by the place in the structure of the record: either the record goes on
from some place, or the byte completes it. -/
theorem inner_settled (start d : Nat) (lexical : Lexical) (b : UInt8) :
    (∃ d' lexical', ∀ taken, inner start d lexical taken b = (.inside start d' lexical' (b :: taken), none)) ∨
      ∀ taken, inner start d lexical taken b = (.between, some ⟨start, (b :: taken).reverse⟩) := by
  unfold inner
  cases lexical with
  | escape => exact .inl ⟨_, _, fun _ => rfl⟩
  | string =>
    left
    simp only
    split
    · exact ⟨_, _, fun _ => rfl⟩
    · split <;> exact ⟨_, _, fun _ => rfl⟩
  | code =>
    simp only
    split
    · exact .inl ⟨_, _, fun _ => rfl⟩
    · split
      · exact .inl ⟨_, _, fun _ => rfl⟩
      · split
        · cases d with
          | zero => exact .inr fun _ => rfl
          | succ d => exact .inl ⟨_, _, fun _ => rfl⟩
        · exact .inl ⟨_, _, fun _ => rfl⟩

/-- A byte inside a record is taken, and either the record goes on or the byte completes it. -/
theorem inner_cases (start d : Nat) (lexical : Lexical) (taken : Bytes) (b : UInt8) :
    (∃ d' lexical', inner start d lexical taken b = (.inside start d' lexical' (b :: taken), none)) ∨
      inner start d lexical taken b = (.between, some ⟨start, (b :: taken).reverse⟩) := by
  rcases inner_settled start d lexical b with ⟨d', lexical', h⟩ | h
  · exact .inl ⟨d', lexical', h taken⟩
  · exact .inr (h taken)

/-- A byte inside a record moves the scanner as it moves what is known of the record. -/
theorem step_inside {start d : Nat} {lexical : Lexical} {taken : Bytes} {b : UInt8} {state : ScannerState}
    {record : Option RawRecord} (h : inner start d lexical taken b = (state, record)) (offset : Nat) :
    step ⟨offset, .inside start d lexical taken⟩ b = some (⟨offset + 1, state⟩, record) := by
  simp only [step, h]

/-! ## One record -/

/-- What scanning some bytes for the next record comes to. -/
inductive Next where
  /-- All bytes are read and no record is complete. -/
  | exhausted (s : Scanner)
  /-- A record is complete, and the bytes `rest` behind it are not read. -/
  | found (s : Scanner) (record : RawRecord) (rest : Bytes)
  /-- Between two records, at the offset of `s`, stands a byte that may not stand there. -/
  | stray (s : Scanner) (byte : UInt8)
  deriving DecidableEq, Repr

/-- Scan up to the end of the next record. -/
def next (s : Scanner) : Bytes → Next
  | [] => .exhausted s
  | b :: rest =>
    match s.step b with
    | none => .stray s b
    | some (s, none) => next s rest
    | some (s, some record) => .found s record rest

@[simp] theorem next_nil (s : Scanner) : s.next [] = .exhausted s := rfl

theorem next_cons_none {s : Scanner} {b : UInt8} (h : s.step b = none) (rest : Bytes) :
    s.next (b :: rest) = .stray s b := by
  rw [next, h]

theorem next_cons_quiet {s s' : Scanner} {b : UInt8} (h : s.step b = some (s', none)) (rest : Bytes) :
    s.next (b :: rest) = s'.next rest := by
  rw [next, h]

theorem next_cons_found {s s' : Scanner} {b : UInt8} {record : RawRecord}
    (h : s.step b = some (s', some record)) (rest : Bytes) :
    s.next (b :: rest) = .found s' record rest := by
  rw [next, h]

/-- Scanning two parts for a record is scanning the first and, unless that settles it, the second. -/
theorem next_append (s : Scanner) (t u : Bytes) :
    s.next (t ++ u) =
      match s.next t with
      | .exhausted s => s.next u
      | .found s record rest => .found s record (rest ++ u)
      | .stray s b => .stray s b := by
  induction t generalizing s with
  | nil => rfl
  | cons b t ih =>
    rw [List.cons_append]
    rcases hb : s.step b with _ | ⟨s₁, _ | record⟩
    · rw [next_cons_none hb, next_cons_none hb]
    · rw [next_cons_quiet hb, next_cons_quiet hb]
      exact ih s₁
    · rw [next_cons_found hb, next_cons_found hb]

/-- Bytes that complete no record can be scanned apart from those behind them. -/
theorem next_append_of_exhausted {s s' : Scanner} {t : Bytes} (h : s.next t = .exhausted s') (u : Bytes) :
    s.next (t ++ u) = s'.next u := by
  rw [next_append, h]

/-- The record that bytes complete does not depend on the bytes behind them. -/
theorem next_append_of_found {s s' : Scanner} {t rest : Bytes} {record : RawRecord}
    (h : s.next t = .found s' record rest) (u : Bytes) :
    s.next (t ++ u) = .found s' record (rest ++ u) := by
  rw [next_append, h]

theorem next_append_of_stray {s s' : Scanner} {t : Bytes} {b : UInt8} (h : s.next t = .stray s' b)
    (u : Bytes) : s.next (t ++ u) = .stray s' b := by
  rw [next_append, h]

/-- A record has at least one byte, which is not among those behind it. -/
theorem next_found_length {s s' : Scanner} {t rest : Bytes} {record : RawRecord}
    (h : s.next t = .found s' record rest) : rest.length < t.length := by
  induction t generalizing s with
  | nil => cases h
  | cons b t ih =>
    rw [List.length_cons]
    rcases hb : s.step b with _ | ⟨s₁, _ | record'⟩
    · rw [next_cons_none hb] at h; cases h
    · rw [next_cons_quiet hb] at h
      exact Nat.lt_succ_of_lt (ih h)
    · rw [next_cons_found hb] at h
      cases h
      exact Nat.lt_succ_self _

/-- The bytes up to the end of a record complete it on their own. -/
theorem next_found_alone {s s' : Scanner} {t rest : Bytes} {record : RawRecord}
    (h : s.next (t ++ rest) = .found s' record rest) : s.next t = .found s' record [] := by
  rcases ht : s.next t with s₁ | ⟨s₁, r, rest'⟩ | ⟨s₁, b⟩
  · rw [next_append_of_exhausted ht] at h
    exact absurd (next_found_length h) (Nat.lt_irrefl _)
  · rw [next_append_of_found ht] at h
    simp only [Next.found.injEq, List.append_left_eq_self] at h
    obtain ⟨rfl, rfl, rfl⟩ := h
    rfl
  · rw [next_append_of_stray ht] at h
    cases h

/-- No proper beginning of the bytes that complete a record completes one. -/
theorem next_of_prefix {s s' : Scanner} {t p : Bytes} {record : RawRecord}
    (h : s.next t = .found s' record []) (hp : p <+: t) (hne : p ≠ t) :
    ∃ s'', s.next p = .exhausted s'' := by
  obtain ⟨u, rfl⟩ := hp
  have hu : u ≠ [] := fun hu => hne (by rw [hu, List.append_nil])
  rcases hs : s.next p with s₁ | ⟨s₁, r, rest⟩ | ⟨s₁, b⟩
  · exact ⟨s₁, rfl⟩
  · rw [next_append_of_found hs u] at h
    simp only [Next.found.injEq, List.append_eq_nil_iff] at h
    exact absurd h.2.2.2 hu
  · rw [next_append_of_stray hs u] at h
    cases h

/-- Bytes of which none but separators may be. -/
def Separators (gap : Bytes) : Prop := ∀ b ∈ gap, isSeparator b = true

theorem next_separators {gap : Bytes} (h : Separators gap) (offset : Nat) :
    next ⟨offset, .between⟩ gap = .exhausted ⟨offset + gap.length, .between⟩ := by
  induction gap generalizing offset with
  | nil => rfl
  | cons b gap ih =>
    rw [next_cons_quiet (step_separator (h b (List.mem_cons_self ..)) offset),
      ih fun c hc => h c (List.mem_cons_of_mem _ hc)]
    simp only [List.length_cons, Nat.add_assoc, Nat.add_comm 1]

/-- Inside a record, either all bytes belong to it or some of them complete it. -/
theorem next_inside (t : Bytes) :
    ∀ (offset start d : Nat) (lexical : Lexical) (taken : Bytes),
      (∃ d' lexical', next ⟨offset, .inside start d lexical taken⟩ t =
        .exhausted ⟨offset + t.length, .inside start d' lexical' (t.reverse ++ taken)⟩) ∨
      ∃ text rest, t = text ++ rest ∧ next ⟨offset, .inside start d lexical taken⟩ t =
        .found ⟨offset + text.length, .between⟩ ⟨start, taken.reverse ++ text⟩ rest := by
  induction t with
  | nil => exact fun _ _ _ _ _ => .inl ⟨_, _, rfl⟩
  | cons b t ih =>
    intro offset start d lexical taken
    -- the byte goes on with the record, and the rest is scanned from there, or it completes it
    rcases inner_cases start d lexical taken b with ⟨d', lexical', h⟩ | h
    · rw [next_cons_quiet (step_inside h offset)]
      have hlen : ∀ n, offset + 1 + n = offset + (n + 1) := fun n => by omega
      rcases ih (offset + 1) start d' lexical' (b :: taken) with ⟨d'', lexical'', h'⟩ | ⟨text, rest, rfl, h'⟩
      · left
        refine ⟨d'', lexical'', ?_⟩
        rw [h', hlen, List.length_cons, List.reverse_cons, List.append_assoc]
        rfl
      · right
        refine ⟨b :: text, rest, rfl, ?_⟩
        rw [h', hlen, List.length_cons, List.reverse_cons, List.append_assoc]
        rfl
    · right
      refine ⟨[b], t, rfl, ?_⟩
      rw [next_cons_found (step_inside h offset), List.reverse_cons]
      rfl

/-- What an input looks like up to the end of its first record, and what scanning it from depth zero
comes to. -/
inductive Front (offset : Nat) : Bytes → Next → Prop
  | separators {gap : Bytes} : Separators gap →
      Front offset gap (.exhausted ⟨offset + gap.length, .between⟩)
  | pending {gap inside : Bytes} {d : Nat} {lexical : Lexical} : Separators gap →
      Front offset (gap ++ 0x7B :: inside) (.exhausted ⟨offset + gap.length + (inside.length + 1),
        .inside (offset + gap.length) d lexical (0x7B :: inside).reverse⟩)
  | record {gap text rest : Bytes} : Separators gap → text.head? = some 0x7B →
      Front offset (gap ++ text ++ rest)
        (.found ⟨offset + gap.length + text.length, .between⟩ ⟨offset + gap.length, text⟩ rest)
  | stray {gap rest : Bytes} {b : UInt8} : Separators gap → b ≠ 0x7B → isSeparator b = false →
      Front offset (gap ++ b :: rest) (.stray ⟨offset + gap.length, .between⟩ b)

/-- Every input has a front. -/
theorem next_front (t : Bytes) (offset : Nat) : Front offset t (next ⟨offset, .between⟩ t) := by
  -- the separators in front, then the byte that is none
  have hgap : Separators (t.takeWhile isSeparator) := fun b hb => List.mem_takeWhile_imp hb
  have hsplit := List.takeWhile_append_dropWhile (p := isSeparator) (l := t)
  rcases hrest : t.dropWhile isSeparator with _ | ⟨b, rest⟩
  · rw [hrest, List.append_nil] at hsplit
    rw [← hsplit, next_separators hgap]
    exact .separators hgap
  · have hb : isSeparator b = false := by
      have := List.head?_dropWhile_not isSeparator t
      rw [hrest] at this
      simpa using this
    rw [hrest] at hsplit
    rw [← hsplit, next_append_of_exhausted (next_separators hgap offset)]
    by_cases hbrace : b = 0x7B
    · subst hbrace
      rw [next_cons_quiet (step_brace _)]
      rcases next_inside rest (offset + (t.takeWhile isSeparator).length + 1)
        (offset + (t.takeWhile isSeparator).length) 0 .code [0x7B] with ⟨d, lexical, h⟩ | ⟨text, rest', rfl, h⟩
      · rw [h, Nat.add_assoc _ 1, Nat.add_comm 1]
        have hpending := @Front.pending offset _ rest d lexical hgap
        rwa [List.reverse_cons] at hpending
      · rw [h, Nat.add_assoc _ 1, Nat.add_comm 1]
        have hrecord := @Front.record offset _ (0x7B :: text) rest' hgap rfl
        rwa [List.append_assoc] at hrecord
    · have hstep : step ⟨offset + (t.takeWhile isSeparator).length, .between⟩ b = none :=
        (step_eq_none_iff _ b).2 ⟨rfl, hbrace, hb⟩
      rw [next_cons_none hstep]
      exact .stray hgap hbrace hb

/-! ## All records -/

/-- The records of an input, where the scanner stands behind them, and the byte that it refuses if
it does. -/
structure Scan where
  records : List RawRecord
  scanner : Scanner
  stray : Option UInt8
  deriving DecidableEq, Repr

/-- Scan a whole input. -/
def scan (s : Scanner) : Bytes → Scan
  | [] => ⟨[], s, none⟩
  | b :: rest =>
    match s.step b with
    | none => ⟨[], s, some b⟩
    | some (s, none) => scan s rest
    | some (s, some record) =>
      let behind := scan s rest
      { behind with records := record :: behind.records }

/-- How an input ends. -/
inductive Ending where
  | between
  /-- Inside the record that begins at `start`. -/
  | pending (start : Nat)
  /-- At a byte that may not stand between two records. -/
  | stray (offset : Nat) (byte : UInt8)
  deriving DecidableEq, Repr

/-- How the input of a scan ends. -/
def Scan.ending (t : Scan) : Ending :=
  match t.stray with
  | some b => .stray t.scanner.offset b
  | none =>
    match t.scanner.pending? with
    | some start => .pending start
    | none => .between

theorem scan_cons_none {s : Scanner} {b : UInt8} (h : s.step b = none) (rest : Bytes) :
    s.scan (b :: rest) = ⟨[], s, some b⟩ := by
  rw [scan, h]

/-- Behind a byte that is not refused, a scan ends as it does from there. -/
theorem scan_cons_some {s s' : Scanner} {b : UInt8} {record : Option RawRecord}
    (h : s.step b = some (s', record)) (rest : Bytes) :
    (s.scan (b :: rest)).scanner = (s'.scan rest).scanner ∧
      (s.scan (b :: rest)).stray = (s'.scan rest).stray := by
  cases record with
  | none => rw [scan, h]; exact ⟨rfl, rfl⟩
  | some record => rw [scan, h]; exact ⟨rfl, rfl⟩

theorem step_offset {s s' : Scanner} {b : UInt8} {record : Option RawRecord}
    (h : s.step b = some (s', record)) : s'.offset = s.offset + 1 := by
  unfold step at h
  split at h
  · split at h
    · cases h; rfl
    · split at h
      · cases h; rfl
      · cases h
  · cases h; rfl

/-- The offset counts the bytes that are read. -/
theorem scan_offset {s : Scanner} {t : Bytes} (h : (s.scan t).stray = none) :
    (s.scan t).scanner.offset = s.offset + t.length := by
  induction t generalizing s with
  | nil => rfl
  | cons b t ih =>
    rcases hb : s.step b with _ | ⟨s', record⟩
    · rw [scan_cons_none hb] at h; cases h
    · obtain ⟨hscanner, hstray⟩ := scan_cons_some hb t
      rw [hstray] at h
      rw [hscanner, ih h, step_offset hb, List.length_cons]
      omega

/-- Bytes of which none is refused can be scanned apart from those behind them. -/
theorem scan_append {s : Scanner} {t : Bytes} (h : (s.scan t).stray = none) (u : Bytes) :
    (s.scan (t ++ u)).scanner = ((s.scan t).scanner.scan u).scanner ∧
      (s.scan (t ++ u)).stray = ((s.scan t).scanner.scan u).stray := by
  induction t generalizing s with
  | nil => exact ⟨rfl, rfl⟩
  | cons b t ih =>
    rcases hb : s.step b with _ | ⟨s', record⟩
    · rw [scan_cons_none hb] at h; cases h
    · obtain ⟨hscanner, hstray⟩ := scan_cons_some hb t
      obtain ⟨hscanner', hstray'⟩ := scan_cons_some hb (t ++ u)
      rw [hstray] at h
      rw [List.cons_append, hscanner, hscanner', hstray']
      exact ih h

/-- A byte is refused where the scan of the bytes before it stands. -/
theorem scan_refused {s : Scanner} {t : Bytes} {b : UInt8} (h : (s.scan t).stray = some b) :
    ∃ before rest, t = before ++ b :: rest ∧ (s.scan before).stray = none ∧
      (s.scan before).scanner = (s.scan t).scanner ∧ (s.scan t).scanner.step b = none := by
  induction t generalizing s with
  | nil => cases h
  | cons c t ih =>
    rcases hc : s.step c with _ | ⟨s', record⟩
    · rw [scan_cons_none hc] at h ⊢
      cases h
      exact ⟨[], t, rfl, rfl, rfl, hc⟩
    · obtain ⟨hscanner, hstray⟩ := scan_cons_some hc t
      rw [hstray] at h
      obtain ⟨before, rest, rfl, hnone, hsame, hstep⟩ := ih h
      obtain ⟨hscanner', hstray'⟩ := scan_cons_some hc before
      refine ⟨c :: before, rest, rfl, ?_, ?_, ?_⟩
      · rw [hstray', hnone]
      · rw [hscanner', hsame, hscanner]
      · rw [hscanner, hstep]

/-- Where a scan is not refused a byte, it ends between two records exactly at depth zero. -/
theorem ending_between_iff (t : Scan) : t.ending = .between ↔ t.stray = none ∧ t.scanner.depth = 0 := by
  obtain ⟨records, ⟨offset, state⟩, stray⟩ := t
  cases stray with
  | some b => simp [Scan.ending]
  | none => cases state <;> simp [Scan.ending, pending?, depth]

theorem ending_stray_iff (t : Scan) (offset : Nat) (b : UInt8) :
    t.ending = .stray offset b ↔ t.stray = some b ∧ t.scanner.offset = offset := by
  obtain ⟨records, ⟨offset', state⟩, stray⟩ := t
  cases stray with
  | some c => simp [Scan.ending, and_comm]
  | none => cases state <;> simp [Scan.ending, pending?]

/-- A byte is refused exactly where the bytes before it end between two records, and it is neither a
separator nor an opening brace. -/
theorem scan_stray_iff (t : Bytes) (offset : Nat) (b : UInt8) :
    (scan {} t).ending = .stray offset b ↔
      ∃ before rest, t = before ++ b :: rest ∧ before.length = offset ∧
        (scan {} before).ending = .between ∧ b ≠ 0x7B ∧ isSeparator b = false := by
  rw [ending_stray_iff]
  constructor
  · rintro ⟨hstray, rfl⟩
    obtain ⟨before, rest, rfl, hnone, hsame, hstep⟩ := scan_refused hstray
    obtain ⟨hdepth, hbrace, hseparator⟩ := (step_eq_none_iff _ b).1 hstep
    refine ⟨before, rest, rfl, ?_, (ending_between_iff _).2 ⟨hnone, by rw [hsame]; exact hdepth⟩, hbrace,
      hseparator⟩
    rw [← hsame, scan_offset hnone]
    exact (Nat.zero_add _).symm
  · rintro ⟨before, rest, rfl, rfl, hbetween, hbrace, hseparator⟩
    obtain ⟨hnone, hdepth⟩ := (ending_between_iff _).1 hbetween
    have hstep := (step_eq_none_iff _ b).2 ⟨hdepth, hbrace, hseparator⟩
    obtain ⟨hscanner, hstray⟩ := scan_append hnone (b :: rest)
    rw [hscanner, hstray, scan_cons_none hstep]
    exact ⟨rfl, (scan_offset hnone).trans (Nat.zero_add _)⟩

/-- A scan takes the next record and goes on behind it. -/
theorem scan_eq_next (s : Scanner) (t : Bytes) :
    s.scan t =
      match s.next t with
      | .exhausted s => ⟨[], s, none⟩
      | .stray s b => ⟨[], s, some b⟩
      | .found s record rest => { s.scan rest with records := record :: (s.scan rest).records } := by
  induction t generalizing s with
  | nil => rfl
  | cons b t ih =>
    rw [scan]
    rcases hb : s.step b with _ | ⟨s₁, _ | record⟩
    · rw [next_cons_none hb]
    · rw [next_cons_quiet hb]
      exact ih s₁
    · rw [next_cons_found hb]

/-- `Layout offset t records ending`: an input `t` that begins at `offset` consists of the records, one
after the other, each beginning with an opening brace, with nothing but separators in front of,
between and behind them, up to where it ends. -/
inductive Layout : Nat → Bytes → List RawRecord → Ending → Prop
  | separators {offset : Nat} {gap : Bytes} : Separators gap → Layout offset gap [] .between
  | pending {offset : Nat} {gap inside : Bytes} : Separators gap →
      Layout offset (gap ++ 0x7B :: inside) [] (.pending (offset + gap.length))
  | stray {offset : Nat} {gap rest : Bytes} {b : UInt8} : Separators gap → b ≠ 0x7B →
      isSeparator b = false → Layout offset (gap ++ b :: rest) [] (.stray (offset + gap.length) b)
  | record {offset : Nat} {gap text rest : Bytes} {records : List RawRecord} {ending : Ending} :
      Separators gap → text.head? = some 0x7B →
      Layout (offset + gap.length + text.length) rest records ending →
      Layout offset (gap ++ text ++ rest) (⟨offset + gap.length, text⟩ :: records) ending

/-- Every input is laid out around the records that a scan takes from it. -/
theorem scan_layout (t : Bytes) (offset : Nat) :
    Layout offset t (scan ⟨offset, .between⟩ t).records (scan ⟨offset, .between⟩ t).ending := by
  induction hn : t.length using Nat.strongRecOn generalizing t offset with
  | _ n ih =>
    have hfront := next_front t offset
    rw [scan_eq_next]
    generalize next ⟨offset, .between⟩ t = found at hfront
    cases hfront with
    | separators hgap => exact .separators hgap
    | pending hgap => exact .pending hgap
    | stray hgap hbrace hb => exact .stray hgap hbrace hb
    | @record gap text rest hgap htext =>
      -- a record is not empty, so what stands behind it is shorter than the input
      have htext' : 0 < text.length := by
        cases text with
        | nil => cases htext
        | cons _ _ => exact Nat.succ_pos _
      have hlen : rest.length < n := by
        rw [← hn, List.length_append, List.length_append]
        omega
      exact .record hgap htext (ih rest.length hlen rest _ rfl)

end Scanner

namespace Decoder

open Scanner

/-! ## The scanner of a decoder -/

/-- A decoder takes in the next record and goes on behind it. -/
theorem run_eq_next (d : Decoder) (t : Bytes) :
    d.run t =
      match d.scanner.next t with
      | .exhausted s => ({ d with scanner := s }, none)
      | .stray s b => ({ d with scanner := s, aborted := true }, some (.unexpectedByte s.offset b))
      | .found s raw rest =>
        match take d.intake raw with
        | (i, none) => run ⟨s, i, false⟩ rest
        | (i, some e) => (⟨s, i, true⟩, some e) := by
  induction t generalizing d with
  | nil => rfl
  | cons b t ih =>
    rw [run, step]
    rcases hb : d.scanner.step b with _ | ⟨s₁, _ | raw⟩
    · rw [next_cons_none hb]
    · rw [next_cons_quiet hb]
      exact ih { d with scanner := s₁ }
    · rw [next_cons_found hb]
      simp only
      rcases take d.intake raw with ⟨i, _ | e⟩ <;> rfl

/-- A byte at which decoding does not fail is one that the scanner reads. -/
theorem step_scanner {d d' : Decoder} {b : UInt8} (h : d.step b = (d', none)) :
    ∃ record, d.scanner.step b = some (d'.scanner, record) := by
  unfold step at h
  rcases hb : d.scanner.step b with _ | ⟨s, _ | raw⟩
  · rw [hb] at h; cases h
  · rw [hb] at h; cases h; exact ⟨none, rfl⟩
  · rw [hb] at h
    have hscanner : s = d'.scanner := congrArg (fun answer => answer.1.scanner) h
    exact ⟨some raw, by rw [hscanner]⟩

/-- Where decoding does not fail, the scanner of the decoder stands where a scan ends. -/
theorem scan_of_run {d d' : Decoder} {t : Bytes} (h : d.run t = (d', none)) :
    (d.scanner.scan t).stray = none ∧ (d.scanner.scan t).scanner = d'.scanner := by
  induction t generalizing d with
  | nil => cases h; exact ⟨rfl, rfl⟩
  | cons b t ih =>
    rcases hb : d.step b with ⟨d₁, _ | e⟩
    · rw [run_cons_none hb] at h
      obtain ⟨record, hstep⟩ := step_scanner hb
      obtain ⟨hscanner, hstray⟩ := scan_cons_some hstep t
      rw [hscanner, hstray]
      exact ih h
    · rw [run_cons_some hb] at h
      cases h

end Decoder

end Verdicts
