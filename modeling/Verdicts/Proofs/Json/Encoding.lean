/-
Every text that is read as JSON is UTF-8. Outside of strings only ASCII is read. In a string the content is decoded at
the closing quote, and the invariant `Mirrors` says what that tells about the bytes of the text: as long as the content
can still come to be UTF-8, the text stands where the content stands, and behind a backslash both stand between two
characters.
-/
import Verdicts.Json.Reader
import Verdicts.Proofs.Text.Utf8

namespace Verdicts.Json.Reader

open Utf8

/-- The bytes of a text stand at `text` where those of a string's content stand at `content`. An escape inside a
character leaves nothing that can be decoded. -/
def Mirrors (place : StringPlace) (text : Option State) : Option State → Prop
  | none => True
  | some .start => text = some .start
  | some (.inside later value low high) => place ≠ .plain ∨ text = some (.inside later value low high)

/-- `Reads t r`: the reader has read `t`, which is UTF-8 as far as that is known. -/
def Reads (t : Bytes) (r : Reader) : Prop :=
  match r.mode with
  | .string _ place content => Mirrors place (behind? .start t) (behind? .start content.reverse)
  | .word missing _ => Valid t ∧ ∀ b ∈ missing, b.toNat < 0x80
  | _ => Valid t

variable {t : Bytes} {b : UInt8} {frames : List Frame}

theorem valid_snoc (h : Valid t) (hb : b.toNat < 0x80) : Valid (t ++ [b]) := h.append (valid_ascii hb)

theorem reads_deliver (h : Valid t) (frames : List Frame) (value : Json) : Reads t (deliver frames value) := by
  unfold deliver
  split <;> exact h

theorem reads_deliverKey (h : Valid t) (frames : List Frame) (key : String) : Reads t (deliverKey frames key) := by
  unfold deliverKey
  split <;> exact h

/-! ## What is ASCII -/

theorem isBlank_ascii (h : isBlank b = true) : b.toNat < 0x80 := by
  unfold isBlank at h
  simp only [Bool.or_eq_true, beq_iff_eq] at h
  rcases h with ((rfl | rfl) | rfl) | rfl <;> decide

theorem hexDigit_ascii {d : Nat} (h : hexDigit? b = some d) : b.toNat < 0x80 := by
  unfold hexDigit? at h
  simp only [UInt8.le_iff_toNat_le, UInt8.reduceToNat] at h
  split at h
  · omega
  · split at h
    · omega
    · split at h
      · omega
      · cases h

theorem escaped_ascii {e : UInt8} (h : escaped? b = some e) : b.toNat < 0x80 ∧ e.toNat < 0x80 := by
  unfold escaped? at h
  split at h
  · rename_i hb
    cases h
    rcases hb with rfl | rfl | rfl <;> decide
  · repeat' (split at h; · rename_i hb; cases h; subst hb; decide)
    cases h

theorem digit_ascii {d : Nat} (h : Numeral.digit? b = some d) : b.toNat < 0x80 := by
  unfold Numeral.digit? at h
  simp only [UInt8.le_iff_toNat_le, UInt8.reduceToNat] at h
  split at h
  · omega
  · cases h

theorem start_ascii {n : Numeral} (h : Numeral.start? b = some n) : b.toNat < 0x80 := by
  unfold Numeral.start? at h
  split at h
  · rename_i hb
    subst hb
    decide
  · split at h
    · exact digit_ascii ‹_›
    · exact digit_ascii ‹_›
    · cases h

theorem afterDigits_ascii {n longer : Numeral} (h : n.afterDigits b = .more longer) : b.toNat < 0x80 := by
  unfold Numeral.afterDigits at h
  split at h
  · rename_i hb
    rw [hb.1]
    decide
  · split at h
    · rename_i hb
      rcases hb.1 with rfl | rfl <;> decide
    · cases h

theorem next_ascii {n longer : Numeral} (h : n.next b = .more longer) : b.toNat < 0x80 := by
  unfold Numeral.next at h
  split at h
  all_goals first
    | exact digit_ascii ‹_›
    | exact afterDigits_ascii h
    | cases h
    | skip
  split at h
  · rename_i hb
    subst hb
    decide
  · split at h
    · rename_i hb
      subst hb
      decide
    · cases h

/-! ## Inside strings -/

theorem Mirrors.refl (place : StringPlace) {state : Option State} (h : place = .plain) : Mirrors place state state := by
  subst h
  cases state with
  | none => trivial
  | some state =>
    cases state with
    | start => rfl
    | inside later value low high => exact .inr rfl

/-- Inside an escape, ASCII is read that adds nothing to the content yet. -/
theorem Mirrors.keep {place place' : StringPlace} {content : Option State}
    (h : Mirrors place (behind? .start t) content) (hplace : place' ≠ .plain) (hb : b.toNat < 0x80) :
    Mirrors place' (behind? .start (t ++ [b])) content := by
  cases content with
  | none => trivial
  | some state =>
    cases state with
    | start => exact valid_snoc h hb
    | inside later value low high => exact .inl hplace

/-- The end of an escape adds a character to the content, unless that stands inside another one. -/
theorem Mirrors.push {place : StringPlace} {content u : Bytes} {c : Char}
    (h : Mirrors place (behind? .start t) (behind? .start content)) (hu : Spelling u c) (hb : b.toNat < 0x80) :
    Mirrors .plain (behind? .start (t ++ [b])) (behind? .start (content ++ u)) := by
  cases hcontent : behind? .start content with
  | none =>
    rw [behind?_append .start content, hcontent]
    trivial
  | some state =>
    rw [hcontent] at h
    cases state with
    | start =>
      rw [show behind? .start (content ++ u) = _ from Valid.append hcontent hu.valid]
      exact valid_snoc h hb
    | inside later value low high =>
      rw [hu.behind?_append hcontent]
      trivial

/-- Outside of escapes, the content grows with the text. -/
theorem Mirrors.both {content u : Bytes} (h : Mirrors .plain (behind? .start t) (behind? .start content)) :
    Mirrors .plain (behind? .start (t ++ u)) (behind? .start (content ++ u)) := by
  rw [behind?_append, behind?_append]
  cases hcontent : behind? .start content with
  | none => trivial
  | some state =>
    rw [hcontent] at h
    have hsame : behind? .start t = some state := by
      cases state with
      | start => exact h
      | inside later value low high => exact h.resolve_left fun hplace => hplace rfl
    rw [hsame]
    exact Mirrors.refl .plain rfl

theorem Mirrors.codeUnit {place place' : StringPlace} {content content' : Bytes} {lead : Option Nat} {unit : Nat}
    (h : Mirrors place (behind? .start t) (behind? .start content.reverse)) (hb : b.toNat < 0x80)
    (hunit : codeUnit? lead unit content = some (place', content')) :
    Mirrors place' (behind? .start (t ++ [b])) (behind? .start content'.reverse) := by
  have hpush : ∀ c, Mirrors .plain (behind? .start (t ++ [b]))
      (behind? .start ((String.utf8EncodeChar c).reverse ++ content).reverse) := by
    intro c
    rw [List.reverse_append, List.reverse_reverse]
    exact h.push (spelling_encode c) hb
  unfold codeUnit? at hunit
  simp only at hunit
  split at hunit
  · split at hunit
    · cases hunit
      exact hpush _
    · cases hunit
  · split at hunit
    · cases hunit
    · split at hunit
      · cases hunit
        exact h.keep (fun hplace => by cases hplace) hb
      · cases hunit
        exact hpush _

theorem Mirrors.step {place place' : StringPlace} {content content' : Bytes}
    (h : Mirrors place (behind? .start t) (behind? .start content.reverse))
    (hstep : stringStep? place content b = some (place', content')) :
    Mirrors place' (behind? .start (t ++ [b])) (behind? .start content'.reverse) := by
  unfold stringStep? at hstep
  cases place with
  | plain =>
    simp only at hstep
    split at hstep
    · rename_i hb
      cases hstep
      subst hb
      exact h.keep (fun hplace => by cases hplace) (by decide)
    · split at hstep
      · cases hstep
      · cases hstep
        rw [List.reverse_cons]
        exact h.both
  | escape =>
    simp only at hstep
    split at hstep
    · rename_i hb
      cases hstep
      subst hb
      exact h.keep (fun hplace => by cases hplace) (by decide)
    · obtain ⟨e, he, heq⟩ := Option.map_eq_some_iff.1 hstep
      cases heq
      obtain ⟨hb, hascii⟩ := escaped_ascii he
      rw [List.reverse_cons]
      exact h.push (.one hascii) hb
  | code missing value lead =>
    simp only at hstep
    split at hstep
    · cases hstep
    · rename_i d hd
      split at hstep
      · exact h.codeUnit (hexDigit_ascii hd) hstep
      · cases hstep
        exact h.keep (fun hplace => by cases hplace) (hexDigit_ascii hd)
  | lead surrogate =>
    simp only at hstep
    split at hstep
    · rename_i hb
      cases hstep
      subst hb
      exact h.keep (fun hplace => by cases hplace) (by decide)
    · cases hstep
  | leadEscape surrogate =>
    simp only at hstep
    split at hstep
    · rename_i hb
      cases hstep
      subst hb
      exact h.keep (fun hplace => by cases hplace) (by decide)
    · cases hstep

/-! ## One byte -/

/-- One byte is told from all others: it is ASCII, so the text goes on with UTF-8. -/
theorem reads_if {c : UInt8} {now later : Option Reader} {r : Reader} (hc : c.toNat < 0x80) (h : Valid t)
    (hstep : (if b = c then now else later) = some r) (hnow : Valid (t ++ [b]) → now = some r → Reads (t ++ [b]) r)
    (hlater : later = some r → Reads (t ++ [b]) r) : Reads (t ++ [b]) r := by
  split at hstep
  · rename_i hb
    subst hb
    exact hnow (valid_snoc h hc) hstep
  · exact hlater hstep

/-- Blanks are told from all other bytes. -/
theorem reads_unlessBlank {now r : Reader} {later : Option Reader} (h : Valid t)
    (hstep : (if isBlank b then some now else later) = some r) (hnow : Valid (t ++ [b]) → Reads (t ++ [b]) now)
    (hlater : later = some r → Reads (t ++ [b]) r) : Reads (t ++ [b]) r := by
  split at hstep
  · rename_i hb
    cases hstep
    exact hnow (valid_snoc h (isBlank_ascii hb))
  · exact hlater hstep

theorem reads_beginValue {r : Reader} (h : Valid t) (hbegin : beginValue? frames b = some r) : Reads (t ++ [b]) r := by
  unfold beginValue? at hbegin
  refine reads_if (by decide) h hbegin ?_ fun hbegin => reads_if (by decide) h hbegin ?_ fun hbegin =>
    reads_if (by decide) h hbegin ?_ fun hbegin => reads_if (by decide) h hbegin ?_ fun hbegin =>
    reads_if (by decide) h hbegin ?_ fun hbegin => reads_if (by decide) h hbegin ?_ fun hbegin => ?_
  · intro hvalid hr
    cases hr
    exact hvalid
  -- a bracket, where the limit allows one more
  · intro hvalid hr
    split at hr <;> cases hr
    exact hvalid
  · intro hvalid hr
    split at hr <;> cases hr
    exact hvalid
  -- a word, whose other letters are ASCII
  · intro hvalid hr
    cases hr
    exact ⟨hvalid, by simp⟩
  · intro hvalid hr
    cases hr
    exact ⟨hvalid, by simp⟩
  · intro hvalid hr
    cases hr
    exact ⟨hvalid, by simp⟩
  · obtain ⟨n, hn, rfl⟩ := Option.map_eq_some_iff.1 hbegin
    exact valid_snoc h (start_ascii hn)

theorem reads_closeArray {r : Reader} (h : Valid t) (hclose : closeArray? frames = some r) : Reads t r := by
  unfold closeArray? at hclose
  split at hclose
  · cases hclose
    exact reads_deliver h _ _
  · cases hclose

theorem reads_closeObject {r : Reader} (h : Valid t) (hclose : closeObject? frames = some r) : Reads t r := by
  unfold closeObject? at hclose
  split at hclose
  · cases hclose
    exact reads_deliver h _ _
  · cases hclose

theorem reads_comma {r : Reader} (h : Valid t) (hcomma : comma? frames = some r) : Reads t r := by
  unfold comma? at hcomma
  split at hcomma <;> cases hcomma <;> exact h

theorem Reads.plainStep {r r' : Reader} (h : Reads t r) (hstep : plainStep? r b = some r') : Reads (t ++ [b]) r' := by
  obtain ⟨frames, mode⟩ := r
  unfold plainStep? at hstep
  cases mode with
  | value => exact reads_unlessBlank h hstep id (reads_beginValue h)
  | firstItem =>
    refine reads_unlessBlank h hstep id fun hstep => reads_if (by decide) h hstep ?_ (reads_beginValue h)
    exact reads_closeArray
  | firstKey =>
    refine reads_unlessBlank h hstep id fun hstep => reads_if (by decide) h hstep ?_ fun hstep =>
      reads_if (by decide) h hstep ?_ fun hstep => ?_
    · exact reads_closeObject
    · intro hvalid hr
      cases hr
      exact hvalid
    · cases hstep
  | nextKey =>
    refine reads_unlessBlank h hstep id fun hstep => reads_if (by decide) h hstep ?_ fun hstep => ?_
    · intro hvalid hr
      cases hr
      exact hvalid
    · cases hstep
  | colon =>
    refine reads_unlessBlank h hstep id fun hstep => reads_if (by decide) h hstep ?_ fun hstep => ?_
    · intro hvalid hr
      cases hr
      exact hvalid
    · cases hstep
  | afterValue =>
    refine reads_unlessBlank h hstep id fun hstep => reads_if (by decide) h hstep ?_ fun hstep =>
      reads_if (by decide) h hstep ?_ fun hstep => reads_if (by decide) h hstep ?_ fun hstep => ?_
    · exact reads_comma
    · exact reads_closeArray
    · exact reads_closeObject
    · cases hstep
  | string isKey place content =>
    simp only at hstep
    split at hstep
    · rename_i hquote
      obtain ⟨rfl, rfl⟩ := hquote
      obtain ⟨text, htext, rfl⟩ := Option.map_eq_some_iff.1 hstep
      -- the content is UTF-8, and so is the text up to the quote
      have hcontent : behind? .start content.reverse = some .start := valid_iff.2 ⟨text, decode?_eq_some_iff.1 htext⟩
      have htext : Valid t := by
        have h' : Mirrors .plain (behind? .start t) (behind? .start content.reverse) := h
        rw [hcontent] at h'
        exact h'
      have hvalid := valid_snoc htext (b := 0x22) (by decide)
      split
      · exact reads_deliverKey hvalid _ _
      · exact reads_deliver hvalid _ _
    · obtain ⟨⟨place', content'⟩, hnext, rfl⟩ := Option.map_eq_some_iff.1 hstep
      exact Mirrors.step h hnext
  | word missing value =>
    obtain ⟨hvalid, hmissing⟩ := h
    simp only at hstep
    split at hstep
    · cases hstep
    · rename_i expected rest
      split at hstep
      · rename_i hb
        subst hb
        have hvalid' := valid_snoc hvalid (hmissing b (List.mem_cons_self ..))
        split at hstep
        · cases hstep
          exact reads_deliver hvalid' _ _
        · cases hstep
          exact ⟨hvalid', fun x hx => hmissing x (List.mem_cons_of_mem _ hx)⟩
      · cases hstep
  | number literal => cases hstep
  | done value => exact reads_unlessBlank h hstep id fun hstep => by cases hstep

theorem Reads.step {r r' : Reader} (h : Reads t r) (hstep : r.step b = .ok r') : Reads (t ++ [b]) r' := by
  unfold Reader.step at hstep
  simp only at hstep
  split at hstep
  · rename_i literal hmode
    have hvalid : Valid t := by
      unfold Reads at h
      rw [hmode] at h
      exact h
    split at hstep
    · cases hstep
      exact valid_snoc hvalid (next_ascii ‹_›)
    · cases hstep
    · split at hstep
      · -- the number is delivered, and the byte is read behind it
        split at hstep
        · cases hstep
          exact (reads_deliver hvalid _ _).plainStep ‹_›
        · cases hstep
      · cases hstep
  · split at hstep
    · cases hstep
      exact h.plainStep ‹_›
    · cases hstep

theorem Reads.run {r r' : Reader} {u : Bytes} (h : Reads t r) (hrun : r.run u = .ok r') : Reads (t ++ u) r' := by
  induction u generalizing t r with
  | nil =>
    cases hrun
    rw [List.append_nil]
    exact h
  | cons b u ih =>
    rw [Reader.run] at hrun
    split at hrun
    · rename_i next hnext
      rw [← List.singleton_append, ← List.append_assoc]
      exact ih (h.step hnext) hrun
    · cases hrun

/-- A text that is read to its end is UTF-8. -/
theorem valid_of_run {text : Bytes} {r : Reader} {value : Json} (hrun : initial.run text = .ok r)
    (hfinished : r.finished? = some value) : Valid text := by
  have h : Reads [] initial := show Valid [] from rfl
  have h' := h.run hrun
  rw [List.nil_append] at h'
  unfold finished? at hfinished
  unfold Reads at h'
  split at hfinished
  · rename_i hmode
    rw [hmode] at h'
    exact h'
  · rename_i hmode
    rw [hmode] at h'
    exact h'
  · cases hfinished

end Verdicts.Json.Reader
