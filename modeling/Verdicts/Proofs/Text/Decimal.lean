/-
Decimal digits. Digits denote a number whatever zeros stand in front (`Digits`); a run of digits is read as the number that
it denotes, with or without a plus sign, as long as that is below the limit: `unsigned?_eq_some_iff`. Blanks around the
digits are cut off first: `denotes_iff`.
-/
import Mathlib.Data.List.DropRight
import Verdicts.Text.Blank
import Verdicts.Text.Decimal

namespace Verdicts

/-! ## White space at the ends -/

namespace Text

/-- Cutting the blanks off a text leaves blanks behind on either side. -/
theorem exists_trim (text : List Char) : ∃ before behind, text = before ++ trim text ++ behind ∧
    (∀ c ∈ before, isBlank c = true) ∧ ∀ c ∈ behind, isBlank c = true := by
  have hback : trim text = (text.dropWhile isBlank).rdropWhile isBlank := rfl
  refine ⟨text.takeWhile isBlank, (text.dropWhile isBlank).rtakeWhile isBlank, ?_,
    fun c hc => List.mem_takeWhile_imp hc, fun c hc => List.mem_rtakeWhile_imp hc⟩
  rw [hback, List.append_assoc, List.rdropWhile_append_rtakeWhile, List.takeWhile_append_dropWhile]

theorem trim_append {before text behind : List Char} (hbefore : ∀ c ∈ before, isBlank c = true)
    (hbehind : ∀ c ∈ behind, isBlank c = true) (hne : text ≠ []) (hfirst : isBlank (text.head hne) = false)
    (hlast : isBlank (text.getLast hne) = false) : trim (before ++ text ++ behind) = text := by
  have hfront : trimFront (before ++ text ++ behind) = text ++ behind := by
    cases text with
    | nil => exact absurd rfl hne
    | cons c rest =>
      rw [trimFront, List.append_assoc, List.dropWhile_append_of_pos hbefore, List.cons_append, List.dropWhile_cons_of_neg]
      rw [show isBlank c = false from hfirst]
      exact Bool.false_ne_true
  have hback : trimBack (text ++ behind) = (text ++ behind).rdropWhile isBlank := rfl
  rw [trim, hfront, hback, List.rdropWhile, List.reverse_append,
    List.dropWhile_append_of_pos fun c hc => hbehind c (List.mem_reverse.1 hc)]
  refine List.rdropWhile_eq_self_iff.2 fun _ => ?_
  rw [hlast]
  exact Bool.false_ne_true

/-- A text that neither begins nor ends with a blank. -/
theorem trim_eq_self {text : List Char} (hne : text ≠ []) (hfirst : isBlank (text.head hne) = false)
    (hlast : isBlank (text.getLast hne) = false) : trim text = text := by
  have hnone : ∀ c ∈ ([] : List Char), isBlank c = true := fun _ hc => absurd hc List.not_mem_nil
  have h := trim_append hnone hnone hne hfirst hlast
  rwa [List.nil_append, List.append_nil] at h

theorem isBlank_of_isDigit {c : Char} (h : c.isDigit = true) : isBlank c = false := by
  have hrange : 48 ≤ c.toNat ∧ c.toNat ≤ 57 := by
    unfold Char.isDigit at h
    rw [Bool.and_eq_true, decide_eq_true_eq, decide_eq_true_eq] at h
    exact ⟨UInt32.le_iff_toNat_le.1 h.1, UInt32.le_iff_toNat_le.1 h.2⟩
  unfold isBlank
  simp
  omega

end Text

namespace Decimal

/-! ## What digits denote -/

/-- The text is one ASCII digit or more, and they denote the number in base ten. -/
def Digits (n : Nat) (text : List Char) : Prop :=
  text ≠ [] ∧ (∀ c ∈ text, c.isDigit = true) ∧ Nat.ofDigitChars 10 text 0 = n

theorem Digits.unique {m n : Nat} {text : List Char} (h : Digits m text) (h' : Digits n text) : m = n :=
  h.2.2.symm.trans h'.2.2

theorem digits_toDigits (n : Nat) : Digits n (Nat.toDigits 10 n) :=
  ⟨Nat.toDigits_ne_nil, fun _ hc => Nat.isDigit_of_mem_toDigits (by decide) (by decide) hc, Nat.ofDigitChars_ten_toDigits⟩

theorem toDigits_injective {m n : Nat} (h : Nat.toDigits 10 m = Nat.toDigits 10 n) : m = n := by
  have hm := digits_toDigits m
  rw [h] at hm
  exact hm.unique (digits_toDigits n)

/-! ## Reading -/

theorem value_eq (text : List Char) : value text = Nat.ofDigitChars 10 text 0 := by
  rw [Nat.ofDigitChars_eq_foldl, value]
  congr 1
  funext n c
  rw [snoc, digitValue, Nat.mul_comm]

theorem digits?_eq_some_iff {n : Nat} {text : List Char} : digits? text = some n ↔ Digits n text := by
  unfold digits? Digits
  rw [Option.ite_none_right_eq_some, Option.some.injEq, value_eq, List.all_eq_true, and_assoc]

theorem value_toDigits (n : Nat) : value (Nat.toDigits 10 n) = n := by
  rw [value_eq, Nat.ofDigitChars_ten_toDigits]

/-- Digits behind a sign that does not matter: a plus sign or none. -/
def Unsigned (n : Nat) (text : List Char) : Prop := Digits n text ∨ ∃ digits, text = '+' :: digits ∧ Digits n digits

theorem unsigned?_plus (limit : Nat) (digits : List Char) :
    unsigned? limit ('+' :: digits) = (digits? digits).filter (· < limit) := by
  unfold unsigned?
  simp only
  cases digits? digits with
  | none => rfl
  | some n => simp only [Option.filter_some, decide_eq_true_eq]

theorem unsigned?_of_ne {text : List Char} (h : ∀ digits, text ≠ '+' :: digits) (limit : Nat) :
    unsigned? limit text = (digits? text).filter (· < limit) := by
  unfold unsigned?
  simp only
  cases digits? text with
  | none => rfl
  | some n => simp only [Option.filter_some, decide_eq_true_eq]

theorem unsigned?_eq_some_iff {limit n : Nat} {text : List Char} :
    unsigned? limit text = some n ↔ Unsigned n text ∧ n < limit := by
  have hdigits : ∀ digits, (digits? digits).filter (· < limit) = some n ↔ Digits n digits ∧ n < limit := by
    intro digits
    rw [Option.filter_eq_some_iff, digits?_eq_some_iff, decide_eq_true_eq]
  by_cases hsign : ∃ digits, text = '+' :: digits
  · obtain ⟨digits, rfl⟩ := hsign
    have hplus : ¬ Digits n ('+' :: digits) := fun h => absurd (h.2.1 '+' List.mem_cons_self) (by decide)
    rw [unsigned?_plus, hdigits]
    simp [Unsigned, hplus]
  · have hnone : ¬ ∃ digits, text = '+' :: digits ∧ Digits n digits := by
      rintro ⟨digits, heq, -⟩
      exact hsign ⟨digits, heq⟩
    rw [unsigned?_of_ne (not_exists.1 hsign), hdigits, Unsigned, or_iff_left hnone]

/-! ## Blanks around digits -/

/-- The text denotes the number: by decimal digits with any zeros in front, a plus sign or none, and any blanks around. -/
def Denotes (n : Nat) (text : List Char) : Prop :=
  ∃ before sign digits behind, text = before ++ (sign ++ digits) ++ behind ∧ (∀ c ∈ before, Text.isBlank c = true) ∧
    (∀ c ∈ behind, Text.isBlank c = true) ∧ (sign = [] ∨ sign = ['+']) ∧ Digits n digits

theorem unsigned_iff {n : Nat} {text : List Char} :
    Unsigned n text ↔ ∃ sign digits, text = sign ++ digits ∧ (sign = [] ∨ sign = ['+']) ∧ Digits n digits := by
  constructor
  · rintro (h | ⟨digits, rfl, h⟩)
    · exact ⟨[], text, rfl, .inl rfl, h⟩
    · exact ⟨['+'], digits, rfl, .inr rfl, h⟩
  · rintro ⟨sign, digits, rfl, rfl | rfl, h⟩
    · exact .inl h
    · exact .inr ⟨digits, rfl, h⟩

theorem denotes_iff {n : Nat} {text : List Char} : Denotes n text ↔ Unsigned n (Text.trim text) := by
  rw [unsigned_iff]
  constructor
  · rintro ⟨before, sign, digits, behind, rfl, hbefore, hbehind, hsign, hdigits⟩
    have hplain : ∀ c ∈ sign ++ digits, Text.isBlank c = false := by
      intro c hc
      rcases List.mem_append.1 hc with hc | hc
      · rcases hsign with rfl | rfl
        · cases hc
        · rw [List.mem_singleton.1 hc]
          decide
      · exact Text.isBlank_of_isDigit (hdigits.2.1 c hc)
    have hne : sign ++ digits ≠ [] := List.append_ne_nil_of_right_ne_nil _ hdigits.1
    exact ⟨sign, digits, Text.trim_append hbefore hbehind hne (hplain _ (List.head_mem hne)) (hplain _ (List.getLast_mem hne)),
      hsign, hdigits⟩
  · rintro ⟨sign, digits, heq, hsign, hdigits⟩
    obtain ⟨before, behind, htext, hbefore, hbehind⟩ := Text.exists_trim text
    rw [heq] at htext
    exact ⟨before, sign, digits, behind, htext, hbefore, hbehind, hsign, hdigits⟩

theorem Denotes.unique {m n : Nat} {text : List Char} (h : Denotes m text) (h' : Denotes n text) : m = n := by
  rw [denotes_iff] at h h'
  rcases h with h | ⟨digits, heq, h⟩ <;> rcases h' with h' | ⟨digits', heq', h'⟩
  · exact h.unique h'
  · rw [heq'] at h
    exact absurd (h.2.1 '+' List.mem_cons_self) (by decide)
  · rw [heq] at h'
    exact absurd (h'.2.1 '+' List.mem_cons_self) (by decide)
  · obtain rfl : digits = digits' := List.tail_eq_of_cons_eq (heq.symm.trans heq')
    exact h.unique h'

/-! ## Writing -/

/-- Ten times the number has one more digit. -/
theorem toDigits_mul_pow {n : Nat} (hn : 0 < n) (places : Nat) :
    Nat.toDigits 10 (n * Nat.pow 10 places) = Nat.toDigits 10 n ++ List.replicate places '0' := by
  induction places with
  | zero => simp
  | succ places ih =>
    have hpos : 0 < n * Nat.pow 10 places := Nat.mul_pos hn (Nat.pow_pos (by decide))
    have hnext := Nat.toDigits_append_toDigits (b := 10) (d := 0) (by decide) hpos (by decide)
    rw [Nat.toDigits_zero, Nat.add_zero, ih, List.append_assoc, ← List.replicate_succ'] at hnext
    rw [hnext, show Nat.pow 10 (places + 1) = Nat.pow 10 places * 10 from rfl, ← Nat.mul_assoc, Nat.mul_comm 10]

end Decimal

end Verdicts
