/-
Natural numbers as doubles. From `2 ^ 63` up to `2 ^ 64` the doubles are the multiples of `2 ^ 11`, so a number there is
kept if it is one of them and rounded to the nearest otherwise; its text with a fixed count of places has all the digits
of that multiple. Main statement: `RealText.exists_real?_repr`.
-/
import Mathlib.Data.List.TakeDrop
import Verdicts.Number.Fixed
import Verdicts.Number.RealText
import Verdicts.Proofs.Text.Decimal

namespace Verdicts

namespace Binary64

/-! ## Rounding -/

theorem roundDiv_bounds (num den : Nat) : num / den ≤ roundDiv num den ∧ roundDiv num den ≤ num / den + 1 := by
  unfold roundDiv
  simp only
  split
  · exact ⟨Nat.le_refl _, Nat.le_succ _⟩
  · split
    · exact ⟨Nat.le_succ _, Nat.le_refl _⟩
    · split
      · exact ⟨Nat.le_refl _, Nat.le_succ _⟩
      · exact ⟨Nat.le_succ _, Nat.le_refl _⟩

theorem roundDiv_mul {den : Nat} (h : 0 < den) (n : Nat) : roundDiv (n * den) den = n := by
  unfold roundDiv
  rw [Nat.mul_mod_left, Nat.mul_div_cancel _ h]
  simp only [Nat.mul_zero, if_pos h]

theorem roundDiv_one (n : Nat) : roundDiv n 1 = n := by
  have h := roundDiv_mul Nat.one_pos n
  rwa [Nat.mul_one] at h

/-- The distance of the doubles from `2 ^ 63` up to `2 ^ 64`. -/
def gap : Nat := 1 <<< 11

/-- The multiple of the distance that is nearest to a number, a half going to the even one. -/
def nearest (n : Nat) : Nat := roundDiv n gap * gap

theorem gap_pos : 0 < gap := by decide

theorem nearest_eq_iff {n : Nat} : nearest n = n ↔ gap ∣ n := by
  constructor
  · intro h
    exact ⟨roundDiv n gap, by rw [Nat.mul_comm]; exact h.symm⟩
  · rintro ⟨m, rfl⟩
    rw [nearest, Nat.mul_comm gap, roundDiv_mul gap_pos]

variable {n : Nat}

theorem binade_eq (h : 1 <<< 63 ≤ n) (h' : n < 1 <<< 64) : binade n 1 = 63 := by
  have hlog : n.log2 = 63 := (Nat.log2_eq_iff (by omega)).2 ⟨h, h'⟩
  have hle : powerLe 2 63 n 1 = true := decide_eq_true h
  unfold binade
  rw [hlog]
  simp only [show Nat.log2 1 = 0 by decide]
  exact if_pos hle

theorem ofRounded_of_ne {negative : Bool} {significand : Nat} {exponent : Int} (h : significand ≠ 1 <<< 53)
    (hexponent : exponent ≤ greatestExponent) : ofRounded negative significand exponent = .finite negative significand exponent := by
  unfold ofRounded
  simp only [h, if_false]
  rw [if_neg (Int.not_lt.2 hexponent)]

/-- The double nearest to a number with 64 digits in base two. -/
theorem exists_ofRatio (h : 1 <<< 63 ≤ n) (h' : n < 1 <<< 64) :
    ∃ significand exponent, ofRatio false n 1 = .finite false significand exponent ∧
      ratio significand exponent = (nearest n, 1) := by
  have hne : n ≠ 0 := by
    rintro rfl
    exact absurd h (by decide)
  have hrounded : ofRatio false n 1 = ofRounded false (roundDiv n gap) 11 := by
    unfold ofRatio
    rw [if_neg hne, binade_eq h h', show max (63 - 52) leastExponent = 11 by decide]
    rfl
  rw [hrounded]
  by_cases hcarry : roundDiv n gap = 1 <<< 53
  -- a carry gives `2 ^ 52` of twice the distance
  · rw [hcarry]
    refine ⟨1 <<< 52, 12, rfl, ?_⟩
    rw [nearest, hcarry]
    rfl
  · exact ⟨roundDiv n gap, 11, ofRounded_of_ne hcarry (by decide), rfl⟩

theorem nearest_pos (h : 1 <<< 63 ≤ n) : 0 < nearest n := by
  have hdiv : 0 < n / gap := Nat.div_pos (Nat.le_trans (by decide) h) gap_pos
  exact Nat.mul_pos (Nat.lt_of_lt_of_le hdiv (roundDiv_bounds n gap).1) gap_pos

/-! ## Texts with a fixed count of places -/

/-- The places behind the digits of a number that has no fraction. -/
def noFraction (places : Nat) : List Char := if places = 0 then [] else '.' :: List.replicate places '0'

theorem pointed_zeros {digits : List Char} (h : digits ≠ []) (places : Nat) :
    pointed places (digits ++ List.replicate places '0') = digits ++ noFraction places := by
  have hlength : 0 < digits.length := List.length_pos_iff.2 h
  have hfull : places + 1 - (digits ++ List.replicate places '0').length = 0 := by
    rw [List.length_append, List.length_replicate]
    omega
  unfold pointed noFraction
  simp only [hfull, List.replicate_zero, List.nil_append]
  split
  · rename_i hzero
    rw [hzero, List.replicate_zero]
  · simp [List.length_append]

theorem fixedText_natural {negative : Bool} {significand : Nat} {exponent : Int} {whole : Nat} (hpos : 0 < whole)
    (h : ratio significand exponent = (whole, 1)) (places : Nat) :
    (finite negative significand exponent).fixedText places =
      (if negative then "-" else "") ++ String.ofList (Nat.toDigits 10 whole ++ noFraction places) := by
  unfold fixedText
  simp only [h]
  rw [roundDiv_one, Decimal.toDigits_mul_pow hpos, pointed_zeros Nat.toDigits_ne_nil]

theorem fixedText_zero (negative : Bool) (places : Nat) :
    (zero negative).fixedText places = (if negative then "-" else "") ++ String.ofList ('0' :: noFraction places) := by
  have hunits : roundDiv ((ratio 0 leastExponent).1 * Nat.pow 10 places) (ratio 0 leastExponent).2 = 0 := by
    have hden : 0 < (ratio 0 leastExponent).2 := by decide +kernel
    have hround := roundDiv_mul hden 0
    rw [Nat.zero_mul] at hround
    rw [show (ratio 0 leastExponent).1 = 0 by decide +kernel, Nat.zero_mul, hround]
  have hpointed : pointed places ['0'] = '0' :: noFraction places := by
    have hsame : pointed places ['0'] = pointed places (['0'] ++ List.replicate places '0') := by
      have hzeros : List.replicate places '0' ++ ['0'] = ['0'] ++ List.replicate places '0' :=
        List.replicate_succ'.symm
      unfold pointed
      simp only [List.length_append, List.length_replicate, List.length_singleton, Nat.add_sub_cancel, Nat.add_comm 1,
        Nat.sub_self, List.replicate_zero, List.nil_append, hzeros]
    rw [hsame, pointed_zeros (List.cons_ne_nil _ _)]
    rfl
  rw [zero, fixedText]
  simp only [hunits]
  rw [Nat.toDigits_zero, hpointed]

end Binary64

/-! ## Reading digits -/

namespace RealText

open Binary64 (ofRatio)

variable {n : Nat}

theorem ofDecimal_natural (hn : 0 < n) (h : n < 1 <<< 64) : Binary64.ofDecimal false n 0 = ofRatio false n 1 := by
  have hcount : Binary64.digitCount n ≤ 20 :=
    (Nat.length_toDigits_le_iff (by decide) (by decide)).2 (Nat.lt_trans h (by decide))
  unfold Binary64.ofDecimal
  simp only [Int.add_zero]
  rw [if_neg (Nat.ne_of_gt hn), if_neg (by omega), if_neg (by omega)]
  rfl

theorem span_eq_self {p : Char → Bool} {text : List Char} (h : ∀ c ∈ text, p c = true) : text.span p = (text, []) := by
  rw [List.span_eq_takeWhile_dropWhile, List.takeWhile_eq_self_iff.2 h, List.dropWhile_eq_nil_iff.2 h]

theorem toLower_digit {c : Char} (h : c.isDigit = true) : c.toLower = c := by
  unfold Char.isDigit at h
  rw [Bool.and_eq_true, decide_eq_true_eq, decide_eq_true_eq] at h
  have hupper : ¬(c.val ≥ 'A'.val ∧ c.val ≤ 'Z'.val) := by
    rintro ⟨hge, -⟩
    exact absurd (UInt32.le_trans hge h.2) (by decide)
  exact dif_neg hupper

/-- Digits are neither a sign nor a word. -/
theorem number?_digits {digits : List Char} (hne : digits ≠ []) (hdigits : ∀ c ∈ digits, c.isDigit = true) :
    number? digits = some (Binary64.ofDecimal false (Decimal.value digits) 0) := by
  obtain ⟨c, rest, rfl⟩ := List.exists_cons_of_ne_nil hne
  have hc : c.isDigit = true := hdigits c List.mem_cons_self
  have hsign : takeSign (c :: rest) = (false, c :: rest) := by
    unfold takeSign
    split
    · rename_i heq
      rw [(List.cons.inj heq).1] at hc
      exact absurd hc (by decide)
    · rename_i heq
      rw [(List.cons.inj heq).1] at hc
      exact absurd hc (by decide)
    · rfl
  have hword : ∀ (letter : Char) (letters : List Char), letter.isDigit = false →
      String.ofList ((c :: rest).map Char.toLower) ≠ String.ofList (letter :: letters) := by
    intro letter letters hletter heq
    rw [List.map_cons, toLower_digit hc, String.ofList_inj] at heq
    rw [(List.cons.inj heq).1, hletter] at hc
    cases hc
  unfold number?
  rw [hsign]
  simp only
  rw [if_neg (not_or.2 ⟨hword 'i' ['n', 'f'] rfl, hword 'i' ['n', 'f', 'i', 'n', 'i', 't', 'y'] rfl⟩),
    if_neg (hword 'n' ['a', 'n'] rfl)]
  unfold magnitude? takeDigits
  rw [span_eq_self hdigits]
  simp [power?]

theorem real?_repr (hn : 0 < n) (h : n < 1 <<< 64) : real? (Nat.repr n) = some (ofRatio false n 1) := by
  obtain ⟨hne, hdigits, -⟩ := Decimal.digits_toDigits n
  have hplain : ∀ c ∈ Nat.toDigits 10 n, Text.isBlank c = false := fun c hc => Text.isBlank_of_isDigit (hdigits c hc)
  have htrim : Text.trim (Nat.toDigits 10 n) = Nat.toDigits 10 n :=
    Text.trim_eq_self hne (hplain _ (List.head_mem hne)) (hplain _ (List.getLast_mem hne))
  have hsplit : splitSlash? (Nat.toDigits 10 n) = none := by
    unfold splitSlash?
    rw [span_eq_self]
    intro c hc
    refine decide_eq_true ?_
    rintro rfl
    exact absurd (hdigits _ hc) (by decide)
  unfold real?
  rw [Nat.toList_repr, htrim]
  simp only [hsplit]
  rw [number?_digits hne hdigits, Decimal.value_toDigits, ofDecimal_natural hn h]

/-- The text of a number with 64 digits in base two denotes the double that is nearest, and that is shown with all its
digits. -/
theorem exists_real?_repr (h : 1 <<< 63 ≤ n) (h' : n < 1 <<< 64) : ∃ x, real? (Nat.repr n) = some x ∧
    ∀ places, x.fixedText places =
      String.ofList (Nat.toDigits 10 (Binary64.nearest n) ++ Binary64.noFraction places) := by
  obtain ⟨significand, exponent, hround, hratio⟩ := Binary64.exists_ofRatio h h'
  refine ⟨ofRatio false n 1, real?_repr (Nat.lt_of_lt_of_le (by decide) h) h', fun places => ?_⟩
  rw [hround, Binary64.fixedText_natural (Binary64.nearest_pos h) hratio]
  exact String.empty_append

end RealText

end Verdicts
