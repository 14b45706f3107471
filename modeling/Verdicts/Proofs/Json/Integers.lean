/-
Integers as JSON writes them. A literal without fraction and exponent is the digits of a natural number, behind a minus
sign or none (`isInteger_iff`). It is read as that integer where 64 bits hold it, and as a double otherwise; so is the
zero behind a minus sign.
-/
import Mathlib.Data.List.Induction
import Mathlib.Data.Nat.Digits.Defs
import Verdicts.Proofs.Json.Spelling

namespace Verdicts.Json

/-- The bytes of a natural number, without needless zeros. -/
def natural (n : Nat) : Bytes := (Nat.toDigits 10 n).flatMap String.utf8EncodeChar

/-- The bytes of an integer, by its sign and its magnitude. -/
def integer (negative : Bool) (magnitude : Nat) : Bytes := (if negative then [0x2D] else []) ++ natural magnitude

/-! ## Which literals these are -/

/-- A number of the grammar that has neither a fraction nor an exponent. -/
def IsInteger (t : Bytes) : Prop :=
  ∃ sign whole, (sign = [] ∨ sign = [0x2D]) ∧ Grammar.Whole whole ∧ t = sign ++ whole

theorem natural_digit {d : Nat} (h : d < 10) : natural d = [UInt8.ofNat (0x30 + d)] := by
  have hall : ∀ d < 10, natural d = [UInt8.ofNat (0x30 + d)] := by decide
  exact hall d h

/-- The last digit stands behind the others. -/
theorem natural_snoc {n d : Nat} (hn : 0 < n) (hd : d < 10) :
    natural (10 * n + d) = natural n ++ [UInt8.ofNat (0x30 + d)] := by
  rw [← natural_digit hd, natural, ← Nat.toDigits_append_toDigits (by decide) hn hd, List.flatMap_append]
  rfl

/-- Numbers by their digits: a positive number is a digit, or a positive number with one more digit. -/
theorem positive_cases {motive : (n : Nat) → 0 < n → Prop} (digit : ∀ d (hpos : 0 < d), d < 10 → motive d hpos)
    (snoc : ∀ n d (hn : 0 < n), d < 10 → motive n hn → motive (10 * n + d) (by omega)) (n : Nat) (hn : 0 < n) :
    motive n hn := by
  induction n using Nat.strongRecOn with
  | ind n ih =>
    by_cases hlt : n < 10
    · exact digit n hn hlt
    · have hdiv : 0 < n / 10 := Nat.div_pos (Nat.le_of_not_lt hlt) (by decide)
      have h := snoc (n / 10) (n % 10) hdiv (Nat.mod_lt n (by decide)) (ih (n / 10) (by omega) hdiv)
      simpa only [Nat.div_add_mod] using h

theorem isDigit_ofNat {d : Nat} (h : d < 10) : Grammar.IsDigit (UInt8.ofNat (0x30 + d)) := by
  have hall : ∀ d < 10, 0x30 ≤ UInt8.ofNat (0x30 + d) ∧ UInt8.ofNat (0x30 + d) ≤ 0x39 := by decide
  exact hall d h

theorem exists_ofNat_of_isDigit {b : UInt8} (h : Grammar.IsDigit b) : ∃ d < 10, b = UInt8.ofNat (0x30 + d) := by
  unfold Grammar.IsDigit at h
  rw [UInt8.le_iff_toNat_le, UInt8.le_iff_toNat_le] at h
  simp only [UInt8.reduceToNat] at h
  refine ⟨b.toNat - 0x30, by omega, ?_⟩
  rw [Nat.add_sub_cancel' h.1, UInt8.ofNat_toNat]

theorem head?_snoc {t : Bytes} (h : t ≠ []) (b : UInt8) : (t ++ [b]).head? = t.head? := by
  cases t with
  | nil => exact absurd rfl h
  | cons c t => rfl

theorem digits_natural {n : Nat} (hn : 0 < n) : Grammar.Digits (natural n) ∧ (natural n).head? ≠ some 0x30 := by
  induction n, hn using positive_cases with
  | digit d hpos hd =>
    have hall : ∀ d < 10, 0 < d → UInt8.ofNat (0x30 + d) ≠ 0x30 := by decide
    rw [natural_digit hd]
    refine ⟨⟨List.cons_ne_nil _ _, fun b hb => ?_⟩, fun h => hall d hd hpos (Option.some.inj h)⟩
    rw [List.mem_singleton.1 hb]
    exact isDigit_ofNat hd
  | snoc n d hn hd ih =>
    obtain ⟨⟨hne, hdigits⟩, hhead⟩ := ih
    rw [natural_snoc hn hd]
    refine ⟨⟨List.append_ne_nil_of_left_ne_nil hne _, fun b hb => ?_⟩, ?_⟩
    · rcases List.mem_append.1 hb with hb | hb
      · exact hdigits b hb
      · rw [List.mem_singleton.1 hb]
        exact isDigit_ofNat hd
    · rwa [head?_snoc hne]

theorem whole_natural (n : Nat) : Grammar.Whole (natural n) := by
  rcases Nat.eq_zero_or_pos n with rfl | hn
  · exact .zero
  · exact .digits (digits_natural hn).1 (digits_natural hn).2

theorem exists_natural_of_digits {t : Bytes} (hne : t ≠ []) (hdigits : ∀ b ∈ t, Grammar.IsDigit b)
    (hhead : t.head? ≠ some 0x30) : ∃ n, 0 < n ∧ t = natural n := by
  induction t using List.reverseRecOn with
  | nil => exact absurd rfl hne
  | append_singleton t b ih =>
    obtain ⟨d, hd, rfl⟩ := exists_ofNat_of_isDigit (hdigits b (by simp))
    by_cases ht : t = []
    · subst ht
      refine ⟨d, Nat.pos_of_ne_zero ?_, (natural_digit hd).symm⟩
      rintro rfl
      exact hhead rfl
    · rw [head?_snoc ht] at hhead
      obtain ⟨n, hn, rfl⟩ := ih ht (fun b hb => hdigits b (List.mem_append_left _ hb)) hhead
      exact ⟨10 * n + d, by omega, (natural_snoc hn hd).symm⟩

theorem exists_natural {t : Bytes} (h : Grammar.Whole t) : ∃ n, t = natural n := by
  cases h with
  | zero => exact ⟨0, rfl⟩
  | digits hdigits hhead =>
    obtain ⟨n, _, rfl⟩ := exists_natural_of_digits hdigits.1 hdigits.2 hhead
    exact ⟨n, rfl⟩

theorem isInteger_iff {t : Bytes} : IsInteger t ↔ ∃ negative magnitude, t = integer negative magnitude := by
  constructor
  · rintro ⟨sign, whole, hsign, hwhole, rfl⟩
    obtain ⟨n, rfl⟩ := exists_natural hwhole
    rcases hsign with rfl | rfl
    · exact ⟨false, n, rfl⟩
    · exact ⟨true, n, rfl⟩
  · rintro ⟨negative, n, rfl⟩
    cases negative
    · exact ⟨[], natural n, .inl rfl, whole_natural n, rfl⟩
    · exact ⟨[0x2D], natural n, .inr rfl, whole_natural n, rfl⟩

/-! ## What they are read as -/

namespace Numeral

theorem next_whole {n : Numeral} (hplace : n.place = .whole) {d : Nat} (hd : d < 10) :
    n.next (UInt8.ofNat (0x30 + d)) = .more { n with whole := d :: n.whole } := by
  have hdigit : digit? (UInt8.ofNat (0x30 + d)) = some d := by
    have hall : ∀ d < 10, digit? (UInt8.ofNat (0x30 + d)) = some d := by decide
    exact hall d hd
  rw [next, hplace, hdigit]

/-- A literal holds the digits of its number, the last one in front. -/
theorem literal?_integer (negative : Bool) {n : Nat} (hn : 0 < n) :
    literal? (integer negative n) = some ⟨.whole, negative, Nat.digits 10 n, [], false, []⟩ := by
  induction n, hn using positive_cases with
  | digit d hpos hd =>
    have hall : ∀ negative, ∀ d < 10, 0 < d →
        literal? (integer negative d) = some ⟨.whole, negative, [d], [], false, []⟩ := by decide
    rw [hall negative d hd hpos, Nat.digits_of_lt 10 d (Nat.ne_of_gt hpos) hd]
  | snoc n d hn hd ih =>
    have hdigits : Nat.digits 10 (10 * n + d) = d :: Nat.digits 10 n := by
      rw [Nat.add_comm, Nat.digits_add 10 (by decide) d n hd (.inr (Nat.ne_of_gt hn))]
    have hsnoc : integer negative (10 * n + d) = integer negative n ++ [UInt8.ofNat (0x30 + d)] := by
      rw [integer, natural_snoc hn hd, ← List.append_assoc]
      rfl
    rw [hsnoc, literal?_append ih, follow, next_whole rfl hd, hdigits]
    rfl

theorem digitsValue_digits (n : Nat) : digitsValue (Nat.digits 10 n).reverse = n := by
  conv => rhs; rw [← Nat.ofDigits_digits 10 n, Nat.ofDigits_eq_foldr]
  rw [digitsValue, List.foldl_reverse]
  congr 1
  funext d n
  rw [Nat.add_comm, Nat.mul_comm]
  rfl

theorem le_foldl_digits (digits : List Nat) (m : Nat) : m ≤ digits.foldl (fun n d => n * 10 + d) m := by
  induction digits generalizing m with
  | nil => exact Nat.le_refl m
  | cons d rest ih => exact Nat.le_trans (by omega) (ih (m * 10 + d))

/-- Digits are absorbed to the last as long as their number has 64 bits. -/
theorem absorb_of_lt {significand : Nat} {digits : List Nat}
    (h : digits.foldl (fun n d => n * 10 + d) significand < Decimal.limit64) :
    absorb significand digits = (digits.foldl (fun n d => n * 10 + d) significand, 0) := by
  induction digits generalizing significand with
  | nil => rfl
  | cons d rest ih =>
    have hnext : significand * 10 + d < Decimal.limit64 := Nat.lt_of_le_of_lt (le_foldl_digits rest _) h
    rw [absorb, if_pos hnext, ih h]
    rfl

theorem absorb_of_ge {significand : Nat} {digits : List Nat} (hlt : significand < Decimal.limit64)
    (h : Decimal.limit64 ≤ digits.foldl (fun n d => n * 10 + d) significand) : (absorb significand digits).2 ≠ 0 := by
  induction digits generalizing significand with
  | nil => exact absurd hlt (Nat.not_lt_of_le h)
  | cons d rest ih =>
    rw [absorb]
    split
    · exact ih ‹_› h
    · exact Nat.succ_ne_zero _

theorem absorb_digits {n : Nat} (h : n < Decimal.limit64) : absorb 0 (Nat.digits 10 n).reverse = (n, 0) := by
  have hvalue : (Nat.digits 10 n).reverse.foldl (fun n d => n * 10 + d) 0 = n := digitsValue_digits n
  rw [absorb_of_lt (by rwa [hvalue]), hvalue]

theorem absorb_digits_ne {n : Nat} (h : Decimal.limit64 ≤ n) : (absorb 0 (Nat.digits 10 n).reverse).2 ≠ 0 := by
  have hvalue : (Nat.digits 10 n).reverse.foldl (fun n d => n * 10 + d) 0 = n := digitsValue_digits n
  exact absorb_of_ge (by decide) (by rwa [hvalue])

end Numeral

namespace Number

open Numeral (literal?_integer absorb_digits absorb_digits_ne)

/-- A natural number of 64 bits is read exactly. -/
theorem ofLiteral_natural {n : Nat} (h : n < Decimal.limit64) : ofLiteral (integer false n) = .int n := by
  rcases Nat.eq_zero_or_pos n with rfl | hn
  · rfl
  · rw [ofLiteral, literal?_integer false hn, Option.bind_some, Numeral.value?, absorb_digits h]
    rfl

/-- A natural number of more than 64 bits is read as a double, or not at all. -/
theorem ofLiteral_natural_large {n : Nat} (h : Decimal.limit64 ≤ n) : ∃ x, ofLiteral (integer false n) = .float x := by
  have hn : 0 < n := Nat.lt_of_lt_of_le (by decide) h
  have hspare := absorb_digits_ne h
  rw [ofLiteral, literal?_integer false hn, Option.bind_some, Numeral.value?]
  simp only [hspare, and_false, if_false]
  split
  · split
    · exact ⟨_, rfl⟩
    · exact ⟨_, rfl⟩
  · generalize Numeral.scale 4 _ _ = scaled
    cases scaled with
    | none => exact ⟨_, rfl⟩
    | some x => exact ⟨_, rfl⟩

/-- A negative integer of 64 bits with its sign is read exactly. -/
theorem ofLiteral_negative {n : Nat} (hn : 0 < n) (h : n ≤ 1 <<< 63) : ofLiteral (integer true n) = .int (-n) := by
  have hlimit : n < Decimal.limit64 := Nat.lt_of_le_of_lt h (by decide)
  rw [ofLiteral, literal?_integer true hn, Option.bind_some, Numeral.value?, absorb_digits hlimit]
  simp only [and_self, if_true, Nat.ne_of_gt hn, if_false, if_pos h]
  rfl

theorem ofLiteral_negative_zero : ofLiteral (integer true 0) = .float (.zero true) := rfl

end Number

end Verdicts.Json
