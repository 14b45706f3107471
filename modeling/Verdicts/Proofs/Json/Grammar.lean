/-
The grammar of JSON texts, over bytes: which sequences of bytes spell a value, whatever the value is
and however deep arrays and objects are nested. A character of a string stands for itself, encoded in
UTF-8, or is escaped.
-/
import Verdicts.Json.Reader

namespace Verdicts.Json.Grammar

/-! ## Tokens -/

/-- Blanks between tokens. -/
def Blanks (t : Bytes) : Prop := ∀ b ∈ t, b = 0x20 ∨ b = 0x09 ∨ b = 0x0A ∨ b = 0x0D

def IsDigit (b : UInt8) : Prop := 0x30 ≤ b ∧ b ≤ 0x39

def IsHexDigit (b : UInt8) : Prop :=
  IsDigit b ∨ (0x41 ≤ b ∧ b ≤ 0x46) ∨ (0x61 ≤ b ∧ b ≤ 0x66)

/-- One decimal digit or more. -/
def Digits (t : Bytes) : Prop := t ≠ [] ∧ ∀ b ∈ t, IsDigit b

/-- The integer part of a number: a zero, or digits of which the first is none. -/
inductive Whole : Bytes → Prop
  | zero : Whole [0x30]
  | digits {t : Bytes} : Digits t → t.head? ≠ some 0x30 → Whole t

/-- What may follow behind the point of a number, with the point. -/
inductive Fraction : Bytes → Prop
  | absent : Fraction []
  | digits {t : Bytes} : Digits t → Fraction (0x2E :: t)

/-- The exponent of a number, of either sign or of none. -/
inductive Exponent : Bytes → Prop
  | absent : Exponent []
  | digits {mark : UInt8} {sign t : Bytes} : mark = 0x65 ∨ mark = 0x45 →
      sign = [] ∨ sign = [0x2B] ∨ sign = [0x2D] → Digits t → Exponent (mark :: sign ++ t)

inductive Numeral : Bytes → Prop
  | mk {sign whole fraction exponent : Bytes} : sign = [] ∨ sign = [0x2D] → Whole whole →
      Fraction fraction → Exponent exponent → Numeral (sign ++ whole ++ fraction ++ exponent)

/-- One character of a string. -/
inductive Character : Bytes → Prop
  /-- Any but a control character, a quote or a backslash stands for itself. -/
  | plain {c : Char} : 0x20 ≤ c.toNat → c ≠ '"' → c ≠ '\\' → Character (String.utf8EncodeChar c)
  /-- An escape of one letter: one of `"`, `\`, `/`, `b`, `f`, `n`, `r` and `t`. -/
  | escape {b : UInt8} : b ∈ [0x22, 0x5C, 0x2F, 0x62, 0x66, 0x6E, 0x72, 0x74] → Character [0x5C, b]
  /-- An escape by four hexadecimal digits. -/
  | code {digits : Bytes} : digits.length = 4 → (∀ b ∈ digits, IsHexDigit b) →
      Character (0x5C :: 0x75 :: digits)

inductive Characters : Bytes → Prop
  | nil : Characters []
  | cons {c rest : Bytes} : Character c → Characters rest → Characters (c ++ rest)

inductive Text : Bytes → Prop
  | mk {content : Bytes} : Characters content → Text (0x22 :: content ++ [0x22])

/-! ## Values -/

/-- The phrases of which a value is built. -/
inductive Phrase where
  | value
  | object
  /-- A value with blanks around it. -/
  | element
  /-- Elements with commas between them, at least one. -/
  | elements
  /-- A key and an element, with a colon between them. -/
  | member
  /-- Members with commas between them, at least one. -/
  | members
  deriving DecidableEq, Repr

/-- `Derives phrase t`: the bytes `t` spell a phrase of the kind. -/
inductive Derives : Phrase → Bytes → Prop
  | null : Derives .value [0x6E, 0x75, 0x6C, 0x6C]
  | true : Derives .value [0x74, 0x72, 0x75, 0x65]
  | false : Derives .value [0x66, 0x61, 0x6C, 0x73, 0x65]
  | numeral {t : Bytes} : Numeral t → Derives .value t
  | text {t : Bytes} : Text t → Derives .value t
  | emptyArray {t : Bytes} : Blanks t → Derives .value (0x5B :: t ++ [0x5D])
  | array {t : Bytes} : Derives .elements t → Derives .value (0x5B :: t ++ [0x5D])
  | object {t : Bytes} : Derives .object t → Derives .value t
  | emptyObject {t : Bytes} : Blanks t → Derives .object (0x7B :: t ++ [0x7D])
  | ofMembers {t : Bytes} : Derives .members t → Derives .object (0x7B :: t ++ [0x7D])
  | element {before t behind : Bytes} : Blanks before → Derives .value t → Blanks behind →
      Derives .element (before ++ t ++ behind)
  | lastElement {t : Bytes} : Derives .element t → Derives .elements t
  | moreElements {t rest : Bytes} : Derives .element t → Derives .elements rest →
      Derives .elements (t ++ 0x2C :: rest)
  | member {before key behind t : Bytes} : Blanks before → Text key → Blanks behind →
      Derives .element t → Derives .member (before ++ key ++ behind ++ 0x3A :: t)
  | lastMember {t : Bytes} : Derives .member t → Derives .members t
  | moreMembers {t rest : Bytes} : Derives .member t → Derives .members rest →
      Derives .members (t ++ 0x2C :: rest)

/-! ## The bytes of a character -/

theorem ofNat_ge {n : Nat} (h : 0x80 ≤ n) (hn : n < 0x100) : 0x80 ≤ UInt8.ofNat n := by
  rw [UInt8.le_iff_toNat_le, UInt8.toNat_ofNat', Nat.mod_eq_of_lt hn]
  exact h

/-- The bytes of a character beyond ASCII lie beyond ASCII. -/
theorem encode_ge {c : Char} (hc : 0x80 ≤ c.toNat) : ∀ b ∈ String.utf8EncodeChar c, 0x80 ≤ b := by
  have hc' : ¬c.val.toNat ≤ 0x7F := Nat.not_le_of_gt hc
  intro b hb
  simp only [String.utf8EncodeChar, hc', if_false] at hb
  split at hb
  · simp only [List.mem_cons, List.not_mem_nil, or_false] at hb
    rcases hb with rfl | rfl <;> exact ofNat_ge (by omega) (by omega)
  · split at hb
    · simp only [List.mem_cons, List.not_mem_nil, or_false] at hb
      rcases hb with rfl | rfl | rfl <;> exact ofNat_ge (by omega) (by omega)
    · simp only [List.mem_cons, List.not_mem_nil, or_false] at hb
      rcases hb with rfl | rfl | rfl | rfl <;> exact ofNat_ge (by omega) (by omega)

/-- A character in ASCII is one byte. -/
theorem encode_ascii {c : Char} (hc : c.toNat < 0x80) :
    String.utf8EncodeChar c = [UInt8.ofNat c.toNat] := by
  have hc' : c.val.toNat ≤ 0x7F := Nat.le_of_lt_succ hc
  simp only [String.utf8EncodeChar, hc', if_true]
  rfl

/-- No byte of a character other than a quote and a backslash is a quote or a backslash. -/
theorem encode_plain {c : Char} (hquote : c ≠ '"') (hbackslash : c ≠ '\\') :
    ∀ b ∈ String.utf8EncodeChar c, b ≠ 0x22 ∧ b ≠ 0x5C := by
  by_cases hc : c.toNat < 0x80
  · rw [encode_ascii hc]
    intro b hb
    rw [List.mem_singleton] at hb
    subst hb
    have hval : ∀ n : Nat, c.toNat = n → c = Char.ofNat n := fun n hn => by rw [← hn, Char.ofNat_toNat]
    constructor
    · intro h
      refine hquote (hval 0x22 ?_)
      have := congrArg UInt8.toNat h
      simp only [UInt8.toNat_ofNat', UInt8.reduceToNat] at this
      omega
    · intro h
      refine hbackslash (hval 0x5C ?_)
      have := congrArg UInt8.toNat h
      simp only [UInt8.toNat_ofNat', UInt8.reduceToNat] at this
      omega
  · intro b hb
    have hge := encode_ge (Nat.le_of_not_lt hc) b hb
    constructor
    · rintro rfl
      exact absurd hge (by decide)
    · rintro rfl
      exact absurd hge (by decide)

end Verdicts.Json.Grammar
