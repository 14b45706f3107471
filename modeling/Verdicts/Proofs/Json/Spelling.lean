/-
How a value is written. A value has many spellings: blanks may stand between tokens, and most characters of a string may
be escaped or not. What is spelt is a `Json` value with its members in the order in which they are written; a number
literal spells the number that it denotes, and one that is too large for a double spells NaN, which no other does.
-/
import Verdicts.Proofs.Json.Literals

namespace Verdicts.Json

/-- The number that a literal spells. -/
def Number.ofLiteral (t : Bytes) : Number := ((Numeral.literal? t).bind Numeral.value?).getD (.float .nan)

namespace Spelling

open Verdicts.Json.Grammar (Blanks IsHexDigit)

/-! ## Strings -/

def hexDigitValue (b : UInt8) : Nat :=
  if b ≤ 0x39 then b.toNat - 0x30 else if b ≤ 0x46 then b.toNat - 0x37 else b.toNat - 0x57

/-- Four hexadecimal digits of either case, and the code unit that they denote. -/
inductive SpellsUnit : Nat → Bytes → Prop
  | mk {a b c d : UInt8} : IsHexDigit a → IsHexDigit b → IsHexDigit c → IsHexDigit d →
      SpellsUnit (((hexDigitValue a * 16 + hexDigitValue b) * 16 + hexDigitValue c) * 16 + hexDigitValue d) [a, b, c, d]

/-- The letters of escapes, and the characters that they stand for. -/
def letters : List (UInt8 × Char) :=
  [(0x22, '"'), (0x5C, '\\'), (0x2F, '/'), (0x62, '\x08'), (0x66, '\x0C'), (0x6E, '\n'), (0x72, '\r'), (0x74, '\t')]

/-- One character of a string. -/
inductive SpellsChar : Char → Bytes → Prop
  | plain {c : Char} : 0x20 ≤ c.toNat → c ≠ '"' → c ≠ '\\' → SpellsChar c (String.utf8EncodeChar c)
  | escape {c : Char} {b : UInt8} : (b, c) ∈ letters → SpellsChar c [0x5C, b]
  | code {c : Char} {digits : Bytes} : SpellsUnit c.toNat digits → SpellsChar c (0x5C :: 0x75 :: digits)
  /-- A character beyond the first plane, by its two surrogates. -/
  | pair {c : Char} {high low : Bytes} : 0x10000 ≤ c.toNat → SpellsUnit (0xD800 + (c.toNat - 0x10000) / 0x400) high →
      SpellsUnit (0xDC00 + (c.toNat - 0x10000) % 0x400) low →
      SpellsChar c (0x5C :: 0x75 :: high ++ 0x5C :: 0x75 :: low)

inductive SpellsChars : List Char → Bytes → Prop
  | nil : SpellsChars [] []
  | cons {c : Char} {cs : List Char} {t rest : Bytes} : SpellsChar c t → SpellsChars cs rest →
      SpellsChars (c :: cs) (t ++ rest)

/-- A string between its quotes. -/
inductive SpellsText : String → Bytes → Prop
  | mk {text : String} {content : Bytes} : SpellsChars text.toList content → SpellsText text (0x22 :: content ++ [0x22])

/-- Whether a character may stand for itself. -/
def isPlain (c : Char) : Bool := 0x20 ≤ c.toNat && c != '"' && c != '\\'

theorem spellsChar_plain {c : Char} (h : isPlain c = true) : SpellsChar c (String.utf8EncodeChar c) := by
  unfold isPlain at h
  simp only [Bool.and_eq_true, decide_eq_true_eq, bne_iff_ne] at h
  exact .plain h.1.1 h.1.2 h.2

theorem spellsChars_plain {cs : List Char} (h : cs.all isPlain = true) :
    SpellsChars cs (cs.flatMap String.utf8EncodeChar) := by
  induction cs with
  | nil => exact .nil
  | cons c cs ih =>
    rw [List.all_cons, Bool.and_eq_true] at h
    exact .cons (spellsChar_plain h.1) (ih h.2)

/-- A text between quotes, as it is. -/
def quoted (text : String) : Bytes := 0x22 :: text.toList.flatMap String.utf8EncodeChar ++ [0x22]

theorem spellsText_quoted {text : String} (h : text.toList.all isPlain = true) :
    SpellsText text (quoted text) :=
  .mk (spellsChars_plain h)

/-! ## Values -/

/-- The parts of a value: itself, items with commas between them, or members with commas between them. -/
inductive Part where
  | value (value : Json)
  | items (items : List Json)
  | members (members : List (String × Json))

/-- `Spells part t`: the bytes `t` are a way to write the part. -/
inductive Spells : Part → Bytes → Prop
  | null : Spells (.value .null) [0x6E, 0x75, 0x6C, 0x6C]
  | true : Spells (.value (.bool true)) [0x74, 0x72, 0x75, 0x65]
  | false : Spells (.value (.bool false)) [0x66, 0x61, 0x6C, 0x73, 0x65]
  | number {t : Bytes} : Grammar.Numeral t → Spells (.value (.number (.ofLiteral t))) t
  | string {text : String} {t : Bytes} : SpellsText text t → Spells (.value (.string text)) t
  | emptyArray {t : Bytes} : Blanks t → Spells (.value (.array [])) (0x5B :: t ++ [0x5D])
  | array {vs : List Json} {t : Bytes} : Spells (.items vs) t → Spells (.value (.array vs)) (0x5B :: t ++ [0x5D])
  | emptyObject {t : Bytes} : Blanks t → Spells (.value (.object [])) (0x7B :: t ++ [0x7D])
  | object {ms : List (String × Json)} {t : Bytes} : Spells (.members ms) t →
      Spells (.value (.object ms)) (0x7B :: t ++ [0x7D])
  | lastItem {v : Json} {before t behind : Bytes} : Blanks before → Spells (.value v) t → Blanks behind →
      Spells (.items [v]) (before ++ t ++ behind)
  | moreItems {v : Json} {vs : List Json} {before t behind rest : Bytes} : Blanks before → Spells (.value v) t →
      Blanks behind → Spells (.items vs) rest → Spells (.items (v :: vs)) (before ++ t ++ behind ++ 0x2C :: rest)
  | lastMember {key : String} {v : Json} {before k behind before' t behind' : Bytes} : Blanks before →
      SpellsText key k → Blanks behind → Blanks before' → Spells (.value v) t → Blanks behind' →
      Spells (.members [(key, v)]) (before ++ k ++ behind ++ 0x3A :: (before' ++ t ++ behind'))
  | moreMembers {key : String} {v : Json} {ms : List (String × Json)} {before k behind before' t behind' rest : Bytes} :
      Blanks before → SpellsText key k → Blanks behind → Blanks before' → Spells (.value v) t → Blanks behind' →
      Spells (.members ms) rest →
      Spells (.members ((key, v) :: ms)) (before ++ k ++ behind ++ 0x3A :: (before' ++ t ++ behind') ++ 0x2C :: rest)

theorem blanks_nil : Blanks [] := fun _ h => absurd h List.not_mem_nil

theorem spells_quoted {text : String} (h : text.toList.all isPlain = true) : Spells (.value (.string text)) (quoted text) :=
  .string (spellsText_quoted h)

/-! ## Spellings are derived -/

open Verdicts.Json.Grammar (Character Characters Text Phrase Derives)

theorem SpellsUnit.digits {unit : Nat} {t : Bytes} (h : SpellsUnit unit t) : t.length = 4 ∧ ∀ b ∈ t, IsHexDigit b := by
  cases h with
  | mk ha hb hc hd => exact ⟨rfl, by simp [ha, hb, hc, hd]⟩

theorem SpellsChar.characters {c : Char} {t : Bytes} (h : SpellsChar c t) : Characters t := by
  have hone : ∀ {t : Bytes}, Character t → Characters t := by
    intro t ht
    rw [← List.append_nil t]
    exact .cons ht .nil
  cases h with
  | plain hcontrol hquote hbackslash => exact hone (.plain hcontrol hquote hbackslash)
  | @escape b hletter =>
    refine hone (.escape ?_)
    have hall : ∀ p ∈ letters, p.1 ∈ [0x22, 0x5C, 0x2F, 0x62, 0x66, 0x6E, 0x72, 0x74] := by decide
    exact hall (b, c) hletter
  | code hdigits => exact hone (.code hdigits.digits.1 hdigits.digits.2)
  | pair _ hhigh hlow =>
    exact .cons (.code hhigh.digits.1 hhigh.digits.2) (hone (.code hlow.digits.1 hlow.digits.2))

theorem Characters.append {t u : Bytes} (ht : Characters t) (hu : Characters u) : Characters (t ++ u) := by
  induction ht with
  | nil => exact hu
  | cons hc _ ih =>
    rw [List.append_assoc]
    exact .cons hc ih

theorem SpellsChars.characters {cs : List Char} {t : Bytes} (h : SpellsChars cs t) : Characters t := by
  induction h with
  | nil => exact .nil
  | cons hc _ ih => exact Characters.append hc.characters ih

theorem SpellsText.text {text : String} {t : Bytes} (h : SpellsText text t) : Text t := by
  cases h with
  | mk hcontent => exact .mk hcontent.characters

/-- The phrase that a part is. -/
def Part.phrase : Part → Phrase
  | .value (.object _) => .object
  | .value _ => .value
  | .items _ => .elements
  | .members _ => .members

theorem Spells.derives {part : Part} {t : Bytes} (h : Spells part t) : Derives part.phrase t := by
  have hvalue : ∀ {v : Json} {t : Bytes}, Derives (Part.value v).phrase t → Derives .value t := by
    intro v t hv
    cases v with
    | object ms => exact .object hv
    | _ => exact hv
  induction h with
  | null => exact .null
  | true => exact .true
  | false => exact .false
  | number hnumeral => exact .numeral hnumeral
  | string htext => exact .text htext.text
  | emptyArray hblanks => exact .emptyArray hblanks
  | array _ ih => exact .array ih
  | emptyObject hblanks => exact .emptyObject hblanks
  | object _ ih => exact .ofMembers ih
  | lastItem hbefore _ hbehind ih => exact .lastElement (.element hbefore (hvalue ih) hbehind)
  | moreItems hbefore _ hbehind _ ih ihrest => exact .moreElements (.element hbefore (hvalue ih) hbehind) ihrest
  | lastMember hbefore hkey hbehind hbefore' _ hbehind' ih =>
    exact .lastMember (.member hbefore hkey.text hbehind (.element hbefore' (hvalue ih) hbehind'))
  | moreMembers hbefore hkey hbehind hbefore' _ hbehind' _ ih ihrest =>
    exact .moreMembers (.member hbefore hkey.text hbehind (.element hbefore' (hvalue ih) hbehind')) ihrest

end Spelling

end Verdicts.Json
