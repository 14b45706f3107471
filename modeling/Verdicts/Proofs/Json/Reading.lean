/-
Reading what is spelt. Whatever the spelling of a value, the reader comes to the value, if that is within its limits:
nested no deeper than the reader goes, and without numbers too large for a double. Otherwise the reader gets stuck.
Main statement: `goes_spelt`.
-/
import Verdicts.Proofs.Json.Spelling
import Verdicts.Proofs.Text.Utf8

namespace Verdicts.Json

/-! ## Limits -/

mutual

/-- All numbers in the value are numbers. -/
def isReadable : Json → Bool
  | .number n => n != .float .nan
  | .array items => itemsReadable items
  | .object members => membersReadable members
  | _ => true

def itemsReadable : List Json → Bool
  | [] => true
  | item :: rest => isReadable item && itemsReadable rest

def membersReadable : List (String × Json) → Bool
  | [] => true
  | (_, value) :: rest => isReadable value && membersReadable rest

end

/-- A value can be read where `room` more arrays and objects may be open. -/
def Fits (room : Nat) (value : Json) : Prop := value.depth ≤ room ∧ value.isReadable = true

def ItemsFit (room : Nat) (items : List Json) : Prop := itemsDepth items ≤ room ∧ itemsReadable items = true

def MembersFit (room : Nat) (members : List (String × Json)) : Prop :=
  membersDepth members ≤ room ∧ membersReadable members = true

theorem fits_array {room : Nat} {items : List Json} :
    Fits room (.array items) ↔ 0 < room ∧ ItemsFit (room - 1) items := by
  unfold Fits ItemsFit
  rw [depth, isReadable, ← and_assoc]
  refine and_congr_left' ?_
  omega

theorem fits_object {room : Nat} {members : List (String × Json)} :
    Fits room (.object members) ↔ 0 < room ∧ MembersFit (room - 1) members := by
  unfold Fits MembersFit
  rw [depth, isReadable, ← and_assoc]
  refine and_congr_left' ?_
  omega

theorem itemsFit_nil (room : Nat) : ItemsFit room [] := ⟨Nat.zero_le _, rfl⟩

theorem membersFit_nil (room : Nat) : MembersFit room [] := ⟨Nat.zero_le _, rfl⟩

theorem itemsFit_cons {room : Nat} {item : Json} {rest : List Json} :
    ItemsFit room (item :: rest) ↔ Fits room item ∧ ItemsFit room rest := by
  unfold Fits ItemsFit
  rw [itemsDepth, itemsReadable, Bool.and_eq_true, Nat.max_le, and_and_and_comm]

theorem membersFit_cons {room : Nat} {key : String} {value : Json} {rest : List (String × Json)} :
    MembersFit room ((key, value) :: rest) ↔ Fits room value ∧ MembersFit room rest := by
  unfold Fits MembersFit
  rw [membersDepth, membersReadable, Bool.and_eq_true, Nat.max_le, and_and_and_comm]

namespace Reader

/-! ## Going on -/

/-- Where a reader comes to with some bytes, unless it gets stuck. -/
def goes (r : Reader) (t : Bytes) : Option Reader := (r.run t).toOption

theorem goes_cons (r : Reader) (b : UInt8) (t : Bytes) :
    r.goes (b :: t) = (r.step b).toOption.bind fun r => r.goes t := by
  unfold goes
  rw [run]
  cases r.step b <;> rfl

theorem goes_append (r : Reader) (t u : Bytes) : r.goes (t ++ u) = (r.goes t).bind fun r => r.goes u := by
  induction t generalizing r with
  | nil => rfl
  | cons b t ih =>
    rw [List.cons_append, goes_cons, goes_cons]
    cases (r.step b).toOption with
    | none => rfl
    | some next => exact ih next

theorem goes_append_of_some {r r' : Reader} {t : Bytes} (h : r.goes t = some r') (u : Bytes) :
    r.goes (t ++ u) = r'.goes u := by
  rw [goes_append, h, Option.bind_some]

/-- A reader that is not in a number literal takes a byte on its own. -/
theorem goes_plain {r : Reader} (h : r.inNumber = false) (b : UInt8) (t : Bytes) :
    r.goes (b :: t) = (plainStep? r b).bind fun r => r.goes t := by
  obtain ⟨frames, mode⟩ := r
  rw [goes_cons]
  have hstep : (step ⟨frames, mode⟩ b).toOption = plainStep? ⟨frames, mode⟩ b := by
    unfold step
    cases mode with
    | number literal => cases h
    | _ =>
      simp only
      cases plainStep? _ b <;> rfl
  rw [hstep]

/-! ## Strings -/

open Verdicts.Json.Grammar (Blanks IsHexDigit)

open Spelling

variable {frames : List Frame} {isKey : Bool} {content : Bytes}

theorem goes_string (place : StringPlace) {b : UInt8} (h : ¬(b = 0x22 ∧ place = .plain)) (t : Bytes) :
    goes ⟨frames, .string isKey place content⟩ (b :: t) =
      (stringStep? place content b).bind fun next => goes ⟨frames, .string isKey next.1 next.2⟩ t := by
  rw [goes_plain rfl]
  unfold plainStep?
  simp only
  rw [if_neg h]
  cases stringStep? place content b <;> rfl

/-- Bytes that need no escape stand for themselves. -/
theorem goes_bytes {t : Bytes} (h : ∀ b ∈ t, b ≠ 0x22 ∧ b ≠ 0x5C ∧ ¬b < 0x20) :
    goes ⟨frames, .string isKey .plain content⟩ t = some ⟨frames, .string isKey .plain (t.reverse ++ content)⟩ := by
  induction t generalizing content with
  | nil => rfl
  | cons b t ih =>
    obtain ⟨hquote, hbackslash, hcontrol⟩ := h b (List.mem_cons_self ..)
    rw [goes_string .plain fun hb => hquote hb.1]
    unfold stringStep?
    simp only
    rw [if_neg hbackslash, if_neg hcontrol, Option.bind_some, ih fun c hc => h c (List.mem_cons_of_mem _ hc),
      List.reverse_cons, List.append_assoc]
    rfl

theorem hexDigit_eq {b : UInt8} (h : IsHexDigit b) : hexDigit? b = some (hexDigitValue b) ∧ b ≠ 0x22 := by
  unfold IsHexDigit Grammar.IsDigit at h
  unfold hexDigit? hexDigitValue
  simp only [UInt8.le_iff_toNat_le, UInt8.reduceToNat] at *
  constructor
  · rcases h with h | h | h
    · rw [if_pos h, if_pos h.2]
    · rw [if_neg (by omega), if_pos h, if_neg (by omega), if_pos h.2]
    · rw [if_neg (by omega), if_neg (by omega), if_pos h, if_neg (by omega), if_neg (by omega)]
  · rintro rfl
    simp only [UInt8.reduceToNat] at h
    omega

theorem goes_hexDigit {b : UInt8} (h : IsHexDigit b) (missing value : Nat) (lead : Option Nat) (t : Bytes) :
    goes ⟨frames, .string isKey (.code (missing + 2) value lead) content⟩ (b :: t) =
      goes ⟨frames, .string isKey (.code (missing + 1) (value * 16 + hexDigitValue b) lead) content⟩ t := by
  rw [goes_string _ fun hb => (hexDigit_eq h).2 hb.1]
  unfold stringStep?
  simp only [(hexDigit_eq h).1]
  rw [if_neg (by omega)]
  rfl

theorem goes_unit {unit : Nat} {t : Bytes} (h : SpellsUnit unit t) (lead : Option Nat) :
    goes ⟨frames, .string isKey (.code 4 0 lead) content⟩ t =
      (codeUnit? lead unit content).map fun next => ⟨frames, .string isKey next.1 next.2⟩ := by
  cases h with
  | @mk a b c d ha hb hc hd =>
    rw [goes_hexDigit ha, goes_hexDigit hb, goes_hexDigit hc, goes_string _ fun hq => (hexDigit_eq hd).2 hq.1]
    unfold stringStep?
    simp only [(hexDigit_eq hd).1]
    rw [if_pos (by omega), Nat.zero_mul, Nat.zero_add]
    cases codeUnit? lead _ content <;> rfl

theorem scalar_range (c : Char) : c.toNat < 0xD800 ∨ 0xDFFF < c.toNat ∧ c.toNat < 0x110000 := c.valid

/-- However a character is spelt, the content goes on with the bytes that it encodes to. -/
theorem goes_char {c : Char} {t : Bytes} (h : SpellsChar c t) :
    goes ⟨frames, .string isKey .plain content⟩ t =
      some ⟨frames, .string isKey .plain ((String.utf8EncodeChar c).reverse ++ content)⟩ := by
  have hrange := scalar_range c
  cases h with
  | plain hcontrol hquote hbackslash =>
    refine goes_bytes fun b hb => ?_
    obtain ⟨hq, hs⟩ := Grammar.encode_plain hquote hbackslash b hb
    refine ⟨hq, hs, ?_⟩
    rw [UInt8.lt_iff_toNat_lt]
    by_cases hc : c.toNat < 0x80
    · rw [Grammar.encode_ascii hc, List.mem_singleton] at hb
      subst hb
      rw [Utf8.toNat_ofNat (by omega)]
      simp only [UInt8.reduceToNat]
      omega
    · have hge := Grammar.encode_ge (Nat.le_of_not_lt hc) b hb
      rw [UInt8.le_iff_toNat_le] at hge
      simp only [UInt8.reduceToNat] at hge ⊢
      omega
  | @escape b hletter =>
    simp only [letters, List.mem_cons, Prod.mk.injEq, List.not_mem_nil, or_false] at hletter
    rcases hletter with h | h | h | h | h | h | h | h <;> obtain ⟨rfl, rfl⟩ := h <;> rfl
  | @code digits hdigits =>
    show goes ⟨frames, .string isKey (.code 4 0 none) content⟩ digits = _
    rw [goes_unit hdigits]
    unfold codeUnit?
    simp only
    rw [if_neg (by omega), if_neg (by omega), Option.map_some, Char.ofNat_toNat]
  | @pair high low hplane hhigh hlow =>
    show goes ⟨frames, .string isKey (.code 4 0 none) content⟩ (high ++ 0x5C :: 0x75 :: low) = _
    have hlead : goes ⟨frames, .string isKey (.code 4 0 none) content⟩ high =
        some ⟨frames, .string isKey (.lead (0xD800 + (c.toNat - 0x10000) / 0x400)) content⟩ := by
      rw [goes_unit hhigh]
      unfold codeUnit?
      simp only
      rw [if_neg (by omega), if_pos (by omega), Option.map_some]
    rw [goes_append_of_some hlead]
    show goes ⟨frames, .string isKey (.code 4 0 (some _)) content⟩ low = _
    rw [goes_unit hlow]
    unfold codeUnit?
    simp only
    have hpoint : 0x10000 + (0xD800 + (c.toNat - 0x10000) / 0x400 - 0xD800) * 0x400 +
        (0xDC00 + (c.toNat - 0x10000) % 0x400 - 0xDC00) = c.toNat := by omega
    rw [if_pos (by omega), Option.map_some, hpoint, Char.ofNat_toNat]

theorem goes_chars {cs : List Char} {t : Bytes} (h : SpellsChars cs t) :
    goes ⟨frames, .string isKey .plain content⟩ t =
      some ⟨frames, .string isKey .plain ((cs.flatMap String.utf8EncodeChar).reverse ++ content)⟩ := by
  induction h generalizing content with
  | nil => rfl
  | cons hc _ ih =>
    rw [goes_append_of_some (goes_char hc), ih, List.flatMap_cons, List.reverse_append, List.append_assoc]

/-- However a text is spelt, the reader comes to the text. -/
theorem goes_text {text : String} {t : Bytes} (h : SpellsText text t) (r : Reader)
    (hopen : plainStep? r 0x22 = some ⟨frames, .string isKey .plain []⟩) (hplain : r.inNumber = false) :
    r.goes t = some (if isKey then deliverKey frames text else deliver frames (.string text)) := by
  cases h with
  | @mk content hcontent =>
    rw [List.cons_append, goes_plain hplain, hopen, Option.bind_some, goes_append_of_some (goes_chars hcontent),
      goes_plain rfl]
    unfold plainStep?
    simp only [and_self, if_true]
    have hdecode : Utf8.decode? (text.toList.flatMap String.utf8EncodeChar) = some text :=
      Utf8.decode?_eq_some_iff.2 rfl
    rw [List.append_nil, List.reverse_reverse, hdecode]
    rfl

/-! ## Tokens -/

/-- A reader that stands between tokens skips blanks. -/
def Skips (r : Reader) : Prop := r.inNumber = false ∧ ∀ b, isBlank b = true → plainStep? r b = some r

theorem goes_blanks {r : Reader} (h : r.Skips) {t : Bytes} (ht : Blanks t) (u : Bytes) :
    r.goes (t ++ u) = r.goes u := by
  induction t with
  | nil => rfl
  | cons b t ih =>
    have hb : isBlank b = true := by
      rcases ht b (List.mem_cons_self ..) with rfl | rfl | rfl | rfl <;> rfl
    rw [List.cons_append, goes_plain h.1, h.2 b hb, Option.bind_some]
    exact ih fun c hc => ht c (List.mem_cons_of_mem _ hc)

/-- The modes between tokens. -/
def isBetween : Mode → Bool
  | .string .. | .word .. | .number _ => false
  | _ => true

theorem skips_between {mode : Mode} (h : isBetween mode = true) (frames : List Frame) : Skips ⟨frames, mode⟩ := by
  cases mode with
  | string isKey place content => cases h
  | word missing value => cases h
  | number literal => cases h
  | _ => exact ⟨rfl, fun b hb => by unfold plainStep?; simp only [hb, if_true]⟩

theorem goes_literal {n m : Numeral} {t : Bytes} (h : n.follow t = some m) :
    goes ⟨frames, .number n⟩ t = some ⟨frames, .number m⟩ := by
  induction t generalizing n with
  | nil =>
    cases h
    rfl
  | cons b t ih =>
    rw [Numeral.follow] at h
    rw [goes_cons]
    unfold step
    simp only
    cases hnext : n.next b with
    | more longer =>
      rw [hnext] at h
      exact ih h
    | ended => rw [hnext] at h; cases h
    | broken => rw [hnext] at h; cases h

theorem digit_bounds {b : UInt8} {d : Nat} (h : Numeral.digit? b = some d) : 0x30 ≤ b.toNat ∧ b.toNat ≤ 0x39 := by
  unfold Numeral.digit? at h
  simp only [UInt8.le_iff_toNat_le, UInt8.reduceToNat] at h
  split at h
  · assumption
  · cases h

theorem start_bounds {b : UInt8} {n : Numeral} (h : Numeral.start? b = some n) :
    b.toNat = 0x2D ∨ 0x30 ≤ b.toNat ∧ b.toNat ≤ 0x39 := by
  unfold Numeral.start? at h
  split at h
  · rename_i hb
    exact .inl (congrArg UInt8.toNat hb)
  · split at h
    · exact .inr (digit_bounds ‹_›)
    · exact .inr (digit_bounds ‹_›)
    · cases h

/-- The first byte of a number literal begins nothing else. -/
theorem start_ne {b : UInt8} {n : Numeral} (h : Numeral.start? b = some n) (c : UInt8)
    (hc : c.toNat ≠ 0x2D ∧ (c.toNat < 0x30 ∨ 0x39 < c.toNat)) : b ≠ c := by
  have hbounds := start_bounds h
  rintro rfl
  omega

theorem start_not_blank {b : UInt8} {n : Numeral} (h : Numeral.start? b = some n) : isBlank b = false := by
  have hne := start_ne h
  unfold isBlank
  simp [hne]

theorem plainStep_start {b : UInt8} {n : Numeral} (h : Numeral.start? b = some n) (frames : List Frame) :
    plainStep? ⟨frames, .value⟩ b = some ⟨frames, .number n⟩ := by
  have hne := start_ne h
  unfold plainStep? beginValue?
  simp only [start_not_blank h, Bool.false_eq_true, if_false]
  rw [if_neg (hne _ (by decide)), if_neg (hne _ (by decide)), if_neg (hne _ (by decide)), if_neg (hne _ (by decide)),
    if_neg (hne _ (by decide)), if_neg (hne _ (by decide)), h]
  rfl

theorem goes_start {t : Bytes} {n : Numeral} (h : Numeral.literal? t = some n) (frames : List Frame) :
    goes ⟨frames, .value⟩ t = some ⟨frames, .number n⟩ := by
  cases t with
  | nil => cases h
  | cons b t =>
    obtain ⟨first, hfirst, hfollow⟩ := Option.bind_eq_some_iff.1 h
    rw [goes_plain rfl, plainStep_start hfirst, Option.bind_some]
    exact goes_literal hfollow

/-! ## Coming to a value -/

/-- Within limits, `r` gets with `t` wherever `r'` gets with `u`; beyond them, it gets stuck. -/
def Comes (fits : Prop) (r : Reader) (t : Bytes) (r' : Reader) (u : Bytes) : Prop :=
  (fits → r.goes t = r'.goes u) ∧ (¬fits → r.goes t = none)

section Comes

variable {p q : Prop} {r r' r'' : Reader} {t u w : Bytes}

theorem Comes.always (hp : p) (h : r.goes t = r'.goes u) : Comes p r t r' u :=
  ⟨fun _ => h, fun hn => absurd hp hn⟩

theorem Comes.congr (h : Comes p r t r' u) (hpq : p ↔ q) : Comes q r t r' u :=
  ⟨fun hq => h.1 (hpq.2 hq), fun hq => h.2 fun hp => hq (hpq.1 hp)⟩

theorem Comes.after (h : r.goes t = r'.goes u) (hc : Comes p r' u r'' w) : Comes p r t r'' w := by
  unfold Comes
  rw [h]
  exact hc

theorem Comes.before (hc : Comes p r t r' u) (h : r'.goes u = r''.goes w) : Comes p r t r'' w := by
  unfold Comes
  rw [← h]
  exact hc

theorem Comes.trans (h : Comes p r t r' u) (h' : Comes q r' u r'' w) : Comes (p ∧ q) r t r'' w := by
  constructor
  · rintro ⟨hp, hq⟩
    rw [h.1 hp, h'.1 hq]
  · intro hpq
    by_cases hp : p
    · rw [h.1 hp]
      exact h'.2 fun hq => hpq ⟨hp, hq⟩
    · exact h.2 hp

end Comes

theorem skips_deliver (frames : List Frame) (value : Json) : Skips (deliver frames value) := by
  unfold deliver
  split <;> exact skips_between rfl _

/-- A number literal ends at a delimiter, and is refused there if it is too large. -/
theorem goes_numeral {t : Bytes} (h : Grammar.Numeral t) {b : UInt8} (hb : Numeral.IsDelimiter b) (frames : List Frame)
    (rest : Bytes) :
    Comes (Number.ofLiteral t ≠ .float .nan) ⟨frames, .value⟩ (t ++ b :: rest)
      (deliver frames (.number (.ofLiteral t))) (b :: rest) := by
  obtain ⟨n, hn, hcomplete⟩ := Numeral.exists_literal h
  refine .after (goes_append_of_some (goes_start hn frames) _) ?_
  unfold Comes Number.ofLiteral
  rw [hn, Option.bind_some, goes_plain (skips_deliver ..).1, goes_cons]
  unfold step
  simp only
  rw [Numeral.next_delimiter hcomplete hb]
  simp only
  cases hvalue : n.value? with
  | none => exact ⟨fun hne => absurd rfl hne, fun _ => rfl⟩
  | some value =>
    constructor
    · intro _
      simp only [Option.getD_some]
      cases plainStep? (deliver frames (.number value)) b <;> rfl
    · rw [Option.getD_some, Decidable.not_not]
      rintro rfl
      exact absurd hvalue (Numeral.value?_ne_nan n)

/-- A bracket opens an array or object where the limit allows one more. -/
theorem goes_open {b : UInt8} {frame : Frame} {mode : Mode} (hb : isBlank b = false)
    (h : beginValue? frames b = if frames.length < nestingLimit then some ⟨frame :: frames, mode⟩ else none)
    (t : Bytes) :
    Comes (frames.length < nestingLimit) ⟨frames, .value⟩ (b :: t) ⟨frame :: frames, mode⟩ t := by
  unfold Comes
  rw [goes_plain rfl]
  unfold plainStep?
  simp only [hb, Bool.false_eq_true, if_false]
  rw [h]
  constructor
  · intro hlt
    rw [if_pos hlt, Option.bind_some]
  · intro hlt
    rw [if_neg hlt, Option.bind_none]

theorem goes_openArray (frames : List Frame) (t : Bytes) :
    Comes (frames.length < nestingLimit) ⟨frames, .value⟩ (0x5B :: t) ⟨.array [] :: frames, .firstItem⟩ t :=
  goes_open rfl rfl t

theorem goes_openObject (frames : List Frame) (t : Bytes) :
    Comes (frames.length < nestingLimit) ⟨frames, .value⟩ (0x7B :: t) ⟨.object [] none :: frames, .firstKey⟩ t :=
  goes_open rfl rfl t

/-- What a part of a value comes to. -/
def Arrives : Part → Bytes → Prop
  | .value v, t => ∀ frames b rest, Numeral.IsDelimiter b → frames.length ≤ nestingLimit →
      Comes (Fits (nestingLimit - frames.length) v) ⟨frames, .value⟩ (t ++ b :: rest) (deliver frames v) (b :: rest)
  | .items vs, t => ∀ outer items rest, outer.length < nestingLimit →
      Comes (ItemsFit (nestingLimit - outer.length - 1) vs) ⟨.array items :: outer, .value⟩ (t ++ 0x5D :: rest)
        (deliver outer (.array (items.reverse ++ vs))) rest
  | .members ms, t => ∀ outer members rest, outer.length < nestingLimit →
      Comes (MembersFit (nestingLimit - outer.length - 1) ms) ⟨.object members none :: outer, .nextKey⟩
        (t ++ 0x7D :: rest) (deliver outer (.object (members.reverse ++ ms))) rest

/-! ## Heads

Behind an opening bracket the reader also takes the closing one, and behind an opening brace only a key. What is spelt
there does not begin so. -/

theorem exists_head {v : Json} {t : Bytes} (h : Spells (.value v) t) :
    ∃ b u, t = b :: u ∧ isBlank b = false ∧ b ≠ 0x5D := by
  cases h with
  | null | true | false => exact ⟨_, _, rfl, rfl, by decide⟩
  | emptyArray _ | array _ | emptyObject _ | object _ => exact ⟨_, _, rfl, rfl, by decide⟩
  | string htext =>
    cases htext with
    | mk _ => exact ⟨_, _, rfl, rfl, by decide⟩
  | number hnumeral =>
    obtain ⟨n, hn, _⟩ := Numeral.exists_literal hnumeral
    cases t with
    | nil => cases hn
    | cons b u =>
      obtain ⟨first, hfirst, _⟩ := Option.bind_eq_some_iff.1 hn
      exact ⟨b, u, rfl, start_not_blank hfirst, start_ne hfirst _ (by decide)⟩

theorem goes_firstItem {vs : List Json} {t : Bytes} (h : Spells (.items vs) t) (frames : List Frame) (u : Bytes) :
    goes ⟨frames, .firstItem⟩ (t ++ u) = goes ⟨frames, .value⟩ (t ++ u) := by
  have hhead : ∀ {v : Json} {before t : Bytes}, Blanks before → Spells (.value v) t → ∀ u,
      goes ⟨frames, .firstItem⟩ (before ++ (t ++ u)) = goes ⟨frames, .value⟩ (before ++ (t ++ u)) := by
    intro v before t hbefore ht u
    obtain ⟨b, t, rfl, hb, hclose⟩ := exists_head ht
    rw [goes_blanks (skips_between rfl frames) hbefore, goes_blanks (skips_between rfl frames) hbefore, List.cons_append,
      goes_plain rfl, goes_plain rfl]
    unfold plainStep?
    simp only [hb, Bool.false_eq_true, if_false]
    rw [if_neg hclose]
  cases h with
  | lastItem hbefore ht _ =>
    simp only [List.append_assoc]
    exact hhead hbefore ht _
  | moreItems hbefore ht _ _ =>
    simp only [List.append_assoc]
    exact hhead hbefore ht _

theorem goes_firstKey {ms : List (String × Json)} {t : Bytes} (h : Spells (.members ms) t) (frames : List Frame)
    (u : Bytes) : goes ⟨frames, .firstKey⟩ (t ++ u) = goes ⟨frames, .nextKey⟩ (t ++ u) := by
  have hhead : ∀ {key : String} {before k : Bytes}, Blanks before → SpellsText key k → ∀ u,
      goes ⟨frames, .firstKey⟩ (before ++ (k ++ u)) = goes ⟨frames, .nextKey⟩ (before ++ (k ++ u)) := by
    intro key before k hbefore hk u
    cases hk with
    | mk _ =>
      rw [goes_blanks (skips_between rfl frames) hbefore, goes_blanks (skips_between rfl frames) hbefore, List.cons_append,
        List.cons_append, goes_plain rfl, goes_plain rfl]
      rfl
  cases h with
  | lastMember hbefore hk =>
    simp only [List.append_assoc]
    exact hhead hbefore hk _
  | moreMembers hbefore hk =>
    simp only [List.append_assoc]
    exact hhead hbefore hk _

/-! ## Spellings are read -/

/-- A value between blanks, in front of a delimiter. -/
theorem Arrives.element {v : Json} {before t behind : Bytes} (h : Arrives (.value v) t) (hbefore : Blanks before)
    (hbehind : Blanks behind) {b : UInt8} (hb : Numeral.IsDelimiter b) (frames : List Frame)
    (hlimit : frames.length ≤ nestingLimit) (rest : Bytes) :
    Comes (Fits (nestingLimit - frames.length) v) ⟨frames, .value⟩ (before ++ (t ++ (behind ++ b :: rest)))
      (deliver frames v) (b :: rest) := by
  refine .after (goes_blanks (skips_between rfl frames) hbefore _) ?_
  cases behind with
  | nil => exact h frames b rest hb hlimit
  | cons c behind =>
    have hc : Numeral.IsDelimiter c := by
      rcases hbehind c (List.mem_cons_self ..) with rfl | rfl | rfl | rfl <;> simp [Numeral.IsDelimiter]
    exact (h frames c (behind ++ b :: rest) hc hlimit).before (goes_blanks (skips_deliver frames v) hbehind _)

/-- A key between blanks, with its colon. -/
theorem goes_key {key : String} {before k behind : Bytes} (hk : SpellsText key k) (hbefore : Blanks before)
    (hbehind : Blanks behind) (members : List (String × Json)) (outer : List Frame) (rest : Bytes) :
    goes ⟨.object members none :: outer, .nextKey⟩ (before ++ (k ++ (behind ++ 0x3A :: rest))) =
      goes ⟨.object members (some key) :: outer, .value⟩ rest := by
  rw [goes_blanks (skips_between rfl _) hbefore, goes_append_of_some (goes_text hk _ rfl rfl)]
  show goes ⟨.object members (some key) :: outer, .colon⟩ _ = _
  rw [goes_blanks (skips_between rfl _) hbehind, goes_plain rfl]
  rfl

theorem arrives_word {v : Json} {t : Bytes} (h : ∀ frames, goes ⟨frames, .value⟩ t = some (deliver frames v))
    (hfits : ∀ room, Fits room v) : Arrives (.value v) t := by
  intro frames b rest _ _
  exact .always (hfits _) (goes_append_of_some (h frames) _)

theorem arrives_number {t : Bytes} (h : Grammar.Numeral t) : Arrives (.value (.number (.ofLiteral t))) t := by
  intro frames b rest hb _
  refine (goes_numeral h hb frames rest).congr ?_
  unfold Fits
  simp [depth, isReadable]

/-- What stands in brackets has one place less for arrays and objects, if there is one at all. -/
theorem Comes.bracketed {p q : Prop} {frames : List Frame} {r r' r'' : Reader} {t u w : Bytes}
    (hopen : Comes (frames.length < nestingLimit) r t r' u)
    (hcontent : frames.length < nestingLimit → Comes q r' u r'' w) (hp : p ↔ 0 < nestingLimit - frames.length ∧ q) :
    Comes p r t r'' w := by
  by_cases hlt : frames.length < nestingLimit
  · refine (hopen.trans (hcontent hlt)).congr ?_
    rw [hp]
    refine and_congr_left' ?_
    omega
  · constructor
    · intro hp'
      have hroom := (hp.1 hp').1
      omega
    · intro _
      exact hopen.2 hlt

theorem arrives_emptyArray {t : Bytes} (h : Blanks t) : Arrives (.value (.array [])) (0x5B :: t ++ [0x5D]) := by
  intro frames b rest _ _
  rw [List.append_assoc, List.cons_append]
  refine (goes_openArray frames _).bracketed (fun _ => .always (itemsFit_nil _) ?_) fits_array
  rw [goes_blanks (skips_between rfl _) h, List.singleton_append, goes_plain rfl]
  rfl

theorem Arrives.array {vs : List Json} {t : Bytes} (h : Arrives (.items vs) t) (ht : Spells (.items vs) t) :
    Arrives (.value (.array vs)) (0x5B :: t ++ [0x5D]) := by
  intro frames b rest _ _
  rw [List.append_assoc, List.cons_append, List.singleton_append]
  have hopen := (goes_openArray frames (t ++ 0x5D :: b :: rest)).before (goes_firstItem ht _ _)
  exact hopen.bracketed (h frames [] (b :: rest)) fits_array

theorem comes_emptyObject {t : Bytes} (h : Blanks t) (frames : List Frame) (rest : Bytes) :
    Comes (Fits (nestingLimit - frames.length) (.object [])) ⟨frames, .value⟩ (0x7B :: t ++ [0x7D] ++ rest)
      (deliver frames (.object [])) rest := by
  rw [List.append_assoc, List.cons_append]
  refine (goes_openObject frames _).bracketed (fun _ => .always (membersFit_nil _) ?_) fits_object
  rw [goes_blanks (skips_between rfl _) h, List.singleton_append, goes_plain rfl]
  rfl

/-- Nothing has to stand behind an object. -/
theorem Arrives.object {ms : List (String × Json)} {t : Bytes} (h : Arrives (.members ms) t)
    (ht : Spells (.members ms) t) (frames : List Frame) (rest : Bytes) :
    Comes (Fits (nestingLimit - frames.length) (.object ms)) ⟨frames, .value⟩ (0x7B :: t ++ [0x7D] ++ rest)
      (deliver frames (.object ms)) rest := by
  rw [List.append_assoc, List.cons_append, List.singleton_append]
  have hopen := (goes_openObject frames (t ++ 0x7D :: rest)).before (goes_firstKey ht _ _)
  exact hopen.bracketed (h frames [] rest) fits_object

theorem Arrives.item {v : Json} {before t behind : Bytes} (h : Arrives (.value v) t) (hbefore : Blanks before)
    (hbehind : Blanks behind) {b : UInt8} (hb : Numeral.IsDelimiter b) (items : List Json) {outer : List Frame}
    (hlt : outer.length < nestingLimit) (rest : Bytes) :
    Comes (Fits (nestingLimit - outer.length - 1) v) ⟨.array items :: outer, .value⟩
      (before ++ t ++ behind ++ b :: rest) ⟨.array (v :: items) :: outer, .afterValue⟩ (b :: rest) := by
  simp only [List.append_assoc]
  exact h.element hbefore hbehind hb (.array items :: outer) hlt rest

theorem Arrives.member {key : String} {v : Json} {before k behind before' t behind' : Bytes}
    (h : Arrives (.value v) t) (hbefore : Blanks before) (hk : SpellsText key k) (hbehind : Blanks behind)
    (hbefore' : Blanks before') (hbehind' : Blanks behind') {b : UInt8} (hb : Numeral.IsDelimiter b)
    (members : List (String × Json)) {outer : List Frame} (hlt : outer.length < nestingLimit) (rest : Bytes) :
    Comes (Fits (nestingLimit - outer.length - 1) v) ⟨.object members none :: outer, .nextKey⟩
      (before ++ k ++ behind ++ 0x3A :: (before' ++ t ++ behind') ++ b :: rest)
      ⟨.object ((key, v) :: members) none :: outer, .afterValue⟩ (b :: rest) := by
  simp only [List.append_assoc, List.cons_append]
  exact .after (goes_key hk hbefore hbehind _ _ _)
    (h.element hbefore' hbehind' hb (.object members (some key) :: outer) hlt rest)

/-- However a part is spelt, the reader comes to it. -/
theorem arrives_of_spells {part : Part} {t : Bytes} (h : Spells part t) : Arrives part t := by
  -- on the spelling; items and members are read onto what the innermost frame holds already
  induction h with
  | null => exact arrives_word (fun _ => rfl) fun room => ⟨Nat.zero_le room, rfl⟩
  | true => exact arrives_word (fun _ => rfl) fun room => ⟨Nat.zero_le room, rfl⟩
  | false => exact arrives_word (fun _ => rfl) fun room => ⟨Nat.zero_le room, rfl⟩
  | number hnumeral => exact arrives_number hnumeral
  | @string text t htext =>
    refine arrives_word (fun frames => ?_) fun room => ⟨Nat.zero_le room, rfl⟩
    have hopen : plainStep? ⟨frames, .value⟩ 0x22 = some ⟨frames, .string false .plain []⟩ := rfl
    exact goes_text htext _ hopen rfl
  | emptyArray hblanks => exact arrives_emptyArray hblanks
  | array ht ih => exact ih.array ht
  | emptyObject hblanks => exact fun frames b rest _ _ => comes_emptyObject hblanks frames (b :: rest)
  | object ht ih => exact fun frames b rest _ _ => ih.object ht frames (b :: rest)
  | @lastItem v before t behind hbefore _ hbehind ih =>
    intro outer items rest hlt
    have hitem := ih.item hbefore hbehind (b := 0x5D) (by simp [Numeral.IsDelimiter]) items hlt rest
    refine (hitem.before ?_).congr ?_
    · rw [goes_plain rfl]
      show goes (deliver outer (.array (v :: items).reverse)) rest = _
      rw [List.reverse_cons]
    · rw [itemsFit_cons, and_iff_left (itemsFit_nil _)]
  | @moreItems v vs before t behind trailing hbefore _ hbehind _ ih ihrest =>
    intro outer items rest hlt
    rw [List.append_assoc, List.cons_append]
    have hitem := ih.item hbefore hbehind (b := 0x2C) (by simp [Numeral.IsDelimiter]) items hlt
      (trailing ++ 0x5D :: rest)
    have hothers := ihrest outer (v :: items) rest hlt
    rw [List.reverse_cons, List.append_assoc, List.singleton_append] at hothers
    rw [itemsFit_cons]
    exact (hitem.before (goes_plain rfl _ _)).trans hothers
  | @lastMember key v before k behind before' t behind' hbefore hkey hbehind hbefore' _ hbehind' ih =>
    intro outer members rest hlt
    have hmember := ih.member hbefore hkey hbehind hbefore' hbehind' (b := 0x7D) (by simp [Numeral.IsDelimiter])
      members hlt rest
    refine (hmember.before ?_).congr ?_
    · rw [goes_plain rfl]
      show goes (deliver outer (.object ((key, v) :: members).reverse)) rest = _
      rw [List.reverse_cons]
    · rw [membersFit_cons, and_iff_left (membersFit_nil _)]
  | @moreMembers key v ms before k behind before' t behind' trailing hbefore hkey hbehind hbefore' _ hbehind' _ ih
      ihrest =>
    intro outer members rest hlt
    have hmember := ih.member hbefore hkey hbehind hbefore' hbehind' (b := 0x2C) (by simp [Numeral.IsDelimiter])
      members hlt (trailing ++ 0x7D :: rest)
    have hothers := ihrest outer ((key, v) :: members) rest hlt
    rw [List.reverse_cons, List.append_assoc, List.singleton_append] at hothers
    rw [membersFit_cons, List.append_assoc, List.cons_append]
    exact (hmember.before (goes_plain rfl _ _)).trans hothers

/-- The reader comes to an object as soon as it is closed. -/
theorem goes_spelt {ms : List (String × Json)} {t : Bytes} (h : Spells (.value (.object ms)) t) :
    Comes (Fits nestingLimit (.object ms)) initial t ⟨[], .done (.object ms)⟩ [] := by
  have hcomes : Comes (Fits nestingLimit (.object ms)) initial (t ++ []) ⟨[], .done (.object ms)⟩ [] := by
    cases h with
    | emptyObject hblanks => exact comes_emptyObject hblanks [] []
    | object ht => exact (arrives_of_spells ht).object ht [] []
  rwa [List.append_nil] at hcomes

end Reader

end Verdicts.Json
