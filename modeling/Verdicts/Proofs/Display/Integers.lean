/-
Integers in traces. A stream of integers, or of arrays of them, shows an integer with its exact digits as long as 64 bits
hold it with a sign. Above that it is kept as a real, so a precision rounds it like one and adds its places; and the zero
behind a minus sign is no integer at all. Main statement: `display_integers`.
-/
import Verdicts.Display.Value
import Verdicts.Proofs.Json.Integers
import Verdicts.Proofs.Number.Natural
import Verdicts.Record.StreamValue

namespace Verdicts

/-- An integer as a document has it, by its sign and its magnitude. -/
structure IntegerLiteral where
  negative : Bool
  magnitude : Nat
  deriving DecidableEq, Repr

/-- Integers and arrays of them, in any nesting. -/
inductive IntegerTree where
  | literal (literal : IntegerLiteral)
  | array (items : List IntegerTree)

namespace IntegerLiteral

def value (l : IntegerLiteral) : Int := if l.negative then -(l.magnitude : Int) else l.magnitude

/-- As it stands in a document. -/
def bytes (l : IntegerLiteral) : Bytes := Json.integer l.negative l.magnitude

/-- The number that a document with the literal has. -/
def number (l : IntegerLiteral) : Json.Number := .ofLiteral l.bytes

/-- Whether 64 bits hold the integer, with a sign or without. -/
def InRange (l : IntegerLiteral) : Prop := -2 ^ 63 ≤ l.value ∧ l.value ≤ 2 ^ 64 - 1

/-- The exact digits. -/
def text (l : IntegerLiteral) : String := Decimal.int l.value

/-- The zero behind a minus sign, which JSON takes for a double. -/
def negativeZero : IntegerLiteral := ⟨true, 0⟩

/-- What a stream of integers shows where reals have `precision` places. -/
def shown (precision : Option Nat) (l : IntegerLiteral) : String :=
  match precision with
  | none => if l = negativeZero then "-0.0" else l.text
  | some places =>
    if l = negativeZero then String.ofList ('-' :: '0' :: Binary64.noFraction places)
    else if l.value < 2 ^ 63 then l.text
    else String.ofList (Nat.toDigits 10 (Binary64.nearest l.magnitude) ++ Binary64.noFraction places)

theorem shown_none (l : IntegerLiteral) : l.shown none = if l = negativeZero then "-0.0" else l.text := rfl

theorem shown_some (places : Nat) (l : IntegerLiteral) : l.shown (some places) =
    if l = negativeZero then String.ofList ('-' :: '0' :: Binary64.noFraction places)
    else if l.value < 2 ^ 63 then l.text
    else String.ofList (Nat.toDigits 10 (Binary64.nearest l.magnitude) ++ Binary64.noFraction places) := rfl

/-- Whether that is the integer: 64 bits hold it with its sign, or nothing is rounded, or the places are none and a double
holds it. -/
def Kept (precision : Option Nat) (l : IntegerLiteral) : Prop :=
  l ≠ negativeZero ∧ (l.value < 2 ^ 63 ∨ precision = none ∨ precision = some 0 ∧ Binary64.gap ∣ l.magnitude)

instance (l : IntegerLiteral) : Decidable l.InRange := inferInstanceAs (Decidable (_ ∧ _))

instance (precision : Option Nat) (l : IntegerLiteral) : Decidable (l.Kept precision) := inferInstanceAs (Decidable (_ ∧ _))

/-- They are all the integers of the grammar, each with the number that it spells. -/
theorem isInteger_iff_bytes {t : Bytes} : Json.IsInteger t ↔ ∃ l : IntegerLiteral, l.bytes = t ∧ l.number = .ofLiteral t := by
  rw [Json.isInteger_iff]
  constructor
  · rintro ⟨negative, magnitude, rfl⟩
    exact ⟨⟨negative, magnitude⟩, rfl, rfl⟩
  · rintro ⟨⟨negative, magnitude⟩, hbytes, -⟩
    exact ⟨negative, magnitude, hbytes.symm⟩

/-! ## What is shown of one integer -/

theorem text_of_nonnegative {n : Nat} : text ⟨false, n⟩ = Nat.repr n := rfl

/-- The values that are not kept as integers lie beyond the signed ones. -/
theorem large_cases {l : IntegerLiteral} (h : l.InRange) (hlarge : ¬ l.value < 2 ^ 63) :
    ∃ n, l = ⟨false, n⟩ ∧ 1 <<< 63 ≤ n ∧ n < 1 <<< 64 := by
  obtain ⟨negative, n⟩ := l
  unfold InRange value at h
  unfold value at hlarge
  cases negative with
  | true =>
    simp only [if_true] at h hlarge
    omega
  | false =>
    simp only [Bool.false_eq_true, if_false] at h hlarge
    exact ⟨n, rfl, by omega, by omega⟩

/-- Only in its own digits is a rounded integer shown exactly, and without places. -/
theorem rounded_eq_repr_iff {n places : Nat} :
    String.ofList (Nat.toDigits 10 (Binary64.nearest n) ++ Binary64.noFraction places) = Nat.repr n ↔
      places = 0 ∧ Binary64.gap ∣ n := by
  rw [← Binary64.nearest_eq_iff, ← String.toList_inj, String.toList_ofList, Nat.toList_repr]
  unfold Binary64.noFraction
  split
  · rename_i hplaces
    rw [List.append_nil]
    exact ⟨fun h => ⟨hplaces, Decimal.toDigits_injective h⟩, fun h => by rw [h.2]⟩
  · rename_i hplaces
    refine ⟨fun h => ?_, fun h => absurd h.1 hplaces⟩
    have hpoint : '.' ∈ Nat.toDigits 10 n := h ▸ List.mem_append_right _ List.mem_cons_self
    exact absurd ((Decimal.digits_toDigits n).2.1 '.' hpoint) (by decide)

theorem shown_of_small {l : IntegerLiteral} (hzero : l ≠ negativeZero) (hsmall : l.value < 2 ^ 63)
    (precision : Option Nat) : l.shown precision = l.text := by
  cases precision with
  | none => rw [shown_none, if_neg hzero]
  | some places => rw [shown_some, if_neg hzero, if_pos hsmall]

theorem shown_of_large {n : Nat} (hlarge : ¬ value ⟨false, n⟩ < 2 ^ 63) (places : Nat) :
    shown (some places) ⟨false, n⟩ =
      String.ofList (Nat.toDigits 10 (Binary64.nearest n) ++ Binary64.noFraction places) := by
  have hzero : ⟨false, n⟩ ≠ negativeZero := fun h => nomatch congrArg negative h
  rw [shown_some, if_neg hzero, if_neg hlarge]

theorem shown_negativeZero_ne (precision : Option Nat) : shown precision negativeZero ≠ text negativeZero := by
  have hne : ∀ rest, String.ofList ('-' :: rest) ≠ text negativeZero := by
    intro rest heq
    have hhead : some '-' = (text negativeZero).toList.head? := by rw [← heq, String.toList_ofList, List.head?_cons]
    exact absurd hhead (by decide +kernel)
  cases precision with
  | none => exact hne ['0', '.', '0']
  | some places => exact hne ('0' :: Binary64.noFraction places)

theorem shown_eq_text_iff {precision : Option Nat} {l : IntegerLiteral} (h : l.InRange) :
    l.shown precision = l.text ↔ l.Kept precision := by
  unfold Kept
  by_cases hzero : l = negativeZero
  · rw [hzero]
    exact ⟨fun h => absurd h (shown_negativeZero_ne precision), fun h => absurd rfl h.1⟩
  rw [and_iff_right hzero]
  by_cases hsmall : l.value < 2 ^ 63
  · exact ⟨fun _ => .inl hsmall, fun _ => shown_of_small hzero hsmall precision⟩
  · obtain ⟨n, rfl, -⟩ := large_cases h hsmall
    rw [or_iff_right hsmall]
    cases precision with
    | none =>
      rw [shown_none, if_neg hzero]
      exact ⟨fun _ => .inl rfl, fun _ => rfl⟩
    | some places =>
      rw [shown_of_large hsmall, text_of_nonnegative, rounded_eq_repr_iff, Option.some.injEq]
      exact ⟨.inr, fun h => h.resolve_left nofun⟩

/-! ## What becomes of a literal -/

/-- A literal is read as its integer, but for the zero behind a minus sign. -/
theorem number_eq {l : IntegerLiteral} (h : l.InRange) (hzero : l ≠ negativeZero) : l.number = .int l.value := by
  obtain ⟨negative, n⟩ := l
  unfold InRange value at h
  cases negative with
  | false =>
    simp only [Bool.false_eq_true, if_false] at h
    exact Json.Number.ofLiteral_natural (show n < 2 ^ 64 by omega)
  | true =>
    simp only [if_true] at h
    have hpos : 0 < n := Nat.pos_of_ne_zero fun hn => hzero (congrArg (IntegerLiteral.mk true) hn)
    exact Json.Number.ofLiteral_negative hpos (show n ≤ 2 ^ 63 by omega)

variable {settings : DisplaySettings} {type : String}

theorem display_negativeZero (htype : type ≠ "real") :
    (StreamValue.ofJson type (.number negativeZero.number)).display settings =
      negativeZero.shown settings.realPrecision := by
  have hread : RealText.real? "-0.0" = some (.zero true) := by decide +kernel
  have hvalue : StreamValue.ofJson type (.number negativeZero.number) = .real "-0.0" := by
    have hnumber : negativeZero.number = .float (.zero true) := Json.Number.ofLiteral_negative_zero
    rw [hnumber, StreamValue.ofJson, if_neg htype]
    exact congrArg StreamValue.real (by decide +kernel)
  rw [hvalue, StreamValue.display, hread]
  cases settings.realPrecision with
  | none =>
    rw [shown_none, if_pos rfl]
  | some places =>
    rw [shown_some, if_pos rfl]
    exact (Binary64.fixedText_zero true places).trans String.ofList_append.symm

/-- In a stream that is not one of reals. -/
theorem display_number (htype : type ≠ "real") {l : IntegerLiteral} (h : l.InRange) :
    (StreamValue.ofJson type (.number l.number)).display settings = l.shown settings.realPrecision := by
  by_cases hzero : l = negativeZero
  · rw [hzero]
    exact display_negativeZero htype
  by_cases hsmall : l.value < 2 ^ 63
  · have hfits : fitsSigned64 l.value = true := decide_eq_true ⟨h.1, hsmall⟩
    rw [shown_of_small hzero hsmall, number_eq h hzero, StreamValue.ofJson, if_neg htype]
    simp only [if_pos hfits]
    rfl
  · obtain ⟨n, rfl, hge, hlt⟩ := large_cases h hsmall
    have hwide : fitsSigned64 (value ⟨false, n⟩) = false := decide_eq_false fun hfits => hsmall hfits.2
    have hvalue : StreamValue.ofJson type (.number (number ⟨false, n⟩)) = .real (Nat.repr n) := by
      rw [number_eq h hzero, StreamValue.ofJson, if_neg htype]
      simp only [hwide]
      rfl
    obtain ⟨x, hread, hfixed⟩ := RealText.exists_real?_repr hge hlt
    rw [hvalue, StreamValue.display, hread]
    cases settings.realPrecision with
    | none =>
      rw [shown_none, if_neg hzero]
      rfl
    | some places => exact (hfixed places).trans (shown_of_large hsmall places).symm

end IntegerLiteral

/-! ## Arrays -/

namespace IntegerTree

mutual

/-- The value that a document with the literals has. -/
def json : IntegerTree → Json
  | .literal l => .number l.number
  | .array items => .array (jsons items)

def jsons : List IntegerTree → List Json
  | [] => []
  | item :: rest => json item :: jsons rest

end

mutual

/-- All the integers. -/
def literals : IntegerTree → List IntegerLiteral
  | .literal l => [l]
  | .array items => literalsOf items

def literalsOf : List IntegerTree → List IntegerLiteral
  | [] => []
  | item :: rest => literals item ++ literalsOf rest

end

mutual

/-- Arrays in brackets, with commas between their items, and each integer by its text. -/
def render (text : IntegerLiteral → String) : IntegerTree → String
  | .literal l => text l
  | .array items => "[" ++ String.intercalate ", " (renders text items) ++ "]"

def renders (text : IntegerLiteral → String) : List IntegerTree → List String
  | [] => []
  | item :: rest => render text item :: renders text rest

end

def InRange (tree : IntegerTree) : Prop := ∀ l ∈ tree.literals, l.InRange

instance (tree : IntegerTree) : Decidable tree.InRange := inferInstanceAs (Decidable (∀ l ∈ tree.literals, l.InRange))

/-! ### What is shown is determined by the texts of the integers, and determines them -/

mutual

theorem render_congr {text text' : IntegerLiteral → String} : ∀ tree : IntegerTree,
    (∀ l ∈ tree.literals, text l = text' l) → tree.render text = tree.render text'
  | .literal l, h => h l List.mem_cons_self
  | .array items, h => by rw [render, render, renders_congr items h]

theorem renders_congr {text text' : IntegerLiteral → String} : ∀ items : List IntegerTree,
    (∀ l ∈ literalsOf items, text l = text' l) → renders text items = renders text' items
  | [], _ => rfl
  | item :: rest, h => by
    rw [renders, renders, render_congr item fun l hl => h l (List.mem_append_left _ hl),
      renders_congr rest fun l hl => h l (List.mem_append_right _ hl)]

end

/-- A character that ends an item of an array. -/
def isEnd (c : Char) : Bool := c == ',' || c == ']'

/-- The texts that stay within an item, so that its end can be seen. -/
def Inside (text : IntegerLiteral → String) : Prop := ∀ l, ∀ c ∈ (text l).toList, isEnd c = false

/-- What may stand behind an item. -/
def Ended (rest : List Char) : Prop := ∀ c ∈ rest.head?, isEnd c = true

theorem append_inj_of_ended {text text' rest rest' : List Char} (htext : ∀ c ∈ text, isEnd c = false)
    (htext' : ∀ c ∈ text', isEnd c = false) (hrest : Ended rest) (hrest' : Ended rest')
    (h : text ++ rest = text' ++ rest') : text = text' ∧ rest = rest' := by
  have htake : ∀ {text rest : List Char}, (∀ c ∈ text, isEnd c = false) → Ended rest →
      (text ++ rest).takeWhile (!isEnd ·) = text := by
    intro text rest htext hrest
    rw [List.takeWhile_append_of_pos fun c hc => by rw [htext c hc]; rfl]
    cases rest with
    | nil => exact List.append_nil text
    | cons c rest =>
      rw [List.takeWhile_cons_of_neg, List.append_nil]
      rw [hrest c rfl]
      exact Bool.false_ne_true
  have heq : text = text' := by rw [← htake htext hrest, h, htake htext' hrest']
  subst heq
  exact ⟨rfl, List.append_cancel_left h⟩

theorem ended_bracket (rest : List Char) : Ended ("]".toList ++ rest) := by
  rintro _ ⟨⟩
  rfl

theorem ended_comma (rest : List Char) : Ended (", ".toList ++ rest) := by
  rintro _ ⟨⟩
  rfl

section Injective

variable {text text' : IntegerLiteral → String}

mutual

/-- Read from the front, what is shown of a tree gives the texts of its integers and what stands behind it. -/
theorem render_inj (htext : Inside text) (htext' : Inside text') : ∀ (tree : IntegerTree) (rest rest' : List Char),
    Ended rest → Ended rest' → (tree.render text).toList ++ rest = (tree.render text').toList ++ rest' →
      (∀ l ∈ tree.literals, text l = text' l) ∧ rest = rest'
  | .literal l, rest, rest', hrest, hrest', h => by
    obtain ⟨heq, hsame⟩ := append_inj_of_ended (htext l) (htext' l) hrest hrest' h
    refine ⟨fun l' hl' => ?_, hsame⟩
    rw [List.mem_singleton.1 hl', ← String.toList_inj, heq]
  | .array items, rest, rest', _, _, h => by
    simp only [render, String.toList_append, List.append_assoc] at h
    obtain ⟨hall, hsame⟩ := renders_inj htext htext' items rest rest' (List.append_cancel_left h)
    exact ⟨hall, hsame⟩

theorem renders_inj (htext : Inside text) (htext' : Inside text') : ∀ (items : List IntegerTree) (rest rest' : List Char),
    (String.intercalate ", " (renders text items)).toList ++ ("]".toList ++ rest) =
        (String.intercalate ", " (renders text' items)).toList ++ ("]".toList ++ rest') →
      (∀ l ∈ literalsOf items, text l = text' l) ∧ rest = rest'
  | [], rest, rest', h => ⟨nofun, List.append_cancel_left (List.append_cancel_left h)⟩
  | [item], rest, rest', h => by
    simp only [renders, String.intercalate_singleton] at h
    obtain ⟨hall, hsame⟩ := render_inj htext htext' item _ _ (ended_bracket rest) (ended_bracket rest') h
    refine ⟨fun l hl => hall l ?_, List.append_cancel_left hsame⟩
    rwa [literalsOf, literalsOf, List.append_nil] at hl
  | item :: next :: more, rest, rest', h => by
    have hjoin : ∀ text, String.intercalate ", " (renders text (item :: next :: more)) =
        render text item ++ ", " ++ String.intercalate ", " (renders text (next :: more)) := fun text =>
      String.intercalate_cons_cons
    simp only [hjoin, String.toList_append, List.append_assoc] at h
    obtain ⟨hfirst, hrest⟩ := render_inj htext htext' item _ _ (ended_comma _) (ended_comma _) h
    obtain ⟨hothers, hsame⟩ := renders_inj htext htext' (next :: more) rest rest' (List.append_cancel_left hrest)
    refine ⟨fun l hl => ?_, hsame⟩
    exact (List.mem_append.1 hl).elim (hfirst l) (hothers l)

end

theorem render_eq_iff (htext : Inside text) (htext' : Inside text') (tree : IntegerTree) :
    tree.render text = tree.render text' ↔ ∀ l ∈ tree.literals, text l = text' l := by
  have hnil : Ended [] := nofun
  refine ⟨fun h => ?_, render_congr tree⟩
  exact (render_inj htext htext' tree [] [] hnil hnil (by rw [h])).1

end Injective

/-! ### The texts stay within their items -/

theorem isEnd_toDigits (n : Nat) : ∀ c ∈ Nat.toDigits 10 n, isEnd c = false := by
  intro c hc
  have hdigit := (Decimal.digits_toDigits n).2.1 c hc
  unfold isEnd
  rw [Bool.or_eq_false_iff, beq_eq_false_iff_ne, beq_eq_false_iff_ne]
  constructor <;> rintro rfl <;> exact absurd hdigit (by decide)

theorem isEnd_noFraction (places : Nat) : ∀ c ∈ Binary64.noFraction places, isEnd c = false := by
  intro c hc
  unfold Binary64.noFraction at hc
  split at hc
  · cases hc
  · rcases List.mem_cons.1 hc with rfl | hc
    · rfl
    · rw [List.eq_of_mem_replicate hc]
      rfl

theorem inside_text : Inside IntegerLiteral.text := by
  intro l c hc
  unfold IntegerLiteral.text Decimal.int at hc
  split at hc
  · rw [Nat.toList_repr] at hc
    exact isEnd_toDigits _ c hc
  · rw [String.toList_append, Nat.toList_repr] at hc
    rcases List.mem_append.1 hc with hc | hc
    · rw [List.mem_singleton.1 hc]
      rfl
    · exact isEnd_toDigits _ c hc

theorem inside_shown (precision : Option Nat) : Inside (IntegerLiteral.shown precision) := by
  intro l c hc
  cases precision with
  | none =>
    rw [IntegerLiteral.shown_none] at hc
    split at hc
    · have hall : "-0.0".toList.all (!isEnd ·) = true := by decide +kernel
      simpa using List.all_eq_true.1 hall c hc
    · exact inside_text l c hc
  | some places =>
    rw [IntegerLiteral.shown_some] at hc
    split at hc
    · rw [String.toList_ofList] at hc
      rcases List.mem_cons.1 hc with rfl | hc
      · rfl
      · rcases List.mem_cons.1 hc with rfl | hc
        · rfl
        · exact isEnd_noFraction places c hc
    · split at hc
      · exact inside_text l c hc
      · rw [String.toList_ofList] at hc
        exact (List.mem_append.1 hc).elim (isEnd_toDigits _ c) (isEnd_noFraction places c)

/-! ### What a stream shows -/

/-- Integers in as many arrays. -/
def type : Nat → String
  | 0 => "int"
  | levels + 1 => "array of " ++ type levels

theorem head?_type (levels : Nat) : (type levels).toList.head? = some 'i' ∨ (type levels).toList.head? = some 'a' := by
  cases levels with
  | zero => exact .inl rfl
  | succ levels =>
    rw [type, String.toList_append]
    exact .inr rfl

theorem getLast?_type (levels : Nat) : (type levels).toList.getLast? = some 't' := by
  induction levels with
  | zero => rfl
  | succ levels ih => rw [type, String.toList_append, List.getLast?_append, ih, Option.some_or]

theorem type_ne_real (levels : Nat) : type levels ≠ "real" := by
  intro h
  have hhead := head?_type levels
  rw [h] at hhead
  exact absurd hhead (by decide)

theorem trim_type (levels : Nat) : Text.trim (type levels).toList = (type levels).toList := by
  have hlast := getLast?_type levels
  have hne : (type levels).toList ≠ [] := by
    intro h
    rw [h] at hlast
    cases hlast
  rw [List.getLast?_eq_some_getLast hne] at hlast
  refine Text.trim_eq_self hne ?_ (by rw [Option.some.inj hlast]; rfl)
  have hhead := head?_type levels
  rw [List.head?_eq_some_head hne] at hhead
  rcases hhead with hhead | hhead <;> rw [Option.some.inj hhead] <;> rfl

theorem isPrefixOf?_append (text rest : List Char) : text.isPrefixOf? (text ++ rest) = some rest := by
  induction text with
  | nil => rfl
  | cons c text ih => rw [List.cons_append, List.isPrefixOf?, if_pos (beq_self_eq_true c), ih]

/-- The items of integers in arrays are integers in one array less. -/
theorem itemType_type (levels : Nat) : itemType (type levels) = type (levels - 1) := by
  cases levels with
  | zero => decide +kernel
  | succ levels =>
    unfold itemType
    rw [type, String.toList_append, isPrefixOf?_append]
    simp only
    rw [trim_type, String.ofList_toList, Nat.add_sub_cancel]

variable {settings : DisplaySettings}

mutual

theorem display_json : ∀ (levels : Nat) (tree : IntegerTree), tree.InRange →
    (StreamValue.ofJson (type levels) tree.json).display settings =
      tree.render (IntegerLiteral.shown settings.realPrecision)
  | levels, .literal l, h => IntegerLiteral.display_number (type_ne_real levels) (h l List.mem_cons_self)
  | levels, .array items, h => by
    rw [json, StreamValue.ofJson, StreamValue.display, itemType_type, displays_jsons (levels - 1) items h, render]

theorem displays_jsons : ∀ (levels : Nat) (items : List IntegerTree), (∀ l ∈ literalsOf items, l.InRange) →
    StreamValue.displays settings (StreamValue.ofItems (type levels) (jsons items)) =
      renders (IntegerLiteral.shown settings.realPrecision) items
  | _, [], _ => rfl
  | levels, item :: rest, h => by
    rw [jsons, StreamValue.ofItems, StreamValue.displays, renders,
      display_json levels item fun l hl => h l (List.mem_append_left _ hl),
      displays_jsons levels rest fun l hl => h l (List.mem_append_right _ hl)]

end

/-- A stream of integers or of arrays shows each integer for itself, and all of them exactly where it keeps every one. The
literals are any that the grammar has for integers. -/
theorem display_integers (settings : DisplaySettings) (levels : Nat) {tree : IntegerTree} (h : tree.InRange) :
    let shown := (StreamValue.ofJson (type levels) tree.json).display settings
    (∀ t, Json.IsInteger t ↔ ∃ l : IntegerLiteral, l.bytes = t ∧ l.number = .ofLiteral t) ∧
      shown = tree.render (IntegerLiteral.shown settings.realPrecision) ∧
      (shown = tree.render IntegerLiteral.text ↔ ∀ l ∈ tree.literals, l.Kept settings.realPrecision) := by
  intro shown
  have hshown : shown = tree.render (IntegerLiteral.shown settings.realPrecision) := display_json levels tree h
  refine ⟨fun t => IntegerLiteral.isInteger_iff_bytes, hshown, ?_⟩
  rw [hshown, render_eq_iff (inside_shown _) inside_text]
  exact forall₂_congr fun l hl => IntegerLiteral.shown_eq_text_iff (h l hl)

/-- Beyond the signed integers, next to them, and a negative one: `2 ^ 63` is a double, so nothing is lost without places. -/
theorem display_integers_around_limit :
    let settings : DisplaySettings := { DisplaySettings.plain with realPrecision := some 0 }
    let tree : IntegerTree :=
      .array [.literal ⟨false, 1 <<< 63⟩, .array [.literal ⟨false, 1 <<< 63 - 1⟩, .literal ⟨true, 1 <<< 63⟩]]
    tree.InRange ∧ (StreamValue.ofJson "array of array of int" tree.json).display settings = tree.render IntegerLiteral.text := by
  intro settings tree
  have hrange : tree.InRange := by decide
  have hkept : ∀ l ∈ tree.literals, l.Kept settings.realPrecision := by decide
  have htype : type 2 = "array of array of int" := by decide +kernel
  rw [← htype]
  exact ⟨hrange, (display_integers settings 2 hrange).2.2.2 hkept⟩

/-- The greatest integer of 64 bits, with two places. -/
theorem rounded_beyond_signed :
    let settings : DisplaySettings := { DisplaySettings.plain with realPrecision := some 2 }
    let tree : IntegerTree := .literal ⟨false, 18446744073709551615⟩
    tree.InRange ∧ (StreamValue.ofJson "int" tree.json).display settings = "18446744073709551616.00" ∧
      tree.render IntegerLiteral.text = "18446744073709551615" := by
  decide +kernel

end IntegerTree

end Verdicts
