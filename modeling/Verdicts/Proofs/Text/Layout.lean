/-
Text laid out in columns and lines, as characters, and where line breaks in it come from: joining, padding and cutting
off white space adds none. `Cut` says that a line is some characters without the white space at their end. Lines without
line breaks are told apart in a text of them: `linesOf` reads them back.
-/
import Mathlib.Data.List.DropRight
import Verdicts.Text.Blank
import Verdicts.Text.Column
import Verdicts.Text.Decimal

namespace Verdicts.Text

@[simp] theorem toList_indent (level : Nat) : (indent level).toList = List.replicate (2 * level) ' ' :=
  String.toList_ofList

@[simp] theorem toList_padRight (width : Nat) (text : String) :
    (padRight width text).toList = text.toList ++ List.replicate (width - text.length) ' ' := by
  simp [padRight]

@[simp] theorem toList_padLeft (width : Nat) (text : String) :
    (padLeft width text).toList = List.replicate (width - text.length) ' ' ++ text.toList := by
  simp [padLeft]

@[simp] theorem toList_rstrip (line : String) : (rstrip line).toList = line.toList.rdropWhile isBlank :=
  String.toList_ofList

/-- A text has at least as many bytes as characters. -/
theorem length_le_utf8ByteSize (text : String) : text.length ≤ text.utf8ByteSize := by
  induction text using String.push_induction with
  | empty => simp
  | push text c ih =>
    have hc := c.utf8Size_pos
    rw [String.length_push, String.utf8ByteSize_push]
    omega

/-! ## White space at the end -/

/-- The line is the text without the white space at its end. -/
def Cut (text : List Char) (line : String) : Prop :=
  (∃ blanks, text = line.toList ++ blanks ∧ ∀ c ∈ blanks, isBlank c = true) ∧
    ∀ c ∈ line.toList.getLast?, isBlank c = false

theorem cut_rstrip (line : String) : Cut line.toList (rstrip line) := by
  refine ⟨⟨line.toList.rtakeWhile isBlank, ?_, fun c hc => List.mem_rtakeWhile_imp hc⟩, ?_⟩
  · rw [toList_rstrip, List.rdropWhile_append_rtakeWhile]
  · intro c hc
    rw [toList_rstrip] at hc
    obtain ⟨hne, rfl⟩ := List.mem_getLast?_eq_getLast hc
    exact Bool.eq_false_iff.2 (List.rdropWhile_last_not _ _ hne)

/-! ## Line breaks -/

/-- There is a line break in the text. -/
def Broken (text : String) : Prop := '\n' ∈ text.toList

instance (text : String) : Decidable (Broken text) := inferInstanceAs (Decidable ('\n' ∈ text.toList))

@[simp] theorem broken_append {a b : String} : Broken (a ++ b) ↔ Broken a ∨ Broken b := by
  simp [Broken]

@[simp] theorem not_broken_blanks (n : Nat) : ¬ Broken (String.ofList (List.replicate n ' ')) := by
  simp [Broken]

@[simp] theorem not_broken_indent (level : Nat) : ¬ Broken (indent level) := not_broken_blanks _

@[simp] theorem broken_padRight {width : Nat} {text : String} : Broken (padRight width text) ↔ Broken text := by
  simp [padRight]

@[simp] theorem broken_padLeft {width : Nat} {text : String} : Broken (padLeft width text) ↔ Broken text := by
  simp [padLeft]

theorem broken_join {texts : List String} : Broken (String.join texts) ↔ ∃ text ∈ texts, Broken text := by
  simp [Broken]

theorem Broken.of_rstrip {line : String} (h : Broken (rstrip line)) : Broken line := by
  unfold Broken at h
  rw [toList_rstrip] at h
  exact (List.rdropWhile_prefix _ _).subset h

/-- A text put together with separators has a line break only in a separator or in one of its parts. -/
theorem Broken.of_intercalate {separator : String} {texts : List String}
    (h : Broken (String.intercalate separator texts)) : Broken separator ∨ ∃ text ∈ texts, Broken text := by
  induction texts with
  | nil => simp [Broken] at h
  | cons text texts ih =>
    rcases texts with _ | ⟨next, rest⟩
    · rw [String.intercalate_singleton] at h
      exact .inr ⟨text, List.mem_cons_self, h⟩
    · rw [String.intercalate_cons_cons, broken_append, broken_append] at h
      rcases h with (h | h) | h
      · exact .inr ⟨text, List.mem_cons_self, h⟩
      · exact .inl h
      · exact (ih h).imp_right fun ⟨part, hpart, hbroken⟩ => ⟨part, List.mem_cons_of_mem _ hpart, hbroken⟩

theorem not_mem_toDigits (n : Nat) : '\n' ∉ Nat.toDigits 10 n := by
  intro h
  have hdigit := Nat.isDigit_of_mem_toDigits (by decide) (by decide) h
  revert hdigit
  decide

theorem not_broken_repr (n : Nat) : ¬ Broken (Nat.repr n) := by
  unfold Broken
  rw [Nat.toList_repr]
  exact not_mem_toDigits n

theorem not_broken_int (n : Int) : ¬ Broken (Decimal.int n) := by
  unfold Decimal.int
  split
  · exact not_broken_repr _
  · have hsign : ¬ Broken "-" := by decide
    simp [hsign, not_broken_repr]

/-! ## Lines -/

/-- The lines of a text, each of which ends with a line break. -/
def linesOf (text : String) : List String := (text.toList.splitOn '\n').dropLast.map String.ofList

/-- Lines without line breaks are read back from the text. -/
theorem linesOf_lines {ls : List String} (h : ∀ line ∈ ls, ¬ Broken line) : linesOf (lines ls) = ls := by
  have hsplit : (lines ls).toList.splitOn '\n' = ls.map String.toList ++ [[]] := by
    induction ls with
    | nil => rfl
    | cons line rest ih =>
      have hcons : (lines (line :: rest)).toList = line.toList ++ '\n' :: (lines rest).toList := by simp [lines]
      have hline : '\n' ∉ line.toList := h line List.mem_cons_self
      rw [hcons, List.splitOn_append_cons_self_of_not_mem hline, ih fun l hl => h l (List.mem_cons_of_mem _ hl)]
      rfl
  rw [linesOf, hsplit, List.dropLast_concat, List.map_map]
  exact (List.map_congr_left fun _ _ => String.ofList_toList).trans (List.map_id _)

end Verdicts.Text
