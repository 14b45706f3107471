/-
The tables of a trace. They show the blocks in the order of `Trace.preorder`, each with a title, a line of step numbers
and a line for each stream. A `Row` is a line of cells before the white space at its end is cut off; `Tabulates` says
what the lines for a block are, and where the cells in them stand. Where nothing that is shown has a line break, the
lines can be read back from the text.
-/
import Mathlib.Algebra.Group.Nat.Defs
import Mathlib.Data.List.Forall2
import Mathlib.Order.Bounds.Basic
import Verdicts.Display.TraceTable
import Verdicts.Proofs.Result.TraceLength
import Verdicts.Proofs.Text.Layout

namespace Verdicts

/-! ## Cells -/

/-- The text stands for what a stream has at a step: the value recorded first, or a dash. -/
inductive TraceStream.Shows (settings : DisplaySettings) (s : TraceStream) (step : Nat) : String → Prop
  | value {before after : List (Nat × StreamValue)} {v : StreamValue} :
      s.values = before ++ (step, v) :: after → (∀ e ∈ before, e.1 ≠ step) → Shows settings s step (v.display settings)
  | dash : (∀ e ∈ s.values, e.1 ≠ step) → Shows settings s step "-"

theorem TraceTable.cell_shows (settings : DisplaySettings) (s : TraceStream) (step : Nat) :
    s.Shows settings step (cell settings s step) := by
  unfold cell TraceStream.at?
  split
  · rename_i v hv
    obtain ⟨before, after, heq, hbefore⟩ := List.lookup_eq_some_iff.1 hv
    exact .value heq fun e he => (bne_iff_ne.1 (hbefore e he)).symm
  · rename_i hnone
    exact .dash fun e he => (bne_iff_ne.1 (List.lookup_eq_none_iff.1 hnone e he)).symm

/-! ## Rows -/

namespace TraceTable

/-- A line of cells. In front of the text of a cell stand a blank and as many more as are given with it. -/
structure Row where
  name : String
  /-- The blanks behind the name. -/
  gap : Nat
  cells : List (Nat × String)

namespace Row

/-- What stands in front of a cell. -/
def front (level : Nat) (r : Row) (step : Nat) : List Char :=
  List.replicate (2 * (level + 1)) ' ' ++ r.name.toList ++ List.replicate r.gap ' '
    ++ (r.cells.take step).flatMap fun c => ' ' :: (List.replicate c.1 ' ' ++ c.2.toList)

def chars (level : Nat) (r : Row) : List Char := r.front level r.cells.length

/-- Where a cell starts. -/
def column (level : Nat) (r : Row) (step : Nat) : Nat := (r.front level step).length

/-- No cell needs more than the width of a cell. -/
def Narrow (r : Row) : Prop := ∀ c ∈ r.cells, c.2.length ≤ 8

end Row

/-- The row for a name and the texts of its cells. -/
def rowOf (width : Nat) (name : String) (cells : List String) : Row :=
  ⟨name, width - name.length, cells.map fun c => (cellWidth - c.length, c)⟩

theorem cut_row (level width : Nat) (name : String) (cells : List String) :
    Text.Cut ((rowOf width name cells).chars level) (row level width name cells) := by
  have hchars : (rowOf width name cells).chars level = (Text.indent (level + 1) ++ Text.padRight width name
      ++ String.join (cells.map fun cell => " " ++ Text.padLeft cellWidth cell)).toList := by
    rw [Row.chars, Row.front, List.take_length]
    simp [rowOf, List.flatMap_def, Function.comp_def]
  rw [hchars]
  exact Text.cut_rstrip _

/-- The cells of a row all have the same width if none needs more. -/
theorem column_rowOf {level width : Nat} {name : String} {cells : List String} (hname : name.length ≤ width)
    (hnarrow : (rowOf width name cells).Narrow) {step : Nat} (hstep : step ≤ cells.length) :
    (rowOf width name cells).column level step = 2 * (level + 1) + width + 9 * step := by
  -- the blank in front, the blanks that fill the cell and its text
  have hwidth : ∀ c ∈ (rowOf width name cells).cells.take step,
      (' ' :: (List.replicate c.1 ' ' ++ c.2.toList)).length = 9 := by
    intro c hc
    have hc := List.mem_of_mem_take hc
    obtain ⟨text, -, rfl⟩ := List.mem_map.1 hc
    have hle : text.length ≤ 8 := hnarrow _ hc
    simp only [List.length_cons, List.length_append, List.length_replicate, String.length_toList, cellWidth]
    omega
  have hcells : ((rowOf width name cells).cells.take step).length = step := by
    simpa [rowOf] using hstep
  rw [Row.column, Row.front, List.length_append, List.length_flatMap, List.map_congr_left hwidth, List.map_const',
    List.sum_replicate_nat, hcells]
  simp only [rowOf, List.length_append, List.length_replicate, String.length_toList]
  omega

theorem broken_row {level width : Nat} {name : String} {cells : List String}
    (h : Text.Broken (row level width name cells)) : Text.Broken name ∨ ∃ c ∈ cells, Text.Broken c := by
  have hblank : ¬ Text.Broken " " := by decide
  simpa [Text.broken_join, hblank] using h.of_rstrip

/-- A stream's name has no more characters than the column of names is wide, nor has the title of the column. -/
theorem length_le_nameWidth (streams : List TraceStream) :
    stepTitle.length ≤ nameWidth streams ∧ ∀ s ∈ streams, s.name.length ≤ nameWidth streams := by
  -- the width counts bytes, of which a name has at least as many as characters
  have hwidth : nameWidth streams ≤ nameWidth streams := Nat.le_refl _
  unfold nameWidth at hwidth ⊢
  rw [List.foldl_map] at hwidth ⊢
  obtain ⟨htitle, hnames⟩ := foldl_max_le_iff.1 hwidth
  exact ⟨htitle, fun s hs => (Text.length_le_utf8ByteSize s.name).trans (hnames s hs)⟩

end TraceTable

/-! ## Line breaks in values -/

theorem Binary64.mem_pointed {places : Nat} {digits : List Char} {c : Char} (h : c ∈ pointed places digits) :
    c = '0' ∨ c = '.' ∨ c ∈ digits := by
  have hdigits : c ∈ List.replicate (places + 1 - digits.length) '0' ++ digits → c = '0' ∨ c = '.' ∨ c ∈ digits := by
    intro h
    rcases List.mem_append.1 h with h | h
    · exact .inl (List.eq_of_mem_replicate h)
    · exact .inr (.inr h)
  unfold pointed at h
  dsimp only at h
  split at h
  · exact hdigits h
  · rcases List.mem_append.1 h with h | h
    · exact hdigits (List.mem_of_mem_take h)
    · rcases List.mem_cons.1 h with rfl | h
      · exact .inr (.inl rfl)
      · exact hdigits (List.mem_of_mem_drop h)

theorem Binary64.not_broken_fixedText (places : Nat) (x : Binary64) : ¬ Text.Broken (x.fixedText places) := by
  cases x with
  | nan =>
    show ¬ Text.Broken "NaN"
    decide
  | infinite negative =>
    have hwords : ∀ negative : Bool, ¬ Text.Broken (if negative then "-inf" else "inf") := by decide
    exact hwords negative
  | finite negative significand exponent =>
    have hsign : ∀ negative : Bool, ¬ Text.Broken (if negative then "-" else "") := by decide
    unfold fixedText
    dsimp only
    rw [Text.broken_append]
    rintro (h | h)
    · exact hsign negative h
    · unfold Text.Broken at h
      rw [String.toList_ofList] at h
      rcases mem_pointed h with h | h | h
      · exact absurd h (by decide)
      · exact absurd h (by decide)
      · exact Text.not_mem_toDigits _ h

namespace StreamValue

/-- There is a line break in the value as it was recorded. -/
inductive Broken : StreamValue → Prop
  | real {written : String} : Text.Broken written → Broken (.real written)
  | text {written : String} : Text.Broken written → Broken (.text written)
  | array {items : List StreamValue} {item : StreamValue} : item ∈ items → Broken item → Broken (.array items)

mutual

/-- Showing a value adds no line break. -/
theorem broken_of_display {settings : DisplaySettings} : ∀ {v : StreamValue},
    Text.Broken (v.display settings) → v.Broken
  | .bool value, h => by
    have hwords : ∀ value : Bool, ¬ Text.Broken (if value then "true" else "false") := by decide
    exact absurd h (hwords value)
  | .int value, h => absurd h (Text.not_broken_int value)
  | .real written, h => by
    unfold display at h
    split at h
    · exact absurd h (Binary64.not_broken_fixedText _ _)
    · exact .real h
  | .text written, h => .text h
  | .array items, h => by
    have hopen : ¬ Text.Broken "[" := by decide
    have hclose : ¬ Text.Broken "]" := by decide
    have hcomma : ¬ Text.Broken ", " := by decide
    simp only [display, Text.broken_append, hopen, hclose, false_or, or_false] at h
    obtain ⟨text, htext, hbroken⟩ := h.of_intercalate.resolve_left hcomma
    obtain ⟨item, hitem, hv⟩ := broken_of_displays htext hbroken
    exact .array hitem hv

theorem broken_of_displays {settings : DisplaySettings} {text : String} : ∀ {vs : List StreamValue},
    text ∈ displays settings vs → Text.Broken text → ∃ v ∈ vs, v.Broken
  | [], h, _ => by cases h
  | v :: vs, h, hbroken => by
    rcases List.mem_cons.1 h with rfl | h
    · exact ⟨v, List.mem_cons_self, broken_of_display hbroken⟩
    · obtain ⟨u, hu, hbroken⟩ := broken_of_displays h hbroken
      exact ⟨u, List.mem_cons_of_mem _ hu, hbroken⟩

end

end StreamValue

/-! ## Blocks -/

/-- There is a line break in a bracket. -/
def DisplaySettings.Broken (settings : DisplaySettings) : Prop :=
  Text.Broken settings.openBracket ∨ Text.Broken settings.closeBracket

/-- There is a line break in a name or in a value of the block. -/
def TraceBlock.Broken (b : TraceBlock) : Prop :=
  Text.Broken b.name ∨ ∃ s ∈ b.streams, Text.Broken s.name ∨ ∃ e ∈ s.values, e.2.Broken

theorem TraceStream.broken_of_shows {settings : DisplaySettings} {s : TraceStream} {step : Nat} {text : String}
    (hshows : s.Shows settings step text) (h : Text.Broken text) : ∃ e ∈ s.values, e.2.Broken := by
  cases hshows with
  | @value before after v heq _ =>
    have hmem : (step, v) ∈ s.values := by
      rw [heq]
      exact List.mem_append_right _ List.mem_cons_self
    exact ⟨(step, v), hmem, StreamValue.broken_of_display h⟩
  | dash _ => exact absurd h (by decide)

namespace TraceTable

/-- The table of a block, before white space is cut off. -/
structure BlockTable where
  title : String
  header : Row
  rows : List Row

/-- The table is the one for a block at a depth, and the lines are its lines. -/
structure Tabulates (settings : DisplaySettings) (steps level : Nat) (b : TraceBlock) (table : BlockTable)
    (lines : List String) : Prop where
  lines_eq : ∃ rest, lines = table.title :: rest ∧
    List.Forall₂ (fun r line => Text.Cut (r.chars level) line) (table.header :: table.rows) rest
  title : table.title.toList = List.replicate (2 * level) ' ' ++ b.kind.toList ++ ' ' ::
    (settings.openBracket ++ b.name ++ settings.closeBracket).toList
  /-- One cell for each step, with its number. -/
  header : table.header.name = "step" ∧ table.header.cells.map (·.2) = (List.range steps).map Nat.repr
  /-- One row for each stream, with one cell for each step. -/
  rows : List.Forall₂ (fun s r => r.name = s.name ∧
    List.Forall₂ (s.Shows settings) (List.range steps) (r.cells.map (·.2))) b.streams table.rows
  /-- The cells of a step stand below each other, if none needs more than the width of a cell. -/
  aligned : (∀ r ∈ table.header :: table.rows, r.Narrow) → ∃ start, ∀ r ∈ table.header :: table.rows,
    ∀ step < steps, r.column level step = start + 9 * step
  /-- A line for a block without line breaks has none, but for the title if the kind or the brackets have one. -/
  unbroken : ¬ b.Broken → (∀ line ∈ lines.tail, ¬ Text.Broken line) ∧ (Text.Broken table.title →
    Text.Broken b.kind ∨ Text.Broken settings.openBracket ∨ Text.Broken settings.closeBracket)

theorem Tabulates.not_broken {settings : DisplaySettings} {steps level : Nat} {b : TraceBlock} {table : BlockTable}
    {lines : List String} (h : Tabulates settings steps level b table lines) (hsettings : ¬ settings.Broken)
    (hkind : ¬ Text.Broken b.kind) (hb : ¬ b.Broken) : ∀ line ∈ lines, ¬ Text.Broken line := by
  obtain ⟨rest, rfl, -⟩ := h.lines_eq
  obtain ⟨hrest, htitle⟩ := h.unbroken hb
  exact List.forall_mem_cons.2 ⟨fun hbroken => (htitle hbroken).elim hkind hsettings, hrest⟩

def blockTable (settings : DisplaySettings) (steps level : Nat) (b : TraceBlock) : BlockTable :=
  let width := nameWidth b.streams
  let instants := List.range steps
  ⟨Text.indent level ++ b.kind ++ " " ++ settings.name b.name,
    rowOf width stepTitle (instants.map Nat.repr),
    b.streams.map fun s => rowOf width s.name (instants.map (cell settings s))⟩

theorem column_blockTable {settings : DisplaySettings} {steps level : Nat} {b : TraceBlock} {r : Row}
    (hr : r ∈ (blockTable settings steps level b).header :: (blockTable settings steps level b).rows)
    (hnarrow : r.Narrow) {step : Nat} (hstep : step < steps) :
    r.column level step = 2 * (level + 1) + nameWidth b.streams + 9 * step := by
  obtain ⟨htitle, hnames⟩ := length_le_nameWidth b.streams
  have hlength : ∀ f : Nat → String, step ≤ ((List.range steps).map f).length := by
    intro f
    rw [List.length_map, List.length_range]
    omega
  rcases List.mem_cons.1 hr with rfl | hr
  · exact column_rowOf htitle hnarrow (hlength _)
  · obtain ⟨s, hs, rfl⟩ := List.mem_map.1 hr
    exact column_rowOf (hnames s hs) hnarrow (hlength _)

theorem not_broken_rows {settings : DisplaySettings} {steps level : Nat} {b : TraceBlock} (hb : ¬ b.Broken) :
    ∀ line ∈ (blockLines settings steps level b.kind b.name b.streams).tail, ¬ Text.Broken line := by
  intro line hline hbroken
  rcases List.mem_cons.1 hline with rfl | hline
  · rcases broken_row hbroken with h | ⟨c, hc, h⟩
    · exact absurd h (by decide)
    · obtain ⟨n, -, rfl⟩ := List.mem_map.1 hc
      exact Text.not_broken_repr n h
  · obtain ⟨s, hs, rfl⟩ := List.mem_map.1 hline
    refine hb (.inr ⟨s, hs, ?_⟩)
    rcases broken_row hbroken with h | ⟨c, hc, h⟩
    · exact .inl h
    · obtain ⟨step, -, rfl⟩ := List.mem_map.1 hc
      exact .inr (TraceStream.broken_of_shows (cell_shows settings s step) h)

/-- The lines for a block are those of its table. -/
theorem tabulates_blockLines (settings : DisplaySettings) (steps level : Nat) (b : TraceBlock) :
    Tabulates settings steps level b (blockTable settings steps level b)
      (blockLines settings steps level b.kind b.name b.streams) where
  lines_eq := by
    refine ⟨_, rfl, .cons (cut_row ..) ?_⟩
    rw [blockTable, List.forall₂_map_left_iff, List.forall₂_map_right_iff, List.forall₂_same]
    exact fun s _ => cut_row ..
  title := by
    simp [blockTable, DisplaySettings.name]
  header := ⟨rfl, by simp [blockTable, rowOf, Function.comp_def]⟩
  rows := by
    rw [blockTable, List.forall₂_map_right_iff, List.forall₂_same]
    refine fun s _ => ⟨rfl, ?_⟩
    have hcells : (rowOf (nameWidth b.streams) s.name ((List.range steps).map (cell settings s))).cells.map (·.2) =
        (List.range steps).map (cell settings s) := by
      simp [rowOf, Function.comp_def]
    rw [hcells, List.forall₂_map_right_iff, List.forall₂_same]
    exact fun step _ => cell_shows settings s step
  aligned := by
    intro hnarrow
    exact ⟨_, fun r hr step hstep => column_blockTable hr (hnarrow r hr) hstep⟩
  unbroken := by
    refine fun hb => ⟨not_broken_rows hb, fun h => ?_⟩
    have hblank : ¬ Text.Broken " " := by decide
    have hname : ¬ Text.Broken b.name := fun h => hb (.inl h)
    simpa [blockTable, DisplaySettings.name, hblank, hname] using h

/-! ## The whole table -/

mutual

theorem treeLines_eq (settings : DisplaySettings) (steps : Nat) : ∀ (level : Nat) (b : TraceBlock),
    treeLines settings steps level b =
      (b.preorder level).flatMap fun e => blockLines settings steps e.1 e.2.kind e.2.name e.2.streams
  | level, ⟨kind, name, streams, callees⟩ => by
    rw [treeLines, TraceBlock.preorder, List.flatMap_cons, forestLines_eq settings steps (level + 1) callees]

/-- The blocks are shown in their order, each at its depth. -/
theorem forestLines_eq (settings : DisplaySettings) (steps : Nat) : ∀ (level : Nat) (bs : List TraceBlock),
    forestLines settings steps level bs =
      (TraceBlock.preorders level bs).flatMap fun e => blockLines settings steps e.1 e.2.kind e.2.name e.2.streams
  | _, [] => rfl
  | level, b :: rest => by
    rw [forestLines, TraceBlock.preorders, List.flatMap_append, treeLines_eq settings steps level b,
      forestLines_eq settings steps level rest]

end

end TraceTable

/-- Each kind of trace has its own switch. -/
theorem DisplaySettings.shows_iff (settings : DisplaySettings) {kind : TraceKind} : settings.shows kind = true ↔
    kind = .base ∧ settings.printTraces = true ∨ kind = .step ∧ settings.printInductiveTraces = true := by
  cases kind <;> simp [shows]

namespace Trace

theorem table?_eq_none {settings : DisplaySettings} {t : Trace} (h : settings.shows t.kind = false) :
    t.table? settings = none := by
  rw [table?, tableLines?, h]
  rfl

/-- There is a line break in a kind, in a name or in a value of the trace. -/
def Broken (t : Trace) : Prop := ∃ b, t.Has b ∧ (Text.Broken b.kind ∨ b.Broken)

/-- The lines of the tables, block by block. -/
theorem tableLines?_eq {settings : DisplaySettings} {t : Trace} (h : settings.shows t.kind = true) :
    t.tableLines? settings = some (t.preorder.flatMap fun e =>
      TraceTable.blockLines settings t.length e.1 e.2.kind e.2.name e.2.streams) := by
  rw [tableLines?, if_pos h, TraceTable.forestLines_eq]
  rfl

theorem not_broken_tableLines {settings : DisplaySettings} {t : Trace} {lines : List String}
    (hlines : t.tableLines? settings = some lines) (hsettings : ¬ settings.Broken) (ht : ¬ t.Broken) :
    ∀ line ∈ lines, ¬ Text.Broken line := by
  intro line hline
  have hshown : settings.shows t.kind = true := by
    rw [tableLines?] at hlines
    split at hlines
    · assumption
    · cases hlines
  rw [tableLines?_eq hshown] at hlines
  obtain rfl := Option.some.inj hlines
  obtain ⟨e, he, hline⟩ := List.mem_flatMap.1 hline
  have hhas : t.Has e.2 := mem_preorder_iff.1 ⟨e.1, he⟩
  have htable := TraceTable.tabulates_blockLines settings t.length e.1 e.2
  exact htable.not_broken hsettings (fun hkind => ht ⟨_, hhas, .inl hkind⟩) (fun hb => ht ⟨_, hhas, .inr hb⟩) line hline

/-- No value is cut from a trace. Its length is the least number that no recorded instant reaches, and if traces of its
kind are shown, its table has the lines of all its blocks in order, each block with a cell for each step below the
length. If there is no line break in what is shown, these are the lines that are read back from the table. Traces of the
base case and of the inductive step each have their own switch in the settings. -/
theorem tabulated (settings : DisplaySettings) (t : Trace) :
    IsLeast {n | ∀ d, t.Has d → ∀ i, d.Records i → min (i + 1) (2 ^ 64 - 1) ≤ n} t.length ∧
    (∀ b : TraceBlock, IsLeast {n | ∀ d : TraceBlock, d.Within b → ∀ i, d.Records i → min (i + 1) (2 ^ 64 - 1) ≤ n}
      b.length) ∧
    ((∀ d, t.Has d → ∀ i, ¬ d.Records i) → t.length = 0) ∧
    (∀ d, t.Has d ↔ ∃ depth, (depth, d) ∈ t.preorder) ∧
    (settings.shows t.kind = true ↔
      t.kind = .base ∧ settings.printTraces = true ∨ t.kind = .step ∧ settings.printInductiveTraces = true) ∧
    (settings.shows t.kind = false → t.table? settings = none) ∧
    (settings.shows t.kind = true → ∃ blocks, t.table? settings = some (Text.lines blocks.flatten) ∧
      List.Forall₂ (fun e lines => ∃ table, TraceTable.Tabulates settings t.length e.1 e.2 table lines)
        t.preorder blocks ∧
      (¬ settings.Broken → ¬ t.Broken → Text.linesOf (Text.lines blocks.flatten) = blocks.flatten)) := by
  have hlength : greatestLength = 2 ^ 64 - 1 := by decide
  refine ⟨⟨?_, ?_⟩, fun b => ⟨?_, ?_⟩, fun h => ?_, fun d => mem_preorder_iff.symm, settings.shows_iff,
    table?_eq_none, fun hshown => ?_⟩
  · exact hlength ▸ length_le_iff.1 (Nat.le_refl _)
  · exact fun n hn => length_le_iff.2 (hlength ▸ hn)
  · exact hlength ▸ TraceBlock.length_le_iff.1 (Nat.le_refl _)
  · exact fun n hn => TraceBlock.length_le_iff.2 (hlength ▸ hn)
  · exact Nat.le_zero.1 (length_le_iff.2 fun d hd i hi => absurd hi (h d hd i))
  · have hlines := tableLines?_eq hshown
    rw [List.flatMap_def] at hlines
    refine ⟨_, by rw [table?, hlines, Option.map_some], ?_, fun hsettings ht => ?_⟩
    · rw [List.forall₂_map_right_iff, List.forall₂_same]
      exact fun e _ => ⟨_, TraceTable.tabulates_blockLines ..⟩
    · exact Text.linesOf_lines (not_broken_tableLines hlines hsettings ht)

-- the steps of a callee are counted over the whole trace
example : (Trace.mk .base [⟨"node", "Top", [⟨"x", "int", "input", [(2, .int 5), (0, .int 1)]⟩],
      [⟨"node", "Sub", [⟨"flag", "bool", "local", [(0, .bool true)]⟩], []⟩]⟩]).table? {} =
    some ("node [Top]\n  step        0        1        2\n  x           1        -        5\n"
      ++ "  node [Sub]\n    step        0        1        2\n    flag     true        -        -\n") := by
  decide +kernel

end Trace

end Verdicts
