/-
How far a trace reaches. `Within` says which blocks belong to a block, at any depth, and `Records` which instants are
recorded in it; the length of a trace is the least number that no recorded instant reaches, counted up to the largest
number of 64 bits. `preorder` lists the blocks of a trace, each before those below it, with its depth.
-/
import Verdicts.Result.Trace

namespace Verdicts

/-- Folding the maximum of some numbers over a start stays below a bound if all of them do. -/
theorem foldl_max_le_iff {α : Type} {f : α → Nat} {l : List α} {start n : Nat} :
    l.foldl (fun m x => max m (f x)) start ≤ n ↔ start ≤ n ∧ ∀ x ∈ l, f x ≤ n := by
  induction l generalizing start with
  | nil => simp
  | cons x l ih =>
    rw [List.foldl_cons, ih, List.forall_mem_cons, Nat.max_le, and_assoc]

theorem TraceStream.length_le_iff {s : TraceStream} {n : Nat} :
    s.length ≤ n ↔ ∀ e ∈ s.values, min (e.1 + 1) greatestLength ≤ n := by
  unfold length
  rw [foldl_max_le_iff]
  simp

namespace TraceBlock

/-- The block `d` is the other one or stands below it, at any depth. -/
inductive Within (d : TraceBlock) : TraceBlock → Prop
  | self : Within d d
  | callee {kind name : String} {streams : List TraceStream} {callees : List TraceBlock} {b : TraceBlock} :
      b ∈ callees → Within d b → Within d ⟨kind, name, streams, callees⟩

/-- Some stream of the block has a value at an instant. -/
def Records (b : TraceBlock) (instant : Nat) : Prop :=
  ∃ s ∈ b.streams, ∃ value, (instant, value) ∈ s.values

theorem within_iff {d : TraceBlock} {kind name : String} {streams : List TraceStream} {callees : List TraceBlock} :
    d.Within ⟨kind, name, streams, callees⟩ ↔
      d = ⟨kind, name, streams, callees⟩ ∨ ∃ b ∈ callees, d.Within b := by
  constructor
  · intro h
    cases h with
    | self => exact .inl rfl
    | callee hb hd => exact .inr ⟨_, hb, hd⟩
  · rintro (rfl | ⟨b, hb, hd⟩)
    · exact .self
    · exact .callee hb hd

/-- The streams of a block stay below a bound if all that is recorded in it does. -/
theorem streams_le_iff {b : TraceBlock} {n : Nat} :
    (b.streams.map TraceStream.length).foldl max 0 ≤ n ↔
      ∀ i, b.Records i → min (i + 1) greatestLength ≤ n := by
  rw [List.foldl_map, foldl_max_le_iff]
  simp only [Nat.zero_le, true_and, TraceStream.length_le_iff, Records]
  constructor
  · rintro h i ⟨s, hs, value, hvalue⟩
    exact h s hs (i, value) hvalue
  · rintro h s hs ⟨i, value⟩ hvalue
    exact h i ⟨s, hs, value, hvalue⟩

mutual

theorem length_le_iff {n : Nat} : ∀ {b : TraceBlock},
    b.length ≤ n ↔ ∀ d : TraceBlock, d.Within b → ∀ i, d.Records i → min (i + 1) greatestLength ≤ n
  | ⟨kind, name, streams, callees⟩ => by
    have hown := streams_le_iff (b := ⟨kind, name, streams, callees⟩) (n := n)
    rw [length, Nat.max_le, hown, lengths_le_iff]
    simp only [within_iff]
    constructor
    · rintro ⟨hself, hbelow⟩ d (rfl | ⟨b, hb, hd⟩)
      · exact hself
      · exact hbelow b hb d hd
    · exact fun h => ⟨h _ (.inl rfl), fun b hb d hd => h d (.inr ⟨b, hb, hd⟩)⟩

theorem lengths_le_iff {n : Nat} : ∀ {bs : List TraceBlock},
    lengths bs ≤ n ↔
      ∀ b ∈ bs, ∀ d : TraceBlock, d.Within b → ∀ i, d.Records i → min (i + 1) greatestLength ≤ n
  | [] => by simp [lengths]
  | b :: bs => by
    rw [lengths, Nat.max_le, length_le_iff, lengths_le_iff, List.forall_mem_cons]

end

/-! ## Order -/

mutual

/-- A block and the blocks below it, each with its depth: a block comes before those that it calls. -/
def preorder (depth : Nat) : TraceBlock → List (Nat × TraceBlock)
  | ⟨kind, name, streams, callees⟩ =>
    (depth, ⟨kind, name, streams, callees⟩) :: preorders (depth + 1) callees

/-- `preorder` for each block. -/
def preorders (depth : Nat) : List TraceBlock → List (Nat × TraceBlock)
  | [] => []
  | b :: rest => preorder depth b ++ preorders depth rest

end

mutual

theorem mem_preorder_iff {d : TraceBlock} : ∀ {depth : Nat} {b : TraceBlock},
    (∃ k, (k, d) ∈ preorder depth b) ↔ d.Within b
  | depth, ⟨kind, name, streams, callees⟩ => by
    have hcallees : (∃ k, (k, d) ∈ preorders (depth + 1) callees) ↔ ∃ b ∈ callees, d.Within b := mem_preorders_iff
    simp only [preorder, List.mem_cons, Prod.mk.injEq, exists_or, exists_eq_left, within_iff, hcallees]

theorem mem_preorders_iff {d : TraceBlock} : ∀ {depth : Nat} {bs : List TraceBlock},
    (∃ k, (k, d) ∈ preorders depth bs) ↔ ∃ b ∈ bs, d.Within b
  | _, [] => by simp [preorders]
  | depth, b :: bs => by
    have hb : (∃ k, (k, d) ∈ preorder depth b) ↔ d.Within b := mem_preorder_iff
    have hbs : (∃ k, (k, d) ∈ preorders depth bs) ↔ ∃ b ∈ bs, d.Within b := mem_preorders_iff
    simp only [preorders, List.mem_append, exists_or, hb, hbs, List.mem_cons, or_and_right, exists_eq_left]

end

end TraceBlock

namespace Trace

/-- The block belongs to the trace, at any depth. -/
def Has (t : Trace) (d : TraceBlock) : Prop := ∃ b ∈ t.blocks, d.Within b

/-- The blocks of a trace, each before those below it, with its depth. -/
def preorder (t : Trace) : List (Nat × TraceBlock) := TraceBlock.preorders 0 t.blocks

/-- The blocks of a trace are those that are listed. -/
theorem mem_preorder_iff {t : Trace} {d : TraceBlock} : (∃ depth, (depth, d) ∈ t.preorder) ↔ t.Has d :=
  TraceBlock.mem_preorders_iff

theorem length_le_iff {t : Trace} {n : Nat} :
    t.length ≤ n ↔ ∀ d, t.Has d → ∀ i, d.Records i → min (i + 1) greatestLength ≤ n := by
  unfold length
  rw [TraceBlock.lengths_le_iff]
  exact ⟨fun h d ⟨b, hb, hd⟩ => h b hb d hd, fun h b hb d hd => h d ⟨b, hb, hd⟩⟩

end Trace

end Verdicts
