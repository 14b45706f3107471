/-
What is left of bytes that are read with replacement and written again (`rewritten`). Bytes that are UTF-8 come back,
in front of any others; and of any bytes, those that are ASCII come back and each run of others comes back as a run of
others (`Masked`). So whoever looks at ASCII bytes only, and does not count the others, sees no difference.

An induction over `lossyFrom` meets the middle of a character. `Pending` says what the machine has read of it.
-/
import Verdicts.Proofs.Text.Utf8
import Mathlib.Data.List.TakeWhile

namespace Verdicts

namespace Utf8

/-- The bytes of the text that any bytes are read as. -/
def rewritten (t : Bytes) : Bytes := encode (lossy t)

theorem rewritten_eq (t : Bytes) : rewritten t = (lossyFrom .start t).flatMap String.utf8EncodeChar := by
  rw [rewritten, encode, lossy, String.toList_ofList]

@[simp] theorem rewritten_nil : rewritten [] = [] := rfl

theorem rewritten_valid {t : Bytes} (h : Valid t) : rewritten t = t := encode_lossy h

/-! ## One byte after the other -/

theorem lossyFrom_skip {b : UInt8} (h : step .start b = .refuse) (rest : Bytes) :
    lossyFrom .start (b :: rest) = replacement :: lossyFrom .start rest := by
  simp only [lossyFrom, h]

/-- A character that is cut off is replaced, and the byte that cuts it off is read as the first of another. -/
theorem lossyFrom_refuse {later value : Nat} {low high b : UInt8}
    (h : step (.inside later value low high) b = .refuse) (rest : Bytes) :
    lossyFrom (.inside later value low high) (b :: rest) = replacement :: lossyFrom .start (b :: rest) := by
  have hfirst : step .start b = first b := rfl
  simp only [lossyFrom, h, hfirst]

/-- What holds of any bytes that are read: a byte completes a character, goes on with one, begins none, or cuts one
off. -/
@[elab_as_elim]
theorem lossyFrom_induction {motive : State → Bytes → Prop} (nil : ∀ state, motive state [])
    (char : ∀ state b c t, step state b = .char c → motive .start t → motive state (b :: t))
    (more : ∀ state b next t, step state b = .more next → motive next t → motive state (b :: t))
    (skip : ∀ b t, step .start b = .refuse → motive .start t → motive .start (b :: t))
    (refuse : ∀ later value low high b t, step (.inside later value low high) b = .refuse →
      motive .start (b :: t) → motive (.inside later value low high) (b :: t))
    (state : State) (t : Bytes) : motive state t := by
  induction t generalizing state with
  | nil => exact nil state
  | cons b t ih =>
    have hstart : motive .start (b :: t) := by
      cases h : step .start b with
      | char c => exact char _ _ _ _ h (ih .start)
      | more next => exact more _ _ _ _ h (ih next)
      | refuse => exact skip _ _ h (ih .start)
    cases state with
    | start => exact hstart
    | inside later value low high =>
      cases h : step (.inside later value low high) b with
      | char c => exact char _ _ _ _ h (ih .start)
      | more next => exact more _ _ _ _ h (ih next)
      | refuse => exact refuse _ _ _ _ _ _ h hstart

/-! ## Parts -/

theorem lossyFrom_append {state : State} {t : Bytes} (h : behind? state t = some .start) (u : Bytes) :
    lossyFrom state (t ++ u) = lossyFrom state t ++ lossyFrom .start u := by
  induction t generalizing state with
  | nil =>
    cases h
    rfl
  | cons b t ih =>
    rw [behind?] at h
    rw [List.cons_append]
    cases hstep : step state b with
    | char c =>
      rw [hstep] at h
      rw [lossyFrom_char hstep, lossyFrom_char hstep, ih h, List.cons_append]
    | more next =>
      rw [hstep] at h
      rw [lossyFrom_more hstep, lossyFrom_more hstep, ih h]
    | refuse =>
      rw [hstep] at h
      cases h

/-- An ASCII byte cuts a character off, and what stands in front of it is read as if nothing followed. -/
theorem lossyFrom_append_ascii {b : UInt8} (hb : b.toNat < 0x80) (rest : Bytes) {state : State}
    (hstate : state.Bounded) (t : Bytes) :
    lossyFrom state (t ++ b :: rest) = lossyFrom state t ++ lossyFrom .start (b :: rest) := by
  have hbetween : State.Bounded .start := trivial
  induction state, t using lossyFrom_induction with
  | nil state =>
    cases state with
    | start => rfl
    | inside later value low high =>
      -- only bytes that are not ASCII continue a character
      have hrefuse : step (.inside later value low high) b = .refuse :=
        step_outside fun hrange => absurd (hstate b hrange).1 (by omega)
      exact lossyFrom_refuse hrefuse rest
  | char state x c t hstep ih =>
    rw [List.cons_append, lossyFrom_char hstep, lossyFrom_char hstep, ih hbetween, List.cons_append]
  | more state x next t hstep ih =>
    rw [List.cons_append, lossyFrom_more hstep, lossyFrom_more hstep, ih (bounded_of_more hstep)]
  | skip x t hstep ih =>
    rw [List.cons_append, lossyFrom_skip hstep, lossyFrom_skip hstep, ih hbetween, List.cons_append]
  | refuse later value low high x t hstep ih =>
    rw [List.cons_append, lossyFrom_refuse hstep, lossyFrom_refuse hstep, ← List.cons_append, ih hbetween,
      List.cons_append]

theorem Valid.rewritten_append {t : Bytes} (h : Valid t) (u : Bytes) : rewritten (t ++ u) = t ++ rewritten u := by
  have ht : rewritten t = t := rewritten_valid h
  rw [rewritten_eq] at ht
  rw [rewritten_eq, lossyFrom_append h, List.flatMap_append, ht, rewritten_eq]

theorem rewritten_append_ascii {b : UInt8} (hb : b.toNat < 0x80) (t rest : Bytes) :
    rewritten (t ++ b :: rest) = rewritten t ++ b :: rewritten rest := by
  have hrest : rewritten (b :: rest) = b :: rewritten rest := (valid_ascii hb).rewritten_append rest
  rw [rewritten_eq] at hrest
  rw [rewritten_eq, lossyFrom_append_ascii hb rest (show State.Bounded .start from trivial), List.flatMap_append,
    hrest, ← rewritten_eq]

/-! ## Bytes that are not ASCII -/

/-- The byte is not ASCII. -/
def High (b : UInt8) : Prop := 0x80 ≤ b.toNat

instance : DecidablePred High := fun b => inferInstanceAs (Decidable (0x80 ≤ b.toNat))

/-- The bytes `p` are the beginning of the character that the machine is in. -/
def Pending (p : Bytes) (state : State) : Prop := ∀ u, decodeFrom? .start (p ++ u) = decodeFrom? state u

theorem pending_nil : Pending [] .start := fun _ => rfl

theorem Pending.more {p : Bytes} {state next : State} {b : UInt8} (h : Pending p state)
    (hstep : step state b = .more next) : Pending (p ++ [b]) next := by
  intro u
  rw [List.append_assoc, h, List.singleton_append, decodeFrom?_more hstep]

theorem Pending.char {p : Bytes} {state : State} {b : UInt8} {c : Char} (h : Pending p state)
    (hstep : step state b = .char c) : String.utf8EncodeChar c = p ++ [b] := by
  have hread : decodeFrom? .start (p ++ [b]) = some [c] := by
    rw [h, decodeFrom?_char hstep]
    rfl
  rw [eq_flatMap_of_decodeFrom? hread, List.flatMap_singleton]

theorem high_replacement : ∀ y ∈ String.utf8EncodeChar replacement, High y := by
  have hbytes : String.utf8EncodeChar replacement = [0xEF, 0xBF, 0xBD] := rfl
  rw [hbytes]
  simp [High]

/-- Bytes that are not ASCII are read as characters that are not. -/
theorem high_lossyFrom {state : State} {p t : Bytes} (hpending : Pending p state) (hp : ∀ x ∈ p, High x)
    (ht : ∀ x ∈ t, High x) : ∀ y ∈ (lossyFrom state t).flatMap String.utf8EncodeChar, High y := by
  have hempty : ∀ x ∈ ([] : Bytes), High x := fun x hx => absurd hx List.not_mem_nil
  induction state, t using lossyFrom_induction generalizing p with
  | nil state =>
    cases state with
    | start => exact hempty
    | inside => simpa [lossyFrom] using high_replacement
  | char state b c t hstep ih =>
    obtain ⟨hb, ht⟩ := List.forall_mem_cons.1 ht
    rw [lossyFrom_char hstep, List.flatMap_cons, hpending.char hstep]
    exact List.forall_mem_append.2
      ⟨List.forall_mem_append.2 ⟨hp, List.forall_mem_singleton.2 hb⟩, ih pending_nil hempty ht⟩
  | more state b next t hstep ih =>
    obtain ⟨hb, ht⟩ := List.forall_mem_cons.1 ht
    rw [lossyFrom_more hstep]
    exact ih (hpending.more hstep) (List.forall_mem_append.2 ⟨hp, List.forall_mem_singleton.2 hb⟩) ht
  | skip b t hstep ih =>
    rw [lossyFrom_skip hstep, List.flatMap_cons]
    exact List.forall_mem_append.2 ⟨high_replacement, ih pending_nil hempty (List.forall_mem_cons.1 ht).2⟩
  | refuse later value low high b t hstep ih =>
    rw [lossyFrom_refuse hstep, List.flatMap_cons]
    exact List.forall_mem_append.2 ⟨high_replacement, ih pending_nil hempty ht⟩

theorem high_rewritten {t : Bytes} (h : ∀ x ∈ t, High x) : ∀ y ∈ rewritten t, High y := by
  rw [rewritten_eq]
  exact high_lossyFrom pending_nil (fun x hx => absurd hx List.not_mem_nil) h

theorem Pending.eq_nil {p : Bytes} (h : Pending p .start) : p = [] := by
  have hread : decodeFrom? .start (p ++ []) = some [] := h []
  rw [List.append_nil] at hread
  exact eq_flatMap_of_decodeFrom? hread

theorem lossyFrom_ne_nil {state : State} {p t : Bytes} (hpending : Pending p state) (h : p ++ t ≠ []) :
    lossyFrom state t ≠ [] := by
  induction state, t using lossyFrom_induction generalizing p with
  | nil state =>
    cases state with
    | start => exact absurd (by rw [hpending.eq_nil, List.append_nil]) h
    | inside => exact List.cons_ne_nil _ _
  | char state b c t hstep ih =>
    rw [lossyFrom_char hstep]
    exact List.cons_ne_nil _ _
  | more state b next t hstep ih =>
    rw [lossyFrom_more hstep]
    exact ih (hpending.more hstep) (by simp)
  | skip b t hstep ih =>
    rw [lossyFrom_skip hstep]
    exact List.cons_ne_nil _ _
  | refuse later value low high b t hstep ih =>
    rw [lossyFrom_refuse hstep]
    exact List.cons_ne_nil _ _

theorem rewritten_ne_nil {t : Bytes} (h : t ≠ []) : rewritten t ≠ [] := by
  obtain ⟨c, cs, heq⟩ := List.exists_cons_of_ne_nil (lossyFrom_ne_nil pending_nil h)
  rw [rewritten_eq, heq, List.flatMap_cons]
  refine List.append_ne_nil_of_left_ne_nil ?_ _
  obtain ⟨b, rest, hchar, -⟩ := (spelling_encode c).exists_head
  rw [hchar]
  exact List.cons_ne_nil _ _

/-! ## Runs -/

/-- The bytes `u` are the bytes `t` with each run of those that are not ASCII replaced by another. -/
inductive Masked : Bytes → Bytes → Prop
  | nil : Masked [] []
  | ascii {b : UInt8} {t u : Bytes} : b.toNat < 0x80 → Masked t u → Masked (b :: t) (b :: u)
  | run {xs ys t u : Bytes} : xs ≠ [] → ys ≠ [] → (∀ x ∈ xs, High x) → (∀ y ∈ ys, High y) → Masked t u →
      Masked (xs ++ t) (ys ++ u)

/-- Bytes begin with an ASCII byte or with a run of others that an ASCII byte ends, if anything does. -/
theorem exists_run (t : Bytes) (ht : t ≠ []) :
    (∃ b rest, t = b :: rest ∧ b.toNat < 0x80) ∨
      ∃ xs rest, t = xs ++ rest ∧ xs ≠ [] ∧ (∀ x ∈ xs, High x) ∧
        (rest = [] ∨ ∃ b rest', rest = b :: rest' ∧ b.toNat < 0x80) := by
  obtain ⟨b, tail, rfl⟩ := List.exists_cons_of_ne_nil ht
  by_cases hb : b.toNat < 0x80
  · exact .inl ⟨b, tail, rfl, hb⟩
  · right
    have hsplit := List.takeWhile_append_dropWhile (p := (High ·)) (l := tail)
    refine ⟨b :: tail.takeWhile (High ·), tail.dropWhile (High ·), by rw [List.cons_append, hsplit],
      List.cons_ne_nil _ _, ?_, ?_⟩
    · rw [List.forall_mem_cons]
      exact ⟨Nat.le_of_not_lt hb, fun x hx => by simpa using List.mem_takeWhile_imp hx⟩
    · rcases hrest : tail.dropWhile (High ·) with _ | ⟨c, rest'⟩
      · exact .inl rfl
      · have hc := List.head?_dropWhile_not (High ·) tail
        rw [hrest] at hc
        have hlow : ¬High c := by simpa using hc
        exact .inr ⟨c, rest', rfl, Nat.lt_of_not_le hlow⟩

theorem masked_rewritten (t : Bytes) : Masked t (rewritten t) := by
  induction hn : t.length using Nat.strongRecOn generalizing t with
  | ind n ih =>
    subst hn
    by_cases ht : t = []
    · rw [ht]
      exact .nil
    rcases exists_run t ht with ⟨b, rest, rfl, hb⟩ | ⟨xs, rest, rfl, hxs, hhigh, hrest⟩
    · have hsplit : rewritten (b :: rest) = b :: rewritten rest := (valid_ascii hb).rewritten_append rest
      rw [hsplit]
      exact .ascii hb (ih rest.length (Nat.lt_succ_self _) rest rfl)
    · -- a run goes up to an ASCII byte, so it can be read apart from what stands behind it
      have hsplit : rewritten (xs ++ rest) = rewritten xs ++ rewritten rest := by
        rcases hrest with rfl | ⟨b, rest', rfl, hb⟩
        · rw [List.append_nil, rewritten_nil, List.append_nil]
        · have hfirst : rewritten (b :: rest') = b :: rewritten rest' := (valid_ascii hb).rewritten_append rest'
          rw [rewritten_append_ascii hb, hfirst]
      have hshorter : rest.length < (xs ++ rest).length := by
        have hpositive := List.length_pos_iff.2 hxs
        rw [List.length_append]
        omega
      rw [hsplit]
      exact .run hxs (rewritten_ne_nil hxs) hhigh (high_rewritten hhigh) (ih rest.length hshorter rest rfl)

/-- What stands first is the same or not ASCII on both sides. -/
theorem Masked.exists_head {b : UInt8} {t u : Bytes} (h : Masked (b :: t) u) :
    ∃ y rest, u = y :: rest ∧ (y = b ∨ High b ∧ High y) := by
  generalize ht : b :: t = bt at h
  cases h with
  | nil => cases ht
  | ascii hb hrest =>
    cases ht
    exact ⟨b, _, rfl, .inl rfl⟩
  | @run xs ys t' u' hxs hys hhigh hhigh' hrest =>
    obtain ⟨x, xs, rfl⟩ := List.exists_cons_of_ne_nil hxs
    obtain ⟨y, ys, rfl⟩ := List.exists_cons_of_ne_nil hys
    obtain ⟨rfl, -⟩ := List.cons.inj ht
    exact ⟨y, ys ++ u', rfl, .inr ⟨hhigh b List.mem_cons_self, hhigh' y List.mem_cons_self⟩⟩

theorem Masked.cons_ascii {b : UInt8} (hb : b.toNat < 0x80) {t u : Bytes} (h : Masked (b :: t) u) :
    ∃ rest, u = b :: rest ∧ Masked t rest := by
  generalize ht : b :: t = bt at h
  cases h with
  | nil => cases ht
  | ascii _ hrest =>
    cases ht
    exact ⟨_, rfl, hrest⟩
  | @run xs ys t' u' hxs _ hhigh _ _ =>
    obtain ⟨x, xs, rfl⟩ := List.exists_cons_of_ne_nil hxs
    obtain ⟨rfl, -⟩ := List.cons.inj ht
    exact absurd (hhigh b List.mem_cons_self) (Nat.not_le.2 hb)

theorem Masked.eq_nil {u : Bytes} (h : Masked [] u) : u = [] := by
  generalize ht : ([] : Bytes) = t at h
  cases h with
  | nil => rfl
  | ascii => cases ht
  | run hxs => exact absurd (List.append_eq_nil_iff.1 ht.symm).1 hxs

end Utf8

end Verdicts
