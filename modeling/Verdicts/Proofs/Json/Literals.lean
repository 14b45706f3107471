/-
Number literals. The machine that reads them accepts every literal of the grammar (`exists_literal`), and a literal that
has a value has one that is a number: what is read is never NaN (`value?_ne_nan`).
-/
import Verdicts.Proofs.Json.Grammar

namespace Verdicts.Json.Numeral

open Verdicts.Json.Grammar (IsDigit Digits Whole Fraction Exponent)

/-! ## Literals of the grammar -/

/-- The literal with more bytes behind it, if these may stand there. -/
def follow (n : Numeral) : Bytes → Option Numeral
  | [] => some n
  | b :: rest =>
    match n.next b with
    | .more longer => longer.follow rest
    | _ => none

/-- The literal that some bytes spell, if they are one or begin one. -/
def literal? : Bytes → Option Numeral
  | [] => none
  | b :: rest => (start? b).bind fun n => n.follow rest

theorem follow_append (n : Numeral) (t u : Bytes) : n.follow (t ++ u) = (n.follow t).bind fun n => n.follow u := by
  induction t generalizing n with
  | nil => rfl
  | cons b t ih =>
    rw [List.cons_append, follow, follow]
    cases n.next b with
    | more longer => exact ih longer
    | ended => rfl
    | broken => rfl

theorem literal?_append {t : Bytes} {n : Numeral} (h : literal? t = some n) (u : Bytes) :
    literal? (t ++ u) = n.follow u := by
  cases t with
  | nil => cases h
  | cons b t =>
    obtain ⟨first, hfirst, hfollow⟩ := Option.bind_eq_some_iff.1 h
    show (start? b).bind (fun n => n.follow (t ++ u)) = _
    rw [hfirst, Option.bind_some, follow_append, hfollow, Option.bind_some]

theorem digit_of_isDigit {b : UInt8} (h : IsDigit b) : digit? b = some (b.toNat - 0x30) := by
  unfold digit?
  unfold IsDigit at h
  rw [if_pos h]

/-- Where a literal stands that may go on with any digit. -/
def InDigits (n : Numeral) : Prop := n.place = .whole ∨ n.place = .fraction ∨ n.place = .power

/-- A run of digits goes on with a literal that is in the middle of one. -/
theorem exists_follow_digits {t : Bytes} (h : ∀ b ∈ t, IsDigit b) {n : Numeral} (hplace : n.InDigits) :
    ∃ m, n.follow t = some m ∧ m.place = n.place := by
  induction t generalizing n with
  | nil => exact ⟨n, rfl, rfl⟩
  | cons b t ih =>
    have hdigit := digit_of_isDigit (h b (List.mem_cons_self ..))
    obtain ⟨m, hm, hsame⟩ : ∃ m, n.next b = .more m ∧ m.place = n.place := by
      unfold next
      rcases hplace with hp | hp | hp <;> rw [hp, hdigit] <;> exact ⟨_, rfl, by simp⟩
    obtain ⟨m', hm', hsame'⟩ := ih (fun c hc => h c (List.mem_cons_of_mem _ hc)) (n := m) (by
      unfold InDigits
      rw [hsame]
      exact hplace)
    refine ⟨m', ?_, hsame'.trans hsame⟩
    rw [follow, hm]
    exact hm'

/-- Where a literal stands behind its integer part. -/
def AtWhole (n : Numeral) : Prop := n.place = .zero ∨ n.place = .whole

theorem ne_zero_of_isDigit {b : UInt8} (h : IsDigit b) (hb : b ≠ 0x30) : b.toNat - 0x30 ≠ 0 := by
  unfold IsDigit at h
  rw [UInt8.le_iff_toNat_le, UInt8.le_iff_toNat_le] at h
  intro hzero
  refine hb (UInt8.toNat_inj.1 ?_)
  simp only [UInt8.reduceToNat] at h ⊢
  omega

/-- The digits of an integer part, if a literal may begin with them. -/
theorem Whole.exists_head {t : Bytes} (h : Whole t) : t = [0x30] ∨
    ∃ b rest, t = b :: rest ∧ digit? b = some (b.toNat - 0x30) ∧ b.toNat - 0x30 ≠ 0 ∧ ∀ c ∈ rest, IsDigit c := by
  cases h with
  | zero => exact .inl rfl
  | digits hdigits hhead =>
    obtain ⟨hne, hall⟩ := hdigits
    cases t with
    | nil => exact absurd rfl hne
    | cons b rest =>
      have hb : IsDigit b := hall b (List.mem_cons_self ..)
      have hb' : b ≠ 0x30 := by
        rintro rfl
        exact hhead rfl
      exact .inr ⟨b, rest, rfl, digit_of_isDigit hb, ne_zero_of_isDigit hb hb',
        fun c hc => hall c (List.mem_cons_of_mem _ hc)⟩

theorem exists_literal_whole {t : Bytes} (h : Whole t) : ∃ n, literal? t = some n ∧ n.AtWhole := by
  rcases Whole.exists_head h with rfl | ⟨b, rest, rfl, hdigit, hne, hrest⟩
  · exact ⟨_, rfl, .inl rfl⟩
  · have hstart : start? b = some ⟨.whole, false, [b.toNat - 0x30], [], false, []⟩ := by
      have hsign : b ≠ 0x2D := by
        rintro rfl
        cases hdigit
      unfold start?
      rw [if_neg hsign, hdigit]
      cases hd : b.toNat - 0x30 with
      | zero => exact absurd hd hne
      | succ d => rfl
    obtain ⟨m, hm, hplace⟩ :=
      exists_follow_digits hrest (n := ⟨.whole, false, [b.toNat - 0x30], [], false, []⟩) (.inl rfl)
    refine ⟨m, ?_, .inr hplace⟩
    show (start? b).bind (fun n => n.follow rest) = _
    rw [hstart]
    exact hm

theorem exists_follow_whole {t : Bytes} (h : Whole t) {n : Numeral} (hplace : n.place = .sign) :
    ∃ m, n.follow t = some m ∧ m.AtWhole := by
  rcases Whole.exists_head h with rfl | ⟨b, rest, rfl, hdigit, hne, hrest⟩
  · refine ⟨{ n with place := .zero, whole := [0] }, ?_, .inl rfl⟩
    unfold follow next
    rw [hplace]
    rfl
  · have hnext : n.next b = .more { n with place := .whole, whole := [b.toNat - 0x30] } := by
      unfold next
      rw [hplace, hdigit]
      cases hd : b.toNat - 0x30 with
      | zero => exact absurd hd hne
      | succ d => rfl
    obtain ⟨m, hm, hplace'⟩ :=
      exists_follow_digits hrest (n := { n with place := .whole, whole := [b.toNat - 0x30] }) (.inl rfl)
    refine ⟨m, ?_, .inr hplace'⟩
    rw [follow, hnext]
    exact hm

/-- Where a literal stands behind its fraction. -/
def AtFraction (n : Numeral) : Prop := n.AtWhole ∨ n.place = .fraction

/-- A literal goes on with digits behind a byte that has them follow. -/
theorem exists_follow_cons {b : UInt8} {n m : Numeral} (hnext : n.next b = .more m) {t : Bytes} (ht : Digits t)
    (place : Place) (hstep : ∀ c, IsDigit c → ∃ m', m.next c = .more m' ∧ m'.place = place ∧ m'.InDigits) :
    ∃ m', n.follow (b :: t) = some m' ∧ m'.place = place := by
  obtain ⟨hne, hall⟩ := ht
  cases t with
  | nil => exact absurd rfl hne
  | cons c t =>
    obtain ⟨m', hm', hplace, hin⟩ := hstep c (hall c (List.mem_cons_self ..))
    obtain ⟨m'', hm'', hsame⟩ := exists_follow_digits (fun x hx => hall x (List.mem_cons_of_mem _ hx)) hin
    refine ⟨m'', ?_, hsame.trans hplace⟩
    rw [follow, hnext]
    show m.follow (c :: t) = _
    rw [follow, hm']
    exact hm''

theorem exists_follow_fraction {t : Bytes} (h : Fraction t) {n : Numeral} (hplace : n.AtWhole) :
    ∃ m, n.follow t = some m ∧ m.AtFraction := by
  cases h with
  | absent => exact ⟨n, rfl, .inl hplace⟩
  | digits hdigits =>
    have hnext : n.next 0x2E = .more { n with place := .point } := by
      unfold next
      rcases hplace with hp | hp <;> rw [hp] <;> simp [afterDigits, digit?, hp]
    obtain ⟨m, hm, hplace'⟩ := exists_follow_cons hnext hdigits .fraction (by
      intro c hc
      unfold next
      rw [digit_of_isDigit hc]
      exact ⟨_, rfl, rfl, .inr (.inl rfl)⟩)
    exact ⟨m, hm, .inr hplace'⟩

theorem next_mark {n : Numeral} (hplace : n.AtFraction) {mark : UInt8} (hmark : mark = 0x65 ∨ mark = 0x45) :
    n.next mark = .more { n with place := .mark } := by
  unfold next
  rcases hplace with (hp | hp) | hp <;> rcases hmark with rfl | rfl <;> rw [hp] <;> simp [afterDigits, digit?, hp]

theorem exists_follow_exponent {t : Bytes} (h : Exponent t) {n : Numeral} (hplace : n.AtFraction) :
    ∃ m, n.follow t = some m ∧ m.complete = true := by
  cases h with
  | absent =>
    refine ⟨n, rfl, ?_⟩
    unfold complete
    rcases hplace with (hp | hp) | hp <;> rw [hp]
  | @digits mark sign t hmark hsign hdigits =>
    have hnext := next_mark hplace hmark
    have hpower : ∀ m : Numeral, m.place = .mark ∨ m.place = .markSign → ∀ c, IsDigit c →
        ∃ m', m.next c = .more m' ∧ m'.place = .power ∧ m'.InDigits := by
      intro m hm c hc
      unfold next
      rcases hm with hm | hm <;> rw [hm, digit_of_isDigit hc] <;> exact ⟨_, rfl, rfl, .inr (.inr rfl)⟩
    have hcomplete : ∀ m : Numeral, m.place = .power → m.complete = true := by
      intro m hm
      unfold complete
      rw [hm]
    rcases hsign with rfl | rfl | rfl
    · obtain ⟨m, hm, hp⟩ := exists_follow_cons hnext hdigits .power (hpower _ (.inl rfl))
      exact ⟨m, hm, hcomplete m hp⟩
    · obtain ⟨m, hm, hp⟩ := exists_follow_cons (n := { n with place := .mark }) (b := 0x2B) rfl hdigits .power
        (hpower _ (.inr rfl))
      refine ⟨m, ?_, hcomplete m hp⟩
      show n.follow (mark :: 0x2B :: t) = _
      rw [follow, hnext]
      exact hm
    · obtain ⟨m, hm, hp⟩ := exists_follow_cons (n := { n with place := .mark }) (b := 0x2D) rfl hdigits .power
        (hpower _ (.inr rfl))
      refine ⟨m, ?_, hcomplete m hp⟩
      show n.follow (mark :: 0x2D :: t) = _
      rw [follow, hnext]
      exact hm

/-- The machine reads every literal of the grammar, and may end behind it. -/
theorem exists_literal {t : Bytes} (h : Grammar.Numeral t) : ∃ n, literal? t = some n ∧ n.complete = true := by
  cases h with
  | @mk sign whole fraction exponent hsign hwhole hfraction hexponent =>
    obtain ⟨n, hn, hplace⟩ : ∃ n, literal? (sign ++ whole) = some n ∧ n.AtWhole := by
      rcases hsign with rfl | rfl
      · exact exists_literal_whole hwhole
      · exact exists_follow_whole hwhole rfl
    obtain ⟨m, hm, hplace'⟩ := exists_follow_fraction hfraction hplace
    obtain ⟨m', hm', hcomplete⟩ := exists_follow_exponent hexponent hplace'
    refine ⟨m', ?_, hcomplete⟩
    rw [List.append_assoc, literal?_append hn, follow_append, hm, Option.bind_some]
    exact hm'

/-! ## Where a literal ends -/

/-- A byte that may stand behind a value: a blank, a comma or a closing bracket. -/
def IsDelimiter (b : UInt8) : Prop :=
  b = 0x20 ∨ b = 0x09 ∨ b = 0x0A ∨ b = 0x0D ∨ b = 0x2C ∨ b = 0x5D ∨ b = 0x7D

theorem next_delimiter {n : Numeral} (h : n.complete = true) {b : UInt8} (hb : IsDelimiter b) : n.next b = .ended := by
  have hafter : n.afterDigits b = .ended := by
    unfold afterDigits
    rcases hb with rfl | rfl | rfl | rfl | rfl | rfl | rfl <;> simp
  have hdigit : digit? b = none := by
    rcases hb with rfl | rfl | rfl | rfl | rfl | rfl | rfl <;> rfl
  unfold complete at h
  unfold next
  cases hp : n.place with
  | zero | whole | fraction | power => rw [hdigit]; exact hafter
  | sign | point | mark | markSign => rw [hp] at h; cases h

/-! ## Values -/

/-- Whether others may be divided by a number. -/
def isDivisor : Binary64 → Bool
  | .finite _ significand _ => significand != 0
  | _ => false

theorem isDivisor_powerOfTen {power : Nat} (h : power ≤ 308) : isDivisor (powerOfTen power) = true := by
  have hall : (List.range 309).all (fun power => isDivisor (powerOfTen power)) = true := by
    decide +kernel
  exact List.all_eq_true.1 hall power (List.mem_range.2 (Nat.lt_succ_of_le h))

theorem ofRatio_ne_nan (negative : Bool) (num den : Nat) : Binary64.ofRatio negative num den ≠ .nan := by
  have hrounded : ∀ (p : Prop) [Decidable p] (significand : Nat) (exponent : Int),
      (if p then Binary64.infinite negative else .finite negative significand exponent) ≠ .nan := by
    intro p _ significand exponent
    split <;> simp
  unfold Binary64.ofRatio
  split
  · simp [Binary64.zero]
  · exact hrounded _ _ _

theorem div_ne_nan {x y : Binary64} (hx : x ≠ .nan) (hy : isDivisor y = true) : x.div y ≠ .nan := by
  unfold isDivisor at hy
  cases y with
  | nan => cases hy
  | infinite t => cases hy
  | finite t n f =>
    have hn : n ≠ 0 := by simpa using hy
    cases x with
    | nan => exact absurd rfl hx
    | infinite s => simp [Binary64.div]
    | finite s m e =>
      unfold Binary64.div
      simp only
      rw [if_neg hn]
      exact ofRatio_ne_nan _ _ _

theorem mul_ne_nan {x y : Binary64} (hx : x ≠ .nan) (hy : isDivisor y = true) : x.mul y ≠ .nan := by
  unfold isDivisor at hy
  cases y with
  | nan => cases hy
  | infinite t => cases hy
  | finite t n f =>
    have hn : n ≠ 0 := by simpa using hy
    cases x with
    | nan => exact absurd rfl hx
    | infinite s => simp [Binary64.mul, hn]
    | finite s m e => exact ofRatio_ne_nan _ _ _

theorem scale_ne_nan {fuel : Nat} {x y : Binary64} {power : Int} (hx : x ≠ .nan) (h : scale fuel x power = some y) :
    y ≠ .nan := by
  induction fuel generalizing x power with
  | zero =>
    cases h
    exact hx
  | succ fuel ih =>
    unfold scale at h
    split at h
    · rename_i hpower
      split at h
      · simp only at h
        split at h
        · cases h
        · cases h
          exact mul_ne_nan hx (isDivisor_powerOfTen hpower)
      · cases h
        exact div_ne_nan hx (isDivisor_powerOfTen hpower)
    · split at h
      · cases h
        exact hx
      · split at h
        · cases h
        · exact ih (div_ne_nan hx (isDivisor_powerOfTen (Nat.le_refl _))) h

/-- What a literal denotes is a number. -/
theorem value?_ne_nan (n : Numeral) : n.value? ≠ some (.float .nan) := by
  have hsigned : ∀ x : Binary64, x ≠ .nan → (if n.negative then x.neg else x) ≠ .nan := by
    intro x hx
    split
    · cases x <;> simp [Binary64.neg] at hx ⊢
    · exact hx
  have hzero : Binary64.zero false ≠ .nan := by simp [Binary64.zero]
  intro h
  unfold value? at h
  simp only at h
  split at h
  · split at h
    · split at h
      · cases h
      · split at h
        · cases h
        · exact ofRatio_ne_nan _ _ _ (Number.float.inj (Option.some.inj h))
    · cases h
  · split at h
    · split at h
      · cases h
      · exact hsigned _ hzero (Number.float.inj (Option.some.inj h))
    · obtain ⟨x, hx, heq⟩ := Option.map_eq_some_iff.1 h
      exact hsigned x (scale_ne_nan (ofRatio_ne_nan _ _ _) hx) (Number.float.inj heq)

end Verdicts.Json.Numeral
