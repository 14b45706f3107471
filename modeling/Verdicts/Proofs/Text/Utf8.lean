/-
Reading UTF-8 and writing it. The machine accepts exactly the bytes that characters encode to, and reads those
characters from them, so bytes that are UTF-8 come back unchanged from the text that they are read as, by `lossy` too.
-/
import Verdicts.Text.Utf8

namespace Verdicts

namespace Utf8

/-! ## The first byte -/

theorem first_one {b : UInt8} (h : b.toNat < 0x80) : step .start b = .char (Char.ofNat b.toNat) := by
  show first b = _
  unfold first
  rw [if_pos (UInt8.lt_iff_toNat_lt.2 h)]

theorem first_two {b : UInt8} (h : 0xC2 ≤ b.toNat) (h' : b.toNat < 0xE0) :
    step .start b = .more (.inside 0 (b.toNat - 0xC0) 0x80 0xBF) := by
  unfold step first
  simp only [UInt8.lt_iff_toNat_lt]
  rw [if_neg (by simp; omega), if_neg (by simp; omega), if_pos (by simp; omega)]

/-- The byte behind the first of three leads to a scalar value that needs three bytes and is no surrogate. -/
theorem first_three {b : UInt8} (h : 0xE0 ≤ b.toNat) (h' : b.toNat < 0xF0) :
    ∃ low high, step .start b = .more (.inside 1 (b.toNat - 0xE0) low high) ∧
      ∀ x : UInt8, low ≤ x ∧ x ≤ high ↔ (0x80 ≤ x.toNat ∧ x.toNat ≤ 0xBF) ∧
        0x20 ≤ (b.toNat - 0xE0) * 64 + (x.toNat - 0x80) ∧
        ((b.toNat - 0xE0) * 64 + (x.toNat - 0x80) < 0x360 ∨
          0x380 ≤ (b.toNat - 0xE0) * 64 + (x.toNat - 0x80)) := by
  unfold step first
  simp only [UInt8.lt_iff_toNat_lt, UInt8.le_iff_toNat_le, ← UInt8.toNat_inj]
  rw [if_neg (by simp; omega), if_neg (by simp; omega), if_neg (by simp; omega)]
  split
  · rename_i hb
    rw [hb]
    exact ⟨_, _, rfl, fun x => by simp; omega⟩
  · split
    · rename_i hb
      rw [hb]
      exact ⟨_, _, rfl, fun x => by simp; omega⟩
    · rw [if_pos (by simp; omega)]
      simp only [UInt8.reduceToNat] at *
      exact ⟨_, _, rfl, fun x => by simp; omega⟩

/-- The byte behind the first of four leads to a scalar value that needs four bytes. -/
theorem first_four {b : UInt8} (h : 0xF0 ≤ b.toNat) (h' : b.toNat < 0xF5) :
    ∃ low high, step .start b = .more (.inside 2 (b.toNat - 0xF0) low high) ∧
      ∀ x : UInt8, low ≤ x ∧ x ≤ high ↔ (0x80 ≤ x.toNat ∧ x.toNat ≤ 0xBF) ∧
        0x10 ≤ (b.toNat - 0xF0) * 64 + (x.toNat - 0x80) ∧
        (b.toNat - 0xF0) * 64 + (x.toNat - 0x80) < 0x110 := by
  unfold step first
  simp only [UInt8.lt_iff_toNat_lt, UInt8.le_iff_toNat_le, ← UInt8.toNat_inj]
  rw [if_neg (by simp; omega), if_neg (by simp; omega), if_neg (by simp; omega), if_neg (by simp; omega),
    if_neg (by simp; omega), if_neg (by simp; omega)]
  split
  · rename_i hb
    rw [hb]
    exact ⟨_, _, rfl, fun x => by simp; omega⟩
  · split
    · simp only [UInt8.reduceToNat] at *
      exact ⟨_, _, rfl, fun x => by simp; omega⟩
    · rename_i hb
      rw [if_pos (by simp at *; omega)]
      simp only [UInt8.reduceToNat] at *
      exact ⟨_, _, by rw [show b.toNat - 0xF0 = 4 by omega], fun x => by simp; omega⟩

theorem first_refuse {b : UInt8} (h : 0x80 ≤ b.toNat ∧ b.toNat < 0xC2 ∨ 0xF5 ≤ b.toNat) :
    step .start b = .refuse := by
  unfold step first
  simp only [UInt8.lt_iff_toNat_lt, ← UInt8.toNat_inj]
  rw [if_neg (by simp; omega)]
  split
  · rfl
  · simp only [UInt8.reduceToNat] at *
    rw [if_neg (by omega), if_neg (by omega), if_neg (by omega), if_neg (by omega), if_neg (by omega),
      if_neg (by omega), if_neg (by omega)]

/-! ## Characters -/

/-- A byte that continues a character. -/
def Continues (x : UInt8) : Prop := 0x80 ≤ x.toNat ∧ x.toNat ≤ 0xBF

/-- The bytes that spell a character, by how many there are. -/
inductive Spelling : Bytes → Char → Prop
  | one {b : UInt8} : b.toNat < 0x80 → Spelling [b] (Char.ofNat b.toNat)
  | two {b x : UInt8} : 0xC2 ≤ b.toNat → b.toNat < 0xE0 → Continues x →
      Spelling [b, x] (Char.ofNat ((b.toNat - 0xC0) * 64 + (x.toNat - 0x80)))
  | three {b x y : UInt8} : 0xE0 ≤ b.toNat → b.toNat < 0xF0 → Continues x → Continues y →
      0x20 ≤ (b.toNat - 0xE0) * 64 + (x.toNat - 0x80) →
      ((b.toNat - 0xE0) * 64 + (x.toNat - 0x80) < 0x360 ∨ 0x380 ≤ (b.toNat - 0xE0) * 64 + (x.toNat - 0x80)) →
      Spelling [b, x, y] (Char.ofNat (((b.toNat - 0xE0) * 64 + (x.toNat - 0x80)) * 64 + (y.toNat - 0x80)))
  | four {b x y z : UInt8} : 0xF0 ≤ b.toNat → b.toNat < 0xF5 → Continues x → Continues y → Continues z →
      0x10 ≤ (b.toNat - 0xF0) * 64 + (x.toNat - 0x80) → (b.toNat - 0xF0) * 64 + (x.toNat - 0x80) < 0x110 →
      Spelling [b, x, y, z]
        (Char.ofNat ((((b.toNat - 0xF0) * 64 + (x.toNat - 0x80)) * 64 + (y.toNat - 0x80)) * 64 + (z.toNat - 0x80)))

theorem val_ofNat {n : Nat} (h : n < 0xD800 ∨ 0xDFFF < n ∧ n < 0x110000) : (Char.ofNat n).val.toNat = n := by
  have hvalid : n.isValidChar := h
  rw [Char.ofNat, dif_pos hvalid]
  rfl

theorem ofNat_eq {n : Nat} {b : UInt8} (h : n = b.toNat) : UInt8.ofNat n = b := by
  rw [h, UInt8.ofNat_toNat]

theorem toNat_ofNat {n : Nat} (h : n < 256) : (UInt8.ofNat n).toNat = n := by
  rw [UInt8.toNat_ofNat']
  exact Nat.mod_eq_of_lt h

/-- The bytes that spell a character are those that it encodes to. -/
theorem Spelling.encode {t : Bytes} {c : Char} (h : Spelling t c) : String.utf8EncodeChar c = t := by
  unfold String.utf8EncodeChar
  cases h with
  | one hb =>
    rw [val_ofNat (by omega)]
    simp only
    rw [if_pos (by omega), UInt8.ofNat_toNat]
  | @two b x hb hb' hx =>
    unfold Continues at hx
    rw [val_ofNat (by omega)]
    simp only
    rw [if_neg (by omega), if_pos (by omega), ofNat_eq (b := b) (by omega), ofNat_eq (b := x) (by omega)]
  | @three b x y hb hb' hx hy hlow hhigh =>
    unfold Continues at hx hy
    rw [val_ofNat (by omega)]
    simp only
    rw [if_neg (by omega), if_neg (by omega), if_pos (by omega), ofNat_eq (b := b) (by omega),
      ofNat_eq (b := x) (by omega), ofNat_eq (b := y) (by omega)]
  | @four b x y z hb hb' hx hy hz hlow hhigh =>
    unfold Continues at hx hy hz
    rw [val_ofNat (by omega)]
    simp only
    rw [if_neg (by omega), if_neg (by omega), if_neg (by omega), ofNat_eq (b := b) (by omega),
      ofNat_eq (b := x) (by omega), ofNat_eq (b := y) (by omega), ofNat_eq (b := z) (by omega)]

/-- The bytes that a character encodes to spell it. -/
theorem spelling_encode (c : Char) : Spelling (String.utf8EncodeChar c) c := by
  have hvalid : c.val.toNat < 0xD800 ∨ 0xDFFF < c.val.toNat ∧ c.val.toNat < 0x110000 := c.valid
  have hc : Char.ofNat c.val.toNat = c := Char.ofNat_toNat c
  unfold String.utf8EncodeChar
  generalize c.val.toNat = n at hvalid hc
  subst hc
  have hcontinues : ∀ m, Continues (UInt8.ofNat (m % 64 + 128)) := by
    intro m
    unfold Continues
    rw [toNat_ofNat (by omega)]
    omega
  simp only
  split
  · have h := Spelling.one (b := UInt8.ofNat n) (by rw [toNat_ofNat (by omega)]; omega)
    rwa [toNat_ofNat (by omega)] at h
  · split
    · have h := Spelling.two (b := UInt8.ofNat (n / 64 % 32 + 192)) (by rw [toNat_ofNat (by omega)]; omega)
        (by rw [toNat_ofNat (by omega)]; omega) (hcontinues n)
      rw [toNat_ofNat (by omega), toNat_ofNat (by omega)] at h
      rwa [show (n / 64 % 32 + 192 - 0xC0) * 64 + (n % 64 + 128 - 0x80) = n by omega] at h
    · split
      · have h := Spelling.three (b := UInt8.ofNat (n / 4096 % 16 + 224)) (by rw [toNat_ofNat (by omega)]; omega)
          (by rw [toNat_ofNat (by omega)]; omega) (hcontinues (n / 64)) (hcontinues n)
          (by rw [toNat_ofNat (by omega), toNat_ofNat (by omega)]; omega)
          (by rw [toNat_ofNat (by omega), toNat_ofNat (by omega)]; omega)
        rw [toNat_ofNat (by omega), toNat_ofNat (by omega), toNat_ofNat (by omega)] at h
        rwa [show ((n / 4096 % 16 + 224 - 0xE0) * 64 + (n / 64 % 64 + 128 - 0x80)) * 64 + (n % 64 + 128 - 0x80) = n
          by omega] at h
      · have h := Spelling.four (b := UInt8.ofNat (n / 262144 % 8 + 240)) (by rw [toNat_ofNat (by omega)]; omega)
          (by rw [toNat_ofNat (by omega)]; omega) (hcontinues (n / 4096)) (hcontinues (n / 64)) (hcontinues n)
          (by rw [toNat_ofNat (by omega), toNat_ofNat (by omega)]; omega)
          (by rw [toNat_ofNat (by omega), toNat_ofNat (by omega)]; omega)
        rw [toNat_ofNat (by omega), toNat_ofNat (by omega), toNat_ofNat (by omega), toNat_ofNat (by omega)] at h
        rwa [show (((n / 262144 % 8 + 240 - 0xF0) * 64 + (n / 4096 % 64 + 128 - 0x80)) * 64 +
          (n / 64 % 64 + 128 - 0x80)) * 64 + (n % 64 + 128 - 0x80) = n by omega] at h

/-! ## The machine -/

theorem decodeFrom?_char {state : State} {b : UInt8} {c : Char} (h : step state b = .char c) (rest : Bytes) :
    decodeFrom? state (b :: rest) = (decodeFrom? .start rest).map (c :: ·) := by
  rw [decodeFrom?, h]

theorem decodeFrom?_more {state next : State} {b : UInt8} (h : step state b = .more next) (rest : Bytes) :
    decodeFrom? state (b :: rest) = decodeFrom? next rest := by
  rw [decodeFrom?, h]

theorem decodeFrom?_refuse {state : State} {b : UInt8} (h : step state b = .refuse) (rest : Bytes) :
    decodeFrom? state (b :: rest) = none := by
  rw [decodeFrom?, h]

theorem continues_iff {x : UInt8} : Continues x ↔ 0x80 ≤ x ∧ x ≤ 0xBF := by
  rw [UInt8.le_iff_toNat_le, UInt8.le_iff_toNat_le]
  exact Iff.rfl

theorem step_last {value : Nat} {low high x : UInt8} (h : low ≤ x ∧ x ≤ high) :
    step (.inside 0 value low high) x = .char (Char.ofNat (value * 64 + (x.toNat - 0x80))) := by
  rw [step, if_pos h]

theorem step_continued {later value : Nat} {low high x : UInt8} (h : low ≤ x ∧ x ≤ high) :
    step (.inside (later + 1) value low high) x =
      .more (.inside later (value * 64 + (x.toNat - 0x80)) 0x80 0xBF) := by
  rw [step, if_pos h]

theorem step_outside {later value : Nat} {low high x : UInt8} (h : ¬(low ≤ x ∧ x ≤ high)) :
    step (.inside later value low high) x = .refuse := by
  rw [step, if_neg h]

/-- The machine reads a character from the bytes that spell it. -/
theorem Spelling.decodeFrom {t : Bytes} {c : Char} (h : Spelling t c) (rest : Bytes) :
    decodeFrom? .start (t ++ rest) = (decodeFrom? .start rest).map (c :: ·) := by
  cases h with
  | one hb => exact decodeFrom?_char (first_one hb) rest
  | two hb hb' hx =>
    refine (decodeFrom?_more (first_two hb hb') _).trans ?_
    exact decodeFrom?_char (step_last (continues_iff.1 hx)) rest
  | three hb hb' hx hy hlow hhigh =>
    obtain ⟨low, high, hfirst, hrange⟩ := first_three hb hb'
    refine (decodeFrom?_more hfirst _).trans ?_
    refine (decodeFrom?_more (step_continued ((hrange _).2 ⟨hx, hlow, hhigh⟩)) _).trans ?_
    exact decodeFrom?_char (step_last (continues_iff.1 hy)) rest
  | four hb hb' hx hy hz hlow hhigh =>
    obtain ⟨low, high, hfirst, hrange⟩ := first_four hb hb'
    refine (decodeFrom?_more hfirst _).trans ?_
    refine (decodeFrom?_more (step_continued ((hrange _).2 ⟨hx, hlow, hhigh⟩)) _).trans ?_
    refine (decodeFrom?_more (step_continued (continues_iff.1 hy)) _).trans ?_
    exact decodeFrom?_char (step_last (continues_iff.1 hz)) rest

/-- Inside a character, the machine goes on with a byte in its range only. -/
theorem exists_of_inside {later value : Nat} {low high : UInt8} {t : Bytes} {cs : List Char}
    (h : decodeFrom? (.inside later value low high) t = some cs) :
    ∃ x rest, t = x :: rest ∧ low ≤ x ∧ x ≤ high := by
  cases t with
  | nil => cases h
  | cons x rest =>
    refine ⟨x, rest, rfl, ?_⟩
    false_or_by_contra
    rename_i hx
    rw [decodeFrom?_refuse (step_outside hx)] at h
    cases h

/-- What the machine reads begins with the spelling of the first character. -/
theorem exists_spelling {b : UInt8} {rest : Bytes} {cs : List Char}
    (h : decodeFrom? .start (b :: rest) = some cs) :
    ∃ t c rest', b :: rest = t ++ rest' ∧ Spelling t c := by
  by_cases hone : b.toNat < 0x80
  · exact ⟨[b], _, rest, rfl, .one hone⟩
  · by_cases hrefused : b.toNat < 0xC2 ∨ 0xF5 ≤ b.toNat
    · rw [decodeFrom?_refuse (first_refuse (by omega))] at h
      cases h
    · by_cases htwo : b.toNat < 0xE0
      · rw [decodeFrom?_more (first_two (by omega) htwo)] at h
        obtain ⟨x, rest', rfl, hx⟩ := exists_of_inside h
        exact ⟨[b, x], _, rest', rfl, .two (by omega) htwo (continues_iff.2 hx)⟩
      · by_cases hthree : b.toNat < 0xF0
        · obtain ⟨low, high, hfirst, hrange⟩ := first_three (by omega) hthree
          rw [decodeFrom?_more hfirst] at h
          obtain ⟨x, rest', rfl, hx⟩ := exists_of_inside h
          rw [decodeFrom?_more (step_continued hx)] at h
          obtain ⟨y, rest', rfl, hy⟩ := exists_of_inside h
          obtain ⟨hx, hlow, hhigh⟩ := (hrange x).1 hx
          exact ⟨[b, x, y], _, rest', rfl, .three (by omega) hthree hx (continues_iff.2 hy) hlow hhigh⟩
        · obtain ⟨low, high, hfirst, hrange⟩ := first_four (b := b) (by omega) (by omega)
          rw [decodeFrom?_more hfirst] at h
          obtain ⟨x, rest', rfl, hx⟩ := exists_of_inside h
          rw [decodeFrom?_more (step_continued hx)] at h
          obtain ⟨y, rest', rfl, hy⟩ := exists_of_inside h
          rw [decodeFrom?_more (step_continued hy)] at h
          obtain ⟨z, rest', rfl, hz⟩ := exists_of_inside h
          obtain ⟨hx, hlow, hhigh⟩ := (hrange x).1 hx
          exact ⟨[b, x, y, z], _, rest', rfl,
            .four (by omega) (by omega) hx (continues_iff.2 hy) (continues_iff.2 hz) hlow hhigh⟩

/-! ## Texts -/

theorem decodeFrom?_encode (cs : List Char) : decodeFrom? .start (cs.flatMap String.utf8EncodeChar) = some cs := by
  induction cs with
  | nil => rfl
  | cons c cs ih => rw [List.flatMap_cons, (spelling_encode c).decodeFrom, ih, Option.map_some]

/-- Bytes that are read as characters are those that the characters encode to. -/
theorem eq_flatMap_of_decodeFrom? {t : Bytes} {cs : List Char} (h : decodeFrom? .start t = some cs) :
    t = cs.flatMap String.utf8EncodeChar := by
  induction hlength : t.length using Nat.strongRecOn generalizing t cs with
  | ind length ih =>
    cases t with
    | nil =>
      cases h
      rfl
    | cons b rest =>
      obtain ⟨u, c, rest', hsplit, hu⟩ := exists_spelling h
      rw [hsplit, hu.decodeFrom] at h
      obtain ⟨cs', hcs', rfl⟩ := Option.map_eq_some_iff.1 h
      have hshorter : rest'.length < length := by
        have hsum := congrArg List.length hsplit
        rw [List.length_append] at hsum
        have hpositive : 0 < u.length := by cases hu <;> exact Nat.succ_pos _
        omega
      rw [hsplit, List.flatMap_cons, hu.encode, ← ih _ hshorter hcs' rfl]

/-- Bytes are read as a text exactly if they are what the text encodes to. -/
theorem decode?_eq_some_iff {t : Bytes} {text : String} : decode? t = some text ↔ t = encode text := by
  unfold decode? encode
  constructor
  · intro h
    obtain ⟨cs, hcs, rfl⟩ := Option.map_eq_some_iff.1 h
    rw [String.toList_ofList]
    exact eq_flatMap_of_decodeFrom? hcs
  · rintro rfl
    rw [decodeFrom?_encode, Option.map_some, String.ofList_toList]

theorem lossyFrom_char {state : State} {b : UInt8} {c : Char} (h : step state b = .char c) (rest : Bytes) :
    lossyFrom state (b :: rest) = c :: lossyFrom .start rest := by
  cases state <;> simp only [lossyFrom, h]

theorem lossyFrom_more {state next : State} {b : UInt8} (h : step state b = .more next) (rest : Bytes) :
    lossyFrom state (b :: rest) = lossyFrom next rest := by
  cases state <;> simp only [lossyFrom, h]

/-- Nothing is replaced in bytes that are UTF-8. -/
theorem lossyFrom_eq {state : State} {t : Bytes} {cs : List Char} (h : decodeFrom? state t = some cs) :
    lossyFrom state t = cs := by
  induction t generalizing state cs with
  | nil =>
    cases state with
    | start =>
      cases h
      rfl
    | inside later value low high => cases h
  | cons b rest ih =>
    cases hstep : step state b with
    | char c =>
      rw [decodeFrom?_char hstep] at h
      obtain ⟨cs', hcs', rfl⟩ := Option.map_eq_some_iff.1 h
      rw [lossyFrom_char hstep, ih hcs']
    | more next =>
      rw [decodeFrom?_more hstep] at h
      rw [lossyFrom_more hstep]
      exact ih h
    | refuse =>
      rw [decodeFrom?_refuse hstep] at h
      cases h

/-! ## Where the machine stands -/

/-- Where the machine stands behind some bytes, unless it has refused one of them. -/
def behind? : State → Bytes → Option State
  | state, [] => some state
  | state, b :: rest =>
    match step state b with
    | .char _ => behind? .start rest
    | .more next => behind? next rest
    | .refuse => none

/-- The bytes are UTF-8. -/
def Valid (t : Bytes) : Prop := behind? .start t = some .start

theorem behind?_append (state : State) (t u : Bytes) :
    behind? state (t ++ u) = (behind? state t).bind fun state => behind? state u := by
  induction t generalizing state with
  | nil => rfl
  | cons b t ih =>
    rw [List.cons_append, behind?, behind?]
    cases step state b with
    | char c => exact ih .start
    | more next => exact ih next
    | refuse => rfl

theorem behind?_eq_start_iff (state : State) (t : Bytes) :
    behind? state t = some .start ↔ ∃ cs, decodeFrom? state t = some cs := by
  induction t generalizing state with
  | nil =>
    cases state with
    | start => exact ⟨fun _ => ⟨[], rfl⟩, fun _ => rfl⟩
    | inside later value low high =>
      constructor
      · intro h
        cases h
      · rintro ⟨cs, h⟩
        cases h
  | cons b t ih =>
    rw [behind?]
    cases hstep : step state b with
    | char c =>
      rw [decodeFrom?_char hstep]
      simp only [ih, Option.map_eq_some_iff]
      constructor
      · rintro ⟨cs, h⟩
        exact ⟨_, cs, h, rfl⟩
      · rintro ⟨-, cs, h, -⟩
        exact ⟨cs, h⟩
    | more next =>
      rw [decodeFrom?_more hstep]
      exact ih next
    | refuse =>
      rw [decodeFrom?_refuse hstep]
      simp

theorem valid_iff {t : Bytes} : Valid t ↔ ∃ text, t = encode text := by
  unfold Valid
  rw [behind?_eq_start_iff]
  simp only [← decode?_eq_some_iff, decode?, Option.map_eq_some_iff]
  constructor
  · rintro ⟨cs, h⟩
    exact ⟨_, cs, h, rfl⟩
  · rintro ⟨-, cs, h, -⟩
    exact ⟨cs, h⟩

/-- Bytes that are UTF-8 come back from the text that they are read as. -/
theorem encode_lossy {t : Bytes} (h : Valid t) : encode (lossy t) = t := by
  obtain ⟨cs, hcs⟩ := (behind?_eq_start_iff .start t).1 h
  unfold encode lossy
  rw [String.toList_ofList, lossyFrom_eq hcs, ← eq_flatMap_of_decodeFrom? hcs]

theorem Valid.append {t u : Bytes} (ht : Valid t) (hu : Valid u) : Valid (t ++ u) := by
  unfold Valid at *
  rw [behind?_append, ht]
  exact hu

theorem valid_ascii {b : UInt8} (h : b.toNat < 0x80) : Valid [b] := by
  unfold Valid behind?
  rw [first_one h]
  rfl

theorem valid_encodeChar (c : Char) : Valid (String.utf8EncodeChar c) := by
  rw [valid_iff]
  refine ⟨String.ofList [c], ?_⟩
  rw [encode, String.toList_ofList, List.flatMap_singleton]

/-- Inside a character, nothing is in range but what continues one. -/
def State.Bounded : State → Prop
  | start => True
  | inside _ _ low high => ∀ x : UInt8, low ≤ x ∧ x ≤ high → Continues x

theorem bounded_of_more {state next : State} {b : UInt8} (h : step state b = .more next) : next.Bounded := by
  cases state with
  | start =>
    by_cases hone : b.toNat < 0x80
    · rw [first_one hone] at h
      cases h
    · by_cases hrefused : b.toNat < 0xC2 ∨ 0xF5 ≤ b.toNat
      · rw [first_refuse (by omega)] at h
        cases h
      · by_cases htwo : b.toNat < 0xE0
        · rw [first_two (by omega) htwo] at h
          cases h
          exact fun x => continues_iff.2
        · by_cases hthree : b.toNat < 0xF0
          · obtain ⟨low, high, hfirst, hrange⟩ := first_three (by omega) hthree
            rw [hfirst] at h
            cases h
            exact fun x hx => ((hrange x).1 hx).1
          · obtain ⟨low, high, hfirst, hrange⟩ := first_four (b := b) (by omega) (by omega)
            rw [hfirst] at h
            cases h
            exact fun x hx => ((hrange x).1 hx).1
  | inside later value low high =>
    by_cases hb : low ≤ b ∧ b ≤ high
    · cases later with
      | zero =>
        rw [step_last hb] at h
        cases h
      | succ later =>
        rw [step_continued hb] at h
        cases h
        exact fun x => continues_iff.2
    · rw [step_outside hb] at h
      cases h

theorem bounded_behind? {state state' : State} {t : Bytes} (h : behind? state t = some state')
    (hbounded : state.Bounded) : state'.Bounded := by
  induction t generalizing state with
  | nil =>
    cases h
    exact hbounded
  | cons b t ih =>
    rw [behind?] at h
    cases hstep : step state b with
    | char c =>
      rw [hstep] at h
      exact ih h trivial
    | more next =>
      rw [hstep] at h
      exact ih h (bounded_of_more hstep)
    | refuse =>
      rw [hstep] at h
      cases h

/-- Inside a character, whatever does not continue one is refused. -/
theorem behind?_concat_of_not_continues {t : Bytes} {later value : Nat} {low high x : UInt8}
    (h : behind? .start t = some (.inside later value low high)) (hx : ¬Continues x) :
    behind? .start (t ++ [x]) = none := by
  have hbounded := bounded_behind? h trivial
  rw [behind?_append, h, Option.bind_some, behind?, step_outside fun hrange => hx (hbounded x hrange)]

/-- No character begins with a byte that continues one. -/
theorem Spelling.exists_head {t : Bytes} {c : Char} (h : Spelling t c) : ∃ b rest, t = b :: rest ∧ ¬Continues b := by
  unfold Continues
  cases h with
  | one hb => exact ⟨_, _, rfl, by omega⟩
  | two hb hb' hx => exact ⟨_, _, rfl, by omega⟩
  | three hb hb' hx hy hlow hhigh => exact ⟨_, _, rfl, by omega⟩
  | four hb hb' hx hy hz hlow hhigh => exact ⟨_, _, rfl, by omega⟩

/-- Inside a character, no other character is read. -/
theorem Spelling.behind?_append {u t : Bytes} {c : Char} (hu : Spelling u c) {later value : Nat} {low high : UInt8}
    (h : behind? .start t = some (.inside later value low high)) : behind? .start (t ++ u) = none := by
  obtain ⟨b, rest, rfl, hb⟩ := hu.exists_head
  rw [← List.singleton_append, ← List.append_assoc, Utf8.behind?_append, behind?_concat_of_not_continues h hb,
    Option.bind_none]

theorem Spelling.valid {t : Bytes} {c : Char} (h : Spelling t c) : Valid t := by
  rw [← h.encode]
  exact valid_encodeChar c

end Utf8

end Verdicts
