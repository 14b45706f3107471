/-
How an engine announces its version. Words are passed over until one begins with two numbers or more, behind any number of
`v`; what else is written around a version does not matter, as long as it does not go on with digits or dots. Main statement:
`version_announced`.
-/
import Mathlib.Algebra.Group.Nat.Defs
import Verdicts.Engine.Version
import Verdicts.Proofs.Text.Decimal

namespace Verdicts.Version

/-- Whether a character may stand in a version: an ASCII digit or a dot. -/
def inVersion (c : Char) : Bool := c.isDigit || c == '.'

/-- The parts between the dots, without empty ones. -/
def fields (run : List Char) : List (List Char) := (run.splitOn '.').filter (· ≠ [])

/-- The word begins with a version: behind any number of `v`, a run of digits and dots that holds two fields or more. -/
def Numbered (word : List Char) : Prop :=
  ∃ vees run rest, word = vees ++ run ++ rest ∧ (∀ c ∈ vees, c = 'v') ∧ (∀ c ∈ run, inVersion c = true) ∧
    (∀ c ∈ rest.head?, inVersion c = false) ∧ 2 ≤ (fields run).length

/-- Words that do not begin with a version, each with a separator behind it. -/
inductive Preamble : List Char → Prop
  | nil : Preamble []
  | cons {word rest : List Char} {separator : Char} : (∀ c ∈ word, separatesWords c = false) → ¬Numbered word →
      separatesWords separator = true → Preamble rest → Preamble (word ++ separator :: rest)

/-! ## Words -/

theorem splitBy_eq_splitOnP (p : Char → Bool) (text : List Char) : splitBy p text = text.splitOnP p := by
  induction text with
  | nil => rfl
  | cons c rest ih =>
    rw [splitBy, ih, List.splitOnP_cons_eq_if_modifyHead]
    cases h : rest.splitOnP p with
    | nil => exact absurd h (List.splitOnP_ne_nil p rest)
    | cons word words => rfl

theorem splitBy_word {p : Char → Bool} {word : List Char} {separator : Char} (hword : ∀ c ∈ word, p c = false)
    (hseparator : p separator = true) (rest : List Char) :
    splitBy p (word ++ separator :: rest) = word :: splitBy p rest := by
  rw [splitBy_eq_splitOnP, splitBy_eq_splitOnP, List.splitOnP_append_cons_of_forall_mem hword separator hseparator]

/-- A text without separators begins the first word of the text that it begins. -/
theorem splitBy_append {p : Char → Bool} {front : List Char} (hfront : ∀ c ∈ front, p c = false) (rest : List Char) :
    ∃ word words, word <+: rest ∧ splitBy p (front ++ rest) = (front ++ word) :: words := by
  -- the word goes on to the first separator behind the front, or to the end
  have hword : ∀ c ∈ front ++ rest.takeWhile (fun c => !p c), p c = false := by
    intro c hc
    rcases List.mem_append.1 hc with hc | hc
    · exact hfront c hc
    · simpa using List.mem_takeWhile_imp hc
  have hrest := List.takeWhile_append_dropWhile (p := fun c => !p c) (l := rest)
  cases hbehind : rest.dropWhile fun c => !p c with
  | nil =>
    rw [hbehind, List.append_nil] at hrest
    rw [hrest] at hword
    exact ⟨rest, [], List.prefix_rfl, by rw [splitBy_eq_splitOnP, List.splitOnP_eq_singleton hword]⟩
  | cons separator behind =>
    have hseparator : p separator = true := by
      have h := List.head?_dropWhile_not (fun c => !p c) rest
      simpa [hbehind] using h
    refine ⟨rest.takeWhile fun c => !p c, splitBy p behind, List.takeWhile_prefix _, ?_⟩
    rw [← splitBy_word hword hseparator, List.append_assoc, ← hbehind, hrest]

/-! ## Versions in words -/

/-- The digits and dots that a word begins with behind any number of `v`. -/
def core (word : List Char) : List Char := (word.dropWhile (· == 'v')).takeWhile inVersion

theorem core_append {vees run rest : List Char} (hvees : ∀ c ∈ vees, c = 'v') (hrun : ∀ c ∈ run, inVersion c = true)
    (hne : run ≠ []) (hrest : ∀ c ∈ rest.head?, inVersion c = false) : core (vees ++ run ++ rest) = run := by
  have hdrop : (vees ++ run ++ rest).dropWhile (· == 'v') = run ++ rest := by
    cases run with
    | nil => exact absurd rfl hne
    | cons c run =>
      have hc : c ≠ 'v' := by
        rintro rfl
        exact absurd (hrun 'v' List.mem_cons_self) (by decide)
      rw [List.append_assoc, List.dropWhile_append_of_pos fun c hc => beq_iff_eq.2 (hvees c hc), List.cons_append,
        List.dropWhile_cons_of_neg (by simpa using hc)]
  have hstop : rest.takeWhile inVersion = [] := by
    cases rest with
    | nil => rfl
    | cons c rest => exact List.takeWhile_cons_of_neg (Bool.eq_false_iff.1 (hrest c rfl))
  rw [core, hdrop, List.takeWhile_append_of_pos hrun, hstop, List.append_nil]

theorem core_eq_self {run : List Char} (hrun : ∀ c ∈ run, inVersion c = true) (hne : run ≠ []) : core run = run := by
  have h : core ([] ++ run ++ []) = run := core_append nofun hrun hne nofun
  rwa [List.append_nil, List.nil_append] at h

theorem numbered_iff {word : List Char} : Numbered word ↔ 2 ≤ (fields (core word)).length := by
  constructor
  · rintro ⟨vees, run, rest, rfl, hvees, hrun, hrest, hfields⟩
    have hne : run ≠ [] := by
      rintro rfl
      exact absurd hfields (by decide)
    rwa [core_append hvees hrun hne hrest]
  · intro hfields
    have hword : word = word.takeWhile (· == 'v') ++ core word ++ (word.dropWhile (· == 'v')).dropWhile inVersion := by
      rw [List.append_assoc, core, List.takeWhile_append_dropWhile, List.takeWhile_append_dropWhile]
    refine ⟨_, core word, _, hword, fun c hc => by simpa using List.mem_takeWhile_imp hc,
      fun c hc => List.mem_takeWhile_imp hc, fun c hc => ?_, hfields⟩
    have hstop := List.head?_dropWhile_not inVersion (word.dropWhile (· == 'v'))
    rw [Option.mem_def.1 hc] at hstop
    simpa using hstop

instance (word : List Char) : Decidable (Numbered word) := decidable_of_iff _ numbered_iff.symm

theorem ofWord?_eq (word : List Char) : ofWord? word = match fields (core word) with
    | major :: minor :: rest =>
      match field? major, field? minor with
      | some major, some minor => some ⟨major, minor, (rest.head?.bind field?).getD 0, [], []⟩
      | _, _ => none
    | _ => none := by
  rw [fields, List.splitOn_eq_splitOnP, ← splitBy_eq_splitOnP]
  rfl

/-- A word is passed over if it does not begin with a version. -/
theorem ofWord?_of_not_numbered {word : List Char} (h : ¬Numbered word) : ofWord? word = none := by
  rw [numbered_iff] at h
  rw [ofWord?_eq]
  split
  · rename_i major minor rest hfields
    rw [hfields] at h
    exact absurd (Nat.le_add_left 2 rest.length) h
  · rfl

/-! ## Numbers -/

theorem field?_toDigits {n : Nat} (h : n < 2 ^ 64) : field? (Nat.toDigits 10 n) = some n :=
  Decimal.unsigned?_eq_some_iff.2 ⟨.inl (Decimal.digits_toDigits n), h⟩

/-- Some numbers with dots in between. -/
def dotted (ns : List Nat) : List Char := ['.'].intercalate (ns.map (Nat.toDigits 10))

theorem inVersion_of_mem_dotted {ns : List Nat} : ∀ c ∈ dotted ns, inVersion c = true := by
  induction ns with
  | nil => nofun
  | cons n ns ih =>
    have hn : ∀ c ∈ Nat.toDigits 10 n, inVersion c = true := by
      intro c hc
      rw [inVersion, (Decimal.digits_toDigits n).2.1 c hc, Bool.true_or]
    cases ns with
    | nil =>
      rw [dotted, List.map_singleton, List.intercalate_singleton]
      exact hn
    | cons m ns =>
      rw [dotted, List.map_cons, List.map_cons, List.intercalate_cons_cons, ← List.map_cons, ← dotted]
      intro c hc
      rcases List.mem_append.1 hc with hc | hc
      · rcases List.mem_append.1 hc with hc | hc
        · exact hn c hc
        · rw [List.mem_singleton.1 hc]
          rfl
      · exact ih c hc

theorem fields_dotted {ns : List Nat} (h : ns ≠ []) : fields (dotted ns) = ns.map (Nat.toDigits 10) := by
  have hplain : ∀ text ∈ ns.map (Nat.toDigits 10), '.' ∉ text ∧ text ≠ [] := by
    intro text htext
    obtain ⟨n, -, rfl⟩ := List.mem_map.1 htext
    have hdigits := Decimal.digits_toDigits n
    exact ⟨fun hdot => absurd (hdigits.2.1 '.' hdot) (by decide), hdigits.1⟩
  rw [fields, dotted, List.splitOn_intercalate '.' (fun text htext => (hplain text htext).1) (by simpa using h)]
  exact List.filter_eq_self.2 fun text htext => decide_eq_true (hplain text htext).2

/-- Two numbers with a dot in between, or three, are a version. -/
theorem ofWord?_dotted {major minor : Nat} {patch : Option Nat} (hmajor : major < 2 ^ 64) (hminor : minor < 2 ^ 64)
    (hpatch : ∀ n ∈ patch, n < 2 ^ 64) :
    ofWord? (dotted (major :: minor :: patch.toList)) = some ⟨major, minor, patch.getD 0, [], []⟩ := by
  have hfields := fields_dotted (List.cons_ne_nil major (minor :: patch.toList))
  have hne : dotted (major :: minor :: patch.toList) ≠ [] := by
    intro hempty
    rw [hempty] at hfields
    exact List.cons_ne_nil _ _ hfields.symm
  rw [ofWord?_eq, core_eq_self inVersion_of_mem_dotted hne, hfields, List.map_cons, List.map_cons]
  simp only [field?_toDigits hmajor, field?_toDigits hminor]
  cases patch with
  | none => rfl
  | some n => simp [field?_toDigits (hpatch n rfl)]

/-! ## Announcements -/

theorem findSome?_preamble {front : List Char} (hfront : Preamble front) (text : List Char) :
    (splitBy separatesWords (front ++ text)).findSome? ofWord? = (splitBy separatesWords text).findSome? ofWord? := by
  induction hfront with
  | nil => rfl
  | cons hword hnumbered hseparator _ ih =>
    rw [List.append_assoc, List.cons_append, splitBy_word hword hseparator, List.findSome?_cons,
      ofWord?_of_not_numbered hnumbered]
    exact ih

theorem separatesWords_of_inVersion {c : Char} (h : inVersion c = true) : separatesWords c = false := by
  rw [inVersion, Bool.or_eq_true, beq_iff_eq] at h
  rcases h with h | rfl
  · have hne : ∀ d : Char, d.isDigit = false → (c == d) = false := by
      intro d hd
      rw [beq_eq_false_iff_ne]
      rintro rfl
      exact Bool.false_ne_true (hd.symm.trans h)
    rw [separatesWords, Text.isBlank_of_isDigit h, hne ',' rfl, hne '(' rfl, hne ')' rfl]
    rfl
  · decide

/-- A version is read whatever stands behind it in its word, and whatever words stand behind that. -/
theorem ofBanner?_append {front rest : List Char} (hfront : Preamble front)
    (hrest : ∀ c ∈ rest.head?, inVersion c = false) {vees run : List Char} (hvees : ∀ c ∈ vees, c = 'v')
    (hrun : ∀ c ∈ run, inVersion c = true) {v : Version} (hv : ofWord? run = some v) :
    ofBanner? (String.ofList (front ++ (vees ++ run ++ rest))) = some v := by
  have hne : run ≠ [] := by
    rintro rfl
    cases hv
  have hplain : ∀ c ∈ vees ++ run, separatesWords c = false := by
    intro c hc
    rcases List.mem_append.1 hc with hc | hc
    · rw [hvees c hc]
      decide
    · exact separatesWords_of_inVersion (hrun c hc)
  -- the word of the version goes on with some of the rest, which does not belong to the run
  obtain ⟨word, words, ⟨tail, rfl⟩, hwords⟩ := splitBy_append hplain rest
  have hstop : ∀ c ∈ word.head?, inVersion c = false := by
    cases word with
    | nil => nofun
    | cons c word => exact hrest
  have hword : ofWord? (vees ++ run ++ word) = some v := by
    rw [← hv, ofWord?_eq, ofWord?_eq, core_append hvees hrun hne hstop, core_eq_self hrun hne]
  rw [ofBanner?, String.toList_ofList, findSome?_preamble hfront, hwords, List.findSome?_cons, hword]

/-- A version that is announced behind words that do not begin with one is read as it is written: three numbers of 64 bits,
or two with the third taken to be zero. Any number of `v` may stand right in front of it, and behind it anything that is
neither a digit nor a dot. -/
theorem version_announced {front rest : String} (hfront : Preamble front.toList)
    (hrest : ∀ c ∈ rest.toList.head?, inVersion c = false) (vees : Nat) {major minor patch : Nat}
    (hmajor : major < 2 ^ 64) (hminor : minor < 2 ^ 64) (hpatch : patch < 2 ^ 64) :
    let announced (written : String) := ofBanner? (front ++ String.ofList (List.replicate vees 'v') ++ written ++ rest)
    announced (Nat.repr major ++ "." ++ Nat.repr minor ++ "." ++ Nat.repr patch) = some ⟨major, minor, patch, [], []⟩ ∧
      announced (Nat.repr major ++ "." ++ Nat.repr minor) = some ⟨major, minor, 0, [], []⟩ := by
  intro announced
  have hread : ∀ (written : String) (patch : Option Nat), (∀ n ∈ patch, n < 2 ^ 64) →
      written.toList = dotted (major :: minor :: patch.toList) →
      announced written = some ⟨major, minor, patch.getD 0, [], []⟩ := by
    intro written patch hpatch hwritten
    have hvees : ∀ c ∈ List.replicate vees 'v', c = 'v' := fun c hc => (List.mem_replicate.1 hc).2
    rw [← ofBanner?_append hfront hrest hvees inVersion_of_mem_dotted (ofWord?_dotted hmajor hminor hpatch), ← hwritten]
    simp only [announced, String.ofList_append, String.ofList_toList, String.append_assoc]
  exact ⟨hread _ (some patch) (fun n hn => Option.mem_some.1 hn ▸ hpatch) (by simp [dotted, Nat.repr]),
    hread _ none nofun (by simp [dotted, Nat.repr])⟩

/-- The largest number of 64 bits is read; a lone number and an empty word are passed over. -/
theorem version_announced_largest :
    Preamble "engine 2 (".toList ∧
      ofBanner? "engine 2 (vv18446744073709551615.0.7-rc.1, built 2023.1)" = some ⟨18446744073709551615, 0, 7, [], []⟩ ∧
      ofBanner? "engine 2 (vv18446744073709551615.0-rc.1, built 2023.1)" = some ⟨18446744073709551615, 0, 0, [], []⟩ := by
  have hfront : Preamble "engine 2 (".toList := by
    show Preamble (['e', 'n', 'g', 'i', 'n', 'e'] ++ ' ' :: (['2'] ++ ' ' :: ([] ++ '(' :: [])))
    exact .cons (by simp [separatesWords, Text.isBlank]) (by decide) (by decide)
      (.cons (by simp [separatesWords, Text.isBlank]) (by decide) (by decide) (.cons nofun (by decide) (by decide) .nil))
  have hrest : ∀ c ∈ "-rc.1, built 2023.1)".toList.head?, inVersion c = false := by
    intro c hc
    obtain rfl : '-' = c := Option.some.inj hc
    rfl
  have hlargest : 18446744073709551615 < 2 ^ 64 := by decide
  have hzero : 0 < 2 ^ 64 := by decide
  have hseven : 7 < 2 ^ 64 := by decide
  have hthree : "engine 2 (" ++ String.ofList (List.replicate 2 'v') ++
      (Nat.repr 18446744073709551615 ++ "." ++ Nat.repr 0 ++ "." ++ Nat.repr 7) ++ "-rc.1, built 2023.1)" =
      "engine 2 (vv18446744073709551615.0.7-rc.1, built 2023.1)" := by decide +kernel
  have htwo : "engine 2 (" ++ String.ofList (List.replicate 2 'v') ++
      (Nat.repr 18446744073709551615 ++ "." ++ Nat.repr 0) ++ "-rc.1, built 2023.1)" =
      "engine 2 (vv18446744073709551615.0-rc.1, built 2023.1)" := by decide +kernel
  have h := version_announced hfront hrest 2 hlargest hzero hseven
  exact ⟨hfront, hthree ▸ h.1, htwo ▸ h.2⟩

end Verdicts.Version
