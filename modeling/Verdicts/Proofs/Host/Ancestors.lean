/-
Paths and those above them. What a path names are its components, and the dot in front of a relative path, which counts as
one; its parent names all of these but the last, and there is none where nothing is named (`parent?_cases`). So the paths
above a path are known by what it names: `Lineage`.
-/
import Mathlib.Data.List.Infix
import Mathlib.Data.List.TakeWhile
import Verdicts.Host.Path

namespace Verdicts.Path

/-! ## Parts -/

/-- Whether a part of a path counts wherever it stands. -/
def counts (part : List Char) : Bool := part ≠ [] && part ≠ ['.']

theorem parts_ne_nil (text : List Char) : parts text ≠ [] := by
  cases text with
  | nil => exact List.cons_ne_nil _ _
  | cons c text =>
    rw [parts]
    split
    · exact List.cons_ne_nil _ _
    · split <;> exact List.cons_ne_nil _ _

theorem parts_slash (text : List Char) : parts ('/' :: text) = [] :: parts text := by
  rw [parts]
  split
  · exact absurd ‹_› (parts_ne_nil text)
  · rename_i part others heq
    rw [if_pos rfl, heq]

/-- A slash separates the parts before it from those behind it. -/
theorem parts_append (front back : List Char) : parts (front ++ '/' :: back) = parts front ++ parts back := by
  induction front with
  | nil => exact parts_slash back
  | cons c front ih =>
    rw [List.cons_append, parts, ih, parts]
    cases hfront : parts front with
    | nil => exact absurd hfront (parts_ne_nil front)
    | cons part others =>
      simp only [List.cons_append]
      split <;> rfl

theorem parts_of_not_mem {text : List Char} (h : '/' ∉ text) : parts text = [text] := by
  induction text with
  | nil => rfl
  | cons c text ih =>
    rw [List.mem_cons, not_or] at h
    rw [parts, ih h.2]
    exact if_neg (Ne.symm h.1)

/-! ## What a text names -/

/-- The dot that a text begins with, if that is a part of its own. -/
def leading (text : List Char) : List (List Char) := if (parts text).head? = some ['.'] then [['.']] else []

/-- The parts of a text that count where they stand. -/
def pieces (text : List Char) : List (List Char) := leading text ++ (parts text).filter counts

/-- What a path names: its components, and the dot in front of a relative path. -/
def names (p : Path) : List String :=
  (if (parts p.toList).head? = some ['.'] then ["."] else []) ++ components p

theorem names_eq (p : Path) : names p = (pieces p.toList).map String.ofList := by
  rw [pieces, List.map_append, leading]
  have hdot : (if (parts p.toList).head? = some ['.'] then [['.']] else []).map String.ofList =
      if (parts p.toList).head? = some ['.'] then ["."] else [] := by
    split <;> rfl
  rw [hdot]
  rfl

theorem pieces_append (front back : List Char) : pieces (front ++ '/' :: back) = pieces front ++ (parts back).filter counts := by
  have hleading : leading (front ++ '/' :: back) = leading front := by
    unfold leading
    rw [parts_append, List.head?_append, List.head?_eq_some_head (parts_ne_nil front), Option.some_or]
  rw [pieces, hleading, parts_append, List.filter_append, ← List.append_assoc]
  rfl

theorem pieces_slash (front : List Char) : pieces (front ++ ['/']) = pieces front := by
  rw [pieces_append]
  exact List.append_nil _

theorem pieces_dot (front : List Char) : pieces (front ++ ['/', '.']) = pieces front := by
  rw [pieces_append]
  exact List.append_nil _

/-! ## Ends that do not count -/

theorem pieces_trimmed (back : List Char) : pieces (trimmed back).reverse = pieces back.reverse := by
  fun_induction trimmed back with
  | case1 c rest ih =>
    have hback : ('/' :: c :: rest).reverse = (c :: rest).reverse ++ ['/'] := List.reverse_cons
    rw [ih, hback, pieces_slash]
  | case2 c rest ih =>
    have hback : ('.' :: '/' :: c :: rest).reverse = (c :: rest).reverse ++ ['/', '.'] := by
      rw [List.reverse_cons, List.reverse_cons, List.append_assoc]
      rfl
    rw [ih, hback, pieces_dot]
  | case3 => rfl
  | case4 => rfl

theorem trimmed_suffix (back : List Char) : trimmed back <:+ back := by
  fun_induction trimmed back with
  | case1 c rest ih => exact ih.trans (List.suffix_cons _ _)
  | case2 c rest ih => exact ih.trans ((List.suffix_cons _ _).trans (List.suffix_cons _ _))
  | case3 => exact List.suffix_cons _ _
  | case4 => exact List.suffix_rfl

theorem trimmed_eq_nil {back : List Char} (h : trimmed back = []) : back = [] := by
  fun_induction trimmed back with
  | case1 c rest ih => exact absurd (ih h) (List.cons_ne_nil _ _)
  | case2 c rest ih => exact absurd (ih h) (List.cons_ne_nil _ _)
  | case3 => cases h
  | case4 => exact h

/-- A reversed path that has nothing at its end that does not count. -/
structure Tidy (back : List Char) : Prop where
  slash : ∀ c rest, back ≠ '/' :: c :: rest
  dot : ∀ rest, back ≠ '.' :: '/' :: rest

theorem tidy_trimmed (back : List Char) : Tidy (trimmed back) := by
  fun_induction trimmed back with
  | case1 c rest ih => exact ih
  | case2 c rest ih => exact ih
  | case3 => exact ⟨by simp, by simp⟩
  | case4 text h h' h'' =>
    refine ⟨h, fun rest heq => ?_⟩
    cases rest with
    | nil => exact h'' heq
    | cons c rest => exact h' c rest heq

/-! ## The parent -/

/-- What a tidy path is made of: nothing, the root alone, one part, or a part that counts and what stands before it. -/
inductive TidyForm : List Char → Prop
  | empty : TidyForm []
  | root : TidyForm ['/']
  | single {last : List Char} : last ≠ [] → '/' ∉ last → TidyForm last
  | longer {last front : List Char} : counts last.reverse = true → '/' ∉ last → TidyForm (last ++ '/' :: front)

theorem Tidy.form {back : List Char} (h : Tidy back) : TidyForm back := by
  have hsplit : back.takeWhile (· ≠ '/') ++ back.dropWhile (· ≠ '/') = back := List.takeWhile_append_dropWhile
  have hlast : '/' ∉ back.takeWhile (· ≠ '/') := fun hmem => absurd (List.mem_takeWhile_imp hmem) (by decide)
  cases hrest : back.dropWhile (· ≠ '/') with
  | nil =>
    rw [hrest, List.append_nil] at hsplit
    rw [hsplit] at hlast
    by_cases hne : back = []
    · rw [hne]
      exact .empty
    · exact .single hne hlast
  | cons c front =>
    have hc : c = '/' := by
      have hhead := List.head?_dropWhile_not (· ≠ '/') back
      rw [hrest] at hhead
      simpa using hhead
    rw [hrest, hc] at hsplit
    generalize back.takeWhile (· ≠ '/') = last at hsplit hlast
    subst hsplit
    cases last with
    | nil =>
      cases front with
      | nil => exact .root
      | cons c front => exact absurd rfl (h.slash c front)
    | cons c last =>
      refine .longer ?_ hlast
      have hdot : c :: last ≠ ['.'] := by
        rintro hdot
        rw [hdot] at h
        exact h.dot front rfl
      unfold counts
      rw [Bool.and_eq_true, decide_eq_true_eq, decide_eq_true_eq]
      refine ⟨by simp, fun heq => hdot ?_⟩
      rw [← List.reverse_reverse (c :: last), heq]
      rfl

theorem pieces_single {part : List Char} (hne : part ≠ []) (hslash : '/' ∉ part) : pieces part = [part] := by
  unfold pieces leading
  rw [parts_of_not_mem hslash]
  by_cases hdot : part = ['.']
  · subst hdot
    rfl
  · simp [counts, hne, hdot]

theorem pieces_longer {front last : List Char} (hcounts : counts last = true) (hslash : '/' ∉ last) :
    pieces (front ++ '/' :: last) = pieces front ++ [last] := by
  rw [pieces_append, parts_of_not_mem hslash, List.filter_cons_of_pos hcounts]
  rfl

theorem isAbsolute_of_prefix {p d : Path} (hne : d.toList ≠ []) (h : d.toList <+: p.toList) :
    d.isAbsolute = p.isAbsolute := by
  obtain ⟨rest, hrest⟩ := h
  unfold isAbsolute
  rw [← hrest, List.head?_append, List.head?_eq_some_head hne, Option.some_or]

/-- The one path is right above the other: it names all but the last, and is written as the front of it. -/
structure Parent (d p : Path) : Prop where
  names : names d = (names p).dropLast
  isAbsolute : d.isAbsolute = p.isAbsolute
  toList_prefix : d.toList <+: p.toList

theorem isAbsolute_of_not_mem {p : Path} (h : '/' ∉ p.toList) : p.isAbsolute = false := by
  unfold isAbsolute
  rw [beq_eq_false_iff_ne]
  exact fun hhead => h (List.mem_of_mem_head? hhead)

theorem parent?_eq_none {p : Path} (h : trimmed p.toList.reverse = [] ∨ trimmed p.toList.reverse = ['/']) :
    p.parent? = none := by
  unfold parent?
  rcases h with h | h <;> simp only [h]

theorem parent?_eq_some {p : Path} {back : List Char} (h : trimmed p.toList.reverse = back) (hne : back ≠ [])
    (hroot : back ≠ ['/']) : p.parent? = some (String.ofList (trimmed (back.dropWhile (· ≠ '/'))).reverse) := by
  unfold parent?
  rw [h]
  split
  · exact absurd rfl hne
  · exact absurd rfl hroot
  · rfl

section Cases

variable {p : Path} {back : List Char}

theorem names_of_trimmed (h : trimmed p.toList.reverse = back) : names p = (pieces back.reverse).map String.ofList := by
  rw [← h, pieces_trimmed, List.reverse_reverse, names_eq]

theorem prefix_of_trimmed (h : trimmed p.toList.reverse = back) : back.reverse <+: p.toList := by
  have hsuffix := trimmed_suffix p.toList.reverse
  rwa [h, ← List.reverse_prefix, List.reverse_reverse] at hsuffix

theorem parent_of_single (h : trimmed p.toList.reverse = back) (hne : back ≠ []) (hslash : '/' ∉ back) :
    p.parent? = some "" ∧ names p ≠ [] ∧ Parent "" p := by
  have hdrop : back.dropWhile (· ≠ '/') = [] := by
    refine List.dropWhile_eq_nil_iff.2 fun c hc => decide_eq_true ?_
    rintro rfl
    exact hslash hc
  have hroot : back ≠ ['/'] := by
    rintro rfl
    exact hslash List.mem_cons_self
  have hne' : back.reverse ≠ [] := mt List.reverse_eq_nil_iff.1 hne
  have hslash' : '/' ∉ back.reverse := mt List.mem_reverse.1 hslash
  have hnames : names p = [String.ofList back.reverse] := by
    rw [names_of_trimmed h, pieces_single hne' hslash']
    rfl
  have hrelative : p.isAbsolute = false := by
    rw [← isAbsolute_of_prefix (d := String.ofList back.reverse), isAbsolute_of_not_mem]
    · rwa [String.toList_ofList]
    · rwa [String.toList_ofList]
    · rw [String.toList_ofList]
      exact prefix_of_trimmed h
  refine ⟨?_, by simp [hnames], ?_, hrelative.symm, List.nil_prefix⟩
  · rw [parent?_eq_some h hne hroot, hdrop]
    rfl
  · rw [hnames]
    rfl

theorem parent_of_longer {last front : List Char} (h : trimmed p.toList.reverse = last ++ '/' :: front)
    (hcounts : counts last.reverse = true) (hslash : '/' ∉ last) :
    ∃ d, p.parent? = some d ∧ names p ≠ [] ∧ Parent d p := by
  have hne : last ≠ [] := by
    rintro rfl
    cases hcounts
  have hdrop : (last ++ '/' :: front).dropWhile (· ≠ '/') = '/' :: front := by
    rw [List.dropWhile_append_of_pos, List.dropWhile_cons_of_neg (by simp)]
    intro c hc
    refine decide_eq_true ?_
    rintro rfl
    exact hslash hc
  have hroot : last ++ '/' :: front ≠ ['/'] := by
    cases last with
    | nil => exact absurd rfl hne
    | cons c last => simp
  have hback : (last ++ '/' :: front).reverse = front.reverse ++ '/' :: last.reverse := by simp
  have hfront : ('/' :: front).reverse = front.reverse ++ ['/'] := List.reverse_cons
  have hnames : names p = (pieces front.reverse).map String.ofList ++ [String.ofList last.reverse] := by
    rw [names_of_trimmed h, hback, pieces_longer hcounts (mt List.mem_reverse.1 hslash), List.map_append]
    rfl
  have hprefix : (trimmed ('/' :: front)).reverse <+: p.toList := by
    have hsuffix : trimmed ('/' :: front) <:+ last ++ '/' :: front :=
      (trimmed_suffix _).trans (List.suffix_append _ _)
    exact (List.reverse_prefix.2 hsuffix).trans (prefix_of_trimmed h)
  have hne' : (trimmed ('/' :: front)).reverse ≠ [] := by
    intro hnil
    cases trimmed_eq_nil (List.reverse_eq_nil_iff.1 hnil)
  refine ⟨_, parent?_eq_some h (by simp) hroot, by simp [hnames], ?_, ?_, ?_⟩
  · rw [hdrop, hnames, List.dropLast_concat, names_eq, String.toList_ofList, pieces_trimmed, hfront, pieces_slash]
  · rw [hdrop]
    exact isAbsolute_of_prefix (by rwa [String.toList_ofList]) (by rwa [String.toList_ofList])
  · rwa [hdrop, String.toList_ofList]

end Cases

/-- A path has a parent right above it, or it names nothing. -/
theorem parent?_cases (p : Path) :
    (p.parent? = none ∧ names p = []) ∨ ∃ d, p.parent? = some d ∧ names p ≠ [] ∧ Parent d p := by
  have hform := (tidy_trimmed p.toList.reverse).form
  generalize hback : trimmed p.toList.reverse = back at hform
  cases hform with
  | empty => exact .inl ⟨parent?_eq_none (.inl hback), by rw [names_of_trimmed hback]; rfl⟩
  | root => exact .inl ⟨parent?_eq_none (.inr hback), by rw [names_of_trimmed hback]; rfl⟩
  | single hne hslash => exact .inr ⟨"", parent_of_single hback hne hslash⟩
  | longer hcounts hslash => exact .inr (parent_of_longer hback hcounts hslash)

theorem Parent.length_lt {d p : Path} (h : Parent d p) (hne : Path.names p ≠ []) : d.length < p.length := by
  rw [← String.length_toList, ← String.length_toList]
  refine Nat.lt_of_le_of_ne h.toList_prefix.length_le fun hlength => ?_
  have hsame : d = p := String.toList_inj.1 (h.toList_prefix.eq_of_length hlength)
  have hnames := congrArg List.length h.names
  rw [hsame, List.length_dropLast] at hnames
  have hpos := List.length_pos_iff.2 hne
  omega

/-! ## A name in a directory -/

/-- The path itself and those above it, nearest first: each is the front of the path up to some component, the last
names nothing, and they are absolute or relative with it. -/
structure Lineage (p : Path) (chain : List Path) : Prop where
  first : chain.head? = some p
  names : chain.map names = (names p).inits.reverse
  isAbsolute : ∀ d ∈ chain, d.isAbsolute = p.isAbsolute
  toList_prefix : ∀ d ∈ chain, d.toList <+: p.toList

theorem inits_reverse {α : Type} {names : List α} (h : names ≠ []) :
    names.inits.reverse = names :: names.dropLast.inits.reverse := by
  conv => lhs; rw [← List.dropLast_append_getLast h]
  rw [List.inits_append]
  simp [List.dropLast_append_getLast h]

namespace Lineage

variable {p d : Path} {chain : List Path}

theorem cons (hne : Path.names p ≠ []) (hparent : Parent d p) (h : Lineage d chain) : Lineage p (p :: chain) where
  first := rfl
  names := by rw [List.map_cons, h.names, hparent.names, inits_reverse hne]
  isAbsolute := by
    intro e he
    rcases List.mem_cons.1 he with rfl | he
    · rfl
    · exact (h.isAbsolute e he).trans hparent.isAbsolute
  toList_prefix := by
    intro e he
    rcases List.mem_cons.1 he with rfl | he
    · exact List.prefix_rfl
    · exact (h.toList_prefix e he).trans hparent.toList_prefix

end Lineage

end Verdicts.Path
