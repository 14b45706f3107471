/-
Which analysis a record belongs to. The stop of an analysis matches the start of the innermost one that
runs, as brackets match (`Matched`); behind some records, that analysis is the innermost whose start only
matched records have followed (`Innermost`). Main statement: the stack of starts that are not matched yet
(`Stacked`) has the innermost analysis on top, and there is no other.
-/
import Verdicts.Proofs.Stream.RecordOrder

namespace Verdicts

namespace RecordOrder

/-! ## Counts -/

@[simp] theorem starts_append (front back : List Record) :
    starts (front ++ back) = starts front + starts back :=
  List.countP_append ..

@[simp] theorem stops_append (front back : List Record) :
    stops (front ++ back) = stops front + stops back :=
  List.countP_append ..

theorem starts_cons (r : Record) (rs : List Record) :
    starts (r :: rs) = starts rs + if r.kind = .analysisStart then 1 else 0 := by
  simp [starts, List.countP_cons]

theorem stops_cons (r : Record) (rs : List Record) :
    stops (r :: rs) = stops rs + if r.kind = .analysisStop then 1 else 0 := by
  simp [stops, List.countP_cons]

@[simp] theorem starts_start (top : String) (context : AnalysisContext) (rs : List Record) :
    starts (.analysisStart top context :: rs) = starts rs + 1 := by
  rw [starts_cons, if_pos (by rfl)]

@[simp] theorem stops_start (top : String) (context : AnalysisContext) (rs : List Record) :
    stops (.analysisStart top context :: rs) = stops rs := by
  simp [stops_cons, Record.kind]

@[simp] theorem starts_stop (rs : List Record) : starts (.analysisStop :: rs) = starts rs := by
  simp [starts_cons, Record.kind]

@[simp] theorem stops_stop (rs : List Record) : stops (.analysisStop :: rs) = stops rs + 1 := by
  rw [stops_cons, if_pos (by rfl)]

/-! ## Matching -/

/-- Records in which every start of an analysis has its stop and every stop its start, as brackets match. -/
inductive Matched : List Record → Prop
  | nil : Matched []
  | other {r : Record} {rest : List Record} : r.kind ≠ .analysisStart → r.kind ≠ .analysisStop →
      Matched rest → Matched (r :: rest)
  | nested {top : String} {context : AnalysisContext} {inner rest : List Record} : Matched inner →
      Matched rest → Matched (.analysisStart top context :: inner ++ .analysisStop :: rest)

theorem Matched.append {front back : List Record} (h : Matched front) (hback : Matched back) :
    Matched (front ++ back) := by
  induction h with
  | nil => exact hback
  | other hstart hstop _ ih => exact .other hstart hstop ih
  | nested hinner _ _ ih =>
    rw [List.append_assoc]
    exact .nested hinner ih

/-- Where starts and stops match, as many analyses stop as start, and at no point more have stopped than
started. -/
theorem Matched.counts {rs : List Record} (h : Matched rs) :
    starts rs = stops rs ∧ ∀ front, front <+: rs → stops front ≤ starts front := by
  induction h with
  | nil =>
    refine ⟨rfl, fun front hp => ?_⟩
    rw [List.prefix_nil.1 hp]
    exact Nat.le_refl _
  | @other r rest hstart hstop _ ih =>
    refine ⟨?_, fun front hp => ?_⟩
    · rw [starts_cons, stops_cons, if_neg hstart, if_neg hstop, ih.1]
    · rcases List.prefix_cons_iff.1 hp with rfl | ⟨tail, rfl, htail⟩
      · exact Nat.le_refl _
      · rw [starts_cons, stops_cons, if_neg hstart, if_neg hstop]
        exact ih.2 tail htail
  | @nested top context inner rest _ _ ihInner ihRest =>
    refine ⟨?_, fun front hp => ?_⟩
    · rw [List.cons_append, starts_start, stops_start, starts_append, stops_append, starts_stop, stops_stop]
      have hinner := ihInner.1
      have hrest := ihRest.1
      omega
    · rcases List.prefix_cons_iff.1 hp with rfl | ⟨tail, rfl, behind, htail⟩
      · exact Nat.le_refl _
      · rw [starts_start, stops_start]
        rcases List.append_eq_append_iff.1 htail with ⟨more, rfl, -⟩ | ⟨more, rfl, hmore⟩
        · -- within the inner records
          have hle := ihInner.2 tail (List.prefix_append ..)
          omega
        · -- behind them, where the stop makes up for the start
          rcases List.prefix_cons_iff.1 ⟨behind, hmore.symm⟩ with rfl | ⟨last, rfl, hlast⟩
          · rw [List.append_nil, ihInner.1]
            omega
          · have hle := ihRest.2 last hlast
            have hinner := ihInner.1
            rw [starts_append, stops_append, starts_stop, stops_stop]
            omega

/-- Behind the records `before`, the innermost analysis that runs is the `k`-th that they start: only
matched records have followed its start. -/
def Innermost (before : List Record) (k : Nat) : Prop :=
  ∃ front top context inner, before = front ++ .analysisStart top context :: inner ∧ starts front = k ∧
    Matched inner

theorem Innermost.lt {before : List Record} {k : Nat} (h : Innermost before k) : k < starts before := by
  obtain ⟨front, top, context, inner, rfl, rfl, -⟩ := h
  rw [starts_append, starts_start]
  omega

/-- Behind matched records no analysis runs. -/
theorem Matched.not_innermost {rs : List Record} (h : Matched rs) (k : Nat) : ¬Innermost rs k := by
  rintro ⟨front, top, context, inner, rfl, -, hinner⟩
  -- the start would be one more than stops make up for
  have hall := h.counts.1
  have hfront := h.counts.2 front (List.prefix_append ..)
  have hbehind := hinner.counts.1
  rw [starts_append, starts_start, stops_append, stops_start] at hall
  omega

/-- There is one innermost analysis at most. -/
theorem Innermost.unique {before : List Record} {k k' : Nat} (h : Innermost before k)
    (h' : Innermost before k') : k = k' := by
  obtain ⟨front, top, context, inner, rfl, rfl, hinner⟩ := h
  obtain ⟨front', top', context', inner', heq, rfl, hinner'⟩ := h'
  -- of two starts, the earlier one would be followed by the later one among matched records
  rcases List.append_eq_append_iff.1 heq with ⟨more, rfl, hmore⟩ | ⟨more, rfl, hmore⟩
  · cases more with
    | nil => rw [List.append_nil]
    | cons r more =>
      obtain ⟨rfl, rfl⟩ := List.cons.inj hmore
      exact absurd ⟨more, top', context', inner', rfl, rfl, hinner'⟩ (hinner.not_innermost _)
  · cases more with
    | nil => rw [List.append_nil]
    | cons r more =>
      obtain ⟨rfl, rfl⟩ := List.cons.inj hmore
      exact absurd ⟨more, top, context, inner, rfl, rfl, hinner⟩ (hinner'.not_innermost _)

/-! ## The stack -/

/-- `Stacked rs ks`: the analyses that run behind the records are those whose numbers are in `ks`, innermost
first. -/
inductive Stacked : List Record → List Nat → Prop
  | idle {rs : List Record} : Matched rs → Stacked rs []
  | inside {front inner : List Record} {ks : List Nat} {top : String} {context : AnalysisContext} :
      Stacked front ks → Matched inner →
      Stacked (front ++ .analysisStart top context :: inner) (starts front :: ks)

theorem Stacked.append {rs more : List Record} {ks : List Nat} (h : Stacked rs ks) (hmore : Matched more) :
    Stacked (rs ++ more) ks := by
  cases h with
  | idle hrs => exact .idle (hrs.append hmore)
  | inside hfront hinner =>
    rw [List.append_assoc, List.cons_append]
    exact .inside hfront (hinner.append hmore)

/-- A record that starts and stops no analysis changes nothing. -/
theorem Stacked.aside {rs : List Record} {ks : List Nat} (h : Stacked rs ks) {r : Record}
    (hstart : r.kind ≠ .analysisStart) (hstop : r.kind ≠ .analysisStop) : Stacked (rs ++ [r]) ks :=
  h.append (.other hstart hstop .nil)

/-- An analysis that starts is the innermost. -/
theorem Stacked.start {rs : List Record} {ks : List Nat} (h : Stacked rs ks) (top : String)
    (context : AnalysisContext) : Stacked (rs ++ [.analysisStart top context]) (starts rs :: ks) :=
  .inside h .nil

/-- The innermost analysis is the one that stops. -/
theorem Stacked.stop {rs : List Record} {k : Nat} {ks : List Nat} (h : Stacked rs (k :: ks)) :
    Stacked (rs ++ [.analysisStop]) ks := by
  cases h with
  | inside hfront hinner =>
    rw [List.append_assoc]
    exact hfront.append (.nested hinner .nil)

/-- The innermost analysis is on top of the stack. -/
theorem Stacked.innermost_iff {rs : List Record} {ks : List Nat} (h : Stacked rs ks) {k : Nat} :
    Innermost rs k ↔ ks.head? = some k := by
  cases h with
  | idle hrs => exact ⟨fun hk => absurd hk (hrs.not_innermost k), fun hk => (by cases hk)⟩
  | @inside front inner ks top context _ hinner =>
    have htop : Innermost (front ++ .analysisStart top context :: inner) (starts front) :=
      ⟨front, top, context, inner, rfl, rfl, hinner⟩
    rw [List.head?_cons, Option.some_inj]
    constructor
    · exact fun hk => htop.unique hk
    · rintro rfl
      exact htop

end RecordOrder

end Verdicts
