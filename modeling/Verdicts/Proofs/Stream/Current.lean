/-
Which analysis is current behind some records: the one that was stopped last, if none was started since, and
otherwise the innermost that runs (`Current`). Main statement: more records leave it current exactly if none of them
starts or stops an analysis, or if it stops itself behind complete analyses and none starts or stops behind that
(`Current.append_iff`). Any other start or stop makes another analysis current.
-/
import Verdicts.Proofs.Stream.Matching

namespace Verdicts

namespace RecordOrder

/-! ## Where a record stands -/

/-- A record of two sequences in a row stands in the first or in the second. -/
theorem append_cons_eq_append {α : Type} {front behind before more : List α} {x : α}
    (h : front ++ x :: behind = before ++ more) :
    (∃ rest, before = front ++ x :: rest ∧ behind = rest ++ more) ∨
      ∃ rest, front = before ++ rest ∧ more = rest ++ x :: behind := by
  rcases List.append_eq_append_iff.1 h with ⟨rest, rfl, hrest⟩ | ⟨rest, rfl, rfl⟩
  · cases rest with
    | nil => exact .inr ⟨[], by simp, hrest.symm⟩
    | cons y rest =>
      obtain ⟨rfl, rfl⟩ := List.cons.inj hrest
      exact .inl ⟨rest, rfl, rfl⟩
  · exact .inr ⟨rest, rfl, rfl⟩

/-- There is one last element with a property at most. -/
theorem split_last {α : Type} {p : α → Prop} {front front' behind behind' : List α} {x x' : α}
    (h : front ++ x :: behind = front' ++ x' :: behind') (hx : p x) (hx' : p x') (hnone : ∀ y ∈ behind, ¬p y)
    (hnone' : ∀ y ∈ behind', ¬p y) : front = front' ∧ x = x' ∧ behind = behind' := by
  rcases append_cons_eq_append h with ⟨rest, rfl, rfl⟩ | ⟨rest, rfl, hrest⟩
  · exact absurd hx' (hnone x' (by simp))
  · cases rest with
    | nil =>
      obtain ⟨rfl, rfl⟩ := List.cons.inj hrest
      exact ⟨List.append_nil _, rfl, rfl⟩
    | cons y rest =>
      obtain ⟨rfl, rfl⟩ := List.cons.inj hrest
      exact absurd hx (hnone' x (by simp))

/-- There is one start of a number at most. -/
theorem split_start {front front' behind behind' : List Record} {top top' : String}
    {context context' : AnalysisContext}
    (h : front ++ .analysisStart top context :: behind = front' ++ .analysisStart top' context' :: behind')
    (hstarts : starts front = starts front') : front = front' ∧ behind = behind' := by
  rcases append_cons_eq_append h with ⟨rest, rfl, rfl⟩ | ⟨rest, rfl, hrest⟩
  · simp at hstarts
  · cases rest with
    | nil =>
      obtain ⟨-, rfl⟩ := List.cons.inj hrest
      exact ⟨List.append_nil _, rfl⟩
    | cons y rest =>
      obtain ⟨rfl, -⟩ := List.cons.inj hrest
      simp at hstarts

/-! ## Records without starts and stops -/

/-- No analysis starts or stops among the records. -/
def Quiet (rs : List Record) : Prop := ∀ r ∈ rs, r.kind ≠ .analysisStart ∧ r.kind ≠ .analysisStop

theorem Quiet.of_append_right {front back : List Record} (h : Quiet (front ++ back)) : Quiet back :=
  fun r hr => h r (List.mem_append_right _ hr)

theorem Quiet.of_append_left {front back : List Record} (h : Quiet (front ++ back)) : Quiet front :=
  fun r hr => h r (List.mem_append_left _ hr)

theorem Quiet.append {front back : List Record} (h : Quiet front) (hback : Quiet back) : Quiet (front ++ back) :=
  fun r hr => (List.mem_append.1 hr).elim (h r) (hback r)

theorem Quiet.matched {rs : List Record} (h : Quiet rs) : Matched rs := by
  induction rs with
  | nil => exact .nil
  | cons r rs ih =>
    obtain ⟨hstart, hstop⟩ := h r (List.mem_cons_self ..)
    exact .other hstart hstop (ih fun r' hr' => h r' (List.mem_cons_of_mem _ hr'))

/-- What stands behind quiet records matches if the whole does. -/
theorem Quiet.matched_behind {rs more : List Record} (h : Quiet rs) (hmatched : Matched (rs ++ more)) :
    Matched more := by
  induction rs with
  | nil => exact hmatched
  | cons r rs ih =>
    have hr := h r (List.mem_cons_self ..)
    generalize heq : r :: rs ++ more = all at hmatched
    cases hmatched with
    | nil => cases heq
    | other _ _ hrest =>
      obtain ⟨-, rfl⟩ := List.cons.inj heq
      exact ih (fun r' hr' => h r' (List.mem_cons_of_mem _ hr')) hrest
    | nested _ _ =>
      obtain ⟨rfl, -⟩ := List.cons.inj heq
      exact absurd rfl hr.1

/-- Records are quiet or have a last start or stop. -/
theorem quiet_or_last (rs : List Record) :
    Quiet rs ∨ ∃ front r behind, rs = front ++ r :: behind ∧ Quiet behind ∧
      (r.kind = .analysisStart ∨ r.kind = .analysisStop) := by
  induction rs with
  | nil => exact .inl fun r hr => absurd hr List.not_mem_nil
  | cons r rs ih =>
    rcases ih with hquiet | ⟨front, r', behind, rfl, hquiet, hkind⟩
    · by_cases hkind : r.kind = .analysisStart ∨ r.kind = .analysisStop
      · exact .inr ⟨[], r, rs, rfl, hquiet, hkind⟩
      · exact .inl (List.forall_mem_cons.2 ⟨not_or.1 hkind, hquiet⟩)
    · exact .inr ⟨r :: front, r', behind, rfl, hquiet, hkind⟩

theorem Innermost.append {before more : List Record} {k : Nat} (h : Innermost before k) (hmore : Matched more) :
    Innermost (before ++ more) k := by
  obtain ⟨front, top, context, inner, rfl, rfl, hinner⟩ := h
  exact ⟨front, top, context, inner ++ more, by simp, rfl, hinner.append hmore⟩

/-! ## The current analysis -/

/-- Since the latest start of an analysis one was stopped. -/
def StoppedSince (rs : List Record) : Prop := ∃ front behind, rs = front ++ .analysisStop :: behind ∧ Quiet behind

/-- Behind the records the `k`-th analysis that they start is current: it was stopped last, if one was stopped since
the latest start, and otherwise it is the innermost that runs. -/
inductive Current : List Record → Nat → Prop
  | stopped {front behind : List Record} {k : Nat} : Innermost front k → Quiet behind →
      Current (front ++ .analysisStop :: behind) k
  | running {rs : List Record} {k : Nat} : Innermost rs k → ¬StoppedSince rs → Current rs k

theorem Current.lt {rs : List Record} {k : Nat} (h : Current rs k) : k < starts rs := by
  cases h with
  | stopped hinnermost _ =>
    have hlt := hinnermost.lt
    rw [starts_append]
    omega
  | running hinnermost _ => exact hinnermost.lt

/-- Where none was stopped since the latest start, the innermost analysis is the one that was started last. -/
theorem Innermost.latest {rs : List Record} {k : Nat} (h : Innermost rs k) (hstopped : ¬StoppedSince rs) :
    ∃ front top context behind, rs = front ++ .analysisStart top context :: behind ∧ starts front = k ∧
      Quiet behind := by
  obtain ⟨front, top, context, inner, rfl, rfl, hinner⟩ := h
  refine ⟨front, top, context, inner, rfl, rfl, ?_⟩
  rcases quiet_or_last inner with hquiet | ⟨front', r, behind, rfl, hquiet, hkind⟩
  · exact hquiet
  · cases r <;> simp [Record.kind] at hkind
    · -- a start without a stop behind it does not match
      obtain ⟨hsame, hfewer⟩ := hinner.counts
      have hfront := hfewer front' (List.prefix_append ..)
      have hbehind := hquiet.matched.counts.1
      rw [starts_append, stops_append, starts_start, stops_start] at hsame
      omega
    · exact absurd ⟨front ++ .analysisStart top context :: front', behind, by simp, hquiet⟩ hstopped

/-- There is one current analysis at most. -/
theorem Current.unique {rs : List Record} {k k' : Nat} (h : Current rs k) (h' : Current rs k') : k = k' := by
  cases h with
  | running hinnermost hstopped =>
    cases h' with
    | running hinnermost' _ => exact hinnermost.unique hinnermost'
    | stopped _ hquiet => exact absurd ⟨_, _, rfl, hquiet⟩ hstopped
  | @stopped front behind _ hinnermost hquiet =>
    generalize heq : front ++ .analysisStop :: behind = rs at h'
    cases h' with
    | running _ hstopped => exact absurd ⟨front, behind, heq.symm, hquiet⟩ hstopped
    | stopped hinnermost' hquiet' =>
      obtain ⟨rfl, -, -⟩ := split_last (p := (·.kind = .analysisStop)) heq rfl rfl (fun r hr => (hquiet r hr).2)
        fun r hr => (hquiet' r hr).2
      exact hinnermost.unique hinnermost'

/-! ## More records -/

/-- Behind `before`, where the `k`-th analysis is current, the records `more` make no other one current: none starts
or stops, or the `k`-th stops itself behind complete analyses and none starts or stops behind that. -/
def Keeps (before more : List Record) (k : Nat) : Prop :=
  Quiet more ∨ Innermost before k ∧ ∃ complete behind, more = complete ++ .analysisStop :: behind ∧
    Matched complete ∧ Quiet behind

theorem Current.quiet {before more : List Record} {k : Nat} (h : Current before k) (hmore : Quiet more) :
    Current (before ++ more) k := by
  cases h with
  | stopped hinnermost hquiet =>
    rw [List.append_assoc, List.cons_append]
    exact .stopped hinnermost (hquiet.append hmore)
  | running hinnermost hstopped =>
    refine .running (hinnermost.append hmore.matched) ?_
    rintro ⟨front, behind, heq, hquiet⟩
    rcases append_cons_eq_append heq.symm with ⟨rest, rfl, rfl⟩ | ⟨rest, rfl, rfl⟩
    · exact hstopped ⟨front, rest, rfl, hquiet.of_append_left⟩
    · exact (hmore .analysisStop (by simp)).2 rfl

/-- A current analysis that is the innermost later on was so all along. -/
theorem Current.innermost {before more : List Record} {k : Nat} (h : Current before k)
    (hlater : Innermost (before ++ more) k) : Innermost before k ∧ Matched more := by
  have hlt := h.lt
  obtain ⟨front, top, context, inner, heq, rfl, hinner⟩ := hlater
  rcases append_cons_eq_append heq.symm with ⟨rest, rfl, rfl⟩ | ⟨rest, rfl, -⟩
  · generalize heq' : front ++ .analysisStart top context :: rest = before at h
    cases h with
    | running hinnermost hstopped =>
      obtain ⟨front', top', context', behind, rfl, hstarts, hquiet⟩ := hinnermost.latest hstopped
      obtain ⟨rfl, rfl⟩ := split_start heq' hstarts.symm
      exact ⟨hinnermost, hquiet.matched_behind hinner⟩
    | @stopped stoppedFront behind _ hinnermost hquiet =>
      -- the stop is one too many for what follows the start to match
      obtain ⟨front', top', context', inner', rfl, hstarts, hinner'⟩ := hinnermost
      rw [List.append_assoc, List.cons_append] at heq'
      obtain ⟨rfl, rfl⟩ := split_start heq' hstarts.symm
      have hfewer := hinner.counts.2 (inner' ++ [.analysisStop]) ⟨behind ++ more, by simp⟩
      have hsame := hinner'.counts.1
      rw [starts_append, stops_append, starts_stop, stops_stop] at hfewer
      simp [starts, stops] at hfewer hsame
      omega
  · rw [starts_append] at hlt
    omega

/-- More records leave an analysis current exactly if they make no other one current. -/
theorem Current.append_iff {before more : List Record} {k : Nat} (h : Current before k) :
    Current (before ++ more) k ↔ Keeps before more k := by
  constructor
  · intro hlater
    have hlt := h.lt
    generalize heq : before ++ more = rs at hlater
    cases hlater with
    | running hinnermost hstopped =>
      obtain ⟨front, top, context, behind, rfl, rfl, hquiet⟩ := hinnermost.latest hstopped
      rcases append_cons_eq_append heq.symm with ⟨rest, -, rfl⟩ | ⟨rest, rfl, -⟩
      · exact .inl hquiet.of_append_right
      · rw [starts_append] at hlt
        omega
    | stopped hinnermost hquiet =>
      rcases append_cons_eq_append heq.symm with ⟨rest, -, rfl⟩ | ⟨rest, rfl, rfl⟩
      · exact .inl hquiet.of_append_right
      · obtain ⟨hrunning, hcomplete⟩ := h.innermost hinnermost
        exact .inr ⟨hrunning, rest, _, rfl, hcomplete, hquiet⟩
  · rintro (hquiet | ⟨hinnermost, complete, behind, rfl, hcomplete, hquiet⟩)
    · exact h.quiet hquiet
    · rw [← List.append_assoc]
      exact .stopped (hinnermost.append hcomplete) hquiet

end RecordOrder

end Verdicts
