/-
Which of several attempts at a property counts. `Analysis.Counts` states it on the decoded properties
alone: no later one has the same logical name. Main statement: on an analysis whose ledger is that of its
decoded properties (`Analysis.Tidy`), as it is from the empty analysis on, the ledger finds exactly the
positions that count, each once.
-/
import Verdicts.Result.Analysis
import Mathlib.Data.List.Basic

namespace Verdicts

/-! ## Positions of a name -/

/-- The positions of the properties with a logical name. -/
def positionsNamed (ps : List Property) (name : String) : List Nat :=
  (ps.zipIdx.filter (·.1.displayName = name)).map (·.2)

theorem mem_positionsNamed {ps : List Property} {name : String} {i : Nat} :
    i ∈ positionsNamed ps name ↔ ∃ p, ps[i]? = some p ∧ p.displayName = name := by
  simp only [positionsNamed, List.mem_map, List.mem_filter, decide_eq_true_eq]
  constructor
  · rintro ⟨⟨p, j⟩, ⟨hmem, hname⟩, rfl⟩
    exact ⟨p, List.mem_zipIdx_iff_getElem?.1 hmem, hname⟩
  · rintro ⟨p, hp, hname⟩
    exact ⟨(p, i), ⟨List.mem_zipIdx_iff_getElem?.2 hp, hname⟩, rfl⟩

theorem positionsNamed_concat (ps : List Property) (p : Property) (name : String) :
    positionsNamed (ps ++ [p]) name =
      positionsNamed ps name ++ if p.displayName = name then [ps.length] else [] := by
  simp only [positionsNamed, List.zipIdx_append, List.filter_append, List.map_append, Nat.zero_add,
    List.zipIdx_singleton]
  by_cases h : p.displayName = name
  · simp [h]
  · simp [h]

theorem positionsNamed_sorted (ps : List Property) (name : String) :
    (positionsNamed ps name).Pairwise (· < ·) := by
  have hsub : (positionsNamed ps name).Sublist (ps.zipIdx.map (·.2)) := List.filter_sublist.map _
  rw [List.zipIdx_map_snd] at hsub
  exact List.Pairwise.sublist hsub List.pairwise_lt_range'

/-- The last position of a name is the one behind which the name does not come up again. -/
theorem getLast?_positionsNamed {ps : List Property} {name : String} {i : Nat} :
    (positionsNamed ps name).getLast? = some i ↔
      ∃ p, ps[i]? = some p ∧ p.displayName = name ∧
        ∀ j q, i < j → ps[j]? = some q → q.displayName ≠ name := by
  have hforward : ∀ {k : Nat}, (positionsNamed ps name).getLast? = some k →
      ∃ p, ps[k]? = some p ∧ p.displayName = name ∧
        ∀ j q, k < j → ps[j]? = some q → q.displayName ≠ name := by
    intro k hk
    obtain ⟨front, hfront⟩ := List.getLast?_eq_some_iff.1 hk
    have hmem : k ∈ positionsNamed ps name := by simp [hfront]
    obtain ⟨p, hp, hname⟩ := mem_positionsNamed.1 hmem
    refine ⟨p, hp, hname, fun j q hlt hq hqname => ?_⟩
    have hj : j ∈ positionsNamed ps name := mem_positionsNamed.2 ⟨q, hq, hqname⟩
    have hsorted := positionsNamed_sorted ps name
    rw [hfront, List.pairwise_append] at hsorted
    rw [hfront, List.mem_append, List.mem_singleton] at hj
    rcases hj with hj | rfl
    · exact absurd (hsorted.2.2 j hj k (List.mem_singleton_self k)) (Nat.lt_asymm hlt)
    · exact absurd hlt (Nat.lt_irrefl _)
  refine ⟨hforward, ?_⟩
  rintro ⟨p, hp, hname, hlast⟩
  have hmem : i ∈ positionsNamed ps name := mem_positionsNamed.2 ⟨p, hp, hname⟩
  obtain ⟨k, hk⟩ : ∃ k, (positionsNamed ps name).getLast? = some k :=
    ⟨_, List.getLast?_eq_some_getLast (List.ne_nil_of_mem hmem)⟩
  obtain ⟨q, hq, hqname, hqlast⟩ := hforward hk
  -- neither of two last positions comes before the other
  rcases Nat.lt_trichotomy i k with hlt | rfl | hlt
  · exact absurd hqname (hlast k q hlt hq)
  · exact hk
  · exact absurd hname (hqlast i p hlt hp)

/-! ## The ledger -/

/-- Entering an attempt adds its name behind the others, unless it is there. -/
theorem enterAttempt_names (name : String) (position : Nat) (ledger : List Attempts) :
    (enterAttempt name position ledger).map (·.name) =
      if name ∈ ledger.map (·.name) then ledger.map (·.name) else ledger.map (·.name) ++ [name] := by
  induction ledger with
  | nil => rfl
  | cons entry rest ih =>
    rw [enterAttempt]
    by_cases h : entry.name = name
    · simp [h]
    · rw [if_neg h, List.map_cons, ih]
      by_cases hmem : name ∈ rest.map (·.name)
      · simp [hmem]
      · simp [hmem, Ne.symm h]

/-- An entry is an old one of another name, the old one of the name with the attempt added, or a new
one. -/
theorem mem_enterAttempt {name : String} {position : Nat} {ledger : List Attempts}
    (hnames : (ledger.map (·.name)).Nodup) {e : Attempts} (h : e ∈ enterAttempt name position ledger) :
    (e ∈ ledger ∧ e.name ≠ name) ∨
      (∃ old ∈ ledger, old.name = name ∧ e = ⟨name, old.positions ++ [position]⟩) ∨
      (name ∉ ledger.map (·.name) ∧ e = ⟨name, [position]⟩) := by
  induction ledger with
  | nil => exact .inr (.inr ⟨List.not_mem_nil, List.mem_singleton.1 h⟩)
  | cons entry rest ih =>
    obtain ⟨hentry, hrest⟩ := List.nodup_cons.1 hnames
    rw [enterAttempt] at h
    by_cases hname : entry.name = name
    · subst hname
      rw [if_pos rfl] at h
      rcases List.mem_cons.1 h with rfl | h
      · exact .inr (.inl ⟨entry, List.mem_cons_self .., rfl, rfl⟩)
      · exact .inl ⟨List.mem_cons_of_mem _ h, fun heq => hentry (List.mem_map.2 ⟨e, h, heq⟩)⟩
    · rw [if_neg hname] at h
      rcases List.mem_cons.1 h with rfl | h
      · exact .inl ⟨List.mem_cons_self .., hname⟩
      · rcases ih hrest h with ⟨hmem, hne⟩ | ⟨old, hold, holdName, rfl⟩ | ⟨hnew, rfl⟩
        · exact .inl ⟨List.mem_cons_of_mem _ hmem, hne⟩
        · exact .inr (.inl ⟨old, List.mem_cons_of_mem _ hold, holdName, rfl⟩)
        · refine .inr (.inr ⟨?_, rfl⟩)
          rw [List.map_cons, List.mem_cons, not_or]
          exact ⟨Ne.symm hname, hnew⟩

namespace Analysis

/-- The ledger of an analysis is that of its decoded properties. -/
structure Tidy (a : Analysis) : Prop where
  names : a.propertyNames.Nodup
  positions : ∀ e ∈ a.ledger, e.positions = positionsNamed a.decoded e.name
  named : ∀ p ∈ a.decoded, p.displayName ∈ a.propertyNames

theorem tidy_of_empty {a : Analysis} (hdecoded : a.decoded = []) (hledger : a.ledger = []) : a.Tidy := by
  refine ⟨by rw [propertyNames, hledger]; exact List.nodup_nil, fun e he => ?_, fun p hp => ?_⟩
  · rw [hledger] at he
    cases he
  · rw [hdecoded] at hp
    cases hp

theorem Tidy.push {a : Analysis} (h : a.Tidy) (p : Property) : (a.push p).Tidy := by
  have hnames : (a.push p).propertyNames =
      if p.displayName ∈ a.propertyNames then a.propertyNames
      else a.propertyNames ++ [p.displayName] := enterAttempt_names ..
  refine ⟨?_, fun e he => ?_, fun q hq => ?_⟩
  · rw [hnames]
    split
    · exact h.names
    · rename_i hnew
      exact (List.perm_append_singleton _ _).nodup_iff.2 (List.nodup_cons.2 ⟨hnew, h.names⟩)
  · show e.positions = positionsNamed (a.decoded ++ [p]) e.name
    rw [positionsNamed_concat]
    rcases mem_enterAttempt h.names he with ⟨hold, hne⟩ | ⟨old, hold, hname, rfl⟩ | ⟨hnew, rfl⟩
    · rw [if_neg (Ne.symm hne), List.append_nil]
      exact h.positions e hold
    · rw [if_pos rfl, h.positions old hold, hname]
    · have hnone : positionsNamed a.decoded p.displayName = [] := by
        refine List.eq_nil_iff_forall_not_mem.2 fun i hi => ?_
        obtain ⟨q, hq, hqname⟩ := mem_positionsNamed.1 hi
        exact hnew (hqname ▸ h.named q (List.mem_of_getElem? hq))
      rw [if_pos rfl, hnone, List.nil_append]
  · rw [hnames]
    rcases List.mem_append.1 hq with hq | hq
    · split
      · exact h.named q hq
      · exact List.mem_append_left _ (h.named q hq)
    · rw [List.mem_singleton.1 hq]
      split
      · assumption
      · exact List.mem_append_right _ (List.mem_singleton_self _)

/-! ## The attempts that count -/

/-- The property `p` at position `i` counts: no later one has its logical name. -/
def Counts (a : Analysis) (i : Nat) (p : Property) : Prop :=
  a.decoded[i]? = some p ∧ ∀ j q, i < j → a.decoded[j]? = some q → q.displayName ≠ p.displayName

/-- A property that counts has a verdict. -/
def Answers (a : Analysis) (answer : Answer) (p : Property) : Prop :=
  ∃ i, a.Counts i p ∧ p.answer = answer

theorem Tidy.mem_authoritativePositions {a : Analysis} (h : a.Tidy) {i : Nat} :
    i ∈ a.authoritativePositions ↔ ∃ p, a.Counts i p := by
  rw [authoritativePositions, List.mem_filterMap]
  constructor
  · rintro ⟨e, he, hlast⟩
    rw [h.positions e he] at hlast
    obtain ⟨p, hp, hname, hlater⟩ := getLast?_positionsNamed.1 hlast
    rw [← hname] at hlater
    exact ⟨p, hp, hlater⟩
  · rintro ⟨p, hp, hlater⟩
    obtain ⟨e, he, hname⟩ := List.mem_map.1 (h.named p (List.mem_of_getElem? hp))
    refine ⟨e, he, ?_⟩
    rw [h.positions e he, hname]
    exact getLast?_positionsNamed.2 ⟨p, hp, rfl, hlater⟩

theorem Tidy.authoritativePositions_nodup {a : Analysis} (h : a.Tidy) : a.authoritativePositions.Nodup := by
  rw [authoritativePositions, List.Nodup, List.pairwise_filterMap]
  refine List.Pairwise.imp_of_mem ?_ (List.pairwise_map.1 h.names)
  intro e e' he he' hne i hi i' hi' heq
  rw [h.positions e he] at hi
  rw [h.positions e' he'] at hi'
  obtain ⟨p, hp, hname, -⟩ := getLast?_positionsNamed.1 hi
  obtain ⟨p', hp', hname', -⟩ := getLast?_positionsNamed.1 hi'
  -- one position holds one property, which has one name
  rw [heq, hp'] at hp
  cases hp
  exact hne (hname.symm.trans hname')

theorem Tidy.mem_authoritative {a : Analysis} (h : a.Tidy) {p : Property} :
    p ∈ a.authoritative ↔ ∃ i, a.Counts i p := by
  rw [authoritative, List.mem_filterMap]
  constructor
  · rintro ⟨i, hi, hp⟩
    obtain ⟨q, hq⟩ := h.mem_authoritativePositions.1 hi
    rw [property?, hq.1] at hp
    cases hp
    exact ⟨i, hq⟩
  · rintro ⟨i, hi⟩
    exact ⟨i, h.mem_authoritativePositions.2 ⟨p, hi⟩, hi.1⟩

theorem Tidy.mem_withAnswer {a : Analysis} (h : a.Tidy) {answer : Answer} {p : Property} :
    p ∈ a.withAnswer answer ↔ a.Answers answer p := by
  rw [withAnswer, List.mem_filter, h.mem_authoritative, decide_eq_true_eq]
  exact ⟨fun ⟨⟨i, hi⟩, hanswer⟩ => ⟨i, hi, hanswer⟩, fun ⟨i, hi, hanswer⟩ => ⟨⟨i, hi⟩, hanswer⟩⟩

/-- Whether there are properties with a verdict shows in the list of them. -/
theorem Tidy.isEmpty_withAnswer {a : Analysis} (h : a.Tidy) (answer : Answer) :
    (a.withAnswer answer).isEmpty ↔ ¬∃ p, a.Answers answer p := by
  rw [List.isEmpty_iff, List.eq_nil_iff_forall_not_mem, not_exists]
  exact forall_congr' fun p => not_congr h.mem_withAnswer

end Analysis

end Verdicts
