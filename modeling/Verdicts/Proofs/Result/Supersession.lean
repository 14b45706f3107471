/-
What an analysis shows of its attempts, read off the attempts alone. The attempts at a logical name are
those of the decoded properties that have it, in the order of decoding, and the last of them counts. Main
statement: whatever was pushed, the accessors agree with this reading (`Shows`), and a further attempt
takes the place of the one that counted, without touching the older ones.
-/
import Verdicts.Proofs.Result.Attempts
import Mathlib.Data.List.Forall2
import Mathlib.Data.List.Induction
import Mathlib.Data.List.Nodup

namespace Verdicts

/-! ## Lists -/

/-- Of a list with one more element, only the new one can come up for the first time. -/
theorem eraseDups_concat (names : List String) (name : String) :
    (names ++ [name]).eraseDups =
      if name ∈ names then names.eraseDups else names.eraseDups ++ [name] := by
  rw [List.eraseDups_append]
  by_cases h : name ∈ names
  · simp [h, List.removeAll]
  · simp [h, List.removeAll, List.eraseDups_cons]

theorem nodup_eraseDups (names : List String) : names.eraseDups.Nodup := by
  induction names using List.reverseRecOn with
  | nil => exact List.nodup_nil
  | append_singleton names name ih =>
    rw [eraseDups_concat]
    split
    · exact ih
    · rename_i hnew
      exact (List.perm_append_singleton _ _).nodup_iff.2 (List.nodup_cons.2 ⟨mt List.mem_eraseDups.1 hnew, ih⟩)

/-- The groups of a list by one of finitely many marks make up the list. -/
theorem flatMap_filter_perm {α β : Type} [DecidableEq β] (mark : α → β) (marks : List β)
    (hnodup : marks.Nodup) (l : List α) (hall : ∀ x ∈ l, mark x ∈ marks) :
    (marks.flatMap fun b => l.filter (mark · = b)).Perm l := by
  induction marks generalizing l with
  | nil =>
    cases l with
    | nil => rfl
    | cons x l => exact absurd (hall x List.mem_cons_self) List.not_mem_nil
  | cons b rest ih =>
    obtain ⟨hb, hrest⟩ := List.nodup_cons.1 hnodup
    -- the groups behind the first are those of the elements without the first mark
    have hgroups : (rest.flatMap fun c => l.filter (mark · = c)) =
        rest.flatMap fun c => (l.filter fun x => !decide (mark x = b)).filter (mark · = c) := by
      refine List.flatMap_congr fun c hc => ?_
      rw [List.filter_filter]
      refine List.filter_congr fun x _ => ?_
      by_cases hx : mark x = c
      · have hne : c ≠ b := fun heq => hb (heq ▸ hc)
        simp [hx, hne]
      · simp [hx]
    have hothers : ∀ x ∈ l.filter (fun x => !decide (mark x = b)), mark x ∈ rest := by
      intro x hx
      simp only [List.mem_filter, Bool.not_eq_true', decide_eq_false_iff_not] at hx
      exact (List.mem_cons.1 (hall x hx.1)).resolve_left hx.2
    rw [List.flatMap_cons, hgroups]
    exact ((ih hrest _ hothers).append_left _).trans (List.filter_append_perm _ l)

theorem map_positionsNamed (ps : List Property) (name : String) :
    (positionsNamed ps name).map (ps[·]?) = (ps.filter (·.displayName = name)).map some := by
  calc (positionsNamed ps name).map (ps[·]?)
      = (ps.zipIdx.filter (·.1.displayName = name)).map (fun x => ps[x.2]?) := by
        rw [positionsNamed, List.map_map]; rfl
    _ = (ps.zipIdx.filter (·.1.displayName = name)).map (fun x => some x.1) :=
        List.map_congr_left fun x hx => List.mem_zipIdx_iff_getElem?.1 (List.mem_filter.1 hx).1
    _ = ((ps.zipIdx.map (·.1)).filter (·.displayName = name)).map some := by
        rw [List.filter_map, List.map_map]; rfl
    _ = (ps.filter (·.displayName = name)).map some := by rw [List.zipIdx_map_fst]

namespace Analysis

variable {a : Analysis}

/-! ## Reading the ledger -/

theorem Tidy.positionsOf_eq (h : a.Tidy) (name : String) :
    a.positionsOf name = positionsNamed a.decoded name := by
  unfold positionsOf
  split
  · rename_i e he
    rw [h.positions e (List.mem_of_find?_eq_some he)]
    simpa using congrArg (positionsNamed a.decoded) (by simpa using List.find?_some he)
  · rename_i hnone
    refine (List.eq_nil_iff_forall_not_mem.2 fun i hi => ?_).symm
    obtain ⟨p, hp, rfl⟩ := mem_positionsNamed.1 hi
    obtain ⟨e, he, hname⟩ := List.mem_map.1 (h.named p (List.mem_of_getElem? hp))
    simpa [hname] using List.find?_eq_none.1 hnone e he

theorem Tidy.map_property? (h : a.Tidy) (name : String) :
    (a.positionsOf name).map a.property? =
      (a.decoded.filter (·.displayName = name)).map some := by
  rw [h.positionsOf_eq]
  exact map_positionsNamed a.decoded name

theorem Tidy.attempts_eq (h : a.Tidy) (name : String) :
    a.attempts name = a.decoded.filter (·.displayName = name) := by
  calc a.attempts name = ((a.positionsOf name).map a.property?).filterMap (fun p => p) := by
        rw [List.filterMap_map]; rfl
    _ = a.decoded.filter (·.displayName = name) := by
        rw [h.map_property?, List.filterMap_map]; exact List.filterMap_some

theorem Tidy.latest?_eq (h : a.Tidy) (name : String) :
    a.latest? name = (a.decoded.filter (·.displayName = name)).getLast? := by
  calc a.latest? name = (((a.positionsOf name).map a.property?).getLast?).join := by
        rw [List.getLast?_map, latest?]
        cases (a.positionsOf name).getLast? <;> rfl
    _ = (a.decoded.filter (·.displayName = name)).getLast? := by
        rw [h.map_property?, List.getLast?_map]
        cases (a.decoded.filter (·.displayName = name)).getLast? <;> rfl

theorem Tidy.displayName_latest? (h : a.Tidy) {name : String} {p : Property}
    (hp : a.latest? name = some p) : p.displayName = name := by
  rw [h.latest?_eq] at hp
  simpa using (List.mem_filter.1 (List.mem_of_getLast? hp)).2

theorem Tidy.authoritative_eq (h : a.Tidy) : a.authoritative = a.propertyNames.filterMap a.latest? := by
  rw [authoritative, authoritativePositions, propertyNames, List.filterMap_filterMap, List.filterMap_map]
  refine List.filterMap_congr fun e he => ?_
  show e.positions.getLast?.bind a.property? = (a.positionsOf e.name).getLast?.bind a.property?
  rw [h.positionsOf_eq, h.positions e he]

theorem Tidy.latest?_of_mem (h : a.Tidy) {p : Property} (hp : p ∈ a.authoritative) :
    a.latest? p.displayName = some p := by
  rw [h.authoritative_eq, List.mem_filterMap] at hp
  obtain ⟨name, -, hname⟩ := hp
  rw [h.displayName_latest? hname]
  exact hname

theorem Tidy.displayNames_nodup (h : a.Tidy) : (a.authoritative.map (·.displayName)).Nodup := by
  rw [h.authoritative_eq, List.map_filterMap]
  refine List.Nodup.filterMap (fun name name' other hname hname' => ?_) h.names
  obtain ⟨p, hp, rfl⟩ := Option.map_eq_some_iff.1 hname
  obtain ⟨p', hp', heq⟩ := Option.map_eq_some_iff.1 hname'
  rw [← h.displayName_latest? hp, ← h.displayName_latest? hp', heq]

/-! ## One more attempt -/

theorem Tidy.attempts_push (h : a.Tidy) (p : Property) (name : String) :
    (a.push p).attempts name = a.attempts name ++ if p.displayName = name then [p] else [] := by
  rw [(h.push p).attempts_eq, h.attempts_eq]
  show (a.decoded ++ [p]).filter _ = _
  by_cases hname : p.displayName = name <;> simp [hname]

theorem Tidy.latest?_push (h : a.Tidy) (p : Property) (name : String) :
    (a.push p).latest? name = if p.displayName = name then some p else a.latest? name := by
  rw [(h.push p).latest?_eq, h.latest?_eq]
  show ((a.decoded ++ [p]).filter _).getLast? = _
  by_cases hname : p.displayName = name <;> simp [hname]

/-- The ledger lists the names of the decoded properties, in the order in which they first came up. -/
structure Ordered (a : Analysis) : Prop extends Tidy a where
  order : a.propertyNames = (a.decoded.map (·.displayName)).eraseDups

theorem ordered_of_empty (hdecoded : a.decoded = []) (hledger : a.ledger = []) : a.Ordered where
  toTidy := tidy_of_empty hdecoded hledger
  order := by rw [propertyNames, hledger, hdecoded]; rfl

theorem propertyNames_push (a : Analysis) (p : Property) :
    (a.push p).propertyNames =
      if p.displayName ∈ a.propertyNames then a.propertyNames
      else a.propertyNames ++ [p.displayName] :=
  enterAttempt_names ..

theorem Ordered.push (h : a.Ordered) (p : Property) : (a.push p).Ordered where
  toTidy := h.toTidy.push p
  order := by
    show _ = ((a.decoded ++ [p]).map (·.displayName)).eraseDups
    rw [propertyNames_push, h.order, List.map_append, List.map_singleton, eraseDups_concat]
    simp only [List.mem_eraseDups]

theorem Ordered.pushAll (h : a.Ordered) (ps : List Property) : (ps.foldl Analysis.push a).Ordered := by
  induction ps generalizing a with
  | nil => exact h
  | cons p rest ih => exact ih (h.push p)

theorem decoded_pushAll (a : Analysis) (ps : List Property) :
    (ps.foldl Analysis.push a).decoded = a.decoded ++ ps := by
  induction ps generalizing a with
  | nil => simp
  | cons p rest ih =>
    rw [List.foldl_cons, ih]
    exact List.append_assoc a.decoded [p] rest

theorem Ordered.exists_latest? (h : a.Ordered) {name : String} (hname : name ∈ a.propertyNames) :
    ∃ q, a.latest? name = some q := by
  rw [h.order, List.mem_eraseDups, List.mem_map] at hname
  obtain ⟨p, hp, rfl⟩ := hname
  have hne : a.decoded.filter (·.displayName = p.displayName) ≠ [] :=
    List.ne_nil_of_mem (List.mem_filter.2 ⟨hp, by simp⟩)
  rw [h.latest?_eq]
  exact ⟨_, List.getLast?_eq_some_getLast hne⟩

theorem Ordered.forall₂_authoritative (h : a.Ordered) :
    List.Forall₂ (fun name p => a.latest? name = some p) a.propertyNames a.authoritative := by
  rw [h.authoritative_eq]
  have hall : ∀ name ∈ a.propertyNames, ∃ q, a.latest? name = some q := fun _ => h.exists_latest?
  generalize a.propertyNames = names at hall
  induction names with
  | nil => exact .nil
  | cons name rest ih =>
    obtain ⟨q, hq⟩ := hall name List.mem_cons_self
    rw [List.filterMap_cons_some hq]
    exact .cons hq (ih fun n hn => hall n (List.mem_cons_of_mem _ hn))

/-- A further attempt at a name takes the place of the one that counted; the first one goes to the end. -/
theorem Ordered.authoritative_push (h : a.Ordered) (p : Property) :
    (a.push p).authoritative =
      if p.displayName ∈ a.propertyNames then
        a.authoritative.map fun q => if q.displayName = p.displayName then p else q
      else a.authoritative ++ [p] := by
  rw [(h.push p).authoritative_eq, h.authoritative_eq, propertyNames_push]
  split
  · rw [List.map_filterMap]
    refine List.filterMap_congr fun name hname => ?_
    obtain ⟨q, hq⟩ := h.exists_latest? hname
    have hqname : q.displayName = name := h.displayName_latest? hq
    rw [h.latest?_push, hq, Option.map_some, hqname]
    by_cases hsame : p.displayName = name
    · rw [if_pos hsame, if_pos hsame.symm]
    · rw [if_neg hsame, if_neg (Ne.symm hsame)]
  · rename_i hnew
    have hothers : a.propertyNames.filterMap (a.push p).latest? =
        a.propertyNames.filterMap a.latest? := by
      refine List.filterMap_congr fun name hname => ?_
      have hne : p.displayName ≠ name := fun heq => hnew (by rw [heq]; exact hname)
      rw [h.latest?_push, if_neg hne]
    rw [List.filterMap_append, hothers]
    simp [h.latest?_push]

/-! ## Verdicts -/

theorem flatMap_withAnswer_perm (a : Analysis) : (Answer.all.flatMap a.withAnswer).Perm a.authoritative :=
  flatMap_filter_perm Property.answer Answer.all (by decide) a.authoritative
    fun p _ => by cases p.answer <;> decide

theorem answer_of_mem_withAnswer {answer : Answer} {p : Property} (h : p ∈ a.withAnswer answer) :
    p.answer = answer := by
  rw [withAnswer, List.mem_filter, decide_eq_true_eq] at h
  exact h.2

theorem withAnswer_disjoint (a : Analysis) :
    Answer.all.Pairwise fun x y => (a.withAnswer x).Disjoint (a.withAnswer y) := by
  refine List.Pairwise.imp ?_ (show Answer.all.Pairwise (· ≠ ·) by decide)
  intro x y hne p hx hy
  exact hne ((answer_of_mem_withAnswer hx).symm.trans (answer_of_mem_withAnswer hy))

/-! ## Any sequence of attempts -/

/-- What the accessors show of an analysis agrees with a list of attempts. -/
structure Shows (a : Analysis) (ps : List Property) : Prop where
  decoded : a.decoded = ps
  attempts : ∀ name, a.attempts name = ps.filter (·.displayName = name)
  latest : ∀ name, a.latest? name = (a.attempts name).getLast?
  names : a.propertyNames = (ps.map (·.displayName)).eraseDups
  distinct : a.propertyNames.Nodup
  counting : List.Forall₂ (fun name p => a.latest? name = some p) a.propertyNames a.authoritative
  answers : ∀ answer, ∀ p ∈ a.withAnswer answer, p.answer = answer
  listed : ∀ answer, (a.withAnswer answer).Sublist a.authoritative
  disjoint : Answer.all.Pairwise fun x y => (a.withAnswer x).Disjoint (a.withAnswer y)
  covering : (Answer.all.flatMap a.withAnswer).Perm a.authoritative

theorem Ordered.shows (h : a.Ordered) : a.Shows a.decoded where
  decoded := rfl
  attempts := h.attempts_eq
  latest name := by rw [h.latest?_eq, h.attempts_eq]
  names := h.order
  distinct := h.names
  counting := h.forall₂_authoritative
  answers _ _ := answer_of_mem_withAnswer
  listed _ := List.filter_sublist
  disjoint := a.withAnswer_disjoint
  covering := a.flatMap_withAnswer_perm

/-- An analysis into which attempts were pushed shows them as a plain list of attempts would: those at a
name are the ones with that logical name, the last of them counts, at the place where the name first came
up, and the verdicts split what counts. A further attempt supersedes the one that counted in its place;
what was decoded before can still be read. -/
theorem shows_attempts (id : AnalysisId) (owner : ComponentId) (concrete abstracted : List ComponentId)
    (assumptions : List (String × Nat)) (posts : List PostAnalysis) (ps : List Property) (p : Property) :
    let fresh : Analysis := ⟨id, owner, concrete, abstracted, assumptions, [], [], posts⟩
    let a := ps.foldl Analysis.push fresh
    a.Shows ps ∧
      (a.push p).decoded = a.decoded ++ [p] ∧
      (∀ name, (a.push p).attempts name =
        a.attempts name ++ if p.displayName = name then [p] else []) ∧
      (a.push p).authoritative =
        if p.displayName ∈ a.propertyNames then
          a.authoritative.map fun q => if q.displayName = p.displayName then p else q
        else a.authoritative ++ [p] := by
  intro fresh a
  have hordered : a.Ordered := (ordered_of_empty rfl rfl : fresh.Ordered).pushAll ps
  have hdecoded : a.decoded = ps := decoded_pushAll fresh ps
  refine ⟨?_, rfl, hordered.attempts_push p, hordered.authoritative_push p⟩
  rw [← hdecoded]
  exact hordered.shows

end Analysis

end Verdicts
