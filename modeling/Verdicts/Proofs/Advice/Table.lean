/-
Which advice a component gets. The choice is a table of conditions, read from the top, about the properties
that count in the last analysis of the component, about how often it was analyzed, about the analysis that
checked its modes and about the components that it calls. Main statement: on every model the advice on a
component that was analyzed is what the first row that applies says, followed by the advice to allow more time
exactly if a property that counts is undecided; and one of the two is always there.
-/
import Verdicts.Proofs.Advice.Order

namespace Verdicts

/-! ## Tables -/

/-- A row of a table: the advice given where the condition holds. -/
structure Row where
  condition : Prop
  advice : AdviceKind

/-- `FirstMatch rows advice`: the advice is that of the first row whose condition holds, and there is none
if no condition holds. -/
inductive FirstMatch : List Row → Option AdviceKind → Prop where
  | bottom : FirstMatch [] none
  | hit {row : Row} {rest : List Row} : row.condition → FirstMatch (row :: rest) (some row.advice)
  | skip {row : Row} {rest : List Row} {advice : Option AdviceKind} :
      ¬row.condition → FirstMatch rest advice → FirstMatch (row :: rest) advice

theorem FirstMatch.unique {rows : List Row} {a b : Option AdviceKind} (ha : FirstMatch rows a)
    (hb : FirstMatch rows b) : a = b := by
  induction ha with
  | bottom =>
    cases hb
    rfl
  | hit hrow =>
    cases hb with
    | hit _ => rfl
    | skip hnot _ => exact absurd hrow hnot
  | skip hnot _ ih =>
    cases hb with
    | hit hrow => exact absurd hrow hnot
    | skip _ hrest => exact ih hrest

theorem FirstMatch.of_none {rows : List Row} {advice : Option AdviceKind} (h : FirstMatch rows advice)
    (hnone : advice = none) : ∀ row ∈ rows, ¬row.condition := by
  induction h with
  | bottom => exact fun row hrow => absurd hrow List.not_mem_nil
  | hit _ => cases hnone
  | skip hnot _ ih => exact List.forall_mem_cons.2 ⟨hnot, ih hnone⟩

/-- Of two tables one below the other, the lower one is asked where the upper one is silent. -/
theorem FirstMatch.append {upper lower : List Row} {a b : Option AdviceKind} (ha : FirstMatch upper a)
    (hb : FirstMatch lower b) : FirstMatch (upper ++ lower) (a.or b) := by
  induction ha with
  | bottom => exact hb
  | hit hrow => exact .hit hrow
  | skip hnot _ ih => exact .skip hnot ih

namespace Model

/-! ## The table -/

/-- In the analysis that checked the modes of a component some property is falsified. -/
def ModesOpen (m : Model) (id : ComponentId) : Prop :=
  ∃ a p, m.IsModes id a ∧ a.Answers .falsifiable p

/-- In the last analysis of a component some property is falsified or undecided. -/
def Implicated (m : Model) (id : ComponentId) : Prop :=
  ∃ a p, m.IsLast id a ∧ (a.Answers .falsifiable p ∨ a.Answers .unknown p)

/-- The rows for a component whose last analysis is `last`, where nothing is falsified there. -/
def successRows (m : Model) (id : ComponentId) (last : Analysis) : List Row :=
  let holds := ¬∃ p, last.Answers .falsifiable p
  let decided := ¬∃ p, last.Answers .unknown p
  let count := (m.analysesBy id).length
  [⟨holds ∧ count = 1 ∧ decided, .noActionRequired⟩,
    ⟨holds ∧ 2 ≤ count ∧ m.ModesOpen id, .fixOneModeActive⟩,
    ⟨holds ∧ count = 2 ∧ decided, .noActionRequired⟩,
    ⟨holds ∧ 2 ≤ count ∧ decided, .strengthenSubComponentContract⟩]

/-- The rows for a component whose last analysis is `last`, where something is falsified there. -/
def failureRows (m : Model) (id : ComponentId) (last : Analysis) : List Row :=
  let fails := ∃ p, last.Answers .falsifiable p
  [⟨fails ∧ ∀ p, last.Answers .falsifiable p → p.origin = .assumption,
      .completeSpecificationOrRemoveSubNodes⟩,
    ⟨∃ p, last.Answers .falsifiable p ∧ p.origin = .assumption, .makeWeakerOrFixDefinition⟩,
    ⟨fails ∧ ∃ child ∈ m.childrenOf id, m.Implicated child, .fixSubComponentIssues⟩,
    ⟨fails, .makeAssumptionStrongerOrFixDefinition⟩]

/-- The table for a component whose last analysis is `last`. -/
def decisionTable (m : Model) (id : ComponentId) (last : Analysis) : List Row :=
  m.successRows id last ++ m.failureRows id last

/-! ## What the conditions are read off -/

theorem WellFormed.isEmpty_modes {m : Model} (h : m.WellFormed) (id : ComponentId) :
    (((m.modeAnalysis? id).map (·.falsified)).getD []).isEmpty ↔ ¬m.ModesOpen id := by
  rcases hmodes : m.modeAnalysis? id with _ | a
  · refine ⟨fun _ => ?_, fun _ => rfl⟩
    rintro ⟨a, p, ha, -⟩
    rw [h.modeAnalysis?_eq_some.2 ha] at hmodes
    cases hmodes
  · have ha := h.modeAnalysis?_eq_some.1 hmodes
    refine ((h.tidy ha.mem.1).isEmpty_withAnswer .falsifiable).trans (not_congr ?_)
    constructor
    · rintro ⟨p, hp⟩
      exact ⟨a, p, ha, hp⟩
    · rintro ⟨b, p, hb, hp⟩
      rw [h.modeAnalysis?_eq_some.2 hb] at hmodes
      cases hmodes
      exact ⟨p, hp⟩

theorem isUnresolved_iff {p : Property} :
    p.isUnresolved = true ↔ p.answer = .falsifiable ∨ p.answer = .unknown := by
  rw [Property.isUnresolved]
  cases p.answer <;> simp [Answer.isUnresolved]

theorem WellFormed.unresolved_nil_iff {m : Model} (h : m.WellFormed) {child : ComponentId} {last : Analysis}
    (hlast : m.IsLast child last) :
    last.authoritative.filter Property.isUnresolved = [] ↔ ¬m.Implicated child := by
  have htidy := h.tidy hlast.mem.1
  rw [List.filter_eq_nil_iff]
  constructor
  · rintro hnone ⟨a, p, ha, hp⟩
    obtain rfl := hlast.unique ha
    have hcounts : ∃ i, last.Counts i p ∧ (p.answer = .falsifiable ∨ p.answer = .unknown) := by
      rcases hp with ⟨i, hi, hanswer⟩ | ⟨i, hi, hanswer⟩
      · exact ⟨i, hi, .inl hanswer⟩
      · exact ⟨i, hi, .inr hanswer⟩
    obtain ⟨i, hi, hanswer⟩ := hcounts
    exact hnone p (htidy.mem_authoritative.2 ⟨i, hi⟩) (isUnresolved_iff.2 hanswer)
  · intro hnot p hp hunresolved
    obtain ⟨i, hi⟩ := htidy.mem_authoritative.1 hp
    refine hnot ⟨last, p, hlast, ?_⟩
    exact (isUnresolved_iff.1 hunresolved).imp (fun hanswer => ⟨i, hi, hanswer⟩)
      fun hanswer => ⟨i, hi, hanswer⟩

/-- Where the items are kept that have a property, under names of theirs, the names tell which they are. -/
theorem filterMap_names {α β γ : Type} {f : α → Option (β × γ)} {name : α → β} {q : α → Prop}
    (h : ∀ x, q x ∧ (∃ y, f x = some (name x, y)) ∨ ¬q x ∧ f x = none) (l : List α) :
    ∃ kept : List α, kept.Sublist l ∧ (∀ x, x ∈ kept ↔ x ∈ l ∧ q x) ∧
      (l.filterMap f).map (·.1) = kept.map name := by
  induction l with
  | nil => exact ⟨[], List.Sublist.refl _, by simp, rfl⟩
  | cons x rest ih =>
    obtain ⟨kept, hsub, hmem, hnames⟩ := ih
    rcases h x with ⟨hx, y, hf⟩ | ⟨hx, hf⟩
    · refine ⟨x :: kept, hsub.cons_cons x, fun z => ?_, ?_⟩
      · rw [List.mem_cons, List.mem_cons, hmem, or_and_right]
        exact or_congr_left ⟨fun heq => ⟨heq, heq ▸ hx⟩, fun hz => hz.1⟩
      · rw [List.filterMap_cons_some hf, List.map_cons, List.map_cons, hnames]
    · refine ⟨kept, hsub.cons x, fun z => ?_, ?_⟩
      · rw [hmem, List.mem_cons, or_and_right]
        refine ⟨.inr, fun hz => hz.resolve_left ?_⟩
        rintro ⟨rfl, hq⟩
        exact hx hq
      · rw [List.filterMap_cons_none hf, hnames]

/-- The unresolved callees of a component are those that are implicated, in order. -/
theorem WellFormed.unresolvedChildren_names {m : Model} (h : m.WellFormed) (id : ComponentId) :
    ∃ implicated : List ComponentId, implicated.Sublist (m.childrenOf id) ∧
      (∀ d, d ∈ implicated ↔ d ∈ m.childrenOf id ∧ m.Implicated d) ∧
      (m.unresolvedChildren id).map (·.1) = implicated.map m.nameOf := by
  refine filterMap_names (fun child => ?_) (m.childrenOf id)
  rcases hfound : m.lastAnalysis? child with _ | last
  · refine .inr ⟨?_, rfl⟩
    rintro ⟨a, p, ha, -⟩
    rw [h.lastAnalysis?_eq_some.2 ha] at hfound
    cases hfound
  · have hlast := h.lastAnalysis?_eq_some.1 hfound
    have hnil := h.unresolved_nil_iff hlast
    simp only
    split
    · rename_i hempty
      exact .inr ⟨hnil.1 hempty, rfl⟩
    · rename_i hsome
      exact .inl ⟨not_not.1 (mt hnil.2 hsome), _, rfl⟩

theorem isEmpty_filter_withAnswer {a : Analysis} (h : a.Tidy) (answer : Answer) (q : Property → Prop)
    [DecidablePred q] :
    ((a.withAnswer answer).filter (q ·)).isEmpty ↔ ¬∃ p, a.Answers answer p ∧ q p := by
  rw [List.isEmpty_iff, List.filter_eq_nil_iff, not_exists]
  refine forall_congr' fun p => ?_
  rw [h.mem_withAnswer, decide_eq_true_eq, not_and]

/-! ## The first finding -/

theorem WellFormed.successFinding?_firstMatch {m : Model} (h : m.WellFormed) {id : ComponentId}
    {last : Analysis} (hlast : m.IsLast id last) (hholds : ¬∃ p, last.Answers .falsifiable p) :
    FirstMatch (m.successRows id last) ((m.successFinding? id last).map (·.kind)) := by
  have hdecided : last.unknown.isEmpty ↔ ¬∃ p, last.Answers .unknown p :=
    (h.tidy hlast.mem.1).isEmpty_withAnswer .unknown
  have hmodes := h.isEmpty_modes id
  have hcount : 1 ≤ (m.analysesBy id).length := by
    obtain ⟨earlier, heq⟩ := hlast
    simp [heq]
  rw [successFinding?, h.analysesOf_eq]
  -- the cases are those of the table: each condition that fails skips a row
  by_cases hone : (m.analysesBy id).length = 1
  · rw [if_pos hone]
    by_cases hunknown : last.unknown.isEmpty
    · rw [if_pos hunknown]
      exact .hit ⟨hholds, hone, hdecided.1 hunknown⟩
    · rw [if_neg hunknown]
      -- the other rows are about two analyses or more
      refine .skip (fun ⟨_, _, hnone⟩ => hunknown (hdecided.2 hnone)) ?_
      refine .skip (fun ⟨_, hmany, _⟩ => by omega) ?_
      exact .skip (fun ⟨_, htwo, _⟩ => by omega) (.skip (fun ⟨_, hmany, _⟩ => by omega) .bottom)
  · have hmany : 2 ≤ (m.analysesBy id).length := by omega
    rw [if_neg hone]
    refine .skip (fun ⟨_, hcount, _⟩ => hone hcount) ?_
    by_cases hopen : m.ModesOpen id
    · rw [if_pos (by simpa using mt hmodes.1 (not_not.2 hopen))]
      exact .hit ⟨hholds, hmany, hopen⟩
    · rw [if_neg (by simpa using hmodes.2 hopen)]
      refine .skip (fun ⟨_, _, hfalse⟩ => hopen hfalse) ?_
      by_cases hunknown : last.unknown.isEmpty
      · have hnone := hdecided.1 hunknown
        rw [if_neg (by simpa using hunknown)]
        by_cases htwo : (m.analysesBy id).length = 2
        · rw [if_pos htwo]
          exact .hit ⟨hholds, htwo, hnone⟩
        · rw [if_neg htwo]
          exact .skip (fun ⟨_, hcount, _⟩ => htwo hcount) (.hit ⟨hholds, hmany, hnone⟩)
      · rw [if_pos (by simpa using hunknown)]
        refine .skip (fun ⟨_, _, hnone⟩ => ?_) (.skip (fun ⟨_, _, hnone⟩ => ?_) .bottom)
        · exact hunknown (hdecided.2 hnone)
        · exact hunknown (hdecided.2 hnone)

theorem WellFormed.failureFinding_firstMatch {m : Model} (h : m.WellFormed) {id : ComponentId}
    {last : Analysis} (hlast : m.IsLast id last) (hfails : ∃ p, last.Answers .falsifiable p) :
    FirstMatch (m.failureRows id last) (some (m.failureFinding id last).kind) := by
  have htidy := h.tidy hlast.mem.1
  have hown := isEmpty_filter_withAnswer htidy .falsifiable (·.origin ≠ .assumption)
  have hassumed := isEmpty_filter_withAnswer htidy .falsifiable (·.origin = .assumption)
  obtain ⟨implicated, -, hmem, hnames⟩ := h.unresolvedChildren_names id
  rw [failureFinding]
  split
  · rename_i hnone
    refine .hit ⟨hfails, fun p hp => ?_⟩
    exact not_not.1 fun hother => hown.1 hnone ⟨p, hp, hother⟩
  · rename_i hsome
    refine .skip (fun ⟨_, hall⟩ => hsome (hown.2 fun ⟨p, hp, hother⟩ => hother (hall p hp))) ?_
    split
    · rename_i hassumption
      rw [Bool.not_eq_true', ← Bool.not_eq_true] at hassumption
      exact .hit (not_not.1 (mt hassumed.2 hassumption))
    · rename_i hassumption
      rw [Bool.not_eq_true', Bool.not_eq_false] at hassumption
      refine .skip (hassumed.1 hassumption) ?_
      split
      · rename_i hnil
        rw [hnil, List.map_nil, eq_comm, List.map_eq_nil_iff] at hnames
        subst hnames
        refine .skip (fun ⟨_, child, hchild, himplicated⟩ => ?_) (.hit hfails)
        exact absurd ((hmem child).2 ⟨hchild, himplicated⟩) List.not_mem_nil
      · rename_i hcons
        obtain ⟨child, hchild⟩ : ∃ child, child ∈ implicated := by
          refine List.exists_mem_of_ne_nil _ fun hnil => hcons ?_
          rwa [hnil, List.map_nil, List.map_eq_nil_iff] at hnames
        exact .hit ⟨hfails, child, (hmem child).1 hchild⟩

/-- The first finding is the one that the table asks for. -/
theorem WellFormed.primaryFinding?_firstMatch {m : Model} (h : m.WellFormed) {id : ComponentId}
    {last : Analysis} (hlast : m.IsLast id last) :
    FirstMatch (m.decisionTable id last) ((m.primaryFinding? id last).map (·.kind)) := by
  have hholds := (h.tidy hlast.mem.1).isEmpty_withAnswer .falsifiable
  rw [primaryFinding?, decisionTable]
  split
  · rename_i hnone
    have hnot := hholds.1 hnone
    have hfailure : FirstMatch (m.failureRows id last) none := by
      refine .skip (fun ⟨hfails, _⟩ => hnot hfails) ?_
      refine .skip (fun ⟨p, hp, _⟩ => hnot ⟨p, hp⟩) ?_
      exact .skip (fun ⟨hfails, _⟩ => hnot hfails) (.skip hnot .bottom)
    have hmatch := (h.successFinding?_firstMatch hlast hnot).append hfailure
    rwa [Option.or_none] at hmatch
  · rename_i hsome
    have hfails := not_not.1 (mt hholds.2 hsome)
    have hsuccess : FirstMatch (m.successRows id last) none := by
      refine .skip (fun ⟨hnot, _⟩ => hnot hfails) (.skip (fun ⟨hnot, _⟩ => hnot hfails) ?_)
      exact .skip (fun ⟨hnot, _⟩ => hnot hfails) (.skip (fun ⟨hnot, _⟩ => hnot hfails) .bottom)
    exact hsuccess.append (h.failureFinding_firstMatch hlast hfails)

/-- Where nothing that counts is undecided, some row applies. -/
theorem decisionTable_covers {m : Model} {id : ComponentId} {last : Analysis} (hlast : m.IsLast id last)
    (hdecided : ¬∃ p, last.Answers .unknown p) : ∃ row ∈ m.decisionTable id last, row.condition := by
  obtain ⟨earlier, hby⟩ := hlast
  have hcount : (m.analysesBy id).length = earlier.length + 1 := by simp [hby]
  by_cases hfails : ∃ p, last.Answers .falsifiable p
  · have hrow : ⟨_, .makeAssumptionStrongerOrFixDefinition⟩ ∈ m.failureRows id last :=
      List.mem_of_getLast? rfl
    exact ⟨_, List.mem_append_right _ hrow, hfails⟩
  · by_cases hone : (m.analysesBy id).length = 1
    · exact ⟨_, List.mem_append_left _ (List.mem_cons_self ..), hfails, hone, hdecided⟩
    · have hrow : ⟨_, .strengthenSubComponentContract⟩ ∈ m.successRows id last := List.mem_of_getLast? rfl
      exact ⟨_, List.mem_append_left _ hrow, hfails, by omega, hdecided⟩

/-- A first finding about subcomponents is about the unresolved callees. -/
theorem subjects_of_fixSubComponents {m : Model} {id : ComponentId} {last : Analysis} {f : Finding}
    (h : m.primaryFinding? id last = some f) (hkind : f.kind = .fixSubComponentIssues) :
    f.subjects = (m.unresolvedChildren id).map (·.1) := by
  rw [primaryFinding?] at h
  split at h
  · -- no finding about a success is about subcomponents
    rw [successFinding?] at h
    (repeat' split at h) <;> cases h <;> cases hkind
  · cases h
    revert hkind
    rw [failureFinding]
    split
    · exact fun hkind => nomatch hkind
    · split
      · exact fun hkind => nomatch hkind
      · split
        · exact fun hkind => nomatch hkind
        · exact fun _ => rfl

/-! ## The advice -/

/-- The advice that the first finding about a component leads to. -/
def primaryAdvice (m : Model) (settings : DisplaySettings) (id : ComponentId) (last : Analysis) :
    Option Suggestion :=
  (m.primaryFinding? id last).map (·.suggest settings (m.nameOf id))

/-- The advice that undecided properties of a component lead to. -/
def timeoutAdvice (m : Model) (settings : DisplaySettings) (id : ComponentId) (last : Analysis) :
    Option Suggestion :=
  if last.unknown.isEmpty then none
  else some ((Finding.increaseTimeout last.undecided).suggest settings (m.nameOf id))

theorem WellFormed.adviseOn_of_never {m : Model} (h : m.WellFormed) (settings : DisplaySettings)
    {id : ComponentId} (hnever : m.analysesBy id = []) : m.adviseOn settings id = [] := by
  have hlast : m.lastAnalysis? id = none := by
    refine Option.eq_none_iff_forall_ne_some.2 fun a ha => ?_
    obtain ⟨earlier, hby⟩ := h.lastAnalysis?_eq_some.1 ha
    simp [hnever] at hby
  rw [adviseOn, findings, hlast, List.map_nil]

theorem WellFormed.adviseOn_of_last {m : Model} (h : m.WellFormed) (settings : DisplaySettings)
    {id : ComponentId} {last : Analysis} (hlast : m.IsLast id last) :
    m.adviseOn settings id =
      (m.primaryAdvice settings id last).toList ++ (m.timeoutAdvice settings id last).toList := by
  rw [adviseOn, findings, h.lastAnalysis?_eq_some.2 hlast, primaryAdvice, timeoutAdvice]
  simp only [List.map_append, Option.toList_map]
  split
  · rfl
  · rfl

/-- The advice on a component that was analyzed is the first one and the one that asks for more time. -/
theorem WellFormed.filter_advise_of_last {m : Model} (h : m.WellFormed) (settings : DisplaySettings) {c : Component}
    (hc : c ∈ m.components) {last : Analysis} (hlast : m.IsLast c.id last) :
    (m.freeze.advise settings).filter (·.component = c.name) =
      (m.primaryAdvice settings c.id last).toList ++ (m.timeoutAdvice settings c.id last).toList :=
  (h.filter_advise settings hc).trans (h.adviseOn_of_last settings hlast)

/-- The first advice is the one that the table asks for. -/
theorem WellFormed.primaryAdvice_firstMatch {m : Model} (h : m.WellFormed) (settings : DisplaySettings)
    {id : ComponentId} {last : Analysis} (hlast : m.IsLast id last) :
    FirstMatch (m.decisionTable id last) ((m.primaryAdvice settings id last).map (·.kind)) := by
  rw [primaryAdvice, Option.map_map]
  exact h.primaryFinding?_firstMatch hlast

/-- Advice to fix subcomponents is about the callees that are implicated. -/
theorem WellFormed.subjects_of_primaryAdvice {m : Model} (h : m.WellFormed) {settings : DisplaySettings}
    {id : ComponentId} {last : Analysis} {s : Suggestion} (hs : s ∈ m.primaryAdvice settings id last)
    (hkind : s.kind = .fixSubComponentIssues) :
    ∃ implicated : List ComponentId, implicated.Sublist (m.childrenOf id) ∧
      (∀ d, d ∈ implicated ↔ d ∈ m.childrenOf id ∧ m.Implicated d) ∧
      s.subjects = implicated.map m.nameOf := by
  obtain ⟨f, hf, rfl⟩ := Option.map_eq_some_iff.1 hs
  obtain ⟨implicated, hsub, hmem, hnames⟩ := h.unresolvedChildren_names id
  exact ⟨implicated, hsub, hmem, (subjects_of_fixSubComponents hf hkind).trans hnames⟩

theorem kind_of_timeoutAdvice {m : Model} {settings : DisplaySettings} {id : ComponentId} {last : Analysis}
    {s : Suggestion} (hs : s ∈ m.timeoutAdvice settings id last) : s.kind = .increaseTimeout := by
  rw [timeoutAdvice] at hs
  split at hs
  · cases hs
  · cases hs
    rfl

/-- There is advice to allow more time exactly where a property that counts is undecided. -/
theorem WellFormed.timeoutAdvice_isSome {m : Model} (h : m.WellFormed) (settings : DisplaySettings)
    {id : ComponentId} {last : Analysis} (hlast : m.IsLast id last) :
    (m.timeoutAdvice settings id last).isSome ↔ ∃ p, last.Answers .unknown p := by
  have hunknown := (h.tidy hlast.mem.1).isEmpty_withAnswer .unknown
  rw [timeoutAdvice]
  split
  · rename_i hnone
    exact ⟨fun hsome => (by cases hsome), fun hexists => absurd hexists (hunknown.1 hnone)⟩
  · rename_i hsome
    exact ⟨fun _ => not_not.1 (mt hunknown.2 hsome), fun _ => rfl⟩

/-- A component that was analyzed is advised on. -/
theorem WellFormed.adviseOn_ne_nil {m : Model} (h : m.WellFormed) (settings : DisplaySettings)
    {id : ComponentId} {last : Analysis} (hlast : m.IsLast id last) : m.adviseOn settings id ≠ [] := by
  intro hnil
  rw [h.adviseOn_of_last settings hlast, List.append_eq_nil_iff, Option.toList_eq_nil_iff,
    Option.toList_eq_nil_iff] at hnil
  obtain ⟨hprimary, htimeout⟩ := hnil
  have hdecided : ¬∃ p, last.Answers .unknown p := by
    rw [← h.timeoutAdvice_isSome settings hlast, htimeout]
    exact Bool.false_ne_true
  -- nothing is undecided, so some row applies; but no row does, as there is no first advice
  obtain ⟨row, hrow, hcondition⟩ := decisionTable_covers hlast hdecided
  exact (h.primaryAdvice_firstMatch settings hlast).of_none (by rw [hprimary]; rfl) row hrow hcondition

/-- The advice on every model that changes have made: all of it is on components of the model; on a
component that was never analyzed there is none; and on any other there is some, which is what the first
row of the table says that applies, if one does, and behind it the advice to allow more time, if and only if
a property that counts in the last analysis is undecided. Advice to fix subcomponents names those callees, and
only those, in whose last analysis a property that counts is falsified or undecided. -/
theorem advise_decision_table (changes : List Change) (settings : DisplaySettings) :
    let m := ofChanges changes
    (∀ s ∈ m.freeze.advise settings, ∃ c ∈ m.components, s.component = c.name) ∧
      ∀ c ∈ m.components,
        let emitted := (m.freeze.advise settings).filter (·.component = c.name)
        m.analysesBy c.id = [] ∧ emitted = [] ∨
          ∃ last, m.IsLast c.id last ∧ emitted ≠ [] ∧
            ∃ primary addendum : Option Suggestion, emitted = primary.toList ++ addendum.toList ∧
              (∀ advice, FirstMatch (m.decisionTable c.id last) advice ↔ advice = primary.map (·.kind)) ∧
              (∀ s ∈ primary, s.kind = .fixSubComponentIssues →
                ∃ implicated : List ComponentId, implicated.Sublist (m.childrenOf c.id) ∧
                  (∀ d, d ∈ implicated ↔ d ∈ m.childrenOf c.id ∧ m.Implicated d) ∧
                  s.subjects = implicated.map m.nameOf) ∧
              (∀ s ∈ addendum, s.kind = .increaseTimeout) ∧
              (addendum.isSome ↔ ∃ p, last.Answers .unknown p) := by
  intro m
  have h : m.WellFormed := wellFormed_ofChanges changes
  constructor
  · intro s hs
    obtain ⟨id, hid, hs⟩ := List.mem_flatMap.1 hs
    obtain ⟨c, hc, rfl⟩ := List.mem_map.1 (h.mem_bottomUp.1 hid)
    exact ⟨c, hc, (component_of_mem_adviseOn hs).trans (h.nameOf_id hc)⟩
  intro c hc emitted
  have hemitted : emitted = m.adviseOn settings c.id := h.filter_advise settings hc
  rw [hemitted]
  rcases List.eq_nil_or_concat' (m.analysesBy c.id) with hnever | ⟨earlier, last, hby⟩
  · exact .inl ⟨hnever, h.adviseOn_of_never settings hnever⟩
  · have hlast : m.IsLast c.id last := ⟨earlier, hby⟩
    refine .inr ⟨last, hlast, h.adviseOn_ne_nil settings hlast, m.primaryAdvice settings c.id last,
      m.timeoutAdvice settings c.id last, h.adviseOn_of_last settings hlast, fun advice => ⟨?_, ?_⟩,
      fun s hs => h.subjects_of_primaryAdvice hs, fun s hs => kind_of_timeoutAdvice hs,
      h.timeoutAdvice_isSome settings hlast⟩
    · exact fun hmatch => hmatch.unique (h.primaryAdvice_firstMatch settings hlast)
    · rintro rfl
      exact h.primaryAdvice_firstMatch settings hlast

end Model

end Verdicts
