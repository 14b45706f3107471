/-
What the evidence of advice tells of failures. Properties are put into groups by the component that declares them:
`Splits` says that the groups make up the properties, and in which order. `Tells` lists, for each kind of advice on a
failure, the entries of the evidence that describe properties as violated, and the lines that they make. Main statement:
where something is falsified in the last analysis of a component, these entries together describe every property that
is falsified there, and none twice (`failure_evidence`).
-/
import Verdicts.Proofs.Advice.Found
import Verdicts.Proofs.Advice.Wording
import Verdicts.Proofs.Result.Standing

namespace Verdicts

/-! ## Properties by scope -/

/-- The properties that one component declares, in order. -/
def declaredBy (ps : List Property) (scope : String) : ScopeGroup := ⟨scope, ps.filter (·.scope = scope)⟩

/-- `Splits ps groups`: the groups are the properties by the component that declares them. The components are in the
order in which they first come up, none of them twice, and each has its properties in order. -/
structure Splits (ps : List Property) (groups : List ScopeGroup) : Prop where
  scopes : groups.map (·.scope) = (ps.map (·.scope)).eraseDups
  distinct : (groups.map (·.scope)).Nodup
  members : ∀ g ∈ groups, g.members = ps.filter (·.scope = g.scope)
  nonempty : ∀ g ∈ groups, g.members ≠ []
  covering : (groups.flatMap (·.members)).Perm ps

@[simp] theorem declaredBy_scope (ps : List Property) (scope : String) : (declaredBy ps scope).scope = scope := rfl

theorem declaredBy_concat (ps : List Property) (p : Property) (scope : String) :
    declaredBy (ps ++ [p]) scope = ⟨scope, ps.filter (·.scope = scope) ++ if p.scope = scope then [p] else []⟩ := by
  rw [declaredBy, List.filter_append]
  by_cases h : p.scope = scope <;> simp [h]

/-- A property is put into the group of its scope, which is a new one behind the others if there is none. -/
theorem enterScope_declaredBy {ps : List Property} {p : Property} {scopes : List String} (hnodup : scopes.Nodup)
    (hnew : p.scope ∉ scopes → ps.filter (·.scope = p.scope) = []) :
    enterScope p (scopes.map (declaredBy ps)) =
      (if p.scope ∈ scopes then scopes else scopes ++ [p.scope]).map (declaredBy (ps ++ [p])) := by
  induction scopes with
  | nil =>
    have hnone := hnew List.not_mem_nil
    simp [enterScope, declaredBy_concat, hnone]
  | cons scope rest ih =>
    obtain ⟨hscope, hrest⟩ := List.nodup_cons.1 hnodup
    rw [List.map_cons, enterScope, declaredBy_scope]
    by_cases heq : scope = p.scope
    · -- the other groups are of other scopes
      subst heq
      have hothers : rest.map (declaredBy (ps ++ [p])) = rest.map (declaredBy ps) := by
        refine List.map_congr_left fun other hother => ?_
        have hne : p.scope ≠ other := fun heq => hscope (heq ▸ hother)
        rw [declaredBy_concat, if_neg hne, List.append_nil, declaredBy]
      simp [declaredBy, hothers]
    · have hsame : declaredBy (ps ++ [p]) scope = declaredBy ps scope := by
        rw [declaredBy_concat, if_neg (Ne.symm heq), List.append_nil, declaredBy]
      have hne : p.scope ≠ scope := Ne.symm heq
      rw [if_neg heq, ih hrest fun hnot => hnew (by simp [hne, hnot])]
      by_cases hmem : p.scope ∈ rest
      · simp [hmem, hsame]
      · simp [hmem, hne, hsame]

theorem groupByScope_eq (ps : List Property) :
    groupByScope ps = (ps.map (·.scope)).eraseDups.map (declaredBy ps) := by
  induction ps using List.reverseRecOn with
  | nil => rfl
  | append_singleton ps p ih =>
    have hnew : p.scope ∉ (ps.map (·.scope)).eraseDups → ps.filter (·.scope = p.scope) = [] := by
      intro hnot
      refine List.filter_eq_nil_iff.2 fun q hq heq => hnot ?_
      rw [List.mem_eraseDups, ← of_decide_eq_true heq]
      exact List.mem_map_of_mem hq
    rw [groupByScope, List.foldl_concat, ← groupByScope, ih, enterScope_declaredBy (nodup_eraseDups _) hnew,
      List.map_append, List.map_singleton, eraseDups_concat]
    simp only [List.mem_eraseDups]

theorem splits_groupByScope (ps : List Property) : Splits ps (groupByScope ps) := by
  have hscopes : (groupByScope ps).map (·.scope) = (ps.map (·.scope)).eraseDups := by
    rw [groupByScope_eq, List.map_map]
    exact List.map_id _
  have hdistinct : ((groupByScope ps).map (·.scope)).Nodup := hscopes ▸ nodup_eraseDups _
  have hmembers : ∀ g ∈ groupByScope ps, g.members = ps.filter (·.scope = g.scope) := by
    intro g hg
    rw [groupByScope_eq] at hg
    obtain ⟨scope, -, rfl⟩ := List.mem_map.1 hg
    rfl
  refine ⟨hscopes, hdistinct, hmembers, fun g hg => ?_, ?_⟩
  · have hscope : g.scope ∈ (ps.map (·.scope)).eraseDups := hscopes ▸ List.mem_map_of_mem hg
    obtain ⟨p, hp, heq⟩ := List.mem_map.1 (List.mem_eraseDups.1 hscope)
    rw [hmembers g hg]
    exact List.ne_nil_of_mem (List.mem_filter.2 ⟨hp, decide_eq_true heq⟩)
  · rw [groupByScope_eq, List.flatMap_map]
    exact flatMap_filter_perm Property.scope _ (nodup_eraseDups _) ps fun p hp =>
      List.mem_eraseDups.2 (List.mem_map_of_mem hp)

/-! ## Evidence -/

/-- `Tells settings n failed s entries`: the evidence of a suggestion on the component that is shown as `n` describes
properties in these entries, as violated by the component. `failed` are the properties that failed. -/
inductive Tells (settings : DisplaySettings) (n : String) (failed : List Property) (s : Suggestion) :
    List (List Property) → Prop
  /-- Assumptions alone failed. Each component that declares some has an entry. -/
  | assumptions {groups : List ScopeGroup} {lines : List String} {closing : String} :
      s.kind = .completeSpecificationOrRemoveSubNodes → (∀ p ∈ failed, p.origin = .assumption) →
      Splits failed groups → List.Forall₂ (TellsGroup settings s!"not satisfied by {n}") groups lines →
      s.explanations = lines ++ [closing] →
      closing ∈ [s!"Otherwise, the contract of {n} is satisfied.",
        s!"In addition, the contract of {n} could not be fully proven."] →
      Tells settings n failed s (groups.map (·.members))
  /-- Assumptions failed and so did others, which have one entry more. -/
  | mixed {groups : List ScopeGroup} {lines : List String} {own : List Property} {text : String} :
      s.kind = .makeWeakerOrFixDefinition → Splits (failed.filter (·.origin = .assumption)) groups →
      List.Forall₂ (TellsGroup settings s!"violated in {n}") groups lines →
      own = failed.filter (·.origin ≠ .assumption) → own ≠ [] → Describes settings own text →
      s.explanations = lines ++ [s!"{n} also violates its own properties: {text}."] →
      Tells settings n failed s (groups.map (·.members) ++ [own])
  /-- No assumption failed, and nothing is open in a subcomponent. -/
  | own {text : String} :
      s.kind = .makeAssumptionStrongerOrFixDefinition → (∀ p ∈ failed, p.origin ≠ .assumption) →
      Describes settings failed text →
      s.explanations = [s!"{n} violates: {text}.", s!"Every subcomponent of {n} satisfies its contract."] →
      Tells settings n failed s [failed]
  /-- No assumption failed. What is open in subcomponents is told of behind what failed. -/
  | subcomponents {implicated : List (String × List Property)} {lines : List String} {text : String} :
      s.kind = .fixSubComponentIssues → (∀ p ∈ failed, p.origin ≠ .assumption) →
      Describes settings failed text → List.Forall₂ (TellsChild settings) implicated lines →
      s.explanations = s!"{n} violates: {text}." :: lines →
      Tells settings n failed s [failed]

/-- The entries describe all that failed. -/
theorem Tells.perm {settings : DisplaySettings} {n : String} {failed : List Property} {s : Suggestion}
    {entries : List (List Property)} (h : Tells settings n failed s entries) : entries.flatten.Perm failed := by
  cases h with
  | assumptions _ _ hsplits _ _ _ =>
    rw [← List.flatMap_def]
    exact hsplits.covering
  | mixed _ hsplits _ hown _ _ _ =>
    have hothers : failed.filter (fun p => !decide (p.origin = .assumption)) =
        failed.filter (·.origin ≠ .assumption) := List.filter_congr fun p _ => by simp
    rw [List.flatten_concat, ← List.flatMap_def, hown, ← hothers]
    exact (hsplits.covering.append_right _).trans (List.filter_append_perm _ failed)
  | own _ _ _ _ => simp
  | subcomponents _ _ _ _ _ => simp

theorem Tells.ne_nil {settings : DisplaySettings} {n : String} {failed : List Property} {s : Suggestion}
    {entries : List (List Property)} (h : Tells settings n failed s entries) (hfailed : failed ≠ []) :
    ∀ entry ∈ entries, entry ≠ [] := by
  cases h with
  | assumptions _ _ hsplits _ _ _ => simpa using hsplits.nonempty
  | mixed _ hsplits _ _ hown _ _ =>
    intro entry hentry
    rcases List.mem_append.1 hentry with hgroup | hlast
    · obtain ⟨g, hg, rfl⟩ := List.mem_map.1 hgroup
      exact hsplits.nonempty g hg
    · exact List.mem_singleton.1 hlast ▸ hown
  | own _ _ _ _ => simpa using hfailed
  | subcomponents _ _ _ _ _ => simpa using hfailed

/-- Each group has its line, where all that was put into groups is open. -/
theorem Splits.tellsGroups {ps : List Property} {groups : List ScopeGroup} (h : Splits ps groups)
    (hopen : ∀ p ∈ ps, p.answer = .falsifiable ∨ p.answer = .unknown) (settings : DisplaySettings)
    (verdict : String) :
    List.Forall₂ (TellsGroup settings verdict) groups (groups.map (Evidence.group settings verdict)) := by
  rw [List.forall₂_map_right_iff, List.forall₂_same]
  intro g hg
  refine Evidence.tellsGroup settings verdict (h.nonempty g hg) fun p hp => hopen p ?_
  rw [h.members g hg] at hp
  exact List.mem_of_mem_filter hp

namespace Model

/-- What is open in the subcomponents that have something open has its lines. -/
theorem tellsChildren_unresolved (m : Model) (id : ComponentId) (settings : DisplaySettings) :
    List.Forall₂ (TellsChild settings) (m.unresolvedChildren id)
      ((m.unresolvedChildren id).map fun child => Evidence.child settings child.1 child.2) := by
  rw [List.forall₂_map_right_iff, List.forall₂_same]
  intro child hchild
  obtain ⟨callee, -, heq⟩ := List.mem_filterMap.1 hchild
  split at heq
  · cases heq
  · split at heq
    · cases heq
    · rename_i hne
      cases heq
      exact Evidence.tellsChild settings hne fun p hp => isUnresolved_iff.1 (List.mem_filter.1 hp).2

/-- A finding about a failure tells of it, under whatever name the component has. -/
theorem Found.tells {m : Model} {id : ComponentId} {last : Analysis} {f : Finding} (h : Found m id last f)
    (hfails : last.falsified ≠ []) (settings : DisplaySettings) (name : String) :
    ∃ entries, Tells settings (settings.name name) last.falsified (f.suggest settings name) entries := by
  have hopen : ∀ p ∈ last.falsified, p.answer = .falsifiable ∨ p.answer = .unknown :=
    fun p hp => .inl (Analysis.answer_of_mem_withAnswer hp)
  have hdescribes := describes_describe settings hfails hopen
  cases h with
  | once hholds _ _ => exact absurd hholds hfails
  | twice hholds _ _ _ => exact absurd hholds hfails
  | modes hholds _ _ => exact absurd hholds hfails
  | refined hholds _ _ _ => exact absurd hholds hfails
  | assumed _ hall =>
    have hassumed : last.falsified.filter (·.origin = .assumption) = last.falsified :=
      List.filter_eq_self.2 fun p hp => decide_eq_true (hall p hp)
    rw [hassumed]
    have hsplits := splits_groupByScope last.falsified
    refine ⟨_, .assumptions rfl hall hsplits (hsplits.tellsGroups hopen settings _) rfl ?_⟩
    cases last.ownContractHolds (m.nameOf id) <;> simp
  | mixed hother _ =>
    have hown : last.falsified.filter (·.origin ≠ .assumption) ≠ [] := by
      simpa [List.filter_eq_nil_iff] using hother
    have hsplits := splits_groupByScope (last.falsified.filter (·.origin = .assumption))
    have hlines := hsplits.tellsGroups (fun p hp => hopen p (List.mem_of_mem_filter hp)) settings
      s!"violated in {settings.name name}"
    have hothers := describes_describe settings hown fun p hp => hopen p (List.mem_of_mem_filter hp)
    refine ⟨_, .mixed rfl hsplits hlines rfl hown hothers ?_⟩
    simp only [Finding.suggest, Finding.explanations, if_neg (mt List.isEmpty_iff.1 hown)]
  | own _ hnone _ => exact ⟨_, .own rfl hnone hdescribes rfl⟩
  | children _ hnone _ =>
    exact ⟨_, .subcomponents rfl hnone hdescribes (m.tellsChildren_unresolved id settings) rfl⟩

/-- On every model that changes have made: if something is falsified in the last analysis of a component, the first
suggestion on the component is not the one to allow more time, and the entries of its evidence tell of what failed,
as `Tells` says for its kind. Together they describe the properties that are falsified in that analysis, each once,
and no entry is empty. These properties are in the order in which their names were first decoded. -/
theorem failure_evidence (changes : List Change) (settings : DisplaySettings) :
    let m := ofChanges changes
    ∀ c ∈ m.components, ∀ last, m.IsLast c.id last → last.falsified ≠ [] →
      last.falsified.map (·.displayName) = namesWith .falsifiable last.decoded ∧
        ∃ s rest entries, (m.freeze.advise settings).filter (·.component = c.name) = s :: rest ∧
          (∀ t ∈ rest, t.kind = .increaseTimeout) ∧
          Tells settings (settings.name c.name) last.falsified s entries ∧
          entries.flatten.Perm last.falsified ∧ (entries.flatten.map (·.displayName)).Nodup ∧
          ∀ entry ∈ entries, entry ≠ [] := by
  intro m c hc last hlast hfails
  have h : m.WellFormed := wellFormed_ofChanges changes
  have hordered : last.Ordered := ordered_ofChanges changes last hlast.mem.1
  refine ⟨hordered.names_withAnswer .falsifiable, ?_⟩
  have hprimary : m.primaryAdvice settings c.id last = some ((m.failureFinding c.id last).suggest settings c.name) := by
    rw [primaryAdvice, primaryFinding?, if_neg (mt List.isEmpty_iff.1 hfails), Option.map_some, h.nameOf_id hc]
  have hemitted : (m.freeze.advise settings).filter (·.component = c.name) =
      (m.failureFinding c.id last).suggest settings c.name :: (m.timeoutAdvice settings c.id last).toList := by
    rw [h.filter_advise_of_last settings hc hlast, hprimary]
    rfl
  obtain ⟨entries, htells⟩ := (found_failure hfails).tells hfails settings c.name
  refine ⟨_, _, entries, hemitted, fun t ht => kind_of_timeoutAdvice (Option.mem_toList.1 ht), htells, htells.perm, ?_,
    htells.ne_nil hfails⟩
  exact (htells.perm.map _).nodup_iff.2 (hordered.nodup_names_withAnswer .falsifiable)

/-- An analysis in which assumptions of two subcomponents fail, in turn with a property of the component itself. The
first of them is undecided at first. -/
def mixedFailures : List Change :=
  [.addAnalysis "Top" { abstracted := ["C", "D"] },
    .addProperty ⟨0⟩ { name := "a[1]", scope := "C", origin := .assumption, answer := .unknown },
    .addProperty ⟨0⟩ { name := "b", scope := "D", origin := .assumption, answer := .falsifiable },
    .addProperty ⟨0⟩ { name := "g", scope := "Top", origin := .guarantee, answer := .falsifiable },
    .addProperty ⟨0⟩ { name := "a[2]", scope := "C", origin := .assumption, answer := .falsifiable },
    .addProperty ⟨0⟩ { name := "e", scope := "C", origin := .assumption, answer := .falsifiable }]

theorem failure_evidence_mixed :
    let m := ofChanges mixedFailures
    ∃ c ∈ m.components, ∃ last, m.IsLast c.id last ∧ last.falsified ≠ [] ∧
      namesWith .falsifiable last.decoded = ["a", "b", "g", "e"] ∧
      ∃ s rest entries, (m.freeze.advise {}).filter (·.component = c.name) = s :: rest ∧
        Tells {} "[Top]" last.falsified s entries ∧ entries.flatten.Perm last.falsified ∧
        s.explanations = ["The assumptions of [C] are violated in [Top]: [a] (falsifiable), [e] (falsifiable).",
          "The assumptions of [D] are violated in [Top]: [b] (falsifiable).",
          "[Top] also violates its own properties: [g] (falsifiable)."] := by
  intro m
  have h : m.WellFormed := wellFormed_ofChanges mixedFailures
  obtain ⟨c, hc, hname, ⟨last, hfound, hnames⟩, hfirst⟩ : ∃ c ∈ m.components, c.name = "Top" ∧
      (∃ last ∈ m.lastAnalysis? c.id, last.falsified.map (·.displayName) = ["a", "b", "g", "e"]) ∧
      (((m.freeze.advise {}).filter (·.component = c.name)).head?.map (·.explanations)) =
        some ["The assumptions of [C] are violated in [Top]: [a] (falsifiable), [e] (falsifiable).",
          "The assumptions of [D] are violated in [Top]: [b] (falsifiable).",
          "[Top] also violates its own properties: [g] (falsifiable)."] := by
    decide +kernel
  have hlast := h.lastAnalysis?_eq_some.1 hfound
  have hfails : last.falsified ≠ [] := by
    intro hnil
    rw [hnil] at hnames
    cases hnames
  obtain ⟨horder, s, rest, entries, hemitted, -, htells, hperm, -⟩ :=
    failure_evidence mixedFailures {} c hc last hlast hfails
  rw [hname] at htells
  rw [hemitted] at hfirst
  exact ⟨c, hc, last, hlast, hfails, horder.symm.trans hnames, s, rest, entries, hemitted, htells, hperm,
    Option.some.inj hfirst⟩

end Model

end Verdicts
