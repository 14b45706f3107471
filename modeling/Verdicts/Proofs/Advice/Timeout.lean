/-
What advice to allow more time says. There is a line for each undecided property, and behind it a hint if the attempt
before the one that counts failed in an inductive step. `TellsUndecided` reads these lines off the attempts at one
logical name. Main statement: the advice is there exactly if a property that counts is undecided, and its evidence
consists of these lines, name by name (`timeout_advice`).
-/
import Verdicts.Proofs.Advice.Found
import Verdicts.Proofs.Advice.Wording
import Verdicts.Proofs.Result.Standing

namespace Verdicts

/-! ## The lines about a name -/

/-- What is said of the time that an attempt took. -/
def timeSpent : Option Runtime → String
  | some runtime => if runtime.timedOut then s!" before timing out after {runtime.seconds.fixedText 1}s" else ""
  | none => ""

/-- The line about an undecided property. -/
def undecidedLine (shown : String) (runtime : Option Runtime) : String :=
  s!"The engine could not decide {shown}{timeSpent runtime}."

/-- `TellsUndecided settings ps name lines`: these are the lines about a logical name whose last attempt among `ps` is
undecided. -/
inductive TellsUndecided (settings : DisplaySettings) (ps : List Property) (name : String) : List String → Prop
  /-- There is no attempt before the last, or it has no trace of a failed inductive step. -/
  | plain {earlier : List Property} {last : Property} :
      attemptsAt ps name = earlier ++ [last] → last.answer = .unknown →
      (∀ previous ∈ earlier.getLast?, ∀ t ∈ previous.trace, t.kind ≠ .step) →
      TellsUndecided settings ps name [undecidedLine (settings.name name) last.runtime]
  /-- The attempt before the last has such a trace. The hint gives its depth and the length of the trace. -/
  | hinted {earlier : List Property} {previous last : Property} {t : Trace} :
      attemptsAt ps name = earlier ++ [last] → last.answer = .unknown →
      earlier.getLast? = some previous → previous.trace = some t → t.kind = .step →
      TellsUndecided settings ps name [undecidedLine (settings.name name) last.runtime,
        hintLine (settings.name name) t.length previous.k]

/-- The attempts at a name leave no choice of the lines. -/
theorem TellsUndecided.unique {settings : DisplaySettings} {ps : List Property} {name : String}
    {lines lines' : List String} (h : TellsUndecided settings ps name lines)
    (h' : TellsUndecided settings ps name lines') : lines = lines' := by
  cases h with
  | plain hattempts _ hnone =>
    cases h' with
    | plain hattempts' _ _ =>
      obtain ⟨-, hlast⟩ := List.append_inj' (hattempts.symm.trans hattempts') rfl
      cases hlast
      rfl
    | hinted hattempts' _ hprevious htrace hkind =>
      obtain ⟨rfl, -⟩ := List.append_inj' (hattempts.symm.trans hattempts') rfl
      exact absurd hkind (hnone _ hprevious _ htrace)
  | hinted hattempts _ hprevious htrace hkind =>
    cases h' with
    | plain hattempts' _ hnone =>
      obtain ⟨rfl, -⟩ := List.append_inj' (hattempts.symm.trans hattempts') rfl
      exact absurd hkind (hnone _ hprevious _ htrace)
    | hinted hattempts' _ hprevious' htrace' _ =>
      obtain ⟨rfl, hlast⟩ := List.append_inj' (hattempts.symm.trans hattempts') rfl
      cases hlast
      obtain rfl := Option.some.inj (hprevious.symm.trans hprevious')
      obtain rfl := Option.some.inj (htrace.symm.trans htrace')
      rfl

theorem Evidence.undecided_eq (settings : DisplaySettings) (u : Undecided) :
    Evidence.undecided settings u = undecidedLine (settings.name u.property.displayName) u.property.runtime ::
      (u.hint.map fun h => hintLine (settings.name u.property.displayName) h.length h.depth).toList := by
  have hhint := funext (Evidence.hint_eq (settings.name u.property.displayName))
  unfold Evidence.undecided undecidedLine
  rw [← hhint]
  cases u.property.runtime with
  | none => rfl
  | some _ => rfl

namespace Analysis

variable {a : Analysis} {p : Property}

/-- The hint is the last of the earlier attempts'. -/
theorem Tidy.inductionHint?_eq (h : a.Tidy) {earlier : List Property}
    (hp : attemptsAt a.decoded p.displayName = earlier ++ [p]) :
    a.inductionHint? p =
      earlier.getLast?.bind fun previous => previous.inductiveTrace?.map fun t => ⟨previous.k, t.length⟩ := by
  rw [inductionHint?, h.attempts_eq, ← attemptsAt, hp, List.reverse_concat, List.getLast?_eq_head?_reverse]
  cases earlier.reverse <;> rfl

/-- What the evidence says of an undecided property that counts. -/
theorem Tidy.tellsUndecided (h : a.Tidy) (settings : DisplaySettings) (hp : p ∈ a.unknown) :
    TellsUndecided settings a.decoded p.displayName (Evidence.undecided settings ⟨p, a.inductionHint? p⟩) := by
  obtain ⟨hmem, hanswer⟩ := List.mem_filter.1 hp
  have hunknown : p.answer = .unknown := of_decide_eq_true hanswer
  obtain ⟨earlier, hattempts⟩ := h.exists_attemptsAt hmem
  rw [Evidence.undecided_eq, h.inductionHint?_eq hattempts]
  rcases hprevious : earlier.getLast? with _ | previous
  · exact .plain hattempts hunknown (by simp [hprevious])
  · rw [Option.bind_some]
    rcases htrace : previous.inductiveTrace? with _ | t
    · refine .plain hattempts hunknown fun q hq t ht hkind => ?_
      obtain rfl := Option.some.inj (hprevious.symm.trans hq)
      rw [Property.inductiveTrace?, Option.filter_eq_none_iff] at htrace
      exact htrace t ht (decide_eq_true hkind)
    · obtain ⟨hsome, hkind⟩ := Option.filter_eq_some_iff.1 htrace
      exact .hinted hattempts hunknown hprevious hsome (of_decide_eq_true hkind)

end Analysis

/-! ## The advice -/

namespace Model

theorem Found.kind_ne {m : Model} {id : ComponentId} {last : Analysis} {f : Finding} (h : Found m id last f) :
    f.kind ≠ .increaseTimeout := by
  cases h <;> exact fun hkind => nomatch hkind

/-- Of the advice on a component, what asks for more time is about the undecided properties. -/
theorem WellFormed.filter_timeout {m : Model} (h : m.WellFormed) (settings : DisplaySettings) {c : Component}
    (hc : c ∈ m.components) {last : Analysis} (hlast : m.IsLast c.id last) :
    (m.freeze.advise settings).filter (fun s => s.component = c.name ∧ s.kind = .increaseTimeout) =
      (m.timeoutAdvice settings c.id last).toList := by
  have hprimary : ∀ s ∈ (m.primaryAdvice settings c.id last).toList, ¬decide (s.kind = .increaseTimeout) := by
    intro s hs
    obtain ⟨f, hf, rfl⟩ := Option.map_eq_some_iff.1 (Option.mem_toList.1 hs)
    exact mt of_decide_eq_true (h.found hlast hf).kind_ne
  have htimeout : ∀ s ∈ (m.timeoutAdvice settings c.id last).toList, decide (s.kind = .increaseTimeout) :=
    fun s hs => decide_eq_true (kind_of_timeoutAdvice (Option.mem_toList.1 hs))
  calc (m.freeze.advise settings).filter (fun s => s.component = c.name ∧ s.kind = .increaseTimeout)
    _ = ((m.freeze.advise settings).filter (·.component = c.name)).filter (·.kind = .increaseTimeout) := by
      rw [List.filter_filter]
      exact List.filter_congr fun s _ => (Bool.decide_and _ _).trans (Bool.and_comm _ _)
    _ = ((m.primaryAdvice settings c.id last).toList ++ (m.timeoutAdvice settings c.id last).toList).filter
        (·.kind = .increaseTimeout) := by
      rw [h.filter_advise_of_last settings hc hlast]
    _ = (m.timeoutAdvice settings c.id last).toList := by
      rw [List.filter_append, List.filter_eq_nil_iff.2 hprimary, List.filter_eq_self.2 htimeout, List.nil_append]

/-- On every model that changes have made: advice to allow more time is given on a component that was analyzed if and
only if a property that counts in its last analysis is undecided, and it is given once. Its subjects are the logical
names of all of these properties, in the order in which the names were first decoded. Its evidence has a part for each
subject, which is what the attempts at this name in that analysis say, and nothing else. -/
theorem timeout_advice (changes : List Change) (settings : DisplaySettings) :
    let m := ofChanges changes
    ∀ c ∈ m.components, ∀ last, m.IsLast c.id last →
      let emitted := (m.freeze.advise settings).filter fun s => s.component = c.name ∧ s.kind = .increaseTimeout
      (¬(∃ p, last.Answers .unknown p) ∧ emitted = []) ∨
        (∃ p, last.Answers .unknown p) ∧ ∃ s parts, emitted = [s] ∧
          s.subjects = namesWith .unknown last.decoded ∧ s.explanations = parts.flatten ∧
          List.Forall₂ (fun name part => ∀ lines, TellsUndecided settings last.decoded name lines ↔ lines = part)
            s.subjects parts := by
  intro m c hc last hlast emitted
  have h : m.WellFormed := wellFormed_ofChanges changes
  have hordered : last.Ordered := ordered_ofChanges changes last hlast.mem.1
  have hemitted : emitted = (m.timeoutAdvice settings c.id last).toList := h.filter_timeout settings hc hlast
  have hunknown := hordered.isEmpty_withAnswer .unknown
  rw [hemitted, timeoutAdvice]
  split
  · rename_i hnone
    exact .inl ⟨hunknown.1 hnone, rfl⟩
  · rename_i hsome
    refine .inr ⟨not_not.1 (mt hunknown.2 hsome), _,
      last.unknown.map fun p => Evidence.undecided settings ⟨p, last.inductionHint? p⟩, rfl, ?_, ?_, ?_⟩
    · rw [← hordered.names_withAnswer .unknown]
      exact List.map_map
    · show last.undecided.flatMap (Evidence.undecided settings) = _
      rw [Analysis.undecided, List.flatMap_map, List.flatMap_def]
    · show List.Forall₂ _ (last.undecided.map _) _
      rw [Analysis.undecided, List.map_map, List.forall₂_map_left_iff, List.forall₂_map_right_iff, List.forall₂_same]
      intro p hp lines
      have htells := hordered.tellsUndecided settings hp
      exact ⟨fun hlines => hlines.unique htells, fun heq => heq ▸ htells⟩

/-- Attempts at two properties in turn. The induction for the first of them fails at two depths, and neither is decided
in the end. -/
def failedInduction : List Change :=
  [.addAnalysis "Top" {},
    .addProperty ⟨0⟩
      { name := "u[1]", scope := "Top", origin := .guarantee, answer := .unknown, k := some 1,
        trace := some ⟨.step, []⟩ },
    .addProperty ⟨0⟩ { name := "v", scope := "Top", origin := .guarantee, answer := .unknown },
    .addProperty ⟨0⟩
      { name := "u[2]", scope := "Top", origin := .guarantee, answer := .unknown, k := some 2,
        trace := some ⟨.step, [⟨"node", "Top", [⟨"x", "bool", "input", [(0, .bool true), (1, .bool false)]⟩], []⟩]⟩ },
    .addProperty ⟨0⟩ { name := "u[3]", scope := "Top", origin := .guarantee, answer := .unknown }]

theorem timeout_advice_failedInduction :
    let m := ofChanges failedInduction
    ∃ c ∈ m.components, ∃ last, m.IsLast c.id last ∧ (∃ p, last.Answers .unknown p) ∧
      ∃ s, (m.freeze.advise {}).filter (fun s => s.component = c.name ∧ s.kind = .increaseTimeout) = [s] ∧
        s.subjects = ["u", "v"] ∧ namesWith .unknown last.decoded = ["u", "v"] ∧
        s.explanations = ["The engine could not decide [u].",
          "Hint: [u] is not 2-inductive; the inductive step fails on a trace of 2 step(s). " ++
            "Strengthening it with auxiliary invariants may let induction succeed.",
          "The engine could not decide [v]."] := by
  intro m
  have h : m.WellFormed := wellFormed_ofChanges failedInduction
  obtain ⟨c, hc, last, hfound, hunknown, htold⟩ : ∃ c ∈ m.components, ∃ last ∈ m.lastAnalysis? c.id,
      ¬last.unknown.isEmpty ∧
      ∀ s ∈ (m.freeze.advise {}).filter (fun s => s.component = c.name ∧ s.kind = .increaseTimeout),
        s.subjects = ["u", "v"] ∧
        s.explanations = ["The engine could not decide [u].",
          "Hint: [u] is not 2-inductive; the inductive step fails on a trace of 2 step(s). " ++
            "Strengthening it with auxiliary invariants may let induction succeed.",
          "The engine could not decide [v]."] := by
    decide +kernel
  have hlast := h.lastAnalysis?_eq_some.1 hfound
  rcases timeout_advice failedInduction {} c hc last hlast with ⟨hnone, -⟩ | ⟨hsome, s, -, hemitted, hnames, -⟩
  · exact absurd (((h.tidy hlast.mem.1).isEmpty_withAnswer .unknown).2 hnone) hunknown
  · obtain ⟨hsubjects, hexplanations⟩ := htold s (hemitted ▸ List.mem_singleton_self s)
    exact ⟨c, hc, last, hlast, hsome, s, hemitted, hsubjects, hnames.symm.trans hsubjects, hexplanations⟩

end Model

end Verdicts
