/-
Outputs made of complete analyses. A `Block` is an analysis with its reports and, if there is one, the post-analysis
right behind it. `Takes` composes what an intake takes in, wherever the records begin; main statement: complete blocks
are taken in exactly if their reports are spelt as known (`taken_in_iff_spelt`), and the model behind them is told by
the blocks without handles (`Collected`): which components there are, whom each of them calls, in which order, and what
each analysis holds.
-/
import Verdicts.Proofs.Result.CalleeNames
import Verdicts.Proofs.Result.Coherence
import Verdicts.Proofs.Stream.Growth
import Verdicts.Proofs.Stream.Routing

namespace Verdicts

/-- A complete analysis, and the post-analysis that follows it. -/
structure Block where
  top : String
  context : AnalysisContext
  reports : List PropertyReport
  post : Option PostAnalysis

/-- The records of a post-analysis. -/
def PostAnalysis.records (post : PostAnalysis) : List Record :=
  .postAnalysisStart post.name :: (post.elementSets.map .elementSet ++ [.postAnalysisEnd])

namespace Block

/-- The records of a block. -/
def records (b : Block) : List Record :=
  .analysisStart b.top b.context ::
    (b.reports.map .property ++ .analysisStop :: b.post.toList.flatMap PostAnalysis.records)

/-- The components that a block lists. -/
def listed (b : Block) : List String := b.context.concrete ++ b.context.abstracted

end Block

namespace RecordOrder

open Intake (startedModel)
open Model (enterName)

/-! ## Records that are taken in -/

/-- `Takes i rs i'`: the records `rs`, wherever they begin, are taken in and lead from `i` to `i'`. -/
def Takes (i : Intake) (rs : List Record) (i' : Intake) : Prop :=
  ∀ ps : List (Nat × Record), ps.map (·.2) = rs → acceptAll i ps = (i', none)

theorem Takes.nil (i : Intake) : Takes i [] i := by
  intro ps hps
  rw [List.map_eq_nil_iff] at hps
  subst hps
  rfl

theorem Takes.cons {i i₁ i' : Intake} {r : Record} {rs : List Record}
    (h : ∀ offset, i.count.accept offset r = (i₁, none)) (h' : Takes i₁ rs i') : Takes i (r :: rs) i' := by
  intro ps hps
  obtain ⟨⟨offset, _⟩, rest, rfl, rfl, hrest⟩ := List.map_eq_cons_iff.1 hps
  rw [acceptAll, h offset]
  exact h' rest hrest

theorem acceptAll_append {i i₁ : Intake} {ps : List (Nat × Record)} (h : acceptAll i ps = (i₁, none))
    (qs : List (Nat × Record)) : acceptAll i (ps ++ qs) = acceptAll i₁ qs := by
  induction ps generalizing i with
  | nil =>
    cases h
    rfl
  | cons p ps ih =>
    obtain ⟨offset, r⟩ := p
    rw [acceptAll] at h
    rw [List.cons_append, acceptAll]
    rcases haccept : i.count.accept offset r with ⟨after, _ | e⟩
    · rw [haccept] at h
      exact ih h
    · rw [haccept] at h
      cases h

theorem Takes.append {i i₁ i' : Intake} {rs rs' : List Record} (h : Takes i rs i₁) (h' : Takes i₁ rs' i') :
    Takes i (rs ++ rs') i' := by
  intro ps hps
  obtain ⟨front, back, rfl, hfront, hback⟩ := List.map_eq_append_iff.1 hps
  rw [acceptAll_append (h front hfront)]
  exact h' back hback

/-- Taking records in keeps handles in range and changes the model by some of the four changes. -/
theorem acceptAll_changed {i : Intake} (hs : i.Sound) (ps : List (Nat × Record)) :
    (acceptAll i ps).1.Sound ∧ i.model.Changed (acceptAll i ps).1.model := by
  induction ps generalizing i with
  | nil => exact ⟨hs, .refl _⟩
  | cons p ps ih =>
    obtain ⟨offset, r⟩ := p
    have hh := Intake.accept_handled hs.count offset r
    rw [acceptAll]
    rcases haccept : i.count.accept offset r with ⟨after, _ | e⟩
    · rw [haccept] at hh
      obtain ⟨hsound, hchanged⟩ := ih (hh.sound hs.count)
      exact ⟨hsound, hh.changed.trans hchanged⟩
    · rw [haccept] at hh
      exact ⟨hh.sound hs.count, hh.changed⟩

theorem Takes.changed {i i' : Intake} {rs : List Record} (h : Takes i rs i') (hs : i.Sound) :
    i'.Sound ∧ i.model.Changed i'.model := by
  have hrs : (rs.map (0, ·)).map (·.2) = rs := by simp [Function.comp_def]
  have hall := acceptAll_changed hs (rs.map (0, ·))
  rwa [h _ hrs] at hall

/-! ## One block -/

theorem modify_length {α : Type} (front : List α) (x : α) (f : α → α) :
    (front ++ [x]).modify front.length f = front ++ [f x] := by
  induction front with
  | nil => rfl
  | cons y front ih => rw [List.cons_append, List.length_cons, List.modify_succ_cons, ih, List.cons_append]

/-- A report that is spelt as known gives a property. -/
theorem exists_propertyOf (m : Model) (id : AnalysisId) {report : PropertyReport}
    (h : Spelt (.property report)) : ∃ p, ∀ offset, Intake.propertyOf m id offset report = .ok p := by
  obtain ⟨horigin, hanswer⟩ := h
  rcases ho : Origin.ofText? report.origin with _ | origin
  · exact absurd ho horigin
  · rcases ha : Answer.ofText? report.answer with _ | answer
    · exact absurd ha hanswer
    · exact ⟨_, fun offset => by rw [Intake.propertyOf, ho, ha]⟩

section

variable {i : Intake} {components : List Component} {index : Keyed ComponentId} {front : List Analysis} {a : Analysis}

/-- A report is added to the analysis that runs. -/
theorem accept_report {top : String} {rest : List AnalysisId}
    (hmodel : i.model = ⟨components, index, front ++ [a]⟩) (hrunning : i.running = ⟨front.length⟩ :: rest)
    (howner : i.model.Named a.owner top) {report : PropertyReport} (hspelt : Spelt (.property report)) :
    ∃ p, Gives top report p ∧ ∀ offset, i.accept offset (.property report) =
      ({ i with model := ⟨components, index, front ++ [a.push p]⟩ }, none) := by
  obtain ⟨p, hp⟩ := exists_propertyOf i.model ⟨front.length⟩ hspelt
  have hfound : i.model.analysis? ⟨front.length⟩ = some a := by
    rw [hmodel]
    exact List.getElem?_concat_length ..
  refine ⟨p, scopeOf_eq hfound howner ▸ gives_of_propertyOf (hp 0), fun offset => ?_⟩
  rw [Intake.accept, Intake.addReport, hrunning]
  simp only [hp offset, Model.addProperty, hfound]
  rw [hmodel]
  simp only [modify_length]

theorem takes_reports {top : String} {rest : List AnalysisId}
    (hmodel : i.model = ⟨components, index, front ++ [a]⟩) (hrunning : i.running = ⟨front.length⟩ :: rest)
    (howner : i.model.Named a.owner top) {reports : List PropertyReport}
    (hspelt : ∀ report ∈ reports, Spelt (.property report)) :
    ∃ i' ps, Takes i (reports.map .property) i' ∧ List.Forall₂ (Gives top) reports ps ∧
      i'.model = ⟨components, index, front ++ [ps.foldl Analysis.push a]⟩ ∧ i'.running = i.running ∧
      i'.postAnalysis = i.postAnalysis := by
  -- the analysis changes with each report, its place and its owner do not
  induction reports generalizing i a with
  | nil => exact ⟨i, [], .nil i, .nil, hmodel, rfl, rfl⟩
  | cons report reports ih =>
    obtain ⟨hhead, hrest⟩ := List.forall_mem_cons.1 hspelt
    obtain ⟨p, hp, haccept⟩ := accept_report (i := i.count) hmodel hrunning howner hhead
    obtain ⟨i', ps, htakes, hps, hmodel', hrunning', hpost'⟩ :=
      ih (i := { i.count with model := ⟨components, index, front ++ [a.push p]⟩ }) (a := a.push p) rfl hrunning
        (by rw [hmodel] at howner; exact howner) hrest
    exact ⟨i', p :: ps, .cons haccept htakes, .cons hp hps, hmodel', hrunning', hpost'⟩

theorem takes_sets {post : PostAnalysis} (hpost : i.postAnalysis = some post) (sets : List ElementSet) :
    ∃ i', Takes i (sets.map .elementSet) i' ∧ i'.model = i.model ∧ i'.running = i.running ∧
      i'.lastStopped = i.lastStopped ∧
      i'.postAnalysis = some { post with elementSets := post.elementSets ++ sets } := by
  induction sets generalizing i post with
  | nil => exact ⟨i, .nil i, rfl, rfl, rfl, by rw [hpost, List.append_nil]⟩
  | cons set sets ih =>
    have haccept : ∀ offset, i.count.accept offset (.elementSet set) =
        ({ i.count with postAnalysis := some { post with elementSets := post.elementSets ++ [set] } }, none) := by
      intro offset
      have hpost : i.count.postAnalysis = some post := hpost
      rw [Intake.accept, Intake.addElementSet, hpost]
    obtain ⟨i', htakes, hmodel, hrunning, hstopped, hpost'⟩ := ih (i := { i.count with
      postAnalysis := some { post with elementSets := post.elementSets ++ [set] } }) rfl
    refine ⟨i', .cons haccept htakes, hmodel, hrunning, hstopped, ?_⟩
    rw [hpost', List.append_assoc, List.singleton_append]

/-- A complete post-analysis is added to the analysis that was stopped. -/
theorem takes_post (hmodel : i.model = ⟨components, index, front ++ [a]⟩)
    (hstopped : i.lastStopped = some ⟨front.length⟩) (hpost : i.postAnalysis = none) (post : PostAnalysis) :
    ∃ i', Takes i post.records i' ∧ i'.model = ⟨components, index, front ++ [a.pushPostAnalysis post]⟩ ∧
      i'.running = i.running ∧ i'.postAnalysis = none := by
  have hstart : ∀ offset, i.count.accept offset (.postAnalysisStart post.name) =
      ({ i.count with postAnalysis := some { name := post.name } }, none) := by
    intro offset
    have hpost : i.count.postAnalysis = none := hpost
    rw [Intake.accept, Intake.startPostAnalysis, hpost]
  obtain ⟨i₁, hsets, hmodel₁, hrunning₁, hstopped₁, hpost₁⟩ := takes_sets (i := { i.count with
    postAnalysis := some { name := post.name } }) rfl post.elementSets
  have hend : ∀ offset, i₁.count.accept offset .postAnalysisEnd =
      ({ i₁.count with
        model := ⟨components, index, front ++ [a.pushPostAnalysis post]⟩, postAnalysis := none }, none) := by
    intro offset
    have hpost : i₁.count.postAnalysis = some post := hpost₁
    have hstopped : i₁.count.lastStopped = some ⟨front.length⟩ := hstopped₁.trans hstopped
    have hmodel : i₁.count.model = ⟨components, index, front ++ [a]⟩ := hmodel₁.trans hmodel
    rw [Intake.accept, Intake.endPostAnalysis, hpost]
    simp only [Intake.postAnalysisTarget?, hstopped, Option.some_or, hmodel, Model.attachPostAnalysis,
      Model.analysis?, List.getElem?_concat_length, modify_length]
  exact ⟨_, .cons hstart (hsets.append (.cons hend (.nil _))), rfl, hrunning₁, rfl⟩

/-- What follows an analysis that was stopped. -/
theorem takes_behind (hmodel : i.model = ⟨components, index, front ++ [a]⟩)
    (hstopped : i.lastStopped = some ⟨front.length⟩) (hpost : i.postAnalysis = none)
    (post : Option PostAnalysis) :
    ∃ i', Takes i (post.toList.flatMap PostAnalysis.records) i' ∧
      i'.model = ⟨components, index, front ++ [{ a with postAnalyses := a.postAnalyses ++ post.toList }]⟩ ∧
      i'.running = i.running ∧ i'.postAnalysis = none := by
  cases post with
  | none => exact ⟨i, .nil i, by rw [hmodel, Option.toList_none, List.append_nil], rfl, hpost⟩
  | some post =>
    rw [Option.toList_some, List.flatMap_singleton]
    exact takes_post hmodel hstopped hpost post

end

/-! ## What blocks make of a model -/

/-- The analysis `a` of the model `m` holds what the block says. -/
structure Holds (m : Model) (a : Analysis) (b : Block) : Prop where
  owner : m.Named a.owner b.top
  concrete : List.Forall₂ m.Named a.concrete b.context.concrete
  abstracted : List.Forall₂ m.Named a.abstracted b.context.abstracted
  assumptions : a.assumptions = b.context.assumptions
  decoded : List.Forall₂ (Gives b.top) b.reports a.decoded
  postAnalyses : a.postAnalyses = b.post.toList

theorem Holds.mono {m m' : Model} {a : Analysis} {b : Block} (h : Holds m a b) (hp : m.names <+: m'.names) :
    Holds m' a b :=
  ⟨h.owner.mono hp, h.concrete.imp fun _ _ hn => hn.mono hp, h.abstracted.imp fun _ _ hn => hn.mono hp,
    h.assumptions, h.decoded, h.postAnalyses⟩

/-- Put a listed component behind the callees of `top`, unless it is `top` itself or among them. -/
def enterCallee (top : String) (callees : List String) (name : String) : List String :=
  if name = top then callees else enterName callees name

/-- The callees of a component, as the blocks about it list them. -/
def calleesOf (name : String) (blocks : List Block) : List String :=
  ((blocks.filter (·.top = name)).flatMap Block.listed).foldl (enterCallee name) []

/-- The model that blocks make, without regard to its handles. -/
structure Collected (blocks : List Block) (m : Model) : Prop where
  names : ∀ name, name ∈ m.names ↔ ∃ b ∈ blocks, name = b.top ∨ Lists b.context name
  callees : ∀ name, m.calleeNames name = calleesOf name blocks
  /-- There is one analysis for each block. -/
  analyses : List.Forall₂ (Holds m) m.analyses blocks

theorem collected_nil : Collected [] {} where
  names name := by simp [Model.names]
  callees name := rfl
  analyses := .nil

theorem calleeNames_addCallees {m : Model} (h : m.WellFormed) (top : String) (callees : List String)
    (name : String) :
    (Intake.addCallees m top callees).1.calleeNames name =
      if name = top then callees.foldl (enterCallee top) (m.calleeNames name) else m.calleeNames name := by
  induction callees generalizing m with
  | nil => exact (ite_self _).symm
  | cons callee rest ih =>
    rw [Intake.addCallees, List.foldl_cons, enterCallee]
    by_cases hself : callee = top
    · rw [if_pos hself, if_pos hself]
      exact ih h
    · obtain ⟨m', hok, hadded⟩ := Model.addChild_added h (Ne.symm hself)
      have hstep := h.calleeNames_addChild hok name
      rw [if_neg hself, if_neg hself, hok, ih hadded.wellFormed]
      by_cases hname : name = top
      · rw [if_pos hname, if_pos hname, hstep, if_pos hname]
      · rw [if_neg hname, if_neg hname, hstep, if_neg hname]

/-- A start enters the components that it lists among the callees of the one that it is about. -/
theorem calleeNames_startedModel {m : Model} (h : m.WellFormed) (top : String) (context : AnalysisContext)
    (name : String) :
    (startedModel m top context).calleeNames name =
      if name = top then (context.concrete ++ context.abstracted).foldl (enterCallee top) (m.calleeNames name)
      else m.calleeNames name := by
  rw [startedModel, (calleesAdded h top _).wellFormed.calleeNames_addAnalysis, calleeNames_addCallees h]

theorem calleesOf_concat (name : String) (blocks : List Block) (b : Block) :
    calleesOf name (blocks ++ [b]) =
      if name = b.top then b.listed.foldl (enterCallee b.top) (calleesOf name blocks)
      else calleesOf name blocks := by
  rw [calleesOf, List.filter_append, List.flatMap_append, List.foldl_append, calleesOf]
  by_cases hname : name = b.top
  · simp [hname]
  · simp [hname, Ne.symm hname]

/-- Properties that are added stand behind the others; nothing else that is told about an analysis changes. -/
theorem foldl_push (ps : List Property) (a : Analysis) :
    ∃ ledger, ps.foldl Analysis.push a = { a with decoded := a.decoded ++ ps, ledger } := by
  induction ps generalizing a with
  | nil => exact ⟨a.ledger, by rw [List.foldl_nil, List.append_nil]⟩
  | cons p ps ih =>
    obtain ⟨ledger, heq⟩ := ih (a.push p)
    refine ⟨ledger, ?_⟩
    rw [List.foldl_cons, heq, Analysis.push, List.append_assoc, List.singleton_append]

/-- A complete block is taken in where no analysis and no post-analysis is running, and adds one analysis. -/
theorem takes_block {i : Intake} (hwf : i.model.WellFormed) (hrunning : i.running = [])
    (hpost : i.postAnalysis = none) {b : Block} (hspelt : ∀ report ∈ b.reports, Spelt (.property report)) :
    ∃ i' a, Takes i b.records i' ∧ i'.running = [] ∧ i'.postAnalysis = none ∧
      i'.model = ⟨(startedModel i.model b.top b.context).components, (startedModel i.model b.top b.context).index,
        i.model.analyses ++ [a]⟩ ∧
      Holds i'.model a b := by
  obtain ⟨a, hstarted⟩ := exists_started hwf b.top b.context
  have hmodel : startedModel i.model b.top b.context =
      ⟨(startedModel i.model b.top b.context).components, (startedModel i.model b.top b.context).index,
        i.model.analyses ++ [a]⟩ := by
    rw [← hstarted.analyses]
  have hstart := fun offset : Nat => Intake.startAnalysis_eq i.count b.top b.context
  -- `i₁` is behind the reports, `i₂` behind the post-analysis
  obtain ⟨i₁, ps, hreports, hps, hmodel₁, hrunning₁, hpost₁⟩ := takes_reports (i := { i.count with
    model := startedModel i.model b.top b.context
    running := ⟨i.model.analyses.length⟩ :: i.running
    lastStopped := none }) hmodel rfl hstarted.announced.owner hspelt
  have hstop : ∀ offset, i₁.count.accept offset .analysisStop =
      ({ i₁.count with running := i.running, lastStopped := some ⟨i.model.analyses.length⟩ }, none) := by
    intro offset
    have hrunning : i₁.count.running = ⟨i.model.analyses.length⟩ :: i.running := hrunning₁
    rw [Intake.accept, Intake.stopAnalysis, hrunning]
  obtain ⟨i₂, hbehind, hmodel₂, hrunning₂, hpost₂⟩ := takes_behind (i := { i₁.count with
    running := i.running, lastStopped := some ⟨i.model.analyses.length⟩ }) hmodel₁ rfl (hpost₁.trans hpost) b.post
  refine ⟨i₂, _, .cons hstart (hreports.append (.cons hstop hbehind)), hrunning₂.trans hrunning, hpost₂,
    hmodel₂, ?_⟩
  obtain ⟨ledger, hfold⟩ := foldl_push ps a
  obtain ⟨-, howner, hconcrete, habstracted, hassumptions⟩ := hstarted.announced
  rw [hmodel₂, hfold, hstarted.decoded, hstarted.postAnalyses]
  exact ⟨howner, hconcrete, habstracted, hassumptions, hps, rfl⟩

/-! ## Outputs made of blocks -/

/-- What holds of an intake behind complete blocks. -/
structure Behind (blocks : List Block) (i : Intake) : Prop where
  sound : i.Sound
  reached : Model.empty.Changed i.model
  running : i.running = []
  postAnalysis : i.postAnalysis = none
  collected : Collected blocks i.model

theorem behind_nil : Behind [] {} :=
  ⟨Intake.empty_sound, .refl _, rfl, rfl, collected_nil⟩

theorem Behind.wellFormed {blocks : List Block} {i : Intake} (h : Behind blocks i) : i.model.WellFormed :=
  h.reached.of_ofChanges Model.wellFormed_ofChanges

theorem Behind.linked {blocks : List Block} {i : Intake} (h : Behind blocks i) : i.model.Linked :=
  h.reached.of_ofChanges Model.linked_ofChanges

/-- One more block. -/
theorem Behind.block {blocks : List Block} {i : Intake} (h : Behind blocks i) {b : Block}
    (hspelt : ∀ report ∈ b.reports, Spelt (.property report)) :
    ∃ i', Takes i b.records i' ∧ Behind (blocks ++ [b]) i' := by
  have hwf := h.wellFormed
  obtain ⟨i', a, htakes, hrunning, hpost, hmodel, hholds⟩ := takes_block hwf h.running h.postAnalysis hspelt
  obtain ⟨hsound, hchanged⟩ := htakes.changed h.sound
  obtain ⟨_, hstarted⟩ := exists_started hwf b.top b.context
  have hnames : i'.model.names = (startedModel i.model b.top b.context).names := by rw [hmodel]; rfl
  refine ⟨i', htakes, hsound, h.reached.trans hchanged, hrunning, hpost, fun name => ?_, fun name => ?_, ?_⟩
  · rw [hnames, hstarted.mem_names, h.collected.names]
    simp only [List.mem_append, List.mem_singleton, or_and_right, exists_or, exists_eq_left]
  · have hcallees : i'.model.calleeNames name = (startedModel i.model b.top b.context).calleeNames name := by
      rw [hmodel]; rfl
    rw [hcallees, calleeNames_startedModel hwf, h.collected.callees, calleesOf_concat]
    rfl
  · have hanalyses : i'.model.analyses = i.model.analyses ++ [a] := by rw [hmodel]
    have hprefix : i.model.names <+: i'.model.names := hnames ▸ hstarted.names
    rw [hanalyses]
    exact List.rel_append (h.collected.analyses.imp fun _ _ hold => hold.mono hprefix) (.cons hholds .nil)

theorem Behind.blocks {before : List Block} {i : Intake} (h : Behind before i) {blocks : List Block}
    (hspelt : ∀ b ∈ blocks, ∀ report ∈ b.reports, Spelt (.property report)) :
    ∃ i', Takes i (blocks.flatMap Block.records) i' ∧ Behind (before ++ blocks) i' := by
  induction blocks generalizing before i with
  | nil => exact ⟨i, .nil i, by rwa [List.append_nil]⟩
  | cons b rest ih =>
    obtain ⟨hhead, hrest⟩ := List.forall_mem_cons.1 hspelt
    obtain ⟨i₁, htakes₁, hbehind₁⟩ := h.block hhead
    obtain ⟨i', htakes, hbehind⟩ := ih hbehind₁ hrest
    rw [List.append_assoc] at hbehind
    exact ⟨i', by rw [List.flatMap_cons]; exact htakes₁.append htakes, hbehind⟩

/-- Complete blocks are taken in exactly if all their reports are spelt as known. -/
theorem taken_in_iff_spelt {blocks : List Block} {ps : List (Nat × Record)}
    (hps : ps.map (·.2) = blocks.flatMap Block.records) :
    (acceptAll {} ps).2 = none ↔ ∀ b ∈ blocks, ∀ report ∈ b.reports, Spelt (.property report) := by
  constructor
  · intro hnone b hb report hreport
    have hmem : Record.property report ∈ ps.map (·.2) := by
      rw [hps]
      refine List.mem_flatMap.2 ⟨b, hb, List.mem_cons_of_mem _ (List.mem_append_left _ ?_)⟩
      exact List.mem_map_of_mem hreport
    obtain ⟨front, back, heq⟩ := List.append_of_mem hmem
    exact (((acceptAll_none_iff ps).1 hnone).property front report ⟨back, by rw [heq]; simp⟩).2
  · intro hspelt
    obtain ⟨i', htakes, -⟩ := behind_nil.blocks hspelt
    rw [htakes ps hps]

/-- What holds behind complete blocks that are taken in. -/
theorem behind_of_taken {blocks : List Block} {ps : List (Nat × Record)}
    (hps : ps.map (·.2) = blocks.flatMap Block.records) (hnone : (acceptAll {} ps).2 = none) :
    Behind blocks (acceptAll {} ps).1 := by
  obtain ⟨i', htakes, hbehind⟩ := behind_nil.blocks ((taken_in_iff_spelt hps).1 hnone)
  rwa [htakes ps hps]

end RecordOrder

end Verdicts
