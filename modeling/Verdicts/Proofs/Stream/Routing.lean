/-
Where records end up. `Routed` relates a sequence of records to a model without mention of an intake: which
analyses there are, which properties each of them holds, which components there are and which of them call
each other. Main statement: the model behind a sequence that is taken in is related to it.

`Follows` adds the stack of running analyses, and with it is an invariant: `Follows.step` carries it over one
record and `acceptAll_follows` over a sequence.
-/
import Verdicts.Proofs.Result.Lookup
import Verdicts.Proofs.Stream.Matching

namespace Verdicts

namespace RecordOrder

open Model (getElem?_concat_cases)

/-! ## What an analysis holds -/

/-- The property is what the report says, in an analysis of the component `top`. -/
structure Gives (top : String) (report : PropertyReport) (p : Property) : Prop where
  name : p.name = report.name
  scope : p.scope = report.scope.getD top
  origin : Origin.ofText? report.origin = some p.origin
  answer : Answer.ofText? report.answer = some p.answer
  answeredBy : p.answeredBy = report.answeredBy
  location : p.location = report.location
  k : p.k = report.k
  runtime : p.runtime = report.runtime
  trace : p.trace = report.trace

/-- The record at position `j` is a report that arrives while the `k`-th analysis is the innermost. -/
def Belongs (rs : List Record) (k j : Nat) (report : PropertyReport) : Prop :=
  rs[j]? = some (.property report) ∧ Innermost (rs.take j) k

/-- The properties are what the reports say that belong to the `k`-th analysis, one for each, in the order in
which they arrive. -/
def Delivered (rs : List Record) (k : Nat) (top : String) (ps : List Property) : Prop :=
  ∃ positions : List Nat, positions.Pairwise (· < ·) ∧
    (∀ j, j ∈ positions ↔ ∃ report, Belongs rs k j report) ∧
    List.Forall₂ (fun j p => ∃ report, Belongs rs k j report ∧ Gives top report p) positions ps

/-- The analysis `a` is the `k`-th of the model, announced with that component and that context. -/
structure Announced (m : Model) (k : Nat) (top : String) (context : AnalysisContext) (a : Analysis) :
    Prop where
  id : a.id = ⟨k⟩
  owner : m.Named a.owner top
  concrete : List.Forall₂ m.Named a.concrete context.concrete
  abstracted : List.Forall₂ m.Named a.abstracted context.abstracted
  assumptions : a.assumptions = context.assumptions

/-- The context lists the component as one that takes part or that is replaced by its contract. -/
def Lists (context : AnalysisContext) (name : String) : Prop :=
  name ∈ context.concrete ∨ name ∈ context.abstracted

/-- `Routed rs m`: everything in the model comes from the records, and everything in the records that starts
or reports is in the model, once. -/
structure Routed (rs : List Record) (m : Model) : Prop where
  wellFormed : m.WellFormed
  /-- There is one analysis for each start. -/
  count : m.analyses.length = starts rs
  /-- An analysis stands at the position of its start among the starts, has what the start announces, and
  holds what the reports say that belong to it. -/
  analysis : ∀ front top context back, rs = front ++ .analysisStart top context :: back →
    ∃ a, m.analyses[starts front]? = some a ∧ Announced m (starts front) top context a ∧
      Delivered rs (starts front) top a.decoded
  /-- The components are those that a start is about or lists. -/
  component : ∀ name, name ∈ m.names ↔
    ∃ top context, .analysisStart top context ∈ rs ∧ (name = top ∨ Lists context name)
  /-- A component calls those others that a start lists which is about it. -/
  calls : ∀ caller callee, m.Calls caller callee ↔
    callee ≠ caller ∧ ∃ context, .analysisStart caller context ∈ rs ∧ Lists context callee
  calls_nodup : ∀ id, (m.childrenOf id).Nodup

/-! ## One more record -/

/-- What stands at a position behind certain records stood there before, or the last record stands there. -/
theorem getElem?_take_concat {rs : List Record} {r r' : Record} {j : Nat} {p : List Record → Prop} :
    (rs ++ [r])[j]? = some r' ∧ p ((rs ++ [r]).take j) ↔
      rs[j]? = some r' ∧ p (rs.take j) ∨ j = rs.length ∧ r = r' ∧ p rs := by
  constructor
  · rintro ⟨hj, hbehind⟩
    rcases getElem?_concat_cases hj with hold | ⟨rfl, hr⟩
    · obtain ⟨hlt, -⟩ := List.getElem?_eq_some_iff.1 hold
      rw [List.take_append_of_le_length (Nat.le_of_lt hlt)] at hbehind
      exact .inl ⟨hold, hbehind⟩
    · rw [List.take_left] at hbehind
      exact .inr ⟨rfl, hr.symm, hbehind⟩
  · rintro (⟨hold, hbehind⟩ | ⟨rfl, rfl, hbehind⟩)
    · obtain ⟨hlt, -⟩ := List.getElem?_eq_some_iff.1 hold
      refine ⟨by rw [List.getElem?_append_left hlt, hold], ?_⟩
      rwa [List.take_append_of_le_length (Nat.le_of_lt hlt)]
    · refine ⟨List.getElem?_concat_length .., ?_⟩
      rwa [List.take_left]

theorem belongs_concat {rs : List Record} {r : Record} {k j : Nat} {report : PropertyReport} :
    Belongs (rs ++ [r]) k j report ↔
      Belongs rs k j report ∨ j = rs.length ∧ r = .property report ∧ Innermost rs k :=
  getElem?_take_concat (p := (Innermost · k))

/-- The items are related to the positions that are marked, one to each, in their order. -/
def ListedAt {α : Type} (marked : Nat → Prop) (rel : Nat → α → Prop) (xs : List α) : Prop :=
  ∃ positions : List Nat, positions.Pairwise (· < ·) ∧ (∀ j, j ∈ positions ↔ marked j) ∧
    List.Forall₂ rel positions xs

/-- One more item is listed where one more position is marked, behind the others. -/
theorem ListedAt.push {α : Type} {marked marked' : Nat → Prop} {rel rel' : Nat → α → Prop} {xs : List α}
    (h : ListedAt marked rel xs) {n : Nat} (hlt : ∀ j, marked j → j < n)
    (hmarked : ∀ j, marked' j ↔ marked j ∨ j = n) (hrel : ∀ j x, rel j x → rel' j x) {x : α} (hx : rel' n x) :
    ListedAt marked' rel' (xs ++ [x]) := by
  obtain ⟨positions, hsorted, hmem, hall⟩ := h
  refine ⟨positions ++ [n], ?_, fun j => ?_, List.rel_append (hall.imp hrel) (.cons hx .nil)⟩
  · refine List.pairwise_append.2 ⟨hsorted, List.pairwise_singleton .., fun j hj j' hj' => ?_⟩
    rw [List.mem_singleton.1 hj']
    exact hlt j ((hmem j).1 hj)
  · rw [List.mem_append, List.mem_singleton, hmem, hmarked]

/-- A record that is no report belonging to an analysis leaves the properties of the analysis as they are. -/
theorem Delivered.aside {rs : List Record} {k : Nat} {top : String} {ps : List Property}
    (h : Delivered rs k top ps) {r : Record} (hr : ∀ report, r = .property report → ¬Innermost rs k) :
    Delivered (rs ++ [r]) k top ps := by
  have hbelongs : ∀ j report, Belongs (rs ++ [r]) k j report ↔ Belongs rs k j report := by
    intro j report
    rw [belongs_concat]
    refine ⟨fun hcase => hcase.elim (fun hold => hold) ?_, .inl⟩
    rintro ⟨-, heq, hinnermost⟩
    exact absurd hinnermost (hr report heq)
  simp only [Delivered, hbelongs]
  exact h

theorem Delivered.push {rs : List Record} {k : Nat} {top : String} {ps : List Property}
    (h : Delivered rs k top ps) (hinnermost : Innermost rs k) {report : PropertyReport} {p : Property}
    (hp : Gives top report p) : Delivered (rs ++ [.property report]) k top (ps ++ [p]) := by
  have hlisted : ListedAt (fun j => ∃ report, Belongs rs k j report)
    (fun j q => ∃ report, Belongs rs k j report ∧ Gives top report q) ps := h
  have hlast : Belongs (rs ++ [.property report]) k rs.length report :=
    belongs_concat.2 (.inr ⟨rfl, rfl, hinnermost⟩)
  refine hlisted.push (fun j hj => ?_) (fun j => ⟨?_, ?_⟩) (fun j q hq => ?_) ⟨report, hlast, hp⟩
  · obtain ⟨_, hold, -⟩ := hj
    exact (List.getElem?_eq_some_iff.1 hold).1
  · rintro ⟨other, hbelongs⟩
    exact (belongs_concat.1 hbelongs).imp (fun hold => ⟨other, hold⟩) (·.1)
  · rintro (⟨old, hold⟩ | rfl)
    · exact ⟨old, belongs_concat.2 (.inl hold)⟩
    · exact ⟨report, hlast⟩
  · obtain ⟨old, hold, hgives⟩ := hq
    exact ⟨old, belongs_concat.2 (.inl hold), hgives⟩

/-- Nothing belongs to an analysis that starts last. -/
theorem delivered_start (rs : List Record) (top : String) (context : AnalysisContext) :
    Delivered (rs ++ [.analysisStart top context]) (starts rs) top [] := by
  refine ⟨[], .nil, fun j => ⟨fun hj => absurd hj List.not_mem_nil, ?_⟩, .nil⟩
  rintro ⟨report, hbelongs⟩
  rcases belongs_concat.1 hbelongs with ⟨-, hinnermost⟩ | ⟨-, heq, -⟩
  · have hle : starts (rs.take j) ≤ starts rs := (List.take_sublist j rs).countP_le
    exact absurd hinnermost.lt (Nat.not_lt.2 hle)
  · cases heq

theorem Announced.mono {m m' : Model} {k : Nat} {top : String} {context : AnalysisContext} {a : Analysis}
    (h : Announced m k top context a) (hp : m.names <+: m'.names) : Announced m' k top context a :=
  ⟨h.id, h.owner.mono hp, h.concrete.imp fun _ _ hn => hn.mono hp, h.abstracted.imp fun _ _ hn => hn.mono hp,
    h.assumptions⟩

/-- A start in a sequence with one more record stood there before or is that record. -/
theorem split_concat {rs front back : List Record} {r r' : Record} (h : rs ++ [r] = front ++ r' :: back) :
    rs = front ∧ r = r' ∨ ∃ back', rs = front ++ r' :: back' := by
  rcases List.eq_nil_or_concat' back with rfl | ⟨back', last, rfl⟩
  · exact .inl (List.append_singleton_inj.1 h)
  · rw [← List.cons_append, ← List.append_assoc] at h
    exact .inr ⟨back', (List.append_singleton_inj.1 h).1⟩

theorem start_mem_concat {rs : List Record} {r : Record} (hr : r.kind ≠ .analysisStart) {top : String}
    {context : AnalysisContext} :
    .analysisStart top context ∈ rs ++ [r] ↔ .analysisStart top context ∈ rs := by
  rw [List.mem_append, List.mem_singleton]
  refine ⟨fun hcase => hcase.elim (fun hold => hold) ?_, .inl⟩
  rintro rfl
  exact absurd rfl hr

/-- A record that neither starts an analysis nor reports leaves a model related as it is. -/
theorem Routed.aside {rs : List Record} {m : Model} (h : Routed rs m) {r : Record}
    (hstart : r.kind ≠ .analysisStart) (hreport : r.kind ≠ .property) : Routed (rs ++ [r]) m where
  wellFormed := h.wellFormed
  count := by
    rw [starts_concat, if_neg hstart]
    exact h.count
  analysis front top context back heq := by
    rcases split_concat heq with ⟨-, rfl⟩ | ⟨back', heq⟩
    · exact absurd rfl hstart
    · obtain ⟨a, ha, hannounced, hdelivered⟩ := h.analysis front top context back' heq
      refine ⟨a, ha, hannounced, hdelivered.aside ?_⟩
      rintro report rfl
      exact absurd rfl hreport
  component name := by
    simp only [start_mem_concat hstart]
    exact h.component name
  calls caller callee := by
    simp only [start_mem_concat hstart]
    exact h.calls caller callee
  calls_nodup := h.calls_nodup

/-- A post-analysis changes nothing that records are related to. -/
theorem Routed.attach {rs : List Record} {m m' : Model} (h : Routed rs m) {id : AnalysisId}
    {post : PostAnalysis} (heq : m.attachPostAnalysis id post = (m', none)) : Routed rs m' := by
  have hwf := h.wellFormed.attachPostAnalysis heq
  obtain rfl := Model.attachPostAnalysis_eq heq
  refine ⟨hwf, (List.length_modify ..).trans h.count, fun front top context back hsplit => ?_, h.component,
    h.calls, h.calls_nodup⟩
  obtain ⟨a, ha, ⟨hid, howner, hconcrete, habstracted, hassumptions⟩, hdelivered⟩ :=
    h.analysis front top context back hsplit
  rw [List.getElem?_modify, ha, Option.map_eq_map, Option.map_some]
  by_cases hk : id.index = starts front
  · rw [if_pos hk]
    exact ⟨_, rfl, ⟨hid, howner, hconcrete, habstracted, hassumptions⟩, hdelivered⟩
  · rw [if_neg hk]
    exact ⟨a, rfl, ⟨hid, howner, hconcrete, habstracted, hassumptions⟩, hdelivered⟩

theorem scopeOf_eq {m : Model} {id : AnalysisId} {a : Analysis} {top : String} (ha : m.analysis? id = some a)
    (howner : m.Named a.owner top) : Intake.scopeOf m id = top := by
  obtain ⟨c, hc, hname⟩ := Option.map_eq_some_iff.1 ((m.names_getElem? _).symm.trans howner)
  rw [Intake.scopeOf, ha, Option.bind_some, Model.component?, hc]
  exact hname

theorem gives_of_propertyOf {m : Model} {id : AnalysisId} {offset : Nat} {report : PropertyReport}
    {p : Property} (h : Intake.propertyOf m id offset report = .ok p) :
    Gives (Intake.scopeOf m id) report p := by
  rw [Intake.propertyOf] at h
  split at h
  · cases h
  · rename_i origin horigin
    split at h
    · cases h
    · rename_i answer hanswer
      cases h
      exact ⟨rfl, rfl, horigin, hanswer, rfl, rfl, rfl, rfl, rfl⟩

/-- A report goes to the innermost analysis and to no other. -/
theorem Routed.report {rs : List Record} {m m' : Model} (h : Routed rs m) {k offset : Nat}
    (hinnermost : Innermost rs k) {report : PropertyReport} {p : Property} {ref : PropertyRef}
    (hp : Intake.propertyOf m ⟨k⟩ offset report = .ok p) (heq : m.addProperty ⟨k⟩ p = (m', .ok ref)) :
    Routed (rs ++ [.property report]) m' := by
  have hwf := h.wellFormed.addProperty heq
  obtain rfl := Model.addProperty_eq heq
  have hkind : (Record.property report).kind ≠ .analysisStart := nofun
  refine ⟨hwf, ?_, fun front top context back hsplit => ?_, fun name => ?_, fun caller callee => ?_,
    h.calls_nodup⟩
  · rw [starts_concat, if_neg hkind]
    exact (List.length_modify ..).trans h.count
  · rcases split_concat hsplit with ⟨-, hstart⟩ | ⟨back', hsplit⟩
    · cases hstart
    · obtain ⟨a, ha, ⟨hid, howner, hconcrete, habstracted, hassumptions⟩, hdelivered⟩ :=
        h.analysis front top context back' hsplit
      rw [List.getElem?_modify, ha, Option.map_eq_map, Option.map_some]
      -- only the analysis that is the innermost changes
      by_cases hk : k = starts front
      · subst hk
        have hscope : Intake.scopeOf m ⟨starts front⟩ = top := scopeOf_eq ha howner
        have hgives := gives_of_propertyOf hp
        rw [hscope] at hgives
        rw [if_pos rfl]
        exact ⟨_, rfl, ⟨hid, howner, hconcrete, habstracted, hassumptions⟩, hdelivered.push hinnermost hgives⟩
      · rw [if_neg hk]
        refine ⟨a, rfl, ⟨hid, howner, hconcrete, habstracted, hassumptions⟩, hdelivered.aside ?_⟩
        exact fun _ _ hother => hk (hinnermost.unique hother)
  · simp only [start_mem_concat hkind]
    exact h.component name
  · simp only [start_mem_concat hkind]
    exact h.calls caller callee

/-! ## A start -/

/-- `CalleesAdded m m' top callees`: the model `m'` is `m` with the calls from `top` to those of the callees
that are not `top` itself. -/
structure CalleesAdded (m m' : Model) (top : String) (callees : List String) : Prop where
  wellFormed : m'.WellFormed
  names : m.names <+: m'.names
  mem_names : ∀ n ∈ m'.names, n ∈ m.names ∨ n = top ∨ n ∈ callees
  calls : ∀ n n', m'.Calls n n' ↔ m.Calls n n' ∨ n = top ∧ n' ≠ top ∧ n' ∈ callees
  calls_nodup : (∀ id, (m.childrenOf id).Nodup) → ∀ id, (m'.childrenOf id).Nodup
  analyses : m'.analyses = m.analyses

theorem calleesAdded {m : Model} (h : m.WellFormed) (top : String) (callees : List String) :
    CalleesAdded m (Intake.addCallees m top callees).1 top callees := by
  induction callees generalizing m with
  | nil =>
    exact ⟨h, List.prefix_refl _, fun n hn => .inl hn, fun n n' => by simp [Intake.addCallees], id, rfl⟩
  | cons callee rest ih =>
    rw [Intake.addCallees]
    split
    · -- the component itself is left out
      rename_i hself
      obtain ⟨hwf, hnames, hmem, hcalls, hnodup, hanalyses⟩ := ih h
      refine ⟨hwf, hnames, fun n hn => ?_, fun n n' => ?_, hnodup, hanalyses⟩
      · exact (hmem n hn).imp_right (Or.imp_right (List.mem_cons_of_mem _))
      · rw [hcalls, List.mem_cons]
        refine or_congr_right (and_congr_right fun _ => and_congr_right fun hne => ?_)
        exact ⟨.inr, fun hcase => hcase.resolve_left fun heq => hne (heq.trans hself)⟩
    · rename_i hne
      obtain ⟨m', heq, hadded⟩ := Model.addChild_added h (Ne.symm hne)
      rw [heq]
      obtain ⟨hwf, hnames, hmem, hcalls, hnodup, hanalyses⟩ := ih hadded.wellFormed
      refine ⟨hwf, hadded.names.trans hnames, fun n hn => ?_, fun n n' => ?_,
        fun hold => hnodup (hadded.calls_nodup hold), hanalyses.trans hadded.analyses⟩
      · rcases hmem n hn with hn | hn | hn
        · rcases (hadded.mem_names n).1 hn with hn | hn | rfl
          · exact .inl hn
          · exact .inr (.inl hn)
          · exact .inr (.inr (List.mem_cons_self ..))
        · exact .inr (.inl hn)
        · exact .inr (.inr (List.mem_cons_of_mem _ hn))
      · rw [hcalls, hadded.calls, or_assoc, List.mem_cons, ← and_or_left]
        refine or_congr_right (and_congr_right fun _ => ?_)
        constructor
        · rintro (rfl | ⟨hn', hrest⟩)
          · exact ⟨hne, .inl rfl⟩
          · exact ⟨hn', .inr hrest⟩
        · rintro ⟨hn', rfl | hrest⟩
          · exact .inl rfl
          · exact .inr ⟨hn', hrest⟩

/-- `Started m m' top context a`: the model `m'` is `m` with the analysis `a` of `top`, the components that
its context lists and the calls to those that are not `top` itself. -/
structure Started (m m' : Model) (top : String) (context : AnalysisContext) (a : Analysis) : Prop where
  wellFormed : m'.WellFormed
  names : m.names <+: m'.names
  mem_names : ∀ n, n ∈ m'.names ↔ n ∈ m.names ∨ n = top ∨ Lists context n
  calls : ∀ n n', m'.Calls n n' ↔ m.Calls n n' ∨ n = top ∧ n' ≠ top ∧ Lists context n'
  calls_nodup : (∀ id, (m.childrenOf id).Nodup) → ∀ id, (m'.childrenOf id).Nodup
  analyses : m'.analyses = m.analyses ++ [a]
  announced : Announced m' m.analyses.length top context a
  decoded : a.decoded = []
  postAnalyses : a.postAnalyses = []

theorem exists_started {m : Model} (h : m.WellFormed) (top : String) (context : AnalysisContext) :
    ∃ a, Started m (Intake.startedModel m top context) top context a := by
  have hcallees := calleesAdded h top (context.concrete ++ context.abstracted)
  obtain ⟨a, hadded⟩ := Model.addAnalysis_added hcallees.wellFormed top context
  have hanalyses := hadded.analyses
  rw [hcallees.analyses] at hanalyses
  rw [Intake.startedModel]
  have ha : ((Intake.addCallees m top (context.concrete ++ context.abstracted)).1.addAnalysis top
      context).1.analyses[m.analyses.length]? = some a := by
    rw [hanalyses, List.getElem?_concat_length]
  refine ⟨a, hadded.wellFormed, hcallees.names.trans hadded.names, fun n => ?_, fun n n' => ?_,
    fun hnodup id => ?_, hanalyses, ⟨(hadded.wellFormed.analysis _ a ha).id, hadded.owner, hadded.concrete,
    hadded.abstracted, hadded.assumptions⟩, hadded.decoded, hadded.postAnalyses⟩
  · rw [hadded.mem_names]
    constructor
    · rintro (hold | hnew)
      · have hcase := hcallees.mem_names n hold
        rwa [List.mem_append] at hcase
      · exact .inr hnew
    · rintro (hold | hnew)
      · exact .inl (hcallees.names.subset hold)
      · exact .inr hnew
  · rw [Lists, ← List.mem_append, ← hcallees.calls, ← hcallees.wellFormed.calls_of_prefix hadded.names]
    simp only [Model.Calls, hadded.calls]
  · rw [hadded.calls]
    exact hcallees.calls_nodup hnodup id

/-- A start adds one analysis, its components and its calls. -/
theorem Routed.start {rs : List Record} {m : Model} (h : Routed rs m) (top : String)
    (context : AnalysisContext) :
    Routed (rs ++ [.analysisStart top context]) (Intake.startedModel m top context) := by
  obtain ⟨a, hstarted⟩ := exists_started h.wellFormed top context
  have hstarts : ∀ t c, Record.analysisStart t c ∈ rs ++ [.analysisStart top context] ↔
      .analysisStart t c ∈ rs ∨ t = top ∧ c = context := by simp
  refine ⟨hstarted.wellFormed, ?_, fun front top' context' back hsplit => ?_, fun name => ?_,
    fun caller callee => ?_, hstarted.calls_nodup h.calls_nodup⟩
  · rw [hstarted.analyses, List.length_append, h.count, starts_append]
    rfl
  · rcases split_concat hsplit with ⟨rfl, heq⟩ | ⟨back', hsplit⟩
    · cases heq
      rw [hstarted.analyses, ← h.count, List.getElem?_concat_length]
      refine ⟨a, rfl, hstarted.announced, ?_⟩
      rw [hstarted.decoded, h.count]
      exact delivered_start rs top context
    · obtain ⟨old, hold, hannounced, hdelivered⟩ := h.analysis front top' context' back' hsplit
      rw [hstarted.analyses, List.getElem?_append_left (List.getElem?_eq_some_iff.1 hold).1]
      exact ⟨old, hold, hannounced.mono hstarted.names, hdelivered.aside fun _ heq => nomatch heq⟩
  · rw [hstarted.mem_names, h.component]
    simp only [hstarts]
    constructor
    · rintro (⟨t, c, hc, hname⟩ | hname)
      · exact ⟨t, c, .inl hc, hname⟩
      · exact ⟨top, context, .inr ⟨rfl, rfl⟩, hname⟩
    · rintro ⟨t, c, hc | ⟨rfl, rfl⟩, hname⟩
      · exact .inl ⟨t, c, hc, hname⟩
      · exact .inr hname
  · rw [hstarted.calls, h.calls]
    simp only [hstarts]
    constructor
    · rintro (⟨hne, c, hc, hlists⟩ | ⟨rfl, hne, hlists⟩)
      · exact ⟨hne, c, .inl hc, hlists⟩
      · exact ⟨hne, context, .inr ⟨rfl, rfl⟩, hlists⟩
    · rintro ⟨hne, c, hc | ⟨rfl, rfl⟩, hlists⟩
      · exact .inl ⟨hne, c, hc, hlists⟩
      · exact .inr ⟨rfl, hne, hlists⟩

/-! ## Sequences of records -/

/-- What holds of an intake behind records that it has taken in. -/
structure Follows (rs : List Record) (i : Intake) : Prop where
  sound : i.Sound
  running : ∃ ks, Stacked rs ks ∧ i.running = ks.map AnalysisId.mk
  routed : Routed rs i.model

theorem routed_nil : Routed [] {} where
  wellFormed := Model.empty_wellFormed
  count := rfl
  analysis front top context back heq := by simp at heq
  component name := by simp [Model.names]
  calls caller callee := by
    constructor
    · rintro ⟨p, c, hp, -⟩
      exact absurd hp.lt (Nat.not_lt_zero _)
    · rintro ⟨-, context, hmem, -⟩
      exact absurd hmem List.not_mem_nil
  calls_nodup id := List.nodup_nil

theorem follows_empty : Follows [] {} := ⟨Intake.empty_sound, ⟨[], .idle .nil, rfl⟩, routed_nil⟩

theorem Follows.count {rs : List Record} {i : Intake} (h : Follows rs i) : Follows rs i.count :=
  ⟨h.sound.count, h.running, h.routed⟩

/-- A record that neither starts or stops an analysis nor reports changes nothing. -/
theorem Follows.aside {rs : List Record} {i after : Intake} {r : Record} (h : Follows rs i) (hs : after.Sound)
    (hkind : r.kind ∉ [.analysisStart, .analysisStop, .property]) (hrunning : after.running = i.running)
    (hrouted : Routed rs after.model) : Follows (rs ++ [r]) after := by
  simp only [List.mem_cons, List.not_mem_nil, or_false, not_or] at hkind
  obtain ⟨hstart, hstop, hreport⟩ := hkind
  obtain ⟨ks, hks, heq⟩ := h.running
  exact ⟨hs, ⟨ks, hks.aside hstart hstop, hrunning.trans heq⟩, hrouted.aside hstart hreport⟩

/-- One record that is taken in. -/
theorem Follows.step {rs : List Record} {i after : Intake} {offset : Nat} {r : Record} (h : Follows rs i)
    (hh : i.Handled offset r after none) : Follows (rs ++ [r]) after := by
  have hs := hh.sound h.sound
  obtain ⟨ks, hks, hrunning⟩ := h.running
  cases hh with
  | options => exact h.aside hs (by simp [Record.kind]) rfl h.routed
  | log => exact h.aside hs (by simp [Record.kind]) rfl h.routed
  | progress => exact h.aside hs (by simp [Record.kind]) rfl h.routed
  | postAnalysisStart _ => exact h.aside hs (by simp [Record.kind]) rfl h.routed
  | elementSet _ => exact h.aside hs (by simp [Record.kind]) rfl h.routed
  | postAnalysisEnd _ _ hm => exact h.aside hs (by simp [Record.kind]) rfl (h.routed.attach hm)
  | @analysisStart top context =>
    refine ⟨hs, ⟨starts rs :: ks, hks.start top context, ?_⟩, h.routed.start top context⟩
    rw [List.map_cons, hrunning, h.routed.count]
  | @analysisStop id rest hr =>
    obtain ⟨k, ks, rfl, rfl, rfl⟩ := List.map_eq_cons_iff.1 (hrunning.symm.trans hr)
    exact ⟨hs, ⟨ks, hks.stop, rfl⟩, h.routed.aside (by simp [Record.kind]) (by simp [Record.kind])⟩
  | @property report id rest p m ref hr hp hm =>
    obtain ⟨k, ks, rfl, rfl, rfl⟩ := List.map_eq_cons_iff.1 (hrunning.symm.trans hr)
    have hinnermost : Innermost rs k := hks.innermost_iff.2 rfl
    exact ⟨hs, ⟨k :: ks, hks.aside (by simp [Record.kind]) (by simp [Record.kind]), hrunning⟩,
      h.routed.report hinnermost hp hm⟩

/-- What holds behind some records holds behind more that are taken in. -/
theorem acceptAll_follows {before : List Record} {i : Intake} (h : Follows before i)
    (rs : List (Nat × Record)) (hnone : (acceptAll i rs).2 = none) :
    Follows (before ++ rs.map (·.2)) (acceptAll i rs).1 :=
  acceptAll_keeps (fun _ _ h => h.sound) (fun _ _ h => h.count) (fun _ _ _ _ _ h hh => h.step hh) h rs hnone

/-- The model behind a sequence of records that is taken in has one analysis for each start, in the order of
the starts and as announced; each analysis holds what the reports say that arrive while it is the innermost,
in order and each once; the components are those that a start is about or lists, and a component calls those
others that a start lists which is about it. An output that ends between two records is decoded to that
model if these are its records. -/
theorem acceptAll_routed (rs : List (Nat × Record)) (h : (acceptAll {} rs).2 = none) :
    Routed (rs.map (·.2)) (acceptAll {} rs).1.model ∧
      ∀ output, (Scanner.scan {} output).ending = .between →
        List.Forall₂ Reads (Scanner.scan {} output).records rs →
        ∃ d, decodeOutput output = .ok d ∧ d.intake = (acceptAll {} rs).1 := by
  refine ⟨(acceptAll_follows follows_empty rs h).routed, fun output hending hreads => ?_⟩
  exact ⟨_, (decodeOutput_reads hending hreads).1 h, rfl⟩

/-- A report on a property of the component under analysis, or of another. -/
def sampleReport (name : String) (scope : Option String) : PropertyReport :=
  { name, scope, origin := "Guarantee", answer := "valid", answeredBy := none, location := none, k := none,
    runtime := none, trace := none }

/-- A run with one analysis inside of another, of components that list themselves and others twice. -/
def nestedRun : List (Nat × Record) :=
  [(0, .analysisStart "Top" ⟨["Top", "Sub"], ["Sub", "Leaf"], [("Sub", 2)]⟩),
    (10, .property (sampleReport "outer" none)),
    (20, .analysisStart "Sub" ⟨[], ["Leaf"], []⟩),
    (30, .property (sampleReport "inner" (some "Leaf"))),
    (40, .postAnalysisStart "ivc"),
    (50, .analysisStop),
    (60, .property (sampleReport "outer" none)),
    (70, .postAnalysisEnd),
    (80, .analysisStop),
    (90, .progress (some "bmc") (some 3)),
    (100, .analysisStart "Top" {}),
    (110, .property (sampleReport "last" none)),
    (120, .analysisStop)]

theorem nestedRun_routed :
    (acceptAll {} nestedRun).2 = none ∧ Routed (nestedRun.map (·.2)) (acceptAll {} nestedRun).1.model ∧
      (acceptAll {} nestedRun).1.model.names = ["Top", "Sub", "Leaf"] ∧
      (acceptAll {} nestedRun).1.model.analyses.map (·.decoded.map fun p => (p.name, p.scope)) =
        [[("outer", "Top"), ("outer", "Top")], [("inner", "Leaf")], [("last", "Top")]] :=
  ⟨rfl, (acceptAll_routed nestedRun rfl).1, rfl, rfl⟩

end RecordOrder

end Verdicts
