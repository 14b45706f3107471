/-
Where post-analyses end up. Main statement: behind records that are taken in, each analysis holds exactly the
post-analyses that end while it is current, each once and with its element sets in order (`Attached`). That is the
analysis that was current at the start only if the records in between make no other one current (`Keeps`); where they
do, a post-analysis is attached to an analysis that it did not follow (`postAnalysis_misattached`).

`Collects` says which post-analysis is running behind some records. `PostFollows` adds it to what an intake is known
to follow; `PostFollows.step` carries that over one record.
-/
import Verdicts.Proofs.Stream.Blocks
import Verdicts.Proofs.Stream.Current

namespace Verdicts

namespace RecordOrder

open Model (getElem?_concat_cases)

/-! ## What a post-analysis collects -/

/-- The element sets among the records. -/
def setsIn (rs : List Record) : List ElementSet :=
  rs.filterMap fun
    | .elementSet set => some set
    | _ => none

/-- The post-analysis has the element sets of the records, among which none starts or ends. -/
structure Gathers (inner : List Record) (post : PostAnalysis) : Prop where
  uncut : ∀ r ∈ inner, r.kind ≠ .postAnalysisStart ∧ r.kind ≠ .postAnalysisEnd
  sets : post.elementSets = setsIn inner

/-- Behind the records the post-analysis is running: it has what was gathered since the last one started. -/
def Collects (before : List Record) (post : PostAnalysis) : Prop :=
  ∃ front inner, before = front ++ .postAnalysisStart post.name :: inner ∧ Gathers inner post

theorem Gathers.concat {inner : List Record} {post post' : PostAnalysis} (h : Gathers inner post) {r : Record}
    (hr : r.kind ≠ .postAnalysisStart ∧ r.kind ≠ .postAnalysisEnd)
    (hsets : post'.elementSets = post.elementSets ++ setsIn [r]) : Gathers (inner ++ [r]) post' where
  uncut r' hr' := by
    rcases List.mem_append.1 hr' with hold | hnew
    · exact h.uncut r' hold
    · rw [List.mem_singleton.1 hnew]
      exact hr
  sets := by rw [hsets, h.sets, setsIn, setsIn, setsIn, List.filterMap_append]

/-- One more record that does not cut the post-analysis off. -/
theorem Collects.concat {rs : List Record} {post post' : PostAnalysis} (h : Collects rs post) {r : Record}
    (hr : r.kind ≠ .postAnalysisStart ∧ r.kind ≠ .postAnalysisEnd) (hname : post'.name = post.name)
    (hsets : post'.elementSets = post.elementSets ++ setsIn [r]) : Collects (rs ++ [r]) post' := by
  obtain ⟨front, inner, rfl, hgathers⟩ := h
  exact ⟨front, inner ++ [r], by rw [hname]; simp, hgathers.concat hr hsets⟩

theorem Collects.aside {rs : List Record} {post : PostAnalysis} (h : Collects rs post) {r : Record}
    (hr : r.kind ∉ [.postAnalysisStart, .elementSet, .postAnalysisEnd]) : Collects (rs ++ [r]) post := by
  have hnone : setsIn [r] = [] := by cases r <;> simp [setsIn, Record.kind] at hr ⊢
  simp only [List.mem_cons, List.not_mem_nil, or_false, not_or] at hr
  exact h.concat ⟨hr.1, hr.2.2⟩ rfl (by rw [hnone, List.append_nil])

theorem collects_start (rs : List Record) (name : String) : Collects (rs ++ [.postAnalysisStart name]) { name } :=
  ⟨rs, [], rfl, fun _ hr => absurd hr List.not_mem_nil, rfl⟩

/-! ## Ends of post-analyses -/

/-- The record at position `j` ends the post-analysis while the `k`-th analysis is current. -/
def Ends (rs : List Record) (k j : Nat) (post : PostAnalysis) : Prop :=
  rs[j]? = some .postAnalysisEnd ∧ Collects (rs.take j) post ∧ Current (rs.take j) k

/-- The post-analyses are those that end while the `k`-th analysis is current, one for each end, in the order of the
ends. -/
def Attached (rs : List Record) (k : Nat) (posts : List PostAnalysis) : Prop :=
  ∃ positions : List Nat, positions.Pairwise (· < ·) ∧ (∀ j, j ∈ positions ↔ ∃ post, Ends rs k j post) ∧
    List.Forall₂ (Ends rs k) positions posts

theorem ends_concat {rs : List Record} {r : Record} {k j : Nat} {post : PostAnalysis} :
    Ends (rs ++ [r]) k j post ↔
      Ends rs k j post ∨ j = rs.length ∧ r = .postAnalysisEnd ∧ Collects rs post ∧ Current rs k :=
  getElem?_take_concat (p := fun before => Collects before post ∧ Current before k)

/-- The end of a running post-analysis finds current what is current in front of it. -/
theorem ends_iff {before : List Record} {post : PostAnalysis} (h : Collects before post) (back : List Record)
    {k : Nat} : Ends (before ++ .postAnalysisEnd :: back) k before.length post ↔ Current before k := by
  rw [Ends, List.getElem?_append_right (Nat.le_refl _), Nat.sub_self, List.take_left]
  exact ⟨fun hends => hends.2.2, fun hcurrent => ⟨rfl, h, hcurrent⟩⟩

/-- A record that ends no post-analysis of an analysis leaves those attached to it as they are. -/
theorem Attached.aside {rs : List Record} {k : Nat} {posts : List PostAnalysis} (h : Attached rs k posts)
    {r : Record} (hr : r = .postAnalysisEnd → ¬Current rs k) : Attached (rs ++ [r]) k posts := by
  have hends : ∀ j post, Ends (rs ++ [r]) k j post ↔ Ends rs k j post := by
    intro j post
    rw [ends_concat]
    refine ⟨fun hcase => hcase.elim (fun hold => hold) ?_, .inl⟩
    rintro ⟨-, heq, -, hcurrent⟩
    exact absurd hcurrent (hr heq)
  have heq : Ends (rs ++ [r]) k = Ends rs k := funext₂ fun j post => propext (hends j post)
  rwa [Attached, heq]

theorem Attached.push {rs : List Record} {k : Nat} {posts : List PostAnalysis} (h : Attached rs k posts)
    (hcurrent : Current rs k) {post : PostAnalysis} (hpost : Collects rs post) :
    Attached (rs ++ [.postAnalysisEnd]) k (posts ++ [post]) := by
  have hlisted : ListedAt (fun j => ∃ post, Ends rs k j post) (Ends rs k) posts := h
  have hlast : Ends (rs ++ [.postAnalysisEnd]) k rs.length post :=
    ends_concat.2 (.inr ⟨rfl, rfl, hpost, hcurrent⟩)
  refine hlisted.push (fun j hj => ?_) (fun j => ⟨?_, ?_⟩) (fun j p hp => ends_concat.2 (.inl hp)) hlast
  · obtain ⟨_, hold, -⟩ := hj
    exact (List.getElem?_eq_some_iff.1 hold).1
  · rintro ⟨other, hends⟩
    exact (ends_concat.1 hends).imp (fun hold => ⟨other, hold⟩) (·.1)
  · rintro (⟨old, hold⟩ | rfl)
    · exact ⟨old, ends_concat.2 (.inl hold)⟩
    · exact ⟨post, hlast⟩

/-- Nothing has ended while an analysis was current that starts last. -/
theorem attached_start (rs : List Record) (top : String) (context : AnalysisContext) :
    Attached (rs ++ [.analysisStart top context]) (starts rs) [] := by
  refine ⟨[], .nil, fun j => ⟨fun hj => absurd hj List.not_mem_nil, ?_⟩, .nil⟩
  rintro ⟨post, hends⟩
  rcases ends_concat.1 hends with ⟨-, -, hcurrent⟩ | ⟨-, heq, -⟩
  · have hle : starts (rs.take j) ≤ starts rs := (List.take_sublist j rs).countP_le
    exact absurd hcurrent.lt (Nat.not_lt.2 hle)
  · cases heq

/-! ## The analysis that was stopped last -/

/-- Behind the records the analysis was stopped last, if one was stopped since the latest start. -/
inductive LastStopped : List Record → Option AnalysisId → Prop
  | stopped {front behind : List Record} {k : Nat} : Innermost front k → Quiet behind →
      LastStopped (front ++ .analysisStop :: behind) (some ⟨k⟩)
  | running {rs : List Record} : ¬StoppedSince rs → LastStopped rs none

theorem LastStopped.aside {rs : List Record} {id : Option AnalysisId} (h : LastStopped rs id) {r : Record}
    (hr : r.kind ≠ .analysisStart ∧ r.kind ≠ .analysisStop) : LastStopped (rs ++ [r]) id := by
  have hquiet : Quiet [r] := fun r' hr' => List.mem_singleton.1 hr' ▸ hr
  cases h with
  | stopped hinnermost hbehind =>
    rw [List.append_assoc, List.cons_append]
    exact .stopped hinnermost (hbehind.append hquiet)
  | running hnone =>
    refine .running ?_
    rintro ⟨front, behind, heq, hbehind⟩
    rcases append_cons_eq_append heq.symm with ⟨rest, rfl, rfl⟩ | ⟨rest, rfl, hrest⟩
    · exact hnone ⟨front, rest, rfl, hbehind.of_append_left⟩
    · exact (hquiet .analysisStop (by rw [hrest]; simp)).2 rfl

theorem LastStopped.start (rs : List Record) (top : String) (context : AnalysisContext) :
    LastStopped (rs ++ [.analysisStart top context]) none := by
  refine .running ?_
  rintro ⟨front, behind, heq, hbehind⟩
  rcases split_concat heq with ⟨-, hstart⟩ | ⟨back, rfl⟩
  · cases hstart
  · rw [List.append_assoc, List.cons_append] at heq
    obtain rfl := (List.cons.inj (List.append_cancel_left heq)).2
    exact (hbehind (.analysisStart top context) (by simp)).1 rfl

/-! ## Sequences of records -/

theorem map_modify_eq {α β : Type} {f : α → α} {g : α → β} (l : List α) (k : Nat) (h : ∀ x, g (f x) = g x) :
    (l.modify k f).map g = l.map g := by
  refine List.ext_getElem? fun j => ?_
  rw [List.getElem?_map, List.getElem?_map, List.getElem?_modify, Option.map_eq_map, Option.map_map]
  refine congrArg (Option.map · l[j]?) (funext fun x => ?_)
  rw [Function.comp_apply]
  split
  · exact h x
  · rfl

/-- What holds of an intake behind records that it has taken in, with the post-analyses. -/
structure PostFollows (rs : List Record) (i : Intake) : Prop where
  follows : Follows rs i
  stopped : LastStopped rs i.lastStopped
  collects : ∀ post, i.postAnalysis = some post → Collects rs post
  attached : ∀ k a, i.model.analyses[k]? = some a → Attached rs k a.postAnalyses
  /-- Whatever ends is attached. -/
  ended : ∀ j, rs[j]? = some .postAnalysisEnd → ∃ k post, Ends rs k j post

theorem postFollows_empty : PostFollows [] {} where
  follows := follows_empty
  stopped := by
    refine .running ?_
    rintro ⟨front, behind, heq, -⟩
    simp at heq
  collects post hpost := by cases hpost
  attached k a ha := by simp at ha
  ended j hj := by simp at hj

theorem PostFollows.count {rs : List Record} {i : Intake} (h : PostFollows rs i) : PostFollows rs i.count :=
  ⟨h.follows.count, h.stopped, h.collects, h.attached, h.ended⟩

/-- The analysis that a post-analysis is added to is the current one. -/
theorem PostFollows.target {rs : List Record} {i : Intake} (h : PostFollows rs i) {target : AnalysisId}
    (htarget : i.postAnalysisTarget? = some target) : Current rs target.index := by
  obtain ⟨ks, hks, hrunning⟩ := h.follows.running
  have hstopped := h.stopped
  rw [Intake.postAnalysisTarget?] at htarget
  generalize i.lastStopped = id at hstopped htarget
  cases hstopped with
  | stopped hinnermost hquiet =>
    cases htarget
    exact .stopped hinnermost hquiet
  | running hnone =>
    rw [Option.none_or, hrunning, List.head?_map, Option.map_eq_some_iff] at htarget
    obtain ⟨k, hhead, rfl⟩ := htarget
    exact .running (hks.innermost_iff.2 hhead) hnone

theorem PostFollows.ended_of_ne {rs : List Record} {i : Intake} (h : PostFollows rs i) {r : Record}
    (hr : r.kind ≠ .postAnalysisEnd) {j : Nat} (hj : (rs ++ [r])[j]? = some .postAnalysisEnd) :
    ∃ k post, Ends (rs ++ [r]) k j post := by
  rcases getElem?_concat_cases hj with hold | ⟨-, heq⟩
  · obtain ⟨k, post, hends⟩ := h.ended j hold
    exact ⟨k, post, ends_concat.2 (.inl hends)⟩
  · subst heq
    exact absurd rfl hr

/-- A record that neither starts an analysis nor ends a post-analysis leaves what is attached as it is. -/
theorem PostFollows.aside {rs : List Record} {i after : Intake} {r : Record} (h : PostFollows rs i)
    (hfollows : Follows (rs ++ [r]) after) (hend : r.kind ≠ .postAnalysisEnd)
    (hstopped : LastStopped (rs ++ [r]) after.lastStopped)
    (hcollects : ∀ post, after.postAnalysis = some post → Collects (rs ++ [r]) post)
    (hposts : after.model.analyses.map (·.postAnalyses) = i.model.analyses.map (·.postAnalyses)) :
    PostFollows (rs ++ [r]) after where
  follows := hfollows
  stopped := hstopped
  collects := hcollects
  attached k a ha := by
    have hmapped := congrArg (·[k]?) hposts
    simp only [List.getElem?_map, ha, Option.map_some] at hmapped
    obtain ⟨b, hb, hsame⟩ := Option.map_eq_some_iff.1 hmapped.symm
    rw [← hsame]
    refine (h.attached k b hb).aside ?_
    rintro rfl
    exact absurd rfl hend
  ended j hj := h.ended_of_ne hend hj

/-- A record that has nothing to do with when analyses and post-analyses run changes nothing of that. -/
theorem PostFollows.pass {rs : List Record} {i after : Intake} {r : Record} (h : PostFollows rs i)
    (hfollows : Follows (rs ++ [r]) after)
    (hr : r.kind ∉ [.analysisStart, .analysisStop, .postAnalysisStart, .elementSet, .postAnalysisEnd])
    (hstopped : after.lastStopped = i.lastStopped) (hpost : after.postAnalysis = i.postAnalysis)
    (hposts : after.model.analyses.map (·.postAnalyses) = i.model.analyses.map (·.postAnalyses)) :
    PostFollows (rs ++ [r]) after := by
  simp only [List.mem_cons, List.not_mem_nil, or_false, not_or] at hr
  obtain ⟨hstart, hstop, hbegin, hset, hend⟩ := hr
  refine h.aside hfollows hend (hstopped ▸ h.stopped.aside ⟨hstart, hstop⟩) (fun post hp => ?_) hposts
  exact (h.collects post (hpost ▸ hp)).aside (by simp [hbegin, hset, hend])

theorem PostFollows.start {rs : List Record} {i : Intake} (h : PostFollows rs i) (top : String)
    (context : AnalysisContext) {after : Intake} (hfollows : Follows (rs ++ [.analysisStart top context]) after)
    (hmodel : after.model = Intake.startedModel i.model top context) (hstopped : after.lastStopped = none)
    (hpost : after.postAnalysis = i.postAnalysis) : PostFollows (rs ++ [.analysisStart top context]) after where
  follows := hfollows
  stopped := hstopped ▸ .start rs top context
  collects post hp := (h.collects post (hpost ▸ hp)).aside (by simp [Record.kind])
  attached k a ha := by
    obtain ⟨new, hstarted⟩ := exists_started h.follows.routed.wellFormed top context
    rw [hmodel, hstarted.analyses] at ha
    rcases getElem?_concat_cases ha with hold | ⟨rfl, rfl⟩
    · exact (h.attached k a hold).aside (by simp)
    · rw [hstarted.postAnalyses, h.follows.routed.count]
      exact attached_start rs top context
  ended j hj := h.ended_of_ne (by simp [Record.kind]) hj

theorem PostFollows.attach {rs : List Record} {i : Intake} (h : PostFollows rs i) {post : PostAnalysis}
    {target : AnalysisId} {m : Model} (hpost : i.postAnalysis = some post)
    (htarget : i.postAnalysisTarget? = some target) (hm : i.model.attachPostAnalysis target post = (m, none))
    (hfollows : Follows (rs ++ [.postAnalysisEnd]) { i with model := m, postAnalysis := none }) :
    PostFollows (rs ++ [.postAnalysisEnd]) { i with model := m, postAnalysis := none } where
  follows := hfollows
  stopped := h.stopped.aside (by simp [Record.kind])
  collects post' hpost' := by cases hpost'
  attached k a ha := by
    have hcurrent := h.target htarget
    obtain rfl := Model.attachPostAnalysis_eq hm
    simp only [List.getElem?_modify, Option.map_eq_map, Option.map_eq_some_iff] at ha
    obtain ⟨b, hb, rfl⟩ := ha
    -- the current analysis is the one that changes
    split
    · rename_i hk
      subst hk
      exact (h.attached _ b hb).push hcurrent (h.collects post hpost)
    · rename_i hk
      exact (h.attached k b hb).aside fun _ hother => hk (hcurrent.unique hother)
  ended j hj := by
    rcases getElem?_concat_cases hj with hold | ⟨rfl, -⟩
    · obtain ⟨k, post, hends⟩ := h.ended j hold
      exact ⟨k, post, ends_concat.2 (.inl hends)⟩
    · exact ⟨_, post, ends_concat.2 (.inr ⟨rfl, rfl, h.collects post hpost, h.target htarget⟩)⟩

/-- One record that is taken in. -/
theorem PostFollows.step {rs : List Record} {i after : Intake} {offset : Nat} {r : Record} (h : PostFollows rs i)
    (hh : i.Handled offset r after none) : PostFollows (rs ++ [r]) after := by
  have hfollows := h.follows.step hh
  cases hh with
  | options => exact h.pass hfollows (by simp [Record.kind]) rfl rfl rfl
  | log => exact h.pass hfollows (by simp [Record.kind]) rfl rfl rfl
  | progress => exact h.pass hfollows (by simp [Record.kind]) rfl rfl rfl
  | analysisStart => exact h.start _ _ hfollows rfl rfl rfl
  | @property report id rest p m ref hr hp hm =>
    refine h.pass hfollows (by simp [Record.kind]) rfl rfl ?_
    obtain rfl := Model.addProperty_eq hm
    exact map_modify_eq _ _ fun _ => rfl
  | @analysisStop id rest hr =>
    obtain ⟨ks, hks, hrunning⟩ := h.follows.running
    obtain ⟨k, ks, rfl, rfl, rfl⟩ := List.map_eq_cons_iff.1 (hrunning.symm.trans hr)
    have hinnermost : Innermost rs k := hks.innermost_iff.2 rfl
    have hlast : LastStopped (rs ++ [.analysisStop]) (some ⟨k⟩) :=
      .stopped hinnermost fun _ hr => absurd hr List.not_mem_nil
    refine h.aside hfollows (by simp [Record.kind]) hlast (fun post hpost => ?_) rfl
    exact (h.collects post hpost).aside (by simp [Record.kind])
  | @postAnalysisStart name hp =>
    have hstopped : LastStopped (rs ++ [.postAnalysisStart name]) i.lastStopped :=
      h.stopped.aside (by simp [Record.kind])
    refine h.aside hfollows (by simp [Record.kind]) hstopped (fun post hpost => ?_) rfl
    cases hpost
    exact collects_start rs name
  | @elementSet set post hp =>
    have hstopped : LastStopped (rs ++ [.elementSet set]) i.lastStopped := h.stopped.aside (by simp [Record.kind])
    refine h.aside hfollows (by simp [Record.kind]) hstopped (fun post' hpost => ?_) rfl
    cases hpost
    exact (h.collects post hp).concat (by simp [Record.kind]) rfl rfl
  | postAnalysisEnd hp ht hm => exact h.attach hp ht hm hfollows

theorem acceptAll_postFollows (rs : List (Nat × Record)) (hnone : (acceptAll {} rs).2 = none) :
    PostFollows (rs.map (·.2)) (acceptAll {} rs).1 :=
  acceptAll_keeps (fun _ _ h => h.follows.sound) (fun _ _ h => h.count) (fun _ _ _ _ _ h hh => h.step hh)
    postFollows_empty rs hnone

/-- Behind records that are taken in, each analysis holds exactly the post-analyses that end while it is current, in
the order of their ends, each once and with the element sets in the order in which they arrive. Each post-analysis
that ends finds exactly one analysis current, and that one was current when it started exactly if the records in
between make no other one current. An output that ends between two records is decoded to that model if these are its
records. -/
theorem postAnalyses_attached (rs : List (Nat × Record)) (h : (acceptAll {} rs).2 = none) :
    let records := rs.map (·.2)
    let m := (acceptAll {} rs).1.model
    (∀ k a, m.analyses[k]? = some a → Attached records k a.postAnalyses) ∧
      (∀ front inner back post,
        records = (front ++ .postAnalysisStart post.name :: inner) ++ .postAnalysisEnd :: back → Gathers inner post →
        ∃ k, k < m.analyses.length ∧
          (∀ k', Ends records k' (front ++ .postAnalysisStart post.name :: inner).length post ↔ k' = k) ∧
          ∀ k', Current front k' → (k' = k ↔ Keeps front (.postAnalysisStart post.name :: inner) k')) ∧
      ∀ output, (Scanner.scan {} output).ending = .between →
        List.Forall₂ Reads (Scanner.scan {} output).records rs →
        ∃ d, decodeOutput output = .ok d ∧ d.intake = (acceptAll {} rs).1 := by
  intro records m
  have hposts : PostFollows records (acceptAll {} rs).1 := acceptAll_postFollows rs h
  refine ⟨hposts.attached, fun front inner back post hrecords hgathers => ?_, fun output hending hreads => ?_⟩
  · have hcollects : Collects (front ++ .postAnalysisStart post.name :: inner) post := ⟨front, inner, rfl, hgathers⟩
    have hends := fun k => ends_iff hcollects back (k := k)
    rw [← hrecords] at hends
    obtain ⟨k, post', -, -, hcurrent⟩ :=
      hposts.ended (front ++ .postAnalysisStart post.name :: inner).length (by rw [hrecords]; simp)
    rw [hrecords, List.take_left] at hcurrent
    refine ⟨k, ?_, fun k' => ?_, fun k' hstart => ?_⟩
    · have hlt := hcurrent.lt
      have hcount : m.analyses.length = starts records := hposts.follows.routed.count
      rw [hcount, hrecords, starts_append]
      omega
    · rw [hends]
      exact ⟨fun hk => hk.unique hcurrent, fun heq => heq ▸ hcurrent⟩
    · rw [← hstart.append_iff]
      exact ⟨fun heq => heq ▸ hcurrent, fun hk => hk.unique hcurrent⟩
  · exact ⟨_, (decodeOutput_reads hending hreads).1 h, rfl⟩

/-- In the run with one analysis inside of another, the inner one stops itself while the post-analysis is running and
stays current. -/
theorem nestedRun_attached :
    (acceptAll {} nestedRun).2 = none ∧
      (acceptAll {} nestedRun).1.model.analyses.map (·.postAnalyses) = [[], [{ name := "ivc" }], []] ∧
      ∀ k a, (acceptAll {} nestedRun).1.model.analyses[k]? = some a →
        Attached (nestedRun.map (·.2)) k a.postAnalyses :=
  ⟨rfl, rfl, (postAnalyses_attached nestedRun rfl).1⟩

/-- A run in which an analysis of another component starts before the post-analysis ends. -/
def interleavedRun : List (Nat × Record) :=
  [(0, .analysisStart "A" {}),
    (10, .analysisStop),
    (20, .postAnalysisStart "ivc"),
    (30, .analysisStart "B" {}),
    (40, .elementSet ⟨"must", []⟩),
    (50, .postAnalysisEnd),
    (60, .analysisStop)]

/-- The post-analysis starts while the analysis of `A` is current and is attached to that of `B`. -/
theorem postAnalysis_misattached :
    (acceptAll {} interleavedRun).2 = none ∧
      ∃ front inner back post,
        interleavedRun.map (·.2) =
          (front ++ .postAnalysisStart post.name :: inner) ++ .postAnalysisEnd :: back ∧
        Gathers inner post ∧ Current front 0 ∧
        (acceptAll {} interleavedRun).1.model.analyses.map (·.postAnalyses) = [[], [post]] := by
  have hinnermost : Innermost [.analysisStart "A" {}] 0 := ⟨[], "A", {}, [], rfl, rfl, .nil⟩
  have hcurrent : Current ([.analysisStart "A" {}] ++ .analysisStop :: []) 0 :=
    .stopped hinnermost fun _ hr => absurd hr List.not_mem_nil
  have hgathers : Gathers [.analysisStart "B" {}, .elementSet ⟨"must", []⟩] ⟨"ivc", [⟨"must", []⟩]⟩ :=
    ⟨by simp [Record.kind], rfl⟩
  exact ⟨rfl, _, _, _, _, rfl, hgathers, hcurrent, rfl⟩

end RecordOrder

end Verdicts
