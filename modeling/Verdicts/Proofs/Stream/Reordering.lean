/-
In which order components are reported. The engine may finish its analyses in any order, as long as those of one
component follow each other. Main statement: of complete blocks that are taken in, every order is taken in that keeps
the blocks about one component in theirs; and what is found out about the component of a name is the same in all of
these orders. Only handles differ, and the order between components.
-/
import Verdicts.Proofs.Advice.ByName
import Verdicts.Proofs.Stream.Blocks

namespace Verdicts

namespace RecordOrder

open Model (SameName SameAnalysis Agree)

/-! ## Other orders -/

/-- The same blocks in another order, in which those about one component follow each other as before. -/
structure Reorders (blocks blocks' : List Block) : Prop where
  perm : blocks.Perm blocks'
  sameTop : ∀ top, blocks.filter (·.top = top) = blocks'.filter (·.top = top)

/-- Neighbours that are about two components may be swapped. -/
theorem Reorders.swap {a b : Block} (hne : a.top ≠ b.top) (rest : List Block) :
    Reorders (a :: b :: rest) (b :: a :: rest) where
  perm := .swap b a rest
  sameTop top := by
    by_cases ha : a.top = top
    · have hb : b.top ≠ top := fun hb => hne (ha.trans hb.symm)
      simp [ha, hb]
    · simp [List.filter_cons, ha]

/-! ## The models behind two orders -/

/-- A report gives one property. -/
theorem gives_rightUnique (top : String) : Relator.RightUnique (Gives top) := by
  intro report p q hp hq
  have horigin : p.origin = q.origin := Option.some.inj (hp.origin.symm.trans hq.origin)
  have hanswer : p.answer = q.answer := Option.some.inj (hp.answer.symm.trans hq.answer)
  cases p
  cases q
  rw [Property.mk.injEq]
  exact ⟨hp.name.trans hq.name.symm, hp.scope.trans hq.scope.symm, horigin, hanswer,
    hp.answeredBy.trans hq.answeredBy.symm, hp.location.trans hq.location.symm, hp.k.trans hq.k.symm,
    hp.runtime.trans hq.runtime.symm, hp.trace.trans hq.trace.symm⟩

/-- Analyses that hold what one block says are the same. -/
theorem Holds.sameAnalysis {m m' : Model} {a a' : Analysis} {b : Block} (h : Holds m a b) (h' : Holds m' a' b)
    (hledger : a.ledger = ledgerOf a.decoded) (hledger' : a'.ledger = ledgerOf a'.decoded) :
    SameAnalysis m m' a a' := by
  have hdecoded : a.decoded = a'.decoded := (gives_rightUnique b.top).forall₂ h.decoded h'.decoded
  exact
    { concrete := forall₂_join h.concrete h'.concrete
      abstracted := forall₂_join h.abstracted h'.abstracted
      assumptions := h.assumptions.trans h'.assumptions.symm
      decoded := hdecoded
      ledger := by rw [hledger, hledger', hdecoded]
      postAnalyses := h.postAnalyses.trans h'.postAnalyses.symm }

/-- The analyses of a component hold what the blocks about it say, one after the other. -/
theorem Behind.analysesBy {blocks : List Block} {i : Intake} (h : Behind blocks i) {id : ComponentId}
    {name : String} (hid : i.model.Named id name) :
    List.Forall₂ (fun a b => a.ledger = ledgerOf a.decoded ∧ Holds i.model a b) (i.model.analysesBy id)
      (blocks.filter (·.top = name)) := by
  have hledger : ∀ a ∈ i.model.analyses, a.ledger = ledgerOf a.decoded :=
    h.reached.of_ofChanges (P := fun m => ∀ a ∈ m.analyses, a.ledger = ledgerOf a.decoded)
      Model.ledger_ofChanges
  refine List.rel_filter (fun a b hab => ?_) ((List.forall₂_and_left _ _).2 ⟨hledger, h.collected.analyses⟩)
  simp only [decide_eq_true_eq]
  constructor
  · rintro rfl
    exact hab.2.owner.unique hid
  · rintro rfl
    exact h.wellFormed.named_inj hab.2.owner hid

/-- The models behind two orders agree by name. -/
theorem Behind.agree {blocks blocks' : List Block} {i i' : Intake} (h : Behind blocks i)
    (h' : Behind blocks' i') (hreorders : Reorders blocks blocks') : Agree i.model i'.model where
  left := h.wellFormed
  right := h'.wellFormed
  names := by
    refine (List.perm_ext_iff_of_nodup h.wellFormed.names h'.wellFormed.names).2 fun name => ?_
    rw [h.collected.names, h'.collected.names]
    simp only [hreorders.perm.mem_iff]
  children id id' hid := by
    obtain ⟨name, hid, hid'⟩ := hid
    have hcallees := h.wellFormed.named_childrenOf hid
    have hcallees' := h'.wellFormed.named_childrenOf hid'
    -- callees are told by the blocks about their caller alone, which come in one order
    rw [h.collected.callees, calleesOf, hreorders.sameTop, ← calleesOf, ← h'.collected.callees] at hcallees
    exact forall₂_join hcallees hcallees'
  analyses id id' hid := by
    obtain ⟨name, hid, hid'⟩ := hid
    have hanalyses := h.analysesBy hid
    rw [hreorders.sameTop] at hanalyses
    refine (forall₂_join hanalyses (h'.analysesBy hid')).imp ?_
    rintro a a' ⟨b, ⟨hledger, ha⟩, hledger', ha'⟩
    exact ha.sameAnalysis ha' hledger hledger'

/-! ## What is found out -/

/-- What is found out about the components is the same by name in two models. -/
structure SameResults (m m' : Model) : Prop where
  names : (m.components.map (·.name)).Perm (m'.components.map (·.name))
  callees : ∀ id id', SameName m m' id id' →
    List.Forall₂ (SameName m m') (m.childrenOf id) (m'.childrenOf id')
  callers : ∀ id id' p p', SameName m m' id id' → SameName m m' p p' →
    (p ∈ m.parentsOf id ↔ p' ∈ m'.parentsOf id')
  analyses : ∀ id id', SameName m m' id id' →
    List.Forall₂ (SameAnalysis m m') (m.analysesOf id) (m'.analysesOf id')
  projections : ∀ id id' answer, SameName m m' id id' →
    m.freeze.withAnswer id answer = m'.freeze.withAnswer id' answer
  /-- The advice on the component of a name. -/
  advice : ∀ settings name, (m.freeze.advise settings).filter (·.component = name) =
    (m'.freeze.advise settings).filter (·.component = name)
  falsified : m.freeze.falsifiedCount = m'.freeze.falsifiedCount

theorem SameResults.of_agree {m m' : Model} (h : Agree m m') (hl : m.Linked) (hl' : m'.Linked) :
    SameResults m m' where
  names := h.names
  callees := h.children
  callers id id' p p' hid hp := by
    -- callers are those that know of the callee
    rw [← hl.ends, ← hl'.ends]
    exact h.calls_iff hp hid
  analyses id id' hid := by
    rw [h.left.analysesOf_eq, h.right.analysesOf_eq]
    exact h.analyses id id' hid
  projections id id' answer hid := by
    rw [h.left.withAnswer_freeze, h.right.withAnswer_freeze]
    exact h.withAnswer hid answer
  advice := h.advise
  falsified := h.falsifiedCount

/-- If complete blocks are taken in, so is every other order of them in which those about one component follow each
other as before, and what is found out is the same by name: the components, the calls between them, the analyses of each
component and its projections and advice, all of these in the same order, and how many falsified properties are counted.
Bytes that end between two records are decoded to these models if these are their records. -/
theorem order_of_blocks_irrelevant {blocks blocks' : List Block} (hreorders : Reorders blocks blocks')
    {rs rs' : List (Nat × Record)} (hrs : rs.map (·.2) = blocks.flatMap Block.records)
    (hrs' : rs'.map (·.2) = blocks'.flatMap Block.records) (hnone : (acceptAll {} rs).2 = none) :
    let m := (acceptAll {} rs).1.model
    let m' := (acceptAll {} rs').1.model
    (acceptAll {} rs').2 = none ∧ SameResults m m' ∧
      ∀ output output',
        (Scanner.scan {} output).ending = .between → (Scanner.scan {} output').ending = .between →
        List.Forall₂ Reads (Scanner.scan {} output).records rs →
        List.Forall₂ Reads (Scanner.scan {} output').records rs' →
        ∃ d d', decodeOutput output = .ok d ∧ decodeOutput output' = .ok d' ∧ d.model = m ∧ d'.model = m' := by
  intro m m'
  have hspelt := (taken_in_iff_spelt hrs).1 hnone
  have hnone' : (acceptAll {} rs').2 = none :=
    (taken_in_iff_spelt hrs').2 fun b hb => hspelt b (hreorders.perm.mem_iff.2 hb)
  have hbehind := behind_of_taken hrs hnone
  have hbehind' := behind_of_taken hrs' hnone'
  have hagree : Agree m m' := hbehind.agree hbehind' hreorders
  refine ⟨hnone', .of_agree hagree hbehind.linked hbehind'.linked, ?_⟩
  intro output output' hending hending' hreads hreads'
  exact ⟨_, _, (decodeOutput_reads hending hreads).1 hnone, (decodeOutput_reads hending' hreads').1 hnone',
    rfl, rfl⟩

/-- Two blocks about a component and one about another, which they list. -/
def sampleBlocks : List Block :=
  [⟨"Top", ⟨["Sub"], [], [("Sub", 1)]⟩, [sampleReport "outer" none], none⟩,
    ⟨"Sub", {}, [{ sampleReport "inner" none with answer := "falsifiable" }], some ⟨"ivc", [⟨"core", []⟩]⟩⟩,
    ⟨"Top", ⟨[], ["Sub"], []⟩, [sampleReport "outer[2]" none], none⟩]

/-- The same blocks, the other component first. -/
def swappedBlocks : List Block :=
  [⟨"Sub", {}, [{ sampleReport "inner" none with answer := "falsifiable" }], some ⟨"ivc", [⟨"core", []⟩]⟩⟩,
    ⟨"Top", ⟨["Sub"], [], [("Sub", 1)]⟩, [sampleReport "outer" none], none⟩,
    ⟨"Top", ⟨[], ["Sub"], []⟩, [sampleReport "outer[2]" none], none⟩]

theorem swappedBlocks_agree :
    let before := acceptAll {} ((sampleBlocks.flatMap Block.records).map (0, ·))
    let after := acceptAll {} ((swappedBlocks.flatMap Block.records).map (0, ·))
    Reorders sampleBlocks swappedBlocks ∧ before.2 = none ∧ after.2 = none ∧
      before.1.model.names = ["Top", "Sub"] ∧ after.1.model.names = ["Sub", "Top"] ∧
      before.1.model.freeze.falsifiedCount = 1 ∧ after.1.model.freeze.falsifiedCount = 1 := by
  intro before after
  have hreorders : Reorders sampleBlocks swappedBlocks := .swap (by decide) _
  have hone : before.1.model.freeze.falsifiedCount = 1 := by decide +kernel
  have hrs : ((sampleBlocks.flatMap Block.records).map fun r => (0, r)).map (·.2) =
      sampleBlocks.flatMap Block.records := rfl
  have hrs' : ((swappedBlocks.flatMap Block.records).map fun r => (0, r)).map (·.2) =
      swappedBlocks.flatMap Block.records := rfl
  have hsame := order_of_blocks_irrelevant hreorders hrs hrs' rfl
  exact ⟨hreorders, rfl, hsame.1, rfl, rfl, hone, hsame.2.1.falsified ▸ hone⟩

end RecordOrder

end Verdicts
