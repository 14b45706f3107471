/-
How a watch shuts an engine down. Its phase goes from running to stopping to killed and never back, it tells the engine
to stop and kills it at most once each, the kill comes when the grace period is over and not before, and nothing is done
any more once the end of the engine was seen. `Looked` lists all that one look can do; `Disciplined` says what holds over
all looks, for every sequence of sights, whatever the clock reads.
-/
import Verdicts.Proofs.Engine.Watching

namespace Verdicts

/-- One phase may follow the other. -/
inductive Phase.Moves : Phase → Phase → Prop
  | stays (p : Phase) : Moves p p
  | stops (reason : StopReason) (deadline : Nat) : Moves .running (.stopping reason deadline)
  | kills (reason : StopReason) (deadline : Nat) : Moves (.stopping reason deadline) (.killed reason)

namespace Watch

variable {rule : StopRule} {w : Watch} {s : Sight}

/-! ## One look -/

/-- All that a look can do to a watch, with what it does to the engine. -/
inductive Looked (rule : StopRule) (w : Watch) (s : Sight) : Watch → List Intervention → Prop
  | gone {status : ExitStatus} : w.ended = some status → Looked rule w s w []
  | ends {status : ExitStatus} : w.ended = none → s.exit = some status →
      Looked rule w s { w with ended := some status } []
  | waits : w.ended = none → s.exit = none → Looked rule w s w []
  | begins {reason : StopReason} : w.ended = none → s.exit = none → w.phase = .running →
      (rule.marker = none ∨ w.inputHeld = false) →
      Looked rule w s { w with phase := .stopping reason (s.now + rule.gracePeriod) } []
  | tells {reason : StopReason} {marker : String} : w.ended = none → s.exit = none → w.phase = .running →
      rule.marker = some marker → w.inputHeld = true →
      Looked rule w s { w with phase := .stopping reason (s.now + rule.gracePeriod), inputHeld := false }
        [.tell marker]
  | kills {reason : StopReason} {deadline : Nat} : w.ended = none → s.exit = none →
      w.phase = .stopping reason deadline → deadline ≤ s.now →
      Looked rule w s { w with phase := .killed reason } [.kill]

theorem beginStop_looked (hended : w.ended = none) (hexit : s.exit = none) (hphase : w.phase = .running)
    (reason : StopReason) :
    Looked rule w s (w.beginStop rule reason s.now).1 (w.beginStop rule reason s.now).2 := by
  unfold beginStop
  split
  · exact .begins hended hexit hphase (.inl ‹_›)
  · split
    · exact .tells hended hexit hphase ‹_› ‹_›
    · exact .begins hended hexit hphase (.inr (Bool.not_eq_true _ ▸ ‹_›))

theorem look_looked (rule : StopRule) (w : Watch) (s : Sight) :
    Looked rule w s (w.look rule s).1 (w.look rule s).2 := by
  unfold look
  split
  · exact .gone ‹_›
  · rename_i hended
    split
    · exact .ends hended ‹_›
    · rename_i hexit
      split
      · split
        · exact beginStop_looked hended hexit ‹_› _
        · exact .waits hended hexit
      · split
        · exact .kills hended hexit ‹_› ‹_›
        · exact .waits hended hexit
      · exact .waits hended hexit

theorem Looked.moves {w' : Watch} {done : List Intervention} (h : Looked rule w s w' done) :
    w.phase.Moves w'.phase := by
  cases h with
  | begins _ _ hphase _ => rw [hphase]; exact .stops _ _
  | tells _ _ hphase _ _ => rw [hphase]; exact .stops _ _
  | kills _ _ hphase _ => rw [hphase]; exact .kills _ _
  | _ => exact .stays _

theorem Looked.tell_iff {w' : Watch} {done : List Intervention} (h : Looked rule w s w' done) (marker : String) :
    .tell marker ∈ done ↔
      w.phase = .running ∧ w'.phase ≠ .running ∧ rule.marker = some marker ∧ w.inputHeld = true := by
  cases h with
  | begins _ _ _ hsilent => rcases hsilent with hmarker | hheld <;> simp [*]
  | tells _ _ hphase hmarker hheld => simp [hphase, hmarker, hheld, eq_comm]
  | kills _ _ hphase _ => simp [hphase]
  -- nothing is done and the phase stays
  | _ => simp +contextual

theorem Looked.held_iff {w' : Watch} {done : List Intervention} (h : Looked rule w s w' done) :
    w'.inputHeld = true ↔ w.inputHeld = true ∧ ∀ marker, .tell marker ∉ done := by
  cases h <;> simp

theorem Looked.kill_iff {w' : Watch} {done : List Intervention} (h : Looked rule w s w' done) :
    .kill ∈ done ↔ ∃ reason deadline, w.phase = .stopping reason deadline ∧ w'.phase = .killed reason := by
  cases h with
  | kills _ _ hphase _ => simp [hphase]
  | _ => simp_all

/-- An engine is killed when the time to stop that it was given is over. -/
theorem Looked.kill_cases {w' : Watch} {done : List Intervention} (h : Looked rule w s w' done)
    (hkill : .kill ∈ done) : ∃ reason deadline, w.phase = .stopping reason deadline ∧ deadline ≤ s.now := by
  cases h with
  | kills _ _ hphase hdue => exact ⟨_, _, hphase, hdue⟩
  | _ => simp at hkill

/-- A phase of stopping was there before the look or began with it. -/
theorem Looked.stopping {w' : Watch} {done : List Intervention} {reason : StopReason} {deadline : Nat}
    (h : Looked rule w s w' done) (hphase : w'.phase = .stopping reason deadline) :
    w.phase = .stopping reason deadline ∨ w.phase = .running ∧ deadline = s.now + rule.gracePeriod := by
  cases h <;> simp_all

/-- A look at an engine that has ended does nothing and notes the end. -/
theorem Looked.ended {w' : Watch} {done : List Intervention} {status : ExitStatus}
    (h : Looked rule w s w' done) (hexit : s.exit = some status) :
    done = [] ∧ w'.ended ≠ none ∧ w'.phase = w.phase := by
  cases h <;> simp_all

/-- What may still be done to an engine: it may be told while its input is held and no stop has begun, and killed
once. -/
def allowance (rule : StopRule) (w : Watch) : List Intervention :=
  match w.phase with
  | .running => (if w.inputHeld then (rule.marker.map .tell).toList else []) ++ [.kill]
  | .stopping _ _ => [.kill]
  | .killed _ => []

/-- What a look does is taken from what may be done. -/
theorem Looked.spends {w' : Watch} {done : List Intervention} (h : Looked rule w s w' done) :
    (done ++ w'.allowance rule).Sublist (w.allowance rule) := by
  cases h with
  | begins _ _ hphase _ => simp [allowance, hphase]
  | tells _ _ hphase hmarker hheld => simp [allowance, hphase, hmarker, hheld]
  | kills _ _ hphase _ => simp [allowance, hphase]
  | _ => exact List.Sublist.refl _

/-! ## All looks -/

variable {sights : List Sight}

/-- The watch behind the first `k` sights. -/
def atLook (rule : StopRule) (w : Watch) (sights : List Sight) (k : Nat) : Watch :=
  w.behind rule (sights.take k)

/-- What is done to the engine at the sight `k`; nothing if there is none. -/
def doneAt (rule : StopRule) (w : Watch) (sights : List Sight) (k : Nat) : List Intervention :=
  match sights[k]? with
  | some s => ((w.atLook rule sights k).look rule s).2
  | none => []

/-- All that is done to the engine, in order. -/
def course (rule : StopRule) (w : Watch) (sights : List Sight) : List Intervention :=
  (List.range sights.length).flatMap (w.doneAt rule sights)

@[simp] theorem atLook_zero : w.atLook rule sights 0 = w := rfl

theorem atLook_succ {k : Nat} (hs : sights[k]? = some s) :
    w.atLook rule sights (k + 1) = ((w.atLook rule sights k).look rule s).1 := by
  simp [atLook, behind, List.take_add_one, hs]

theorem atLook_looked {k : Nat} (hs : sights[k]? = some s) :
    Looked rule (w.atLook rule sights k) s (w.atLook rule sights (k + 1)) (w.doneAt rule sights k) := by
  rw [atLook_succ hs, doneAt, hs]
  exact look_looked ..

/-- Behind the last sight nothing happens. -/
theorem atLook_of_none {k : Nat} (hs : sights[k]? = none) :
    w.atLook rule sights (k + 1) = w.atLook rule sights k ∧ w.doneAt rule sights k = [] := by
  simp [atLook, doneAt, List.take_add_one, hs]

/-- What every look keeps is kept. -/
theorem atLook_keeps {P : Watch → Prop} (hstep : ∀ v s, P v → P (v.look rule s).1) {j k : Nat} (hjk : j ≤ k)
    (h : P (w.atLook rule sights j)) : P (w.atLook rule sights k) := by
  induction hjk with
  | refl => exact h
  | @step k _ ih =>
    cases hs : sights[k]? with
    | none => rwa [(atLook_of_none hs).1]
    | some s =>
      rw [atLook_succ hs]
      exact hstep _ s ih

/-- A watch that is stopping began to at some sight, and is to wait for the grace period from then. -/
theorem atLook_stopping (hw : w.phase = .running) {k : Nat} {reason : StopReason} {deadline : Nat}
    (hk : (w.atLook rule sights k).phase = .stopping reason deadline) :
    ∃ j s, j < k ∧ sights[j]? = some s ∧ (w.atLook rule sights j).phase = .running ∧
      (w.atLook rule sights (j + 1)).phase = .stopping reason deadline ∧ deadline = s.now + rule.gracePeriod := by
  induction k with
  | zero =>
    rw [atLook_zero, hw] at hk
    cases hk
  | succ k ih =>
    cases hs : sights[k]? with
    | none =>
      rw [(atLook_of_none hs).1] at hk
      obtain ⟨j, t, hj, h⟩ := ih hk
      exact ⟨j, t, by omega, h⟩
    | some s =>
      rcases (atLook_looked hs).stopping hk with hold | ⟨hrunning, hdeadline⟩
      · obtain ⟨j, t, hj, h⟩ := ih hold
        exact ⟨j, t, by omega, h⟩
      · exact ⟨k, s, by omega, hs, hrunning, hk, hdeadline⟩

theorem course_spends (n : Nat) :
    ((List.range n).flatMap (w.doneAt rule sights) ++ (w.atLook rule sights n).allowance rule).Sublist
      (w.allowance rule) := by
  induction n with
  | zero => exact List.Sublist.refl _
  | succ n ih =>
    refine List.Sublist.trans ?_ ih
    rw [List.range_succ, List.flatMap_append, List.append_assoc, List.flatMap_singleton]
    refine List.Sublist.append_left ?_ _
    cases hs : sights[n]? with
    | none => rw [(atLook_of_none hs).1, (atLook_of_none hs).2]; exact List.Sublist.refl _
    | some s => exact (atLook_looked hs).spends

/-- An engine is told and killed at most once each, and told before it is killed. -/
theorem course_sublist : (w.course rule sights).Sublist (w.allowance rule) :=
  (List.sublist_append_left ..).trans (course_spends sights.length)

/-- The input is held as long as it was held in the beginning and the engine was not told. -/
theorem atLook_held (k : Nat) :
    (w.atLook rule sights k).inputHeld = true ↔
      w.inputHeld = true ∧ ∀ j < k, ∀ marker, .tell marker ∉ w.doneAt rule sights j := by
  induction k with
  | zero => simp
  | succ k ih =>
    have hlook : (w.atLook rule sights (k + 1)).inputHeld = true ↔
        (w.atLook rule sights k).inputHeld = true ∧ ∀ marker, .tell marker ∉ w.doneAt rule sights k := by
      cases hs : sights[k]? with
      | none => simp [atLook_of_none hs]
      | some s => exact (atLook_looked hs).held_iff
    rw [hlook, ih, and_assoc]
    refine and_congr_right fun _ => ⟨?_, fun h => ⟨fun j hj => h j (by omega), h k (by omega)⟩⟩
    rintro ⟨hbefore, hlast⟩ j hj
    rcases Nat.lt_succ_iff_lt_or_eq.1 hj with hj | rfl
    · exact hbefore j hj
    · exact hlast

/-- Nothing happens at a sight that shows the end of the engine, nor at any sight behind it. -/
theorem atLook_ended {j : Nat} {status : ExitStatus} (hs : sights[j]? = some s) (hexit : s.exit = some status)
    {k : Nat} (hjk : j ≤ k) :
    w.doneAt rule sights k = [] ∧ (w.atLook rule sights (k + 1)).phase = (w.atLook rule sights j).phase := by
  -- from the sight on the end is known, and the phase is the one at the sight
  have hj : w.doneAt rule sights j = [] ∧ (w.atLook rule sights (j + 1)).ended ≠ none ∧
      (w.atLook rule sights (j + 1)).phase = (w.atLook rule sights j).phase :=
    (atLook_looked hs).ended hexit
  rcases Nat.eq_or_lt_of_le hjk with rfl | hlt
  · exact ⟨hj.1, hj.2.2⟩
  · have hover : ∀ v : Watch, v.ended ≠ none → ∀ t, v.look rule t = (v, []) := by
      intro v hv t
      unfold look
      split
      · rfl
      · exact absurd ‹_› hv
    obtain ⟨hended, hphase⟩ : (w.atLook rule sights k).ended ≠ none ∧
        (w.atLook rule sights k).phase = (w.atLook rule sights j).phase := atLook_keeps
      (P := fun v => v.ended ≠ none ∧ v.phase = (w.atLook rule sights j).phase)
      (fun v t hv => by rw [hover v hv.1]; exact hv) hlt hj.2
    cases ht : sights[k]? with
    | none => rw [(atLook_of_none ht).1, (atLook_of_none ht).2]; exact ⟨rfl, hphase⟩
    | some t =>
      simp only [atLook_succ ht, doneAt, ht, hover _ hended]
      exact ⟨trivial, hphase⟩

end Watch

/-! ## Shutdown -/

open Watch in
/-- What holds of the looks at an engine, for a watch that has seen nothing yet. -/
structure Disciplined (rule : StopRule) (w : Watch) (sights : List Sight) : Prop where
  /-- At each look the phase stays, or a stop begins, or an engine that was to stop is killed. -/
  phase : ∀ k, (w.atLook rule sights k).phase.Moves (w.atLook rule sights (k + 1)).phase
  reason : ∀ j k reason, j ≤ k → (w.atLook rule sights j).phase.reason? = some reason →
    (w.atLook rule sights k).phase.reason? = some reason
  /-- All that is done is to tell the engine, once at most and only if its input was held and there is a marker, and
  then to kill it, once at most. -/
  once : (w.course rule sights).Sublist
    ((if w.inputHeld then (rule.marker.map .tell).toList else []) ++ [.kill])
  /-- The engine is told exactly when a stop begins, if there is a marker and the input is still held. -/
  tell : ∀ k marker, .tell marker ∈ w.doneAt rule sights k ↔
    (w.atLook rule sights k).phase = .running ∧ (w.atLook rule sights (k + 1)).phase ≠ .running ∧
      rule.marker = some marker ∧ (w.atLook rule sights k).inputHeld = true
  held : ∀ k, (w.atLook rule sights k).inputHeld = true ↔
    w.inputHeld = true ∧ ∀ j < k, ∀ marker, .tell marker ∉ w.doneAt rule sights j
  /-- The engine is killed exactly when the phase becomes that of a killed engine. -/
  kill : ∀ k, .kill ∈ w.doneAt rule sights k ↔ ∃ reason deadline,
    (w.atLook rule sights k).phase = .stopping reason deadline ∧
      (w.atLook rule sights (k + 1)).phase = .killed reason
  /-- A kill comes behind the sight at which the stop began, and the clock has gone on by the grace period at least. -/
  grace : ∀ k, .kill ∈ w.doneAt rule sights k → ∃ j s t, j < k ∧ sights[j]? = some s ∧ sights[k]? = some t ∧
    (w.atLook rule sights j).phase = .running ∧ (w.atLook rule sights (j + 1)).phase ≠ .running ∧
      s.now + rule.gracePeriod ≤ t.now
  /-- Once a look has shown the end of the engine, nothing is done and no stop begins. -/
  ended : ∀ j s status, sights[j]? = some s → s.exit = some status → ∀ k, j ≤ k →
    w.doneAt rule sights k = [] ∧ (w.atLook rule sights (k + 1)).phase = (w.atLook rule sights j).phase

namespace Watch

/-- A watch shuts its engine down in this way, whatever it sees and whatever the clock reads, which need not even be
monotone; the input may be held or not, there may be a marker or none, and the grace period may be of any length. -/
theorem disciplined (rule : StopRule) (inputHeld : Bool) (sights : List Sight) :
    Disciplined rule { inputHeld } sights := by
  generalize hw : ({ inputHeld } : Watch) = w
  have hrunning : w.phase = .running := by rw [← hw]
  -- behind the last sight nothing moves
  have hcases : ∀ k, (∃ s, sights[k]? = some s ∧
      Looked rule (w.atLook rule sights k) s (w.atLook rule sights (k + 1)) (w.doneAt rule sights k)) ∨
        sights[k]? = none ∧ w.atLook rule sights (k + 1) = w.atLook rule sights k ∧
          w.doneAt rule sights k = [] := by
    intro k
    cases hs : sights[k]? with
    | none => exact .inr ⟨rfl, atLook_of_none hs⟩
    | some s => exact .inl ⟨s, rfl, atLook_looked hs⟩
  refine ⟨fun k => ?_, fun j k reason hjk hj => ?_, ?_, fun k marker => ?_, atLook_held, fun k => ?_,
    fun k hk => ?_, fun j s status hs hexit k hjk => atLook_ended hs hexit hjk⟩
  · rcases hcases k with ⟨s, -, hlooked⟩ | ⟨-, hstays, -⟩
    · exact hlooked.moves
    · rw [hstays]; exact .stays _
  · exact atLook_keeps (P := fun v => v.phase.reason? = some reason) (fun v s h => reason_look h s) hjk hj
  · have hcourse : (w.course rule sights).Sublist (w.allowance rule) := course_sublist
    rwa [allowance, hrunning] at hcourse
  · rcases hcases k with ⟨s, -, hlooked⟩ | ⟨-, hstays, hdone⟩
    · exact hlooked.tell_iff marker
    · simp +contextual [hstays, hdone]
  · rcases hcases k with ⟨s, -, hlooked⟩ | ⟨-, hstays, hdone⟩
    · exact hlooked.kill_iff
    · simp +contextual [hstays, hdone]
  · rcases hcases k with ⟨t, ht, hlooked⟩ | ⟨-, -, hdone⟩
    · obtain ⟨reason, deadline, hphase, hdue⟩ := hlooked.kill_cases hk
      obtain ⟨j, s, hjk, hs, hbefore, hbehind, rfl⟩ := atLook_stopping hrunning hphase
      exact ⟨j, s, t, hjk, hs, ht, hbefore, by simp [hbehind], hdue⟩
    · rw [hdone] at hk
      cases hk

-- the clock goes back behind the request, and the deadline stays that of the request
example : course ⟨5, some "stop"⟩ {} [{ cancelled := true, now := 3 }, { now := 1 }, { now := 8 }, { now := 9 }] =
    [.tell "stop", .kill] := by
  decide

end Watch

end Verdicts
