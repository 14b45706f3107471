/-
What a watch makes of its sights. The first sight of a running engine that shows a reason begins the stop, for that
reason; nothing that is seen afterwards changes the reason. Main statement: `reason_of_sights`.
-/
import Verdicts.Engine.Watch

namespace Verdicts

/-- `Shows s reason`: a look shows a reason to begin a stop. A request is one whatever came of the output; output that
cannot be decoded is one if nothing was requested. -/
inductive Sight.Shows (s : Sight) : StopReason → Prop
  | requested : s.cancelled = true → Shows s .requested
  | undecodable : s.cancelled = false → s.undecodable = true → Shows s .undecodable

/-- `StopsFor sights reason`: a stop begins for this reason. Some look at a running engine shows it, and every look
before that was at a running engine, too, and showed neither a request nor output that cannot be decoded. -/
def StopsFor (sights : List Sight) (reason : StopReason) : Prop :=
  ∃ before s after, sights = before ++ s :: after ∧
    (∀ t ∈ before, t.exit = none ∧ t.cancelled = false ∧ t.undecodable = false) ∧
    s.exit = none ∧ s.Shows reason

theorem Sight.Shows.unique {s : Sight} {reason reason' : StopReason} (h : s.Shows reason)
    (h' : s.Shows reason') : reason = reason' := by
  cases h with
  | requested hc =>
    cases h' with
    | requested _ => rfl
    | undecodable hc' _ => rw [hc] at hc'; cases hc'
  | undecodable hc _ =>
    cases h' with
    | requested hc' => rw [hc] at hc'; cases hc'
    | undecodable _ _ => rfl

/-- A stop that begins with the first of some sights begins for what that shows. -/
theorem stopsFor_cons_of_shows {s : Sight} {reason : StopReason} (hexit : s.exit = none) (h : s.Shows reason)
    (rest : List Sight) (reason' : StopReason) : StopsFor (s :: rest) reason' ↔ reason = reason' := by
  constructor
  · rintro ⟨before, t, after, hsplit, hquiet, -, ht⟩
    cases before with
    | nil =>
      cases hsplit
      exact h.unique ht
    | cons u before =>
      cases hsplit
      obtain ⟨-, hc, hu⟩ := hquiet s (List.mem_cons_self ..)
      cases h with
      | requested hc' => rw [hc] at hc'; cases hc'
      | undecodable _ hu' => rw [hu] at hu'; cases hu'
  · rintro rfl
    exact ⟨[], s, rest, rfl, fun _ ht => (by cases ht), hexit, h⟩

/-- A sight of a running engine that shows nothing leaves it to the others whether a stop begins. -/
theorem stopsFor_cons_of_quiet {s : Sight} (hexit : s.exit = none) (hc : s.cancelled = false)
    (hu : s.undecodable = false) (rest : List Sight) (reason : StopReason) :
    StopsFor (s :: rest) reason ↔ StopsFor rest reason := by
  constructor
  · rintro ⟨before, t, after, hsplit, hquiet, ht, hshows⟩
    cases before with
    | nil =>
      cases hsplit
      cases hshows with
      | requested hc' => rw [hc] at hc'; cases hc'
      | undecodable _ hu' => rw [hu] at hu'; cases hu'
    | cons u before =>
      cases hsplit
      exact ⟨before, t, after, rfl, fun v hv => hquiet v (List.mem_cons_of_mem _ hv), ht, hshows⟩
  · rintro ⟨before, t, after, rfl, hquiet, ht, hshows⟩
    refine ⟨s :: before, t, after, rfl, ?_, ht, hshows⟩
    intro v hv
    rcases List.mem_cons.1 hv with rfl | hv
    · exact ⟨hexit, hc, hu⟩
    · exact hquiet v hv

/-- No stop begins once the engine was seen to have ended. -/
theorem not_stopsFor_of_exit {s : Sight} {status : ExitStatus} (hexit : s.exit = some status) (rest : List Sight)
    (reason : StopReason) : ¬StopsFor (s :: rest) reason := by
  rintro ⟨before, t, after, hsplit, hquiet, ht, -⟩
  cases before with
  | nil =>
    cases hsplit
    rw [hexit] at ht
    cases ht
  | cons u before =>
    cases hsplit
    rw [(hquiet s (List.mem_cons_self ..)).1] at hexit
    cases hexit

namespace Watch

variable {rule : StopRule}

/-- The watch behind some sights. -/
def behind (rule : StopRule) (w : Watch) (sights : List Sight) : Watch :=
  sights.foldl (fun w s => (w.look rule s).1) w

theorem behind_cons (w : Watch) (s : Sight) (rest : List Sight) :
    w.behind rule (s :: rest) = (w.look rule s).1.behind rule rest := rfl

theorem reasonIn_eq_some {s : Sight} {reason : StopReason} : reasonIn s = some reason ↔ s.Shows reason := by
  unfold reasonIn
  constructor
  · intro h
    split at h
    · rename_i hc
      cases h
      exact .requested hc
    · rename_i hc
      split at h
      · rename_i hu
        cases h
        exact .undecodable (Bool.not_eq_true _ ▸ hc) hu
      · cases h
  · intro h
    cases h with
    | requested hc => rw [if_pos hc]
    | undecodable hc hu => rw [if_neg (by rw [hc]; exact Bool.false_ne_true), if_pos hu]

theorem reasonIn_eq_none {s : Sight} (h : reasonIn s = none) : s.cancelled = false ∧ s.undecodable = false := by
  unfold reasonIn at h
  split at h
  · cases h
  · rename_i hc
    split at h
    · cases h
    · rename_i hu
      exact ⟨Bool.not_eq_true _ ▸ hc, Bool.not_eq_true _ ▸ hu⟩

@[simp] theorem reason_beginStop (w : Watch) (reason : StopReason) (now : Nat) :
    (w.beginStop rule reason now).1.phase.reason? = some reason := by
  unfold beginStop
  split
  · rfl
  · split <;> rfl

/-- The reason of a stop that has begun never changes. -/
theorem reason_look {w : Watch} {reason : StopReason} (h : w.phase.reason? = some reason) (s : Sight) :
    (w.look rule s).1.phase.reason? = some reason := by
  unfold look
  cases w.ended with
  | some status => exact h
  | none =>
    cases s.exit with
    | some status => exact h
    | none =>
      cases hp : w.phase with
      | running => rw [hp] at h; cases h
      | stopping r deadline =>
        rw [hp] at h
        simp only
        split
        · exact h
        · rw [hp]; exact h
      | killed r =>
        rw [hp] at h
        simp only [hp]
        exact h

theorem reason_behind {w : Watch} {reason : StopReason} (h : w.phase.reason? = some reason)
    (sights : List Sight) : (w.behind rule sights).phase.reason? = some reason := by
  induction sights generalizing w with
  | nil => exact h
  | cons s rest ih => exact ih (reason_look h s)

theorem behind_of_ended {w : Watch} {status : ExitStatus} (h : w.ended = some status) (sights : List Sight) :
    w.behind rule sights = w := by
  induction sights with
  | nil => rfl
  | cons s rest ih =>
    have hlook : (w.look rule s).1 = w := by
      unfold look
      rw [h]
    rw [behind_cons, hlook, ih]

/-- A watch that has begun no stop yet is stopping behind some sights exactly if a stop begins in them, and for its
reason. -/
theorem reason_of_sights {w : Watch} (hrunning : w.phase = .running) (hended : w.ended = none)
    (sights : List Sight) (reason : StopReason) :
    (w.behind rule sights).phase.reason? = some reason ↔ StopsFor sights reason := by
  induction sights with
  | nil =>
    show w.phase.reason? = some reason ↔ _
    rw [hrunning]
    constructor
    · intro h
      cases h
    · rintro ⟨before, s, after, hsplit, -⟩
      cases before <;> cases hsplit
  | cons s rest ih =>
    rw [behind_cons]
    cases hexit : s.exit with
    | some status =>
      -- the watch is over, and no stop has begun
      have hlook : (w.look rule s).1 = { w with ended := some status } := by
        unfold look
        rw [hended, hexit]
      rw [hlook, behind_of_ended rfl, show ({ w with ended := some status } : Watch).phase = w.phase from rfl,
        hrunning]
      constructor
      · intro h
        cases h
      · intro h
        exact absurd h (not_stopsFor_of_exit hexit rest reason)
    | none =>
      cases hreason : reasonIn s with
      | some first =>
        have hlook : (w.look rule s).1 = (w.beginStop rule first s.now).1 := by
          unfold look
          simp only [hended, hexit, hrunning, hreason]
        rw [hlook, stopsFor_cons_of_shows hexit (reasonIn_eq_some.1 hreason)]
        rw [reason_behind (reason_beginStop w first s.now)]
        exact Option.some_inj
      | none =>
        have hlook : (w.look rule s).1 = w := by
          unfold look
          simp only [hended, hexit, hrunning, hreason]
        obtain ⟨hc, hu⟩ := reasonIn_eq_none hreason
        rw [hlook, stopsFor_cons_of_quiet hexit hc hu]
        exact ih

end Watch

end Verdicts
