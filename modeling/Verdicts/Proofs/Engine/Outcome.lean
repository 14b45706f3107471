/-
What a session comes to, for every interleaving of its parties. Four things decide: whether a stop began and for which
reason, how the engine ended, and whether the captured bytes can be decoded. `Classified` says for each kind of outcome
exactly when it comes about.

A stop for output that cannot be decoded always comes with the failure that it is for: the watch sees the alarm, and the
alarm is raised behind a failure that stays recorded (`Run.alarmed`, `Sound.alarm`).
-/
import Verdicts.Proofs.Engine.Attending
import Verdicts.Proofs.Engine.Watching

namespace Verdicts

theorem ExitStatus.class_eq_some_iff {status : ExitStatus} {verdict : ExitClass} :
    status.class? = some verdict ↔ status = .code verdict.code := by
  constructor
  · intro h
    cases status with
    | signal number => cases h
    | code value =>
      have hcode := List.find?_some (p := fun v : ExitClass => decide (v.code = value)) h
      rw [← of_decide_eq_true hcode]
  · rintro rfl
    cases verdict <;> rfl

theorem StopsFor.exists_undecodable {seen : List Sight} (h : StopsFor seen .undecodable) :
    ∃ s ∈ seen, s.undecodable = true := by
  obtain ⟨before, s, after, rfl, -, -, hshows⟩ := h
  cases hshows with
  | undecodable _ hu => exact ⟨s, List.mem_append_right _ (List.mem_cons_self ..), hu⟩

namespace Parties

variable {rule : StopRule} {p q : Parties} {acts : List Act} {status : ExitStatus}

/-- How a session ends whose parties have led it to be taken. `sights` are those of its watch, `raw` is what was
captured of the output, and `status` is how the engine ended. -/
structure Classified (sights : List Sight) (raw : Bytes) (status : ExitStatus)
    (outcome : Except SessionError Session) : Prop where
  /-- It is cancelled exactly if a stop began on request. -/
  cancelled : (∃ s, outcome = .ok s ∧ s.status = .cancelled) ↔ StopsFor sights .requested
  /-- It fails with the first failure to decode exactly if there is one and a stop began for it, or else no stop began
  and the engine told a verdict. -/
  undecodable : ∀ e, (∃ captured decoded, outcome = .error (.undecodable e captured decoded)) ↔
    (StopsFor sights .undecodable ∨
      (∀ reason, ¬StopsFor sights reason) ∧ ∃ verdict : ExitClass, status = .code verdict.code) ∧
    ∃ d, decodeOutput raw = .error ⟨e, d⟩
  /-- It fails with the end of the engine exactly if no stop began and that end tells no verdict. -/
  abnormal : ∀ code, (∃ captured decoded, outcome = .error (.abnormalTermination code captured decoded)) ↔
    (∀ reason, ¬StopsFor sights reason) ∧ (∀ verdict : ExitClass, status ≠ .code verdict.code) ∧
    code = status.code?
  /-- It is completed exactly if no stop began, the engine told that verdict, and its output can be decoded to its
  end. -/
  completed : ∀ verdict, (∃ s, outcome = .ok s ∧ s.status = .completed verdict) ↔
    (∀ reason, ¬StopsFor sights reason) ∧ status = .code verdict.code ∧ ∃ d, decodeOutput raw = .ok d
  /-- A stop for output that cannot be decoded has begun only if that is so. -/
  justified : StopsFor sights .undecodable → ∃ failure, decodeOutput raw = .error failure

/-! ## What the watch saw -/

theorem Step.alarmed {act : Act} (hstep : Step rule p act q) (h : p.alarmed = true) : q.alarmed = true := by
  cases hstep with
  | alarm _ => rfl
  | _ => exact h

/-- If the watch sees the alarm, it is raised, and stays so. -/
theorem Run.alarmed (hrun : Run rule p acts q) (h : p.alarmed = true ∨ ∃ s ∈ sights acts, s.undecodable = true) :
    q.alarmed = true := by
  induction hrun with
  | nil =>
    rcases h with h | ⟨s, hs, -⟩
    · exact h
    · cases hs
  | @cons p q r act acts hstep _ ih =>
    rcases h with h | ⟨s, hs, hu⟩
    · exact ih (.inl (hstep.alarmed h))
    · cases hstep with
      | @look sight hended hsight =>
        rcases List.mem_cons.1 hs with rfl | hs
        · exact ih (.inl (hsight.symm.trans hu))
        · exact ih (.inr ⟨s, hs, hu⟩)
      | _ => exact ih (.inr ⟨s, hs, hu⟩)

/-- The stop that a session is in is the one that began in the sights of its watch. -/
theorem Run.reason {inputHeld : Bool} (hrun : Run rule (start inputHeld) acts p) (reason : StopReason) :
    p.watch.phase.reason? = some reason ↔ StopsFor (sights acts) reason := by
  rw [hrun.watch]
  exact Watch.reason_of_sights rfl rfl (sights acts) reason

/-! ## What the reader knows -/

/-- Output that fails when it is fed fails in the same way as a whole. -/
theorem complete_of_feed {raw : Bytes} {d : Decoder} {e : DecodeError} (h : Decoder.feed {} raw = (d, some e)) :
    Decoder.complete {} raw = (d, some e) := by
  rw [Decoder.feed_of_live rfl] at h
  rw [Decoder.complete, h]

/-- A failure that is taken is the first one in what was captured. -/
theorem Sound.failed (h : p.Sound) (htaken : p.Taken status) {e : DecodeError} (hfailure : p.reader.failure = some e) :
    ∃ d, decodeOutput p.reader.captured = .error ⟨e, d⟩ := by
  rcases h.taken htaken with hcomplete | ⟨hknows, -⟩
  · rw [hfailure] at hcomplete
    exact ⟨_, Decoder.decodeOutput_eq_error_iff.2 hcomplete⟩
  · rw [OutputReader.Knows, hfailure] at hknows
    exact ⟨_, Decoder.decodeOutput_eq_error_iff.2 (complete_of_feed hknows)⟩

/-- Unless a stop began, what is taken without failure is a complete output that can be decoded. -/
theorem Sound.decoded (h : p.Sound) (htaken : p.Taken status) (hreason : p.watch.phase.reason? = none)
    (hfailure : p.reader.failure = none) : decodeOutput p.reader.captured = .ok p.reader.decoder := by
  rcases h.taken htaken with hcomplete | ⟨-, reason, hphase⟩
  · rw [hfailure] at hcomplete
    exact Decoder.decodeOutput_eq_ok_iff.2 hcomplete
  · rw [hphase] at hreason
    cases hreason

/-- Where the alarm was raised, there is a failure to be taken. -/
theorem Sound.exists_failure (h : p.Sound) (htaken : p.Taken status) (halarmed : p.alarmed = true) :
    ∃ e, p.reader.failure = some e := by
  have hfed := h.alarm halarmed
  rcases hfeed : Decoder.feed {} p.reader.captured with ⟨d, _ | e⟩
  · rw [hfeed] at hfed
    cases hfed
  · rcases h.taken htaken with hcomplete | ⟨hknows, -⟩
    · rw [complete_of_feed hfeed] at hcomplete
      exact ⟨e, (congrArg Prod.snd hcomplete).symm⟩
    · rw [OutputReader.Knows, hfeed] at hknows
      exact ⟨e, (congrArg Prod.snd hknows).symm⟩

end Parties

/-! ## Conclusions -/

namespace Attendance

variable {a : Attendance} {status : ExitStatus}

theorem conclude_requested (hreason : a.watch.phase.reason? = some .requested) : a.conclude status =
    .ok ⟨.cancelled, a.reader.decoder.model, a.reader.decoder.transcript, a.captured⟩ := by
  unfold conclude
  rw [hreason]

theorem conclude_undecodable {e : DecodeError} (hfailure : a.reader.failure = some e)
    (h : a.watch.phase.reason? = some .undecodable ∨ a.watch.phase.reason? = none ∧ status.class?.isSome) :
    a.conclude status = .error (.undecodable e a.captured a.reader.decoder.model) := by
  unfold conclude
  rcases h with hreason | ⟨hreason, hclass⟩
  · rw [hreason, hfailure]
  · obtain ⟨verdict, hverdict⟩ := Option.isSome_iff_exists.1 hclass
    rw [hreason, hverdict, hfailure]

theorem conclude_abnormal (hreason : a.watch.phase.reason? = none) (hclass : status.class? = none) :
    a.conclude status = .error (.abnormalTermination status.code? a.captured a.reader.decoder.model) := by
  unfold conclude
  rw [hreason, hclass]

theorem conclude_completed {verdict : ExitClass} (hreason : a.watch.phase.reason? = none)
    (hclass : status.class? = some verdict) (hfailure : a.reader.failure = none) : a.conclude status =
      .ok ⟨.completed verdict, a.reader.decoder.model, a.reader.decoder.transcript, a.captured⟩ := by
  unfold conclude
  rw [hreason, hclass, hfailure]

end Attendance

namespace Parties

variable {rule : StopRule} {p : Parties} {acts : List Act} {status : ExitStatus}

/-- A session in which some stop began is stopped for that reason alone. -/
theorem stopsFor_iff {seen : List Sight} {reason : StopReason} {reason? : Option StopReason}
    (hstop : ∀ r, reason? = some r ↔ StopsFor seen r) (hreason : reason? = some reason) (r : StopReason) :
    StopsFor seen r ↔ reason = r := by
  rw [← hstop, hreason, Option.some_inj]

/-- However the steps of the parties interleave, the outcome is classified as it should be. -/
theorem Run.classified {inputHeld : Bool} (hrun : Run rule (start inputHeld) acts p) (htaken : p.Taken status) :
    Classified (sights acts) p.reader.captured status (p.conclude status) := by
  have hsound := (start_sound inputHeld).run hrun
  have hstop := hrun.reason
  cases hreason : p.watch.phase.reason? with
  | some reason =>
    have hbegun := stopsFor_iff hstop hreason
    cases reason with
    | requested =>
      rw [Attendance.conclude_requested hreason]
      constructor <;> simp [hbegun]
    | undecodable =>
      -- the look that began this stop saw the alarm
      obtain ⟨e, hfailure⟩ := hsound.exists_failure htaken
        (hrun.alarmed (.inr ((hbegun .undecodable).2 rfl).exists_undecodable))
      obtain ⟨d, hd⟩ := hsound.failed htaken hfailure
      rw [Attendance.conclude_undecodable hfailure (.inl hreason)]
      constructor <;> simp [hbegun, hd, eq_comm]
  | none =>
    have hnone : ∀ r, ¬StopsFor (sights acts) r := by
      intro r hr
      rw [← hstop, hreason] at hr
      cases hr
    cases hclass : status.class? with
    | none =>
      have hverdict : ∀ verdict : ExitClass, status ≠ .code verdict.code := by
        intro verdict h
        rw [← ExitStatus.class_eq_some_iff, hclass] at h
        cases h
      rw [Attendance.conclude_abnormal hreason hclass]
      constructor <;> simp [hnone, hverdict, eq_comm]
    | some verdict =>
      have hstatus := ExitStatus.class_eq_some_iff.1 hclass
      have hcode : ∀ other : ExitClass, status = .code other.code ↔ verdict = other := by
        intro other
        rw [← ExitStatus.class_eq_some_iff, hclass, Option.some_inj]
      cases hfailure : p.reader.failure with
      | none =>
        have hd := hsound.decoded htaken hreason hfailure
        rw [Attendance.conclude_completed hreason hclass hfailure]
        constructor <;> simp [hnone, hcode, hd]
      | some e =>
        obtain ⟨d, hd⟩ := hsound.failed htaken hfailure
        rw [Attendance.conclude_undecodable hfailure (.inr ⟨hreason, by rw [hclass]; rfl⟩)]
        constructor <;> simp [hnone, hcode, hd, eq_comm]

theorem Run.captured_start {inputHeld : Bool} (hrun : Run rule (start inputHeld) acts p) :
    p.reader.captured = capturedBy acts := by
  rw [hrun.captured]
  rfl

/-- Outcomes are classified as they should be for every schedule of the parties of a session, whatever the rule that
its engine is stopped by; and what a host does when it runs a session whose engine was started is one of these
schedules. -/
theorem outcome_classified :
    (∀ (rule : StopRule) (inputHeld : Bool) (acts : List Act) (p : Parties) (status : ExitStatus),
      Run rule (start inputHeld) acts p → p.Taken status →
        Classified (sights acts) (capturedBy acts) status (p.conclude status)) ∧
    ∀ (h : Host) (config : EngineConfig) (request : SessionRequest) (done : Executed),
      h.Starts config request → h.execute config request = some done →
        ∃ acts p status, Host.Ran config request acts p status ∧
          Classified (sights acts) (capturedBy acts) status done.outcome := by
  constructor
  · intro rule inputHeld acts p status hrun htaken
    rw [← hrun.captured_start]
    exact hrun.classified htaken
  · intro h config request done hstarts hdone
    obtain ⟨acts, p, status, hran, houtcome, -⟩ := Host.exists_run_of_execute hstarts hdone
    refine ⟨acts, p, status, hran, ?_⟩
    rw [houtcome, ← hran.run.captured_start]
    exact hran.run.classified hran.taken

/-- Output fails to be decoded, which begins a stop; then the session is cancelled, and then the engine ends as if
nothing had happened. -/
def lateRequest : List Act :=
  [.capture [0x78], .decode, .look ⟨none, false, false, 0⟩, .alarm, .look ⟨none, false, true, 1⟩,
    .look ⟨none, true, true, 2⟩, .look ⟨some (.code 20), true, true, 3⟩, .outputEnd]

/-- A host whose engine writes an empty array and tells that all is valid. -/
def briefHost : Host where
  programs := [("kind2", fun _ => .write .output [0x5B, 0x5D] fun _ => .exit (.code 20))]

theorem lateRequest_classified :
    (∃ p, Run ⟨100, none⟩ (start true) lateRequest p ∧ p.Taken (.code 20) ∧
      Classified (sights lateRequest) (capturedBy lateRequest) (.code 20) (p.conclude (.code 20))) ∧
    ∃ done, briefHost.Starts {} {} ∧ briefHost.execute {} {} = some done ∧
      ∃ acts p status, Host.Ran {} {} acts p status ∧
        Classified (sights acts) (capturedBy acts) status done.outcome := by
  constructor
  · obtain ⟨p, hrun, htaken⟩ : ∃ p, Run ⟨100, none⟩ (start true) lateRequest p ∧ p.Taken (.code 20) :=
      ⟨_, .cons (.capture rfl) (.cons (.decode rfl) (.cons (.look rfl rfl) (.cons (.alarm rfl)
        (.cons (.look rfl rfl) (.cons (.look rfl rfl) (.cons (.look rfl rfl)
          (.cons (.outputEnd rfl) .nil))))))), rfl, .inl rfl⟩
    exact ⟨p, hrun, htaken, outcome_classified.1 _ _ _ _ _ hrun htaken⟩
  · have hstarts : briefHost.Starts {} {} := ⟨rfl, _, rfl⟩
    obtain ⟨done, hdone⟩ : ∃ done, briefHost.execute {} {} = some done := ⟨_, rfl⟩
    exact ⟨done, hstarts, hdone, outcome_classified.2 _ _ _ _ hstarts hdone⟩

end Parties

end Verdicts
