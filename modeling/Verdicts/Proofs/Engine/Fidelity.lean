/-
What a session carries is what its captured output says. Wherever the reading thread is taken, the model and the
transcript gathered are those that a fresh decoder makes of all the bytes captured, fed in one call: bytes that are
captured behind a failure change neither, and reading the end of the output changes neither. Main statement:
`outcome_faithful`.
-/
import Verdicts.Proofs.Engine.Outcome

namespace Verdicts

/-! ## What an outcome carries -/

/-- The model that an outcome carries, if it carries one. -/
def modelOf : Except SessionError Session → Option Model
  | .ok s => some s.model
  | .error e => e.decoded?

/-- What was captured, as far as an outcome tells. -/
def capturedOf : Except SessionError Session → Option CapturedOutput
  | .ok s => some s.captured
  | .error e => e.captured?

/-- The outcome of a session in which `raw` was captured of the output carries what that says. -/
structure Faithful (raw : Bytes) (outcome : Except SessionError Session) : Prop where
  model : modelOf outcome = some (Decoder.feed {} raw).1.model
  transcript : ∀ s, outcome = .ok s → s.transcript = (Decoder.feed {} raw).1.transcript
  text : (capturedOf outcome).map (·.output) = some (Utf8.lossy raw)
  /-- What a completed session carries is a complete output. -/
  complete : ∀ s verdict, outcome = .ok s → s.status = .completed verdict →
    ∃ d, decodeOutput raw = .ok d ∧ d.model = s.model ∧ d.transcript = s.transcript

namespace Decoder

theorem intake_finish (d : Decoder) : d.finish.1.intake = d.intake := by
  unfold finish
  split
  · rfl
  · split <;> rfl

/-- Completing an output tells nothing that feeding it has not told. -/
theorem intake_complete (t : Bytes) : (complete {} t).1.intake = (feed {} t).1.intake := by
  rw [feed_of_live rfl, complete]
  rcases run {} t with ⟨d, _ | e⟩
  · exact intake_finish d
  · rfl

end Decoder

/-- Whatever the reason of the outcome, it carries what the reader has gathered. -/
theorem Attendance.carried (a : Attendance) (status : ExitStatus) :
    modelOf (a.conclude status) = some a.reader.decoder.model ∧
      capturedOf (a.conclude status) = some a.captured ∧
      ∀ s, a.conclude status = .ok s → s.transcript = a.reader.decoder.transcript := by
  unfold conclude
  simp only
  split
  · exact ⟨rfl, rfl, fun s h => by cases h; rfl⟩
  · exact ⟨rfl, rfl, fun s h => by cases h⟩
  · cases a.reader.failure with
    | some e => exact ⟨rfl, rfl, fun s h => by cases h⟩
    | none =>
      cases status.class? with
      | some verdict => exact ⟨rfl, rfl, fun s h => by cases h; rfl⟩
      | none => exact ⟨rfl, rfl, fun s h => by cases h⟩

namespace Parties

variable {rule : StopRule} {p : Parties} {acts : List Act} {status : ExitStatus}

/-- Between two chunks, the reading thread has gathered what all the bytes captured say, whether or not they could be
decoded. -/
theorem Sound.intake (h : p.Sound) (hplace : ∀ chunk, p.place ≠ .captured chunk) :
    p.reader.decoder.intake = (Decoder.feed {} p.reader.captured).1.intake := by
  have hreader := h.reader
  cases hp : p.place with
  | waiting =>
    rw [hp] at hreader
    rw [show Decoder.feed {} p.reader.captured = _ from hreader]
  | captured chunk => exact absurd hp (hplace chunk)
  | alarming =>
    rw [hp] at hreader
    rw [show Decoder.feed {} p.reader.captured = _ from hreader.1]
  | finished =>
    rw [hp] at hreader
    rw [← Decoder.intake_complete, show Decoder.complete {} p.reader.captured = _ from hreader]

theorem Taken.not_captured (h : p.Taken status) (chunk : Bytes) : p.place ≠ .captured chunk := by
  intro hplace
  rcases h.reader with hp | ⟨hp, -⟩
  · rw [hp] at hplace
    cases hplace
  · rw [hp] at hplace
    cases hplace

/-- However the steps of the parties interleave, the outcome carries what was captured. -/
theorem Run.faithful {inputHeld : Bool} (hrun : Run rule (start inputHeld) acts p) (htaken : p.Taken status) :
    Faithful p.reader.captured (p.conclude status) := by
  obtain ⟨hmodel, htext, htranscript⟩ := p.carried status
  have hintake := ((start_sound inputHeld).run hrun).intake htaken.not_captured
  have htranscript' : ∀ s, p.conclude status = .ok s →
      s.transcript = (Decoder.feed {} p.reader.captured).1.transcript := by
    intro s hs
    rw [htranscript s hs, Decoder.transcript, hintake]
    rfl
  constructor
  · rw [hmodel, Decoder.model, hintake]
    rfl
  · exact htranscript'
  · rw [htext]
    rfl
  · intro s verdict hs hstatus
    obtain ⟨-, -, d, hd⟩ := ((hrun.classified htaken).completed verdict).1 ⟨s, hs, hstatus⟩
    -- decoding as a whole leaves what feeding leaves
    have hd' : d.intake = p.reader.decoder.intake := by
      rw [hintake, ← Decoder.intake_complete, Decoder.decodeOutput_eq_ok_iff.1 hd]
    refine ⟨d, hd, ?_, ?_⟩
    · rw [hs] at hmodel
      rw [Decoder.model, hd']
      exact (Option.some.inj hmodel).symm
    · rw [htranscript s hs, Decoder.transcript, hd']
      rfl

/-- For every schedule of the parties of a session, the outcome carries the model, the transcript and the text of the
bytes captured; and so does the outcome of a session that a host runs, once its engine was started. -/
theorem outcome_faithful :
    (∀ (rule : StopRule) (inputHeld : Bool) (acts : List Act) (p : Parties) (status : ExitStatus),
      Run rule (start inputHeld) acts p → p.Taken status → Faithful (capturedBy acts) (p.conclude status)) ∧
    ∀ (h : Host) (config : EngineConfig) (request : SessionRequest) (done : Executed),
      h.Starts config request → h.execute config request = some done →
        ∃ acts p status, Host.Ran config request acts p status ∧ Faithful (capturedBy acts) done.outcome ∧
          done.transcript = (Decoder.feed {} (capturedBy acts)).1.transcript := by
  constructor
  · intro rule inputHeld acts p status hrun htaken
    rw [← hrun.captured_start]
    exact hrun.faithful htaken
  · intro h config request done hstarts hdone
    obtain ⟨acts, p, status, hran, houtcome, htranscript⟩ := Host.exists_run_of_execute hstarts hdone
    have hintake := ((start_sound _).run hran.run).intake hran.taken.not_captured
    refine ⟨acts, p, status, hran, ?_, ?_⟩
    · rw [houtcome, ← hran.run.captured_start]
      exact hran.run.faithful hran.taken
    · rw [htranscript, Decoder.transcript, hintake, hran.run.captured_start]
      rfl

/-- A record is cut in two and followed by bytes that cannot be decoded. The engine is killed, goes on writing, and is
given up. -/
def givenUp : List Act :=
  [.capture "\x7b\"objectType\":\"log\",\"level\":\"no".toUTF8.toList, .decode,
    .capture "te\",\"value\":\"ready\"\x7d stray".toUTF8.toList, .decode, .alarm,
    .look ⟨none, false, true, 0⟩, .look ⟨none, true, true, 100⟩, .capture [0x5D], .decode,
    .look ⟨some (.signal 9), true, true, 200⟩, .capture [0x7B], .decode]

theorem givenUp_faithful :
    (∃ p, Run ⟨100, none⟩ (start true) givenUp p ∧ p.Taken (.signal 9) ∧
      Faithful (capturedBy givenUp) (p.conclude (.signal 9))) ∧
    ∃ done, briefHost.Starts {} {} ∧ briefHost.execute {} {} = some done ∧
      ∃ acts p status, Host.Ran {} {} acts p status ∧ Faithful (capturedBy acts) done.outcome ∧
        done.transcript = (Decoder.feed {} (capturedBy acts)).1.transcript := by
  constructor
  · obtain ⟨p, hrun, htaken⟩ : ∃ p, Run ⟨100, none⟩ (start true) givenUp p ∧ p.Taken (.signal 9) :=
      ⟨_, .cons (.capture rfl) (.cons (.decode rfl) (.cons (.capture (by decide +kernel)) (.cons (.decode rfl)
        (.cons (.alarm (by decide +kernel)) (.cons (.look rfl rfl) (.cons (.look rfl rfl)
          (.cons (.capture rfl) (.cons (.decode rfl) (.cons (.look rfl rfl)
            (.cons (.capture (by decide +kernel)) (.cons (.decode rfl) .nil))))))))))),
        rfl, .inr ⟨by decide +kernel, .undecodable, rfl⟩⟩
    exact ⟨p, hrun, htaken, outcome_faithful.1 _ _ _ _ _ hrun htaken⟩
  · have hstarts : briefHost.Starts {} {} := ⟨rfl, _, rfl⟩
    obtain ⟨done, hdone⟩ : ∃ done, briefHost.execute {} {} = some done := ⟨_, rfl⟩
    exact ⟨done, hstarts, hdone, outcome_faithful.2 _ _ _ _ hstarts hdone⟩

end Parties

end Verdicts
