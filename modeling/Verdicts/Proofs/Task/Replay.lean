/-
Checking a program and explaining the output that was kept of it come to the same. What is kept is written from a text,
in which bytes that are not UTF-8 were replaced; but the output of a completed session can be decoded, so it is UTF-8
and nothing was replaced in it. Main statement: `replay_agrees`.
-/
import Verdicts.Proofs.Engine.Fidelity
import Verdicts.Proofs.Host.Files
import Verdicts.Proofs.Stream.Encoding
import Verdicts.Proofs.Text.Replacing
import Verdicts.Task.Check

namespace Verdicts

open Parties

/-- What a check leaves behind, whose session came to `s` with `raw` for its output, is what explaining the output that
it kept comes to. -/
structure Replayable (raw : Bytes) (s : Session) (path : Path) (settings : DisplaySettings) (format : ReportFormat)
    (checked : Outcome) : Prop where
  /-- The bytes kept are those of the engine. -/
  kept : checked.files.read path = .ok raw
  decoded : ∃ d, decodeOutput raw = .ok d ∧ d.model = s.model ∧ d.transcript = s.transcript
  /-- All that is left behind is the same: what is printed, the notes, how it ends, and the files. -/
  replayed : ∀ replay : ReplayRequest, replay.output = path → replay.run checked.files settings format = checked

namespace CheckRequest

variable {r : CheckRequest} {s : Session} {path : Path} {before files : Files}

/-- What is kept are the bytes of the text that the output was read as. -/
theorem read_of_save {raw : Bytes} (hpath : r.savedOutput = some path) {captured : CapturedOutput}
    (hsave : r.save captured before = .ok files) (hfile : files.isFile path = true)
    (htext : captured.output = Utf8.lossy raw) : files.read path = .ok (Utf8.rewritten raw) := by
  unfold save at hsave
  rw [hpath, htext] at hsave
  simp only at hsave
  split at hsave
  · cases hsave
    exact Files.read_of_write ‹_› hfile
  · cases hsave

/-- The report on a completed session. -/
theorem finished_eq {verdict : ExitClass} (hstatus : s.status = .completed verdict)
    (hsave : r.save s.captured before = .ok files) (settings : DisplaySettings) (format : ReportFormat) :
    r.finished s settings format before =
      ({ frozen := s.model.freeze, transcript := s.transcript, settings } : Report).outcome format files := by
  have hfinal : s.final? = some s.model.freeze := by
    unfold Session.final? Session.isFinal
    rw [hstatus]
    rfl
  unfold finished
  rw [hsave, hfinal]

end CheckRequest

theorem ReplayRequest.run_eq {replay : ReplayRequest} {files : Files} {raw : Bytes} {d : Decoder}
    (hread : files.read replay.output = .ok raw) (hd : decodeOutput raw = .ok d) (settings : DisplaySettings)
    (format : ReportFormat) :
    replay.run files settings format =
      ({ frozen := d.model.freeze, transcript := d.transcript, settings } : Report).outcome format files := by
  unfold run
  rw [hread]
  simp only
  rw [hd]

/-- A completed session is replayable, whatever the schedule of its parties was. -/
theorem Host.Ran.replayable {config : EngineConfig} {request : SessionRequest} {acts : List Act} {p : Parties}
    {status : ExitStatus} {s : Session} {verdict : ExitClass} {r : CheckRequest} {path : Path} {before files : Files}
    (hran : Host.Ran config request acts p status) (houtcome : p.conclude status = .ok s)
    (hstatus : s.status = .completed verdict) (hpath : r.savedOutput = some path)
    (hsave : r.save s.captured before = .ok files) (hfile : files.isFile path = true) (settings : DisplaySettings)
    (format : ReportFormat) :
    Replayable (capturedBy acts) s path settings format (r.finished s settings format before) := by
  have hfaithful := hran.run.faithful hran.taken
  rw [hran.run.captured_start] at hfaithful
  obtain ⟨d, hd, hmodel, htranscript⟩ := hfaithful.complete s verdict houtcome hstatus
  have htext : s.captured.output = Utf8.lossy (capturedBy acts) := by
    have h := hfaithful.text
    rw [houtcome] at h
    exact Option.some.inj h
  have hread := CheckRequest.read_of_save hpath hsave hfile htext
  rw [Utf8.rewritten_valid (Decoder.valid_of_decodeOutput hd)] at hread
  rw [CheckRequest.finished_eq hstatus hsave]
  refine ⟨hread, ⟨d, hd, hmodel, htranscript⟩, ?_⟩
  rintro replay rfl
  show replay.run files settings format = _
  rw [ReplayRequest.run_eq hread hd, hmodel, htranscript]

/-- Unless its engine was started, a session is cancelled or fails for its configuration. -/
theorem Host.starts_or {h : Host} {config : EngineConfig} {request : SessionRequest} {done : Executed}
    (hdone : h.execute config request = some done) : h.Starts config request ∨
      done.outcome = .ok .cancelledBeforeStart ∨ ∃ message, done.outcome = .error (.configuration message) := by
  unfold execute at hdone
  split at hdone
  · cases hdone
    exact .inr (.inl rfl)
  · rename_i hbefore
    split at hdone
    · cases hdone
      exact .inr (.inr ⟨_, rfl⟩)
    · exact .inl ⟨Bool.not_eq_true _ ▸ hbefore, _, ‹_›⟩

theorem Host.starts_of_completed {h : Host} {config : EngineConfig} {request : SessionRequest} {done : Executed}
    {s : Session} {verdict : ExitClass} (hdone : h.execute config request = some done) (houtcome : done.outcome = .ok s)
    (hstatus : s.status = .completed verdict) : h.Starts config request := by
  rcases starts_or hdone with hstarts | hother | ⟨message, hother⟩
  · exact hstarts
  · rw [houtcome] at hother
    cases hother
    cases hstatus
  · rw [houtcome] at hother
    cases hother

/-- For every schedule of the parties of a completed session, and so for every completed session that a check runs on a
host: if its output was kept in a file, the file holds the bytes of the output, they are decoded to the model and the
transcript of the session, and explaining them comes to what the check came to. -/
theorem replay_agrees :
    (∀ (config : EngineConfig) (request : SessionRequest) (acts : List Act) (p : Parties) (status : ExitStatus)
        (s : Session) (verdict : ExitClass) (r : CheckRequest) (path : Path) (before files : Files)
        (settings : DisplaySettings) (format : ReportFormat),
      Host.Ran config request acts p status → p.conclude status = .ok s → s.status = .completed verdict →
      r.savedOutput = some path → r.save s.captured before = .ok files → files.isFile path = true →
        Replayable (capturedBy acts) s path settings format (r.finished s settings format before)) ∧
    ∀ (h : Host) (manifest : Manifest) (r : CheckRequest) (path : Path) (format : ReportFormat) (done : Executed)
        (s : Session) (verdict : ExitClass) (files : Files),
      h.files.isFile r.program = true →
      h.execute manifest.engine.config (r.session manifest.engine) = some done →
      done.outcome = .ok s → s.status = .completed verdict →
      r.savedOutput = some path → r.save s.captured done.files = .ok files → files.isFile path = true →
        ∃ acts p status checked, Host.Ran manifest.engine.config (r.session manifest.engine) acts p status ∧
          p.conclude status = done.outcome ∧ r.run h manifest format = some checked ∧
          Replayable (capturedBy acts) s path manifest.display format checked := by
  constructor
  · intro config request acts p status s verdict r path before files settings format hran houtcome hstatus hpath hsave
      hfile
    exact hran.replayable houtcome hstatus hpath hsave hfile settings format
  · intro h manifest r path format done s verdict files hprogram hdone houtcome hstatus hpath hsave hfile
    have hstarts := Host.starts_of_completed hdone houtcome hstatus
    obtain ⟨acts, p, status, hran, hconclude, -⟩ := Host.exists_run_of_execute hstarts hdone
    refine ⟨acts, p, status, _, hran, hconclude.symm, ?_,
      hran.replayable (hconclude.symm.trans houtcome) hstatus hpath hsave hfile manifest.display format⟩
    unfold CheckRequest.run
    rw [if_pos hprogram, hdone, Option.map_some, houtcome]

/-- A host with a program to be checked by the engine of `briefHost`. -/
def projectHost : Host := { briefHost with files := { entries := [(["a.lus"], .file [])] } }

def keepingCheck : CheckRequest := { program := "a.lus", savedOutput := some "out.json" }

/-- What a session with that engine comes to. -/
def briefSession : Session := { status := .completed .allValid, captured := { output := "[]" } }

theorem keepingCheck_agrees :
    (∃ acts p, Host.Ran {} {} acts p (.code 20) ∧ ∃ files, keepingCheck.save briefSession.captured {} = .ok files ∧
      Replayable (capturedBy acts) briefSession "out.json" {} .human
        (keepingCheck.finished briefSession {} .human {})) ∧
    ∃ acts p status checked, Host.Ran ({} : Manifest).engine.config (keepingCheck.session {}) acts p status ∧
      p.conclude status = .ok briefSession ∧ keepingCheck.run projectHost {} .human = some checked ∧
      Replayable (capturedBy acts) briefSession "out.json" {} .human checked := by
  constructor
  · obtain ⟨p, hran, houtcome⟩ : ∃ p, Host.Ran {} {} [.capture [0x5B, 0x5D], .decode,
        .look ⟨some (.code 20), false, false, 0⟩, .outputEnd] p (.code 20) ∧
        p.conclude (.code 20) = .ok briefSession :=
      ⟨_, ⟨.cons (.capture rfl) (.cons (.decode rfl) (.cons (.look rfl rfl) (.cons (.outputEnd rfl) .nil))),
        ⟨rfl, .inl rfl⟩⟩, rfl⟩
    obtain ⟨files, hsave, hfile⟩ : ∃ files, keepingCheck.save briefSession.captured {} = .ok files ∧
        files.isFile "out.json" = true := ⟨_, rfl, rfl⟩
    exact ⟨_, p, hran, files, hsave,
      replay_agrees.1 _ _ _ _ _ _ _ _ _ _ _ _ _ hran houtcome rfl rfl hsave hfile⟩
  · obtain ⟨done, files, hdone, houtcome, hsave, hfile⟩ : ∃ done files,
        projectHost.execute ({} : Manifest).engine.config (keepingCheck.session {}) = some done ∧
          done.outcome = .ok briefSession ∧ keepingCheck.save briefSession.captured done.files = .ok files ∧
          files.isFile "out.json" = true := ⟨_, _, rfl, rfl, rfl, rfl⟩
    rw [← houtcome]
    exact replay_agrees.2 _ _ _ _ _ _ _ _ _ rfl hdone houtcome rfl rfl hsave hfile

end Verdicts
