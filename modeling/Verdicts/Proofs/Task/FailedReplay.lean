/-
Explaining the output that was kept of a check whose session failed because its output cannot be decoded. What is kept
is written from a text, in which bytes that are not UTF-8 were replaced. In front of the failure there are none, so the
failure stays where it is; it is gone exactly if it is that of a record which can be read once its bytes are replaced.
Main statement: `replay_fails`.
-/
import Verdicts.Proofs.Stream.Rewriting
import Verdicts.Proofs.Task.Replay

namespace Verdicts

open Parties

/-- What is kept in the files of a session that failed with `e` and the model `m` on the output `raw`, and what
decoding it comes to. -/
structure FailsAgain (raw : Bytes) (e : DecodeError) (m : Model) (path : Path) (files : Files) : Prop where
  kept : files.read path = .ok (Utf8.rewritten raw)
  /-- It fails in the same way at the same byte and with the same model, unless the record is mended. -/
  fails : (∃ e' d, decodeOutput (Utf8.rewritten raw) = .error ⟨e', d⟩ ∧ e'.Matches e ∧ d.model = m) ↔
    ¬Decoder.Mended raw
  /-- Output that is UTF-8 is kept as it is, and its failure is the same. -/
  unchanged : Utf8.Valid raw → Utf8.rewritten raw = raw ∧ ∃ d, decodeOutput raw = .error ⟨e, d⟩ ∧ d.model = m
  /-- Whoever explains what was kept is told of the failure. -/
  told : ¬Decoder.Mended raw → ∃ e' : DecodeError, e'.Matches e ∧
    ∀ (replay : ReplayRequest) (settings : DisplaySettings) (format : ReportFormat), replay.output = path →
      replay.run files settings format =
        { notes := [decodedNote m], ending := explained ("decoding " ++ path) e'.message e'.causes, files }

/-- What the reader of a session has gathered before it fails is what decoding the output leaves. -/
theorem Host.Ran.decoded_of_undecodable {config : EngineConfig} {request : SessionRequest} {acts : List Act}
    {p : Parties} {status : ExitStatus} {e : DecodeError} {captured : CapturedOutput} {m : Model}
    (hran : Host.Ran config request acts p status)
    (houtcome : p.conclude status = .error (.undecodable e captured m)) :
    captured.output = Utf8.lossy (capturedBy acts) ∧
      ∃ d, decodeOutput (capturedBy acts) = .error ⟨e, d⟩ ∧ d.model = m := by
  have hfaithful := hran.run.faithful hran.taken
  have hclassified := hran.run.classified hran.taken
  rw [hran.run.captured_start, houtcome] at hfaithful hclassified
  obtain ⟨-, d, hd⟩ := (hclassified.undecodable e).1 ⟨captured, m, rfl⟩
  refine ⟨Option.some.inj hfaithful.text, d, hd, ?_⟩
  -- the session carries what feeding leaves, and completing the output leaves the same
  have hmodel : m = (Decoder.feed {} (capturedBy acts)).1.model := Option.some.inj hfaithful.model
  have hintake := Decoder.intake_complete (capturedBy acts)
  rw [Decoder.decodeOutput_eq_error_iff.1 hd] at hintake
  rw [hmodel, Decoder.model, Decoder.model, hintake]

theorem Host.Ran.failsAgain {config : EngineConfig} {request : SessionRequest} {acts : List Act} {p : Parties}
    {status : ExitStatus} {e : DecodeError} {captured : CapturedOutput} {m : Model} {r : CheckRequest} {path : Path}
    {before files : Files} (hran : Host.Ran config request acts p status)
    (houtcome : p.conclude status = .error (.undecodable e captured m)) (hpath : r.savedOutput = some path)
    (hsave : r.save captured before = .ok files) (hfile : files.isFile path = true) :
    FailsAgain (capturedBy acts) e m path files := by
  obtain ⟨htext, d, hd, hmodel⟩ := hran.decoded_of_undecodable houtcome
  have hread := CheckRequest.read_of_save hpath hsave hfile htext
  have hfails := Decoder.decode_rewritten hd
  rw [hmodel] at hfails
  refine ⟨hread, hfails, fun hvalid => ⟨Utf8.rewritten_valid hvalid, d, hd, hmodel⟩, fun hmended => ?_⟩
  obtain ⟨e', d', hagain, hmatches, hmodel'⟩ := hfails.2 hmended
  refine ⟨e', hmatches, ?_⟩
  rintro replay settings format rfl
  unfold ReplayRequest.run
  rw [hread]
  simp only [hagain, hmodel']

theorem Host.starts_of_undecodable {h : Host} {config : EngineConfig} {request : SessionRequest} {done : Executed}
    {e : DecodeError} {captured : CapturedOutput} {m : Model} (hdone : h.execute config request = some done)
    (houtcome : done.outcome = .error (.undecodable e captured m)) : h.Starts config request := by
  rcases starts_or hdone with hstarts | hother | ⟨message, hother⟩
  · exact hstarts
  · rw [houtcome] at hother
    cases hother
  · rw [houtcome] at hother
    cases hother

theorem CheckRequest.files_failed {r : CheckRequest} {e : DecodeError} {captured : CapturedOutput} {m : Model}
    {before files : Files} (hsave : r.save captured before = .ok files) :
    (r.failed (.undecodable e captured m) before).files = files := by
  unfold failed
  simp only [SessionError.captured?, hsave]

/-- Take a check that keeps the output in a file. For every schedule of the parties of a session that fails because its
output cannot be decoded, and so for every such session that the check runs on a host, the file holds the bytes of the
text that was captured. Decoding these fails in the same way, at the same byte and with the same model as the session
did, exactly if the output does not fail at a record that is mended; and always so if the output is UTF-8. -/
theorem replay_fails (r : CheckRequest) (path : Path) (hpath : r.savedOutput = some path) :
    (∀ (config : EngineConfig) (request : SessionRequest) (acts : List Act) (p : Parties) (status : ExitStatus)
        (e : DecodeError) (captured : CapturedOutput) (m : Model) (before files : Files),
      Host.Ran config request acts p status → p.conclude status = .error (.undecodable e captured m) →
      r.save captured before = .ok files → files.isFile path = true →
        FailsAgain (capturedBy acts) e m path files) ∧
    ∀ (h : Host) (manifest : Manifest) (format : ReportFormat) (done : Executed) (e : DecodeError)
        (captured : CapturedOutput) (m : Model) (files : Files),
      h.files.isFile r.program = true →
      h.execute manifest.engine.config (r.session manifest.engine) = some done →
      done.outcome = .error (.undecodable e captured m) →
      r.save captured done.files = .ok files → files.isFile path = true →
        ∃ acts p status checked, Host.Ran manifest.engine.config (r.session manifest.engine) acts p status ∧
          p.conclude status = done.outcome ∧ r.run h manifest format = some checked ∧
          FailsAgain (capturedBy acts) e m path checked.files := by
  constructor
  · intro config request acts p status e captured m before files hran houtcome hsave hfile
    exact hran.failsAgain houtcome hpath hsave hfile
  · intro h manifest format done e captured m files hprogram hdone houtcome hsave hfile
    have hstarts := Host.starts_of_undecodable hdone houtcome
    obtain ⟨acts, p, status, hran, hconclude, -⟩ := Host.exists_run_of_execute hstarts hdone
    refine ⟨acts, p, status, r.failed (.undecodable e captured m) done.files, hran, hconclude.symm, ?_, ?_⟩
    · unfold CheckRequest.run
      rw [if_pos hprogram, hdone, Option.map_some, houtcome]
    · rw [CheckRequest.files_failed hsave]
      exact hran.failsAgain (hconclude.symm.trans houtcome) hpath hsave hfile

/-- An engine that writes one byte, which is not UTF-8, and tells that all is valid. -/
def strayHost : Host where
  files := { entries := [(["a.lus"], .file [])] }
  programs := [("kind2", fun _ => .write .output [0xFF] fun _ => .exit (.code 20))]

def straySession : Except SessionError Session :=
  .error (.undecodable (.unexpectedByte 0 0xFF) { output := "\uFFFD" } {})

theorem keepingCheck_fails :
    (∃ acts p, Host.Ran {} {} acts p (.code 20) ∧ p.conclude (.code 20) = straySession ∧
      ∃ files, FailsAgain (capturedBy acts) (.unexpectedByte 0 0xFF) {} "out.json" files) ∧
    ∃ acts p status checked, Host.Ran ({} : Manifest).engine.config (keepingCheck.session {}) acts p status ∧
      p.conclude status = straySession ∧ keepingCheck.run strayHost {} .human = some checked ∧
      FailsAgain (capturedBy acts) (.unexpectedByte 0 0xFF) {} "out.json" checked.files := by
  constructor
  · obtain ⟨p, hran, houtcome⟩ : ∃ p, Host.Ran {} {} [.capture [0xFF], .decode, .alarm,
        .look ⟨some (.code 20), false, true, 0⟩, .outputEnd] p (.code 20) ∧
        p.conclude (.code 20) = straySession :=
      ⟨_, ⟨.cons (.capture rfl) (.cons (.decode rfl) (.cons (.alarm rfl) (.cons (.look rfl rfl)
        (.cons (.outputEnd rfl) .nil)))), ⟨rfl, .inl rfl⟩⟩, rfl⟩
    obtain ⟨files, hsave, hfile⟩ : ∃ files, keepingCheck.save { output := "\uFFFD" } {} = .ok files ∧
        files.isFile "out.json" = true := ⟨_, rfl, rfl⟩
    exact ⟨_, p, hran, houtcome, files,
      (replay_fails keepingCheck _ rfl).1 _ _ _ _ _ _ _ _ _ _ hran houtcome hsave hfile⟩
  · obtain ⟨done, files, hdone, houtcome, hsave, hfile⟩ : ∃ done files,
        strayHost.execute ({} : Manifest).engine.config (keepingCheck.session {}) = some done ∧
          done.outcome = straySession ∧ keepingCheck.save { output := "\uFFFD" } done.files = .ok files ∧
          files.isFile "out.json" = true := ⟨_, _, rfl, rfl, rfl, rfl⟩
    rw [← houtcome]
    exact (replay_fails keepingCheck _ rfl).2 _ _ _ _ _ _ _ _ rfl hdone houtcome hsave hfile

/-- A record with a byte that is not UTF-8 in one of its strings. -/
def brokenRecord : Bytes :=
  "\x7b\"objectType\":\"progress\",\"source\":\"".toUTF8.toList ++ 0xFF :: "\",\"k\":1\x7d".toUTF8.toList

/-- A session fails at that record, and what is kept of it can be decoded. -/
theorem brokenRecord_mended :
    ∃ acts p captured m files saved d, capturedBy acts = brokenRecord ∧ Host.Ran {} {} acts p (.code 20) ∧
      p.conclude (.code 20) = .error (.undecodable (.malformed 0 .malformed) captured m) ∧
      keepingCheck.save captured {} = .ok files ∧ files.read "out.json" = .ok saved ∧ decodeOutput saved = .ok d := by
  obtain ⟨p, hran, hcaptured, hfailure, hreason⟩ : ∃ p, Host.Ran {} {} [.capture brokenRecord, .decode, .alarm,
      .look ⟨some (.code 20), false, true, 0⟩, .outputEnd] p (.code 20) ∧
        p.captured = { output := Utf8.lossy brokenRecord } ∧
        p.reader.failure = some (.malformed 0 .malformed) ∧ p.watch.phase.reason? = none :=
    ⟨_, ⟨.cons (.capture rfl) (.cons (.decode rfl) (.cons (.alarm (by decide +kernel)) (.cons (.look rfl rfl)
      (.cons (.outputEnd rfl) .nil)))), ⟨rfl, .inl rfl⟩⟩, by decide +kernel, by decide +kernel, rfl⟩
  have hstatus : (ExitStatus.code 20).class?.isSome := rfl
  have houtcome := Attendance.conclude_undecodable hfailure (.inr ⟨hreason, hstatus⟩)
  rw [hcaptured] at houtcome
  obtain ⟨files, hsave, hfile⟩ : ∃ files, keepingCheck.save { output := Utf8.lossy brokenRecord } {} = .ok files ∧
      files.isFile "out.json" = true := ⟨_, rfl, rfl⟩
  have hread : files.read "out.json" = .ok (Utf8.rewritten brokenRecord) :=
    CheckRequest.read_of_save rfl hsave hfile rfl
  have hcomplete : (Decoder.complete {} (Utf8.rewritten brokenRecord)).2 = none := by decide +kernel
  exact ⟨_, p, _, _, files, _, _, List.append_nil _, hran, houtcome, hsave, hread,
    Decoder.decodeOutput_eq_ok_iff.2 (Prod.ext rfl hcomplete)⟩

end Verdicts
