/-
A session: what is gathered from an engine while it is watched, and what the session comes to when the
engine has ended. Output is decoded as it arrives; after a failure it is still captured, so that the
engine is never held up by a reader that has stopped.
-/
import Verdicts.Engine.Watch
import Verdicts.Result.Projection
import Verdicts.Stream.Decoder

namespace Verdicts

/-- The reader of an engine's output. -/
structure OutputReader where
  decoder : Decoder := {}
  /-- Why decoding has failed, if it has. -/
  failure : Option DecodeError := none
  /-- Everything that was read. -/
  captured : Bytes := []
  deriving Repr, Inhabited

namespace OutputReader

/-- Bytes arrive. -/
def receive (r : OutputReader) (chunk : Bytes) : OutputReader :=
  let captured := r.captured ++ chunk
  match r.failure with
  | some _ => { r with captured }
  | none =>
    let (decoder, failure) := r.decoder.feed chunk
    { decoder, failure, captured }

/-- The output has ended. -/
def close (r : OutputReader) : OutputReader :=
  match r.failure with
  | some _ => r
  | none =>
    let (decoder, failure) := r.decoder.finish
    { r with decoder, failure }

end OutputReader

/-- What is written by an engine, as text. -/
structure CapturedOutput where
  output : String := ""
  diagnostics : String := ""
  deriving DecidableEq, Repr, Inhabited

/-- How a session that carries verdicts came about. -/
inductive SessionStatus where
  | completed (verdict : ExitClass)
  /-- Stopped on request. -/
  | cancelled
  deriving DecidableEq, Repr, Inhabited

/-- What a session has come to. -/
structure Session where
  status : SessionStatus
  model : Model := {}
  transcript : Transcript := {}
  captured : CapturedOutput := {}
  deriving Repr, Inhabited

namespace Session

/-- A session that was cancelled before its engine was started. -/
def cancelledBeforeStart : Session := { status := .cancelled }

/-- Whether the model holds all that the engine has to say. -/
def isFinal (s : Session) : Bool :=
  match s.status with
  | .completed _ => true
  | .cancelled => false

/-- The model for a report; none if it need not be complete. -/
def final? (s : Session) : Option FrozenModel :=
  if s.isFinal then some s.model.freeze else none

end Session

/-- Why a session has failed. -/
inductive SessionError where
  /-- The engine cannot be used as it is configured. -/
  | configuration (message : String)
  /-- The engine ended in a way that tells no verdict. -/
  | abnormalTermination (code : Option Int) (captured : CapturedOutput) (decoded : Model)
  | undecodable (error : DecodeError) (captured : CapturedOutput) (decoded : Model)
  deriving Repr, Inhabited

namespace SessionError

/-- How an engine ended that told no verdict. -/
def exitText : Option Int → String
  | some code => "exit code " ++ Decimal.int code
  | none => "termination by signal"

/-- The wording of an error. -/
def message : SessionError → String
  | configuration message => s!"engine configuration error: {message}"
  | abnormalTermination code captured _ =>
    s!"engine terminated abnormally ({exitText code}); stderr: {Text.strip captured.diagnostics}"
  | undecodable error _ _ => s!"failed to decode engine output: {error.message}"

/-- What lies behind an error. -/
def causes : SessionError → List String
  | undecodable error _ _ => error.message :: error.causes
  | _ => []

/-- The model as it was decoded before the failure. -/
def decoded? : SessionError → Option Model
  | configuration _ => none
  | abnormalTermination _ _ decoded => some decoded
  | undecodable _ _ decoded => some decoded

/-- What the engine had written before the failure. -/
def captured? : SessionError → Option CapturedOutput
  | configuration _ => none
  | abnormalTermination _ captured _ => some captured
  | undecodable _ captured _ => some captured

end SessionError

/-- What the caller of a session is told once, at its end. -/
inductive Completion where
  | finished (code : Int)
  | cancelled
  | failed (reason : String)
  deriving DecidableEq, Repr, Inhabited

/-- What is told of an outcome. -/
def Completion.ofOutcome : Except SessionError Session → Completion
  | .ok session =>
    match session.status with
    | .completed verdict => .finished verdict.code
    | .cancelled => .cancelled
  | .error e => .failed e.message

/-! ## Sessions under way -/

/-- What happens in a session. -/
inductive SessionEvent where
  /-- A chunk of output is read. -/
  | output (chunk : Bytes)
  /-- The end of the output is read. -/
  | outputEnd
  /-- A chunk of diagnostics is read. -/
  | diagnostics (chunk : Bytes)
  /-- The watch looks at the engine; what it sees of the output is known. -/
  | look (exit : Option ExitStatus) (cancelled : Bool) (now : Nat)
  deriving DecidableEq, Repr, Inhabited

/-- A session under way. -/
structure Attendance where
  reader : OutputReader := {}
  diagnostics : Bytes := []
  watch : Watch := {}
  /-- Whether output came that could not be decoded when it did. -/
  alarmed : Bool := false
  deriving Repr, Inhabited

namespace Attendance

/-- One event, and what is done to the engine then. -/
def step (rule : StopRule) (a : Attendance) : SessionEvent → Attendance × List Intervention
  | .output chunk =>
    let reader := a.reader.receive chunk
    ({ a with reader, alarmed := a.alarmed || reader.failure.isSome }, [])
  | .outputEnd => ({ a with reader := a.reader.close }, [])
  | .diagnostics chunk => ({ a with diagnostics := a.diagnostics ++ chunk }, [])
  | .look exit cancelled now =>
    let (watch, interventions) :=
      a.watch.look rule { exit, cancelled, undecodable := a.alarmed, now }
    ({ a with watch }, interventions)

/-- Events one after the other. -/
def run (rule : StopRule) (a : Attendance) (events : List SessionEvent) : Attendance :=
  events.foldl (fun a e => (a.step rule e).1) a

/-- What was captured, as text. -/
def captured (a : Attendance) : CapturedOutput :=
  ⟨Utf8.lossy a.reader.captured, Utf8.lossy a.diagnostics⟩

/-- What the session comes to with the end of its engine. A request to cancel comes first; then
whether the engine ended as it should, unless it was stopped; then whether its output could be
decoded. -/
def conclude (a : Attendance) (status : ExitStatus) : Except SessionError Session :=
  let model := a.reader.decoder.model
  let transcript := a.reader.decoder.transcript
  let abnormal : Except SessionError Session :=
    .error (.abnormalTermination status.code? a.captured model)
  match a.watch.phase.reason?, status.class? with
  | some .requested, _ =>
    .ok { status := .cancelled, model, transcript, captured := a.captured }
  | none, none => abnormal
  | _, verdict =>
    match a.reader.failure with
    | some error => .error (.undecodable error a.captured model)
    | none =>
      match verdict with
      | some verdict =>
        .ok { status := .completed verdict, model, transcript, captured := a.captured }
      | none => abnormal

end Attendance

end Verdicts
