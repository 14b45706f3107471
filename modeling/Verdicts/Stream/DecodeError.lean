/-
Why the output of an engine cannot be decoded any further.
-/
import Verdicts.Record.Reader
import Verdicts.Result.Model

namespace Verdicts

/-- Why a record may not come where it does. -/
inductive OrderFault where
  /-- The answer on a property comes while no analysis is running. -/
  | outsideAnalysis (property : String)
  | noAnalysisRunning
  | postAnalysisRunning (name : String)
  | noPostAnalysisRunning
  /-- A post-analysis ends before any analysis started. -/
  | noAnalysisToAttachTo
  deriving DecidableEq, Repr, Inhabited

/-- The wording of a fault. -/
def OrderFault.message : OrderFault → String
  | outsideAnalysis property => s!"result for '{property}' arrived outside an analysis"
  | noAnalysisRunning => "no analysis is running"
  | postAnalysisRunning name => s!"post-analysis '{name}' has not ended"
  | noPostAnalysisRunning => "no post-analysis is running"
  | noAnalysisToAttachTo => "no analysis to attach to"

/-- The fields of a record whose values come from a fixed list. -/
inductive SpelledField where
  | origin
  | answer
  deriving DecidableEq, Repr, Inhabited

/-- The name of a field in messages. -/
def SpelledField.text : SpelledField → String
  | origin => "property source"
  | answer => "answer"

/-- Why decoding fails. Offsets count bytes from the beginning of the output; that of a record is
where its opening brace stands. -/
inductive DecodeError where
  | malformed (offset : Nat) (fault : RecordFault)
  | unexpectedByte (offset : Nat) (byte : UInt8)
  | outOfOrder (kind : RecordKind) (offset : Nat) (fault : OrderFault)
  | unknownValue (field : SpelledField) (value : String) (offset : Nat)
  | unterminated (offset : Nat)
  | aborted
  | model (error : ModelError)
  deriving DecidableEq, Repr, Inhabited

/-- The wording of a fault. -/
def RecordFault.message : RecordFault → String
  | malformed => "not a JSON text"
  | data error none => error.message
  | data error (some place) => s!"{error.message} at {place.text}"

/-- The wording of an error. -/
def DecodeError.message : DecodeError → String
  | malformed offset fault => s!"malformed record at byte {offset}: {fault.message}"
  | unexpectedByte offset byte =>
    s!"unexpected byte 0x{Decimal.hexByte byte} between records at byte {offset}"
  | outOfOrder kind offset fault =>
    s!"'{kind.text}' record at byte {offset} is out of order: {fault.message}"
  | unknownValue field value offset =>
    s!"unknown {field.text} '{value}' in record at byte {offset}"
  | unterminated offset => s!"output ended inside the record starting at byte {offset}"
  | aborted => "stream already aborted by an earlier decode failure"
  | model error => error.message

/-- What lies behind an error. -/
def DecodeError.causes : DecodeError → List String
  | malformed _ fault => [fault.message]
  | _ => []

end Verdicts
