/-
Decoding the output of an engine while it arrives, in chunks of any size. The first failure aborts
the decoder for good, and what was taken in before it stays.
-/
import Verdicts.Stream.Intake
import Verdicts.Stream.Scanner

namespace Verdicts

/-- A decoder between two bytes. -/
structure Decoder where
  scanner : Scanner := {}
  intake : Intake := {}
  /-- Whether decoding has failed. -/
  aborted : Bool := false
  deriving Repr, Inhabited

namespace Decoder

/-- The model as decoded so far. -/
def model (d : Decoder) : Model := d.intake.model

/-- The transcript as decoded so far. -/
def transcript (d : Decoder) : Transcript := d.intake.transcript

/-- Take in one complete record; also says why it cannot be. -/
def take (i : Intake) (raw : RawRecord) : Intake × Option DecodeError :=
  match Record.read raw.text with
  | .error fault => (i, some (.malformed raw.start fault))
  | .ok record => i.count.accept raw.start record

/-- One byte; also says whether decoding fails at it. -/
def step (d : Decoder) (b : UInt8) : Decoder × Option DecodeError :=
  match d.scanner.step b with
  | none => ({ d with aborted := true }, some (.unexpectedByte d.scanner.offset b))
  | some (scanner, none) => ({ d with scanner }, none)
  | some (scanner, some raw) =>
    let (intake, failure) := take d.intake raw
    ({ scanner, intake, aborted := failure.isSome }, failure)

/-- Bytes, up to the first failure. -/
def run (d : Decoder) : Bytes → Decoder × Option DecodeError
  | [] => (d, none)
  | b :: rest =>
    match d.step b with
    | (d, none) => run d rest
    | (d, some e) => (d, some e)

/-- Decode every record that a chunk completes. -/
def feed (d : Decoder) (chunk : Bytes) : Decoder × Option DecodeError :=
  if d.aborted then (d, some .aborted) else d.run chunk

/-- The output has ended; it may not end inside a record. Analyses may be left running. -/
def finish (d : Decoder) : Decoder × Option DecodeError :=
  if d.aborted then (d, some .aborted)
  else
    match d.scanner.pending? with
    | some offset => ({ d with aborted := true }, some (.unterminated offset))
    | none => (d, none)

/-- Chunks one after the other, up to the first failure, which comes with the number of its chunk. -/
def feedAll (d : Decoder) (chunks : List Bytes) : Decoder × Option (Nat × DecodeError) :=
  go d 0 chunks
where
  go (d : Decoder) (index : Nat) : List Bytes → Decoder × Option (Nat × DecodeError)
    | [] => (d, none)
    | chunk :: rest =>
      match d.feed chunk with
      | (d, none) => go d (index + 1) rest
      | (d, some e) => (d, some (index, e))

end Decoder

/-- Why a complete output cannot be decoded, and what was decoded of it. -/
structure DecodeFailure where
  error : DecodeError
  decoded : Decoder
  deriving Repr, Inhabited

/-- Decode a complete output. -/
def decodeOutput (output : Bytes) : Except DecodeFailure Decoder :=
  match Decoder.feed {} output with
  | (d, some e) => .error ⟨e, d⟩
  | (d, none) =>
    match d.finish with
    | (d, some e) => .error ⟨e, d⟩
    | (d, none) => .ok d

end Verdicts
