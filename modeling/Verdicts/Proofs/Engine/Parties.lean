/-
A session with its parties apart: the thread that reads the output, the one that reads the diagnostics, and the
watch. What is gathered of the output is under a lock from when a chunk is captured until the reading thread is done
with it, but the watch does not take that lock: it only sees whether the alarm was raised, and that happens after the
failure is recorded. `Parties.Step` is one step of any party, `Parties.Run` any interleaving of such steps.

The invariant is `Parties.Sound`: what is decoded is what a fresh decoder makes of the bytes captured, but for the chunk
that is being decoded, and the alarm is raised only if these bytes cannot be decoded.
-/
import Verdicts.Engine.Session
import Verdicts.Proofs.Stream.Chunking

namespace Verdicts

/-! ## The reader alone -/

namespace OutputReader

/-- Keep a chunk. -/
def capture (r : OutputReader) (chunk : Bytes) : OutputReader := { r with captured := r.captured ++ chunk }

/-- Decode a chunk that is already captured. -/
def decode (r : OutputReader) (chunk : Bytes) : OutputReader :=
  match r.failure with
  | some _ => r
  | none =>
    let (decoder, failure) := r.decoder.feed chunk
    { r with decoder, failure }

/-- A chunk is received by capturing it and then decoding it. -/
theorem receive_eq (r : OutputReader) (chunk : Bytes) :
    r.receive chunk = (r.capture chunk).decode chunk := by
  unfold receive decode capture
  cases r.failure <;> rfl

/-- `Knows r t`: the reader knows what a fresh decoder makes of `t`, up to the first failure. -/
def Knows (r : OutputReader) (t : Bytes) : Prop := Decoder.feed {} t = (r.decoder, r.failure)

theorem Knows.decode {r : OutputReader} {t : Bytes} (h : r.Knows t) (chunk : Bytes) :
    (r.decode chunk).Knows (t ++ chunk) := by
  unfold Knows at h ⊢
  unfold OutputReader.decode
  cases hf : r.failure with
  | none =>
    rw [hf] at h
    rw [Decoder.feed_append h]
  | some e =>
    rw [hf] at h
    simp only [Decoder.feed_append_of_some h, hf]

@[simp] theorem captured_decode (r : OutputReader) (chunk : Bytes) : (r.decode chunk).captured = r.captured := by
  unfold decode
  cases r.failure <;> rfl

@[simp] theorem captured_close (r : OutputReader) : r.close.captured = r.captured := by
  unfold close
  cases r.failure <;> rfl

/-- With the end of the output the reader knows what completing it comes to. -/
theorem Knows.close {r : OutputReader} {t : Bytes} (h : r.Knows t) :
    Decoder.complete {} t = (r.close.decoder, r.close.failure) := by
  rw [Knows, Decoder.feed_of_live rfl] at h
  unfold Decoder.complete OutputReader.close
  rw [h]
  cases hf : r.failure with
  | none => rfl
  | some e => simp only [hf]

end OutputReader

/-! ## All parties -/

/-- Where the thread that reads the output stands. -/
inductive ReaderPlace where
  /-- It waits for a chunk and holds no lock. -/
  | waiting
  /-- A chunk is captured and not decoded yet. -/
  | captured (chunk : Bytes)
  /-- The chunk could not be decoded; that is recorded, and the alarm is still to be raised. -/
  | alarming
  /-- The end of the output was read. -/
  | finished
  deriving DecidableEq, Repr

/-- A session under way, with the place of its reading thread. -/
structure Parties extends Attendance where
  place : ReaderPlace := .waiting

/-- A step of one of the parties. -/
inductive Act where
  /-- The reading thread takes the lock and captures a chunk. -/
  | capture (chunk : Bytes)
  | decode
  | alarm
  | outputEnd
  | diagnostics (chunk : Bytes)
  /-- The watch looks at the engine. -/
  | look (sight : Sight)
  deriving DecidableEq, Repr

namespace Parties

/-- A session whose engine was just started. -/
def start (inputHeld : Bool) : Parties := { watch := { inputHeld } }

/-- Where the reading thread stands behind decoding: it has an alarm to raise if the failure is new. -/
def placeBehind (before after : OutputReader) : ReaderPlace :=
  if before.failure.isNone ∧ after.failure.isSome then .alarming else .waiting

/-- One step. The watch looks on until it has seen the engine end; of the output it sees the alarm alone. -/
inductive Step (rule : StopRule) : Parties → Act → Parties → Prop
  | capture {p : Parties} {chunk : Bytes} : p.place = .waiting →
      Step rule p (.capture chunk)
        { p with reader := p.reader.capture chunk, place := .captured chunk }
  | decode {p : Parties} {chunk : Bytes} : p.place = .captured chunk →
      Step rule p .decode
        { p with reader := p.reader.decode chunk, place := placeBehind p.reader (p.reader.decode chunk) }
  | alarm {p : Parties} : p.place = .alarming → Step rule p .alarm { p with alarmed := true, place := .waiting }
  | outputEnd {p : Parties} : p.place = .waiting →
      Step rule p .outputEnd { p with reader := p.reader.close, place := .finished }
  | diagnostics {p : Parties} {chunk : Bytes} :
      Step rule p (.diagnostics chunk) { p with diagnostics := p.diagnostics ++ chunk }
  | look {p : Parties} {sight : Sight} : p.watch.ended = none → sight.undecodable = p.alarmed →
      Step rule p (.look sight) { p with watch := (p.watch.look rule sight).1 }

/-- Steps one after the other, of any parties in any order. -/
inductive Run (rule : StopRule) : Parties → List Act → Parties → Prop
  | nil {p : Parties} : Run rule p [] p
  | cons {p q r : Parties} {act : Act} {acts : List Act} : Step rule p act q → Run rule q acts r →
      Run rule p (act :: acts) r

variable {rule : StopRule}

theorem Run.append {p q r : Parties} {acts bacts : List Act} (h : Run rule p acts q) (h' : Run rule q bacts r) :
    Run rule p (acts ++ bacts) r := by
  induction h with
  | nil => exact h'
  | cons hstep _ ih => exact .cons hstep (ih h')

/-- What was gathered is taken: the watch has seen the engine end with `status`, and the reading thread has read the
end of the output, or is given up while it waits because the engine was killed. -/
structure Taken (p : Parties) (status : ExitStatus) : Prop where
  ended : p.watch.ended = some status
  reader : p.place = .finished ∨ p.place = .waiting ∧ ∃ reason, p.watch.phase = .killed reason

/-! ## What the parties know -/

/-- The bytes that the reading thread captures. -/
def capturedBy : List Act → Bytes
  | [] => []
  | .capture chunk :: acts => chunk ++ capturedBy acts
  | _ :: acts => capturedBy acts

/-- The sights of the watch. -/
def sights : List Act → List Sight
  | [] => []
  | .look sight :: acts => sight :: sights acts
  | _ :: acts => sights acts

/-- What the reader knows at a place, of the bytes that it has captured. -/
def KnowsAt (r : OutputReader) : ReaderPlace → Prop
  | .waiting => r.Knows r.captured
  | .captured chunk => ∃ before, r.captured = before ++ chunk ∧ r.Knows before
  | .alarming => r.Knows r.captured ∧ r.failure.isSome
  | .finished => Decoder.complete {} r.captured = (r.decoder, r.failure)

/-- What is known of a session between any two steps. -/
structure Sound (p : Parties) : Prop where
  reader : KnowsAt p.reader p.place
  alarm : p.alarmed = true → (Decoder.feed {} p.reader.captured).2.isSome

theorem start_sound (inputHeld : Bool) : (start inputHeld).Sound where
  reader := show OutputReader.Knows {} [] from rfl
  alarm h := by cases h

/-- Bytes that cannot be decoded cannot be decoded with more bytes behind them. -/
theorem isSome_feed_append {t : Bytes} (h : (Decoder.feed {} t).2.isSome) (u : Bytes) :
    (Decoder.feed {} (t ++ u)).2.isSome := by
  rcases ht : Decoder.feed {} t with ⟨d, _ | e⟩
  · rw [ht] at h
    cases h
  · rw [Decoder.feed_append_of_some ht]
    rfl

theorem Sound.step {p q : Parties} {act : Act} (h : p.Sound) (hstep : Step rule p act q) : q.Sound := by
  obtain ⟨hreader, halarm⟩ := h
  cases hstep with
  | @capture chunk hplace =>
    rw [hplace] at hreader
    exact ⟨⟨p.reader.captured, rfl, hreader⟩, fun ha => isSome_feed_append (halarm ha) chunk⟩
  | @decode chunk hplace =>
    rw [hplace] at hreader
    obtain ⟨before, hbefore, hknows⟩ := hreader
    have hknows' : (p.reader.decode chunk).Knows (p.reader.decode chunk).captured := by
      rw [OutputReader.captured_decode, hbefore]
      exact hknows.decode chunk
    refine ⟨?_, fun ha => ?_⟩
    · show KnowsAt _ (placeBehind _ _)
      unfold placeBehind
      split
      · rename_i hfailure
        exact ⟨hknows', hfailure.2⟩
      · exact hknows'
    · rw [OutputReader.captured_decode]
      exact halarm ha
  | alarm hplace =>
    rw [hplace] at hreader
    refine ⟨hreader.1, fun _ => ?_⟩
    rw [show Decoder.feed {} p.reader.captured = _ from hreader.1]
    exact hreader.2
  | outputEnd hplace =>
    rw [hplace] at hreader
    refine ⟨?_, fun ha => ?_⟩
    · show Decoder.complete {} p.reader.close.captured = _
      rw [OutputReader.captured_close]
      exact OutputReader.Knows.close hreader
    · rw [OutputReader.captured_close]
      exact halarm ha
  | diagnostics => exact ⟨hreader, halarm⟩
  | look _ _ => exact ⟨hreader, halarm⟩

theorem Sound.run {p q : Parties} {acts : List Act} (h : p.Sound) (hrun : Run rule p acts q) : q.Sound := by
  induction hrun with
  | nil => exact h
  | cons hstep _ ih => exact ih (h.step hstep)

/-- What is captured is what the reading thread read, chunk by chunk. -/
theorem Run.captured {p q : Parties} {acts : List Act} (hrun : Run rule p acts q) :
    q.reader.captured = p.reader.captured ++ capturedBy acts := by
  induction hrun with
  | nil => exact (List.append_nil _).symm
  | cons hstep _ ih =>
    rw [ih]
    cases hstep with
    | capture _ => exact List.append_assoc _ _ _
    | decode _ => rw [OutputReader.captured_decode]; rfl
    | alarm _ => rfl
    | outputEnd _ => rw [OutputReader.captured_close]; rfl
    | diagnostics => rfl
    | look _ _ => rfl

/-- The watch is where its own sights lead it, whatever the other parties do between them. -/
theorem Run.watch {p q : Parties} {acts : List Act} (hrun : Run rule p acts q) :
    q.watch = (sights acts).foldl (fun w s => (w.look rule s).1) p.watch := by
  induction hrun with
  | nil => rfl
  | cons hstep _ ih =>
    rw [ih]
    cases hstep <;> rfl

/-! ## What is taken -/

/-- What the reader knows when it is taken, of all that it has captured: as much as a fresh decoder fed with it, and
where the engine was not killed, as much as one that has read the end of it, too. -/
theorem Sound.taken {p : Parties} {status : ExitStatus} (h : p.Sound) (htaken : p.Taken status) :
    Decoder.complete {} p.reader.captured = (p.reader.decoder, p.reader.failure) ∨
      p.reader.Knows p.reader.captured ∧ ∃ reason, p.watch.phase = .killed reason := by
  have hreader := h.reader
  rcases htaken.reader with hplace | ⟨hplace, hkilled⟩
  · rw [hplace] at hreader
    exact .inl hreader
  · rw [hplace] at hreader
    exact .inr ⟨hreader, hkilled⟩

end Parties

end Verdicts
