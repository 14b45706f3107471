/-
A host runs a session as its parties might: whatever the host does from the start of an engine until the session has
ended is one of the interleavings of `Parties.Run`. A chunk that an engine writes is captured, decoded and, if that
fails, reported by three steps with nothing between them. Main statement: `exists_run_of_execute`.
-/
import Verdicts.Engine.Execution
import Verdicts.Proofs.Engine.Parties

namespace Verdicts

/-! ## What processes write -/

/-- Something that an engine writes. -/
def SessionEvent.IsWritten : SessionEvent → Prop
  | .output _ => True
  | .diagnostics _ => True
  | _ => False

namespace Running

theorem isWritten_of_act (r : Running) (t : Strand) {e : SessionEvent} (h : (r.act t).2.event = some e) :
    e.IsWritten := by
  unfold act at h
  split at h <;> try split at h
  all_goals first
    | exact absurd h (Option.some_ne_none e).symm
    | (cases h; exact trivial)

/-- Running the processes adds nothing to the events but what they write. -/
theorem isWritten_of_settle (now : Nat) :
    ∀ (fuel : Nat) (r : Running) (events : List SessionEvent) (e : SessionEvent),
      e ∈ (r.settle now fuel events).2 → e ∈ events ∨ e.IsWritten
  | 0, r, events, e, h => .inl h
  | fuel + 1, r, events, e, h => by
    unfold settle at h
    simp only at h
    split at h
    · exact .inl h
    · rename_i place hplace
      rcases isWritten_of_settle now fuel _ _ e h with hmem | hwritten
      · rcases List.mem_append.1 hmem with hnew | hold
        · exact .inr (isWritten_of_act r _ (Option.mem_toList.1 hnew))
        · exact .inl hold
      · exact .inr hwritten

theorem isWritten_of_runTo (now : Nat) (r : Running) : ∀ e ∈ (r.runTo now).2, e.IsWritten := by
  intro e he
  rcases isWritten_of_settle now stepLimit r [] e (List.mem_reverse.1 he) with h | h
  · cases h
  · exact h

end Running

/-! ## Events as steps -/

namespace Parties

variable {rule : StopRule}

/-- The reading thread waits, and has raised the alarm if decoding has failed. -/
structure Settled (a : Attendance) : Prop where
  alarmed : a.reader.failure.isSome → a.alarmed = true

/-- A chunk that is received at once is captured and decoded, and the alarm is raised behind that if it is due. -/
theorem exists_run_output (rule : StopRule) {a : Attendance} (ha : Settled a) (chunk : Bytes) :
    ∃ acts, Run rule ⟨a, .waiting⟩ acts ⟨(a.step rule (.output chunk)).1, .waiting⟩ := by
  have hstep : (a.step rule (.output chunk)).1 =
      { a with
        reader := (a.reader.capture chunk).decode chunk
        alarmed := a.alarmed || ((a.reader.capture chunk).decode chunk).failure.isSome } := by
    rw [← OutputReader.receive_eq]
    rfl
  have hcapture : Step rule ⟨a, .waiting⟩ (.capture chunk)
      ⟨{ a with reader := a.reader.capture chunk }, .captured chunk⟩ := .capture rfl
  have hdecode : Step rule ⟨{ a with reader := a.reader.capture chunk }, .captured chunk⟩ .decode
      ⟨{ a with reader := (a.reader.capture chunk).decode chunk },
        placeBehind (a.reader.capture chunk) ((a.reader.capture chunk).decode chunk)⟩ := .decode rfl
  rw [hstep]
  -- a failure from before has raised the alarm and is all that there is; a new one has it still to raise
  cases hold : a.reader.failure with
  | some e =>
    have hsame : (a.reader.capture chunk).decode chunk = a.reader.capture chunk := by
      have hcaptured : (a.reader.capture chunk).failure = some e := hold
      rw [OutputReader.decode, hcaptured]
    have halarmed : a.alarmed = true := ha.alarmed (by rw [hold]; rfl)
    have hplace : placeBehind (a.reader.capture chunk) (a.reader.capture chunk) = .waiting := by
      unfold placeBehind
      rw [if_neg]
      rintro ⟨hnone, hsome⟩
      rw [Option.isNone_iff_eq_none] at hnone
      rw [hnone] at hsome
      cases hsome
    rw [hsame, hplace] at hdecode
    rw [hsame, halarmed, Bool.true_or, ← halarmed]
    exact ⟨_, .cons hcapture (.cons hdecode .nil)⟩
  | none =>
    unfold placeBehind at hdecode
    cases hnew : ((a.reader.capture chunk).decode chunk).failure with
    | none =>
      rw [if_neg (by rw [hnew]; simp)] at hdecode
      rw [Option.isSome_none, Bool.or_false]
      exact ⟨_, .cons hcapture (.cons hdecode .nil)⟩
    | some e =>
      have hnone : (a.reader.capture chunk).failure.isNone = true := by
        show a.reader.failure.isNone = true
        rw [hold]
        rfl
      rw [if_pos ⟨hnone, by rw [hnew]; rfl⟩] at hdecode
      rw [Option.isSome_some, Bool.or_true]
      exact ⟨_, .cons hcapture (.cons hdecode (.cons (.alarm rfl) .nil))⟩

theorem settled_output (rule : StopRule) (a : Attendance) (chunk : Bytes) : Settled (a.step rule (.output chunk)).1 where
  alarmed h := by
    show (a.alarmed || (a.reader.receive chunk).failure.isSome) = true
    rw [show (a.reader.receive chunk).failure.isSome = true from h, Bool.or_true]

/-- What an engine writes is taken in by steps of the reading threads; the watch is not concerned. -/
theorem exists_run_written (rule : StopRule) {a : Attendance} (ha : Settled a) {events : List SessionEvent}
    (hwritten : ∀ e ∈ events, e.IsWritten) :
    ∃ acts, Run rule ⟨a, .waiting⟩ acts ⟨a.run rule events, .waiting⟩ ∧ Settled (a.run rule events) ∧
      (a.run rule events).watch = a.watch := by
  induction events generalizing a with
  | nil => exact ⟨[], .nil, ha, rfl⟩
  | cons e events ih =>
    have hrest : ∀ e' ∈ events, e'.IsWritten := fun e' he' => hwritten e' (List.mem_cons_of_mem _ he')
    cases e with
    | output chunk =>
      obtain ⟨acts, hrun⟩ := exists_run_output rule ha chunk
      obtain ⟨more, hmore, hsettled, hwatch⟩ := ih (settled_output rule a chunk) hrest
      exact ⟨acts ++ more, hrun.append hmore, hsettled, hwatch⟩
    | diagnostics chunk =>
      obtain ⟨more, hmore, hsettled, hwatch⟩ :=
        ih (a := (a.step rule (.diagnostics chunk)).1) ⟨ha.alarmed⟩ hrest
      exact ⟨_, .cons .diagnostics hmore, hsettled, hwatch⟩
    | outputEnd => exact absurd (hwritten _ (List.mem_cons_self ..)) id
    | look exit cancelled now => exact absurd (hwritten _ (List.mem_cons_self ..)) id

/-! ## Whole sessions -/

/-- Draining runs what is left up to some deadline. -/
theorem exists_deadline (rule : StopRule) (now : Nat) (a : Attendance) (status : ExitStatus) (r : Running) :
    ∃ deadline, drain rule now a status r =
      if (r.runTo deadline).1.allEnded then
        some ⟨((a.run rule (r.runTo deadline).2).step rule .outputEnd).1, status, (r.runTo deadline).1.files⟩
      else
        match (a.run rule (r.runTo deadline).2).watch.phase with
        | .killed _ => some ⟨a.run rule (r.runTo deadline).2, status, (r.runTo deadline).1.files⟩
        | _ => none :=
  ⟨_, rfl⟩

/-- What is left of the output when the engine has ended is read to its end, or given up if it was killed. -/
theorem exists_run_of_drain {now : Nat} {a : Attendance} {status : ExitStatus} {r : Running} {done : Attended}
    (h : drain rule now a status r = some done) (ha : Settled a) (hended : a.watch.ended = some status) :
    ∃ acts p, Run rule ⟨a, .waiting⟩ acts p ∧ p.toAttendance = done.attendance ∧ p.Taken done.status := by
  obtain ⟨deadline, hdrain⟩ := exists_deadline rule now a status r
  rw [hdrain] at h
  have hwritten := r.isWritten_of_runTo deadline
  rcases hto : r.runTo deadline with ⟨r', events⟩
  rw [hto] at h hwritten
  obtain ⟨acts, hrun, hsettled, hwatch⟩ := exists_run_written rule ha hwritten
  simp only at h
  split at h
  · cases h
    exact ⟨_, _, hrun.append (.cons (.outputEnd rfl) .nil), rfl, ⟨by rw [← hended, ← hwatch], .inl rfl⟩⟩
  · split at h
    · rename_i reason hphase
      cases h
      exact ⟨_, _, hrun, rfl, ⟨by rw [← hended, ← hwatch], .inr ⟨rfl, reason, hphase⟩⟩⟩
    · cases h

theorem exists_run_of_attend {interval : Nat} {cancelled : Files → Bool} {fuel now : Nat} {a : Attendance}
    {r : Running} {done : Attended} (h : attend rule interval cancelled fuel now a r = some done)
    (ha : Settled a) (hended : a.watch.ended = none) :
    ∃ acts p, Run rule ⟨a, .waiting⟩ acts p ∧ p.toAttendance = done.attendance ∧ p.Taken done.status := by
  induction fuel generalizing now a r with
  | zero => cases h
  | succ fuel ih =>
    unfold attend at h
    have hwritten := r.isWritten_of_runTo now
    rcases hto : r.runTo now with ⟨r', events⟩
    rw [hto] at h hwritten
    obtain ⟨acts, hrun, hsettled, hwatch⟩ := exists_run_written rule ha hwritten
    -- the look of the watch, with what it sees of the alarm then
    have hlook : Step rule ⟨a.run rule events, .waiting⟩
        (.look ⟨r'.ended?, cancelled r'.files, (a.run rule events).alarmed, now⟩)
        ⟨((a.run rule events).step rule (.look r'.ended? (cancelled r'.files) now)).1, .waiting⟩ :=
      .look (by rw [← hended, ← hwatch]) rfl
    have hsettled' : Settled ((a.run rule events).step rule (.look r'.ended? (cancelled r'.files) now)).1 :=
      ⟨hsettled.alarmed⟩
    simp only at h
    split at h
    · rename_i status hstatus
      obtain ⟨more, p, hmore, hp, htaken⟩ := exists_run_of_drain h hsettled' hstatus
      exact ⟨_, p, hrun.append (.cons hlook hmore), hp, htaken⟩
    · rename_i hrunning
      obtain ⟨more, p, hmore, hp, htaken⟩ := ih h hsettled' hrunning
      exact ⟨_, p, hrun.append (.cons hlook hmore), hp, htaken⟩

end Parties

namespace Host

open Parties

/-- The engine of a session is started: the session is not cancelled before, and there is such a program. -/
def Starts (h : Host) (config : EngineConfig) (request : SessionRequest) : Prop :=
  request.cancelledBefore = false ∧ ∃ program, h.program config.binary = .ok program

/-- `Ran config request acts p status`: the parties have led the session by these acts from its start to `p`, where
it is over and its engine has ended with `status`. -/
structure Ran (config : EngineConfig) (request : SessionRequest) (acts : List Act) (p : Parties)
    (status : ExitStatus) : Prop where
  run : Run (stopRule config) (Parties.start request.input.initial.2) acts p
  taken : p.Taken status

/-- A session whose engine was started and has ended comes to what some interleaving of its parties comes to. -/
theorem exists_run_of_execute {h : Host} {config : EngineConfig} {request : SessionRequest} {done : Executed}
    (hstarts : h.Starts config request) (hdone : h.execute config request = some done) :
    ∃ acts p status, Ran config request acts p status ∧ done.outcome = p.conclude status ∧
      done.transcript = p.reader.decoder.transcript := by
  obtain ⟨hbefore, program, hprogram⟩ := hstarts
  unfold execute at hdone
  rw [hbefore, hprogram] at hdone
  simp only [Bool.false_eq_true, if_false, Option.map_eq_some_iff] at hdone
  obtain ⟨attended, hattended, rfl⟩ := hdone
  obtain ⟨acts, p, hrun, hp, htaken⟩ := exists_run_of_attend hattended ⟨fun hfailure => by cases hfailure⟩ rfl
  exact ⟨acts, p, attended.status, ⟨hrun, htaken⟩, by rw [hp], by rw [hp]⟩

end Host

end Verdicts
