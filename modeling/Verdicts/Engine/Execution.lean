/-
Running an engine on a host. Time is counted in milliseconds from the start of the engine; what an
engine does between two pauses takes no time.
-/
import Verdicts.Engine.Config
import Verdicts.Engine.Host
import Verdicts.Engine.Session

namespace Verdicts

/-- How the text of a program reaches the engine. -/
inductive ProgramInput where
  /-- In a file made for it, whose path is the last argument. -/
  | text (value : String)
  /-- In a file whose path is the last argument. -/
  | file (path : Path)
  /-- On the input of the engine, which ends behind it. -/
  | channel (value : String)
  deriving DecidableEq, Repr, Inhabited

/-- A process, and up to when it has run. -/
structure Strand where
  process : Process
  clock : Nat := 0
  deriving Inhabited

/-- How a process has ended, if it has. -/
def Strand.ended? (t : Strand) : Option ExitStatus :=
  match t.process with
  | .exit status => some status
  | _ => none

/-- A process on its host, with the processes that it has started. -/
structure Running where
  main : Strand
  others : List Strand := []
  files : Files
  /-- What was written to the input and not read yet. -/
  input : Bytes := []
  /-- Whether more may be written to the input. -/
  inputOpen : Bool := false
  deriving Inhabited

namespace Running

/-- How the process has ended, if it has. -/
def ended? (r : Running) : Option ExitStatus := r.main.ended?

/-- Whether all processes have ended. -/
def allEnded (r : Running) : Bool := (r.main :: r.others).all (·.ended?.isSome)

/-- The processes that are waited for. -/
def awaited (r : Running) : Option Nat → List Strand
  | none => r.others
  | some child => r.others[child]?.toList

/-- When the next action of a process takes place. None is the answer while it has to wait for
something else, and when it has ended. Only the first process has others to wait for. -/
def dueTime? (r : Running) (isMain : Bool) (t : Strand) : Option Nat :=
  match t.process with
  | .exit _ => none
  | .spin => none
  | .read _ => if r.input.isEmpty && r.inputOpen then none else some t.clock
  | .pause milliseconds _ => some (t.clock + milliseconds)
  | .join child _ =>
    if !isMain || (r.awaited child).all (·.ended?.isSome) then some t.clock else none
  | _ => some t.clock

/-- What an action does beside the process that takes it. -/
structure Effect where
  files : Files
  input : Bytes
  event : Option SessionEvent := none
  child : Option Strand := none
  /-- A process that is ended by a signal. -/
  halted : Option (Nat × Nat) := none

/-- One action of a process. -/
def act (r : Running) (t : Strand) : Strand × Effect :=
  let quiet : Effect := { files := r.files, input := r.input }
  match t.process with
  | .exit _ => (t, quiet)
  | .spin => (t, quiet)
  | .write .output bytes next => ({ t with process := next () }, { quiet with event := some (.output bytes) })
  | .write .diagnostics bytes next =>
    ({ t with process := next () }, { quiet with event := some (.diagnostics bytes) })
  | .read next =>
    match r.input with
    | b :: rest => ({ t with process := next (some b) }, { quiet with input := rest })
    | [] => ({ t with process := next none }, quiet)
  | .pause milliseconds next => (⟨next (), t.clock + milliseconds⟩, quiet)
  | .look path next => ({ t with process := next (r.files.find path) }, quiet)
  | .whereabouts next => ({ t with process := next r.files.workingDirectory }, quiet)
  | .list path next => ({ t with process := next (r.files.names path) }, quiet)
  | .change edit next =>
    match edit r.files with
    | .ok files => ({ t with process := next none }, { quiet with files })
    | .error e => ({ t with process := next (some e) }, quiet)
  | .fork child next =>
    ({ t with process := next r.others.length }, { quiet with child := some ⟨child, t.clock⟩ })
  | .join child next =>
    let others := (r.awaited child).filter (·.ended?.isSome)
    let status := child.bind fun _ => others.head?.bind (·.ended?)
    (⟨next status, others.foldl (fun clock o => max clock o.clock) t.clock⟩, quiet)
  | .halt child signal next =>
    ({ t with process := next () }, { quiet with halted := some (child, signal) })

/-- The place among processes of the one whose next action comes first, if any comes by `now`; of
several that come at once it is the first. `best` is the choice so far. -/
def earliest? (r : Running) (now : Nat) (best : Option (Nat × Nat)) : Nat → List Strand → Option Nat
  | _, [] => best.map (·.1)
  | place, t :: rest =>
    match r.dueTime? (place = 0) t with
    | none => earliest? r now best (place + 1) rest
    | some due =>
      let better := due ≤ now && best.all fun (_, other) => due < other
      earliest? r now (if better then some (place, due) else best) (place + 1) rest

/-- The processes without one that is ended by a signal. One that has ended stays as it is. -/
def halting (others : List Strand) (now : Nat) : Option (Nat × Nat) → List Strand
  | none => others
  | some (child, signal) =>
    match others[child]? with
    | some t => if t.ended?.isSome then others
      else others.set child ⟨.exit (.signal signal), max t.clock now⟩
    | none => others

/-- What has come of an action of the process at a place. -/
def afterwards (r : Running) (place : Nat) (t : Strand) (effect : Effect) : Running :=
  let others := halting r.others t.clock effect.halted
  let strands := (r.main :: others).set place t ++ effect.child.toList
  { r with
    main := strands.head?.getD r.main
    others := strands.drop 1
    files := effect.files
    input := effect.input }

/-- Run the processes up to a time, or until all of them wait for input or have ended. The events
are what they wrote, newest first. -/
def settle (now : Nat) : Nat → Running → List SessionEvent → Running × List SessionEvent
  | 0, r, events => (r, events)
  | fuel + 1, r, events =>
    let strands := r.main :: r.others
    match r.earliest? now none 0 strands with
    | none => (r, events)
    | some place =>
      let (t, effect) := r.act (strands[place]?.getD r.main)
      settle now fuel (r.afterwards place t effect) (effect.event.toList ++ events)

/-- How many steps processes may take without a pause. -/
def stepLimit : Nat := 1 <<< 32

/-- Run the processes up to a time. The events come in their order. -/
def runTo (now : Nat) (r : Running) : Running × List SessionEvent :=
  let (r, events) := r.settle now stepLimit []
  (r, events.reverse)

/-- What the watch does to the process. -/
def undergo (now : Nat) (r : Running) : Intervention → Running
  | .kill => { r with main := ⟨.exit (.signal 9), max r.main.clock now⟩ }
  | .tell marker =>
    { r with
      input := r.input ++ Utf8.encode marker
      inputOpen := false
      main := { r.main with clock := max r.main.clock now } }

end Running

/-- A session that has ended. -/
structure Attended where
  attendance : Attendance
  status : ExitStatus
  files : Files
  deriving Inhabited

/-- A time that no engine takes. -/
def horizon : Nat := 1 <<< 62

/-- Read what is left of the output when the engine has ended. Processes that it has started may
still write; when it had to be killed, they are given up after the grace period. None is the answer if
they never end. -/
def drain (rule : StopRule) (now : Nat) (a : Attendance) (status : ExitStatus) (r : Running) :
    Option Attended :=
  let deadline := match a.watch.phase with
    | .killed _ => now + rule.gracePeriod
    | _ => horizon
  let (r, events) := r.runTo deadline
  let a := a.run rule events
  if r.allEnded then some ⟨(a.step rule .outputEnd).1, status, r.files⟩
  else
    match a.watch.phase with
    | .killed _ => some ⟨a, status, r.files⟩
    | _ => none

/-- Watch an engine until it ends. `cancelled` says for the files of the host whether a cancellation
was requested. The watch gives up after as many looks as `fuel` says. -/
def attend (rule : StopRule) (interval : Nat) (cancelled : Files → Bool) :
    Nat → Nat → Attendance → Running → Option Attended
  | 0, _, _, _ => none
  | fuel + 1, now, a, r =>
    let (r, events) := r.runTo now
    let (a, interventions) :=
      (a.run rule events).step rule (.look r.ended? (cancelled r.files) now)
    match a.watch.ended with
    | some status => drain rule now a status { r with inputOpen := false }
    | none =>
      attend rule interval cancelled fuel (now + interval) a (interventions.foldl (·.undergo now) r)

/-- How many looks a session may take. -/
def lookLimit : Nat := 1000000

/-- A session to be run. -/
structure SessionRequest where
  args : List String := []
  input : ProgramInput := .channel ""
  /-- Whether a cancellation was requested before the start. -/
  cancelledBefore : Bool := false
  /-- Whether a cancellation is requested, by the files of the host. -/
  cancelledOn : Files → Bool := fun _ => false
  deriving Inhabited

/-- What has come of a session. -/
structure Executed where
  outcome : Except SessionError Session
  /-- What the engine has told beside its verdicts. -/
  transcript : Transcript := {}
  files : Files

namespace Executed

/-- What the caller is told, which happens once. -/
def completion (e : Executed) : Completion := .ofOutcome e.outcome

end Executed

/-- The path of the file that is made for the text of a program. -/
def temporaryPath : Path := "/tmp/kindly-Xb3kQz.lus"

namespace ProgramInput

/-- The last argument of the engine, if the input gives one. -/
def lastArg : ProgramInput → List String
  | text _ => [temporaryPath]
  | file path => [path]
  | channel _ => []

/-- What is written to the input of the engine at its start, and whether that stays open. -/
def initial : ProgramInput → Bytes × Bool
  | channel value => (Utf8.encode value, false)
  | _ => ([], true)

/-- The files of the host while the session runs. -/
def prepare (files : Files) : ProgramInput → Files
  | text value => files.plant (Path.components temporaryPath) (.file (Utf8.encode value))
  | _ => files

/-- The files of the host when the session has ended. -/
def cleanUp (files : Files) : ProgramInput → Files
  | text _ => files.remove temporaryPath
  | _ => files

end ProgramInput

namespace Host

/-- How a configuration wants an engine to be stopped. -/
def stopRule (config : EngineConfig) : StopRule := ⟨config.gracePeriod, config.terminationMarker⟩

/-- Run the engine to its end, or until it is stopped. A session that was cancelled before does not
start it. None is the answer for an engine that never ends. -/
def execute (h : Host) (config : EngineConfig) (request : SessionRequest) : Option Executed :=
  if request.cancelledBefore then
    some { outcome := .ok .cancelledBeforeStart, files := h.files }
  else
    match h.program config.binary with
    | .error e =>
      some
        { outcome := .error (.configuration s!"cannot start '{config.binary}': {e.message}")
          files := h.files }
    | .ok program =>
      let process := program (config.baseArgs ++ request.args ++ request.input.lastArg)
      let (input, inputOpen) := request.input.initial
      let running : Running :=
        { main := { process }, files := request.input.prepare h.files, input, inputOpen }
      let attendance : Attendance := { watch := { inputHeld := inputOpen } }
      (attend (stopRule config) (max 1 config.pollInterval) request.cancelledOn lookLimit 0
        attendance running).map fun done =>
          { outcome := done.attendance.conclude done.status
            transcript := done.attendance.reader.decoder.transcript
            files := request.input.cleanUp done.files }

end Host

end Verdicts
