/-
Watching a running engine. The watch looks at the engine again and again until it has ended. A
request to cancel, or output that cannot be decoded, begins a stop: the engine is told to stop, and is
killed if it still runs when the grace period is over.
-/
import Verdicts.Engine.Exit

namespace Verdicts

/-- Why an engine is being stopped. -/
inductive StopReason where
  | requested
  | undecodable
  deriving DecidableEq, Repr, Inhabited

/-- How far a stop has come. -/
inductive Phase where
  | running
  /-- Told to stop; it is killed when the deadline has come. -/
  | stopping (reason : StopReason) (deadline : Nat)
  | killed (reason : StopReason)
  deriving DecidableEq, Repr, Inhabited

/-- The reason of the stop that has begun, if one has. -/
def Phase.reason? : Phase → Option StopReason
  | running => none
  | stopping reason _ => some reason
  | killed reason => some reason

/-- What one look shows. -/
structure Sight where
  /-- How the engine has ended, if it has. -/
  exit : Option ExitStatus := none
  /-- Whether a cancellation was requested. -/
  cancelled : Bool := false
  /-- Whether output came that cannot be decoded. -/
  undecodable : Bool := false
  /-- The time of the look. -/
  now : Nat
  deriving DecidableEq, Repr, Inhabited

/-- What the watch does to the engine. -/
inductive Intervention where
  /-- Write to its input, and close that. -/
  | tell (marker : String)
  | kill
  deriving DecidableEq, Repr, Inhabited

/-- How an engine is to be stopped. -/
structure StopRule where
  gracePeriod : Nat
  /-- What an engine is told that shall stop. -/
  marker : Option String
  deriving DecidableEq, Repr, Inhabited

/-- A watch between two looks. -/
structure Watch where
  phase : Phase := .running
  /-- Whether the input of the engine is still held open. -/
  inputHeld : Bool := true
  /-- How the engine ended, once that was seen. -/
  ended : Option ExitStatus := none
  deriving DecidableEq, Repr, Inhabited

namespace Watch

/-- The reason to begin a stop that a look shows. A request comes before everything else. -/
def reasonIn (s : Sight) : Option StopReason :=
  if s.cancelled then some .requested
  else if s.undecodable then some .undecodable
  else none

/-- Begin a stop: tell the engine, if there is something to tell it and its input is held. -/
def beginStop (rule : StopRule) (w : Watch) (reason : StopReason) (now : Nat) :
    Watch × List Intervention :=
  let phase := .stopping reason (now + rule.gracePeriod)
  match rule.marker with
  | none => ({ w with phase }, [])
  | some marker =>
    if w.inputHeld then ({ w with phase, inputHeld := false }, [.tell marker])
    else ({ w with phase }, [])

/-- One look. Nothing is done any more once the end of the engine was seen. -/
def look (rule : StopRule) (w : Watch) (s : Sight) : Watch × List Intervention :=
  match w.ended with
  | some _ => (w, [])
  | none =>
    match s.exit with
    | some status => ({ w with ended := some status }, [])
    | none =>
      match w.phase with
      | .running =>
        match reasonIn s with
        | some reason => w.beginStop rule reason s.now
        | none => (w, [])
      | .stopping reason deadline =>
        if deadline ≤ s.now then ({ w with phase := .killed reason }, [.kill]) else (w, [])
      | .killed _ => (w, [])

end Watch

end Verdicts
