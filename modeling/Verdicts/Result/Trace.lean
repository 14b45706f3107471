/-
Counterexample traces. A trace is a tree that follows the call path of the analyzed component: a
block carries the streams of one component instance and the blocks of the instances that it calls.
Instants are counted from zero and need not be recorded without gaps.
-/

namespace Verdicts

/-- Whether a trace starts in an initial state or only shows a failed inductive step. -/
inductive TraceKind where
  | base
  | step
  deriving DecidableEq, Repr, Inhabited

/-- The value of a stream at one instant. -/
inductive StreamValue where
  | bool (value : Bool)
  | int (value : Int)
  /-- A real in its exact text: a decimal or a fraction. -/
  | real (text : String)
  /-- A constant of an enumeration, and any other value that is shown as it is written. -/
  | text (text : String)
  | array (items : List StreamValue)
  deriving Repr, Inhabited

/-- A named stream with the values recorded for it, in ascending order of their instants. -/
structure TraceStream where
  name : String
  type : String
  /-- `input`, `output`, `local` and the like. -/
  role : String
  values : List (Nat × StreamValue)
  deriving Repr, Inhabited

/-- One component instance in a trace. -/
structure TraceBlock where
  /-- `node`, `function` and the like. -/
  kind : String
  name : String
  streams : List TraceStream
  /-- The blocks of the instances that this one calls. -/
  callees : List TraceBlock
  deriving Repr, Inhabited

/-- A violating execution. -/
structure Trace where
  kind : TraceKind
  blocks : List TraceBlock
  deriving Repr, Inhabited

/-- The largest number of 64 bits, beyond which no length is counted. -/
def greatestLength : Nat := 1 <<< 64 - 1

namespace TraceStream

/-- The first value recorded at an instant. -/
def at? (s : TraceStream) (instant : Nat) : Option StreamValue :=
  s.values.lookup instant

/-- How many instants the stream reaches over. -/
def length (s : TraceStream) : Nat :=
  s.values.foldl (fun n entry => max n (min (entry.1 + 1) greatestLength)) 0

end TraceStream

namespace TraceBlock

mutual

/-- How many instants the streams of a block and of its callees reach over. -/
def length : TraceBlock → Nat
  | ⟨_, _, streams, callees⟩ =>
    max ((streams.map TraceStream.length).foldl max 0) (lengths callees)

/-- The greatest `length` among blocks. -/
def lengths : List TraceBlock → Nat
  | [] => 0
  | block :: rest => max (length block) (lengths rest)

end

end TraceBlock

/-- How many instants a trace covers. -/
def Trace.length (t : Trace) : Nat := TraceBlock.lengths t.blocks

end Verdicts
