/-
Cutting the engine's output into records. The output is meant to be a JSON array of objects, but it
is read while it is written: whatever stands between two objects is skipped if it can belong to an
array, and an object is complete as soon as its last brace has come. Only brackets and strings are
looked at; whether a record is JSON is not decided here.
-/
import Verdicts.Text.Utf8

namespace Verdicts

/-- What the brackets of a record have to be told apart from. -/
inductive Lexical where
  /-- Outside of strings. -/
  | code
  | string
  /-- Behind a backslash in a string. -/
  | escape
  deriving DecidableEq, Repr, Inhabited

/-- Whether a record is being read. -/
inductive ScannerState where
  | between
  /-- Inside the record that began at `start`, within `depth` brackets further in than its outermost
  brace. `taken` are its bytes so far, newest first. -/
  | inside (start depth : Nat) (lexical : Lexical) (taken : Bytes)
  deriving DecidableEq, Repr, Inhabited

/-- A scanner between two bytes. -/
structure Scanner where
  /-- How many bytes have been read. -/
  offset : Nat := 0
  state : ScannerState := .between
  deriving DecidableEq, Repr, Inhabited

/-- The text of a record and where it begins. -/
structure RawRecord where
  start : Nat
  text : Bytes
  deriving DecidableEq, Repr, Inhabited

/-- Whether a byte may stand between two records: brackets of an array, a comma, or a blank. -/
def isSeparator (b : UInt8) : Bool :=
  b == 0x5B || b == 0x5D || b == 0x2C || b == 0x20 || b == 0x09 || b == 0x0A || b == 0x0C || b == 0x0D

namespace Scanner

/-- One byte inside a record. -/
def inner (start depth : Nat) (lexical : Lexical) (taken : Bytes) (b : UInt8) :
    ScannerState × Option RawRecord :=
  let taken := b :: taken
  match lexical with
  | .escape => (.inside start depth .string taken, none)
  | .string =>
    if b = 0x5C then (.inside start depth .escape taken, none)
    else if b = 0x22 then (.inside start depth .code taken, none)
    else (.inside start depth .string taken, none)
  | .code =>
    if b = 0x22 then (.inside start depth .string taken, none)
    else if b = 0x7B ∨ b = 0x5B then (.inside start (depth + 1) .code taken, none)
    else if b = 0x7D ∨ b = 0x5D then
      match depth with
      | 0 => (.between, some ⟨start, taken.reverse⟩)
      | depth + 1 => (.inside start depth .code taken, none)
    else (.inside start depth .code taken, none)

/-- One byte, and the record that it completes, if it does; none for a byte that may not stand
between two records. -/
def step (s : Scanner) (b : UInt8) : Option (Scanner × Option RawRecord) :=
  match s.state with
  | .between =>
    if b = 0x7B then some (⟨s.offset + 1, .inside s.offset 0 .code [b]⟩, none)
    else if isSeparator b then some (⟨s.offset + 1, .between⟩, none)
    else none
  | .inside start depth lexical taken =>
    let (state, record) := inner start depth lexical taken b
    some (⟨s.offset + 1, state⟩, record)

/-- Where the record begins that is being read. -/
def pending? (s : Scanner) : Option Nat :=
  match s.state with
  | .between => none
  | .inside start .. => some start

end Scanner

end Verdicts
