/-
Reading one record from the text of a JSON object. The member that names the kind is checked as soon
as it is met, so a fault in it comes before anything that is wrong further on in the text; all other
members are looked at when the whole text is known to be JSON.
-/
import Verdicts.Json.Reader
import Verdicts.Record.Schema
import Verdicts.Text.Place

namespace Verdicts

/-- Why a text is not a record. -/
inductive RecordFault where
  /-- It is not JSON. -/
  | malformed
  /-- It is JSON of another shape. The place is known when the kind is at fault. -/
  | data (error : DataError) (place : Option TextPlace)
  deriving DecidableEq, Repr, Inhabited

namespace Record

/-- The name of the member that names the kind. -/
def kindKey : String := "objectType"

/-- The kind that a value names. -/
def readKind (value : Json) : Except DataError RecordKind :=
  match value with
  | .string name =>
    match RecordKind.ofText? name with
    | some kind => .ok kind
    | none => .error (.unknownKind name (RecordKind.all.map (·.text)))
  | value => .error (.wrongType value "variant identifier")

/-- The kind that the members met so far name, if they do; `found` is what those before them named. -/
def kindAmong (found : Option RecordKind) : List (String × Json) → Except DataError (Option RecordKind)
  | [] => .ok found
  | (key, value) :: rest =>
    if key = kindKey then
      match found with
      | some _ => .error (.duplicateField kindKey)
      | none =>
        match readKind value with
        | .ok kind => kindAmong (some kind) rest
        | .error e => .error e
    else kindAmong found rest

/-- The fault of a member that has not been read to its end: one that names the kind again, or an
array or object where the kind is to be named. -/
def pendingFault? (found : Option RecordKind) (key : Option String) (frames : List Json.Frame) :
    Option DataError :=
  if key = some kindKey then
    match found, frames.dropLast.getLast? with
    | some _, _ => some (.duplicateField kindKey)
    | none, some (.array _) => some (.wrongType (.array []) "variant identifier")
    | none, some (.object ..) => some (.wrongType (.object []) "variant identifier")
    | none, none => none
  else none

/-- The fault of the kind that a reader of the text has met. -/
def kindFault? (r : Json.Reader) : Option DataError :=
  match r.outermost? with
  | none => none
  | some (members, key) =>
    match kindAmong none members with
    | .error e => some e
    | .ok found => pendingFault? found key r.frames

/-- The bytes of a text up to where the kind is seen to be at fault, newest first, and the bytes
behind that. An array or object is seen at its bracket, a number at the byte behind it. -/
def untilKindFault (r : Json.Reader) (before : Bytes) : Bytes → Bytes × Bytes
  | [] => (before, [])
  | b :: rest =>
    match r.step b with
    | .error _ => (before, b :: rest)
    | .ok next =>
      if (kindFault? next).isNone then untilKindFault next (b :: before) rest
      else if r.inNumber || b == 0x5B || b == 0x7B then (before, b :: rest)
      else (b :: before, rest)

/-- A kind that is named again is noticed behind the blanks that follow, and behind the object if
that ends there. -/
def behindBlanks (before : Bytes) : Bytes → Bytes
  | [] => before
  | b :: rest =>
    if Json.Reader.isBlank b then behindBlanks (b :: before) rest
    else if b = 0x7D then b :: before
    else before

/-- Where the fault of a kind stands. A kind that is missing is missed at the end of the text. -/
def kindPlace (text : Bytes) (e : DataError) : TextPlace :=
  let (before, rest) := untilKindFault .initial [] text
  match e with
  | .duplicateField _ => .behind (behindBlanks before rest)
  | _ => .behind before

/-- The fault of a text whose reading got stuck. -/
def stuckFault (text : Bytes) (r : Json.Reader) : RecordFault :=
  match kindFault? r with
  | some e => .data e (some (kindPlace text e))
  | none => .malformed

/-- The record that the members of the object in a text give. -/
def ofMembers (text : Bytes) (members : List (String × Json)) : Except RecordFault Record :=
  let misnamed (e : DataError) : Except RecordFault Record :=
    .error (.data e (some (kindPlace text e)))
  match kindAmong none members with
  | .error e => misnamed e
  | .ok none => misnamed (.missingField kindKey)
  | .ok (some kind) =>
    (Schema.record kind (members.filter (·.1 ≠ kindKey))).mapError (.data · none)

/-- The record that a text denotes. -/
def read (text : Bytes) : Except RecordFault Record :=
  match Json.Reader.initial.run text with
  | .error stuck => .error (stuckFault text stuck)
  | .ok r =>
    match r.finished? with
    | some (.object members) => ofMembers text members
    | some _ => .error .malformed
    | none => .error (stuckFault text r)

end Record

end Verdicts
