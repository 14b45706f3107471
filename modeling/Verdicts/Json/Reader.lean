/-
Reading JSON text, one byte at a time, with the unfinished arrays and objects on a stack. The text
is strict JSON: four blank characters, no control characters in strings, surrogates only in pairs,
UTF-8 in every string and key, at most `nestingLimit` arrays and objects open at once.

A byte that cannot follow is refused, and the refusal carries the reader as it stood, so that what
was read before can still be inspected.
-/
import Verdicts.Json.Numeral
import Verdicts.Text.Utf8

namespace Verdicts.Json

/-- How many arrays and objects may be open at once. -/
def nestingLimit : Nat := 127

/-- An array or object whose end has not been read. Its content is kept newest first. -/
inductive Frame where
  | array (items : List Json)
  /-- `key` is the key whose value is to come. -/
  | object (members : List (String × Json)) (key : Option String)

/-- Where a reader stands inside a string. -/
inductive StringPlace where
  | plain
  /-- Behind a backslash. -/
  | escape
  /-- Inside the digits of a `\u` escape: how many are to come, the value of those read, and the
  leading surrogate that the escape has to complete, if one stands before it. -/
  | code (missing value : Nat) (lead : Option Nat)
  /-- Behind the escape of a leading surrogate. -/
  | lead (surrogate : Nat)
  /-- Behind that and a backslash. -/
  | leadEscape (surrogate : Nat)
  deriving DecidableEq, Repr

/-- What a reader expects or is in the middle of. -/
inductive Mode where
  | value
  /-- Behind `[`: a value or the end of the array. -/
  | firstItem
  /-- Behind `{`: a key or the end of the object. -/
  | firstKey
  /-- Behind a comma in an object. -/
  | nextKey
  | colon
  /-- Behind a value inside an array or object. -/
  | afterValue
  /-- Inside a string, with the bytes of its content newest first. -/
  | string (isKey : Bool) (place : StringPlace) (content : Bytes)
  /-- Inside `null`, `true` or `false`: the bytes to come. -/
  | word (missing : Bytes) (value : Json)
  | number (literal : Numeral)
  /-- Behind a complete value. -/
  | done (value : Json)

/-- A reader between two bytes, innermost frame first. -/
structure Reader where
  frames : List Frame
  mode : Mode

namespace Reader

/-- Before the first byte. -/
def initial : Reader := ⟨[], .value⟩

/-- A value has been read. -/
def deliver (frames : List Frame) (value : Json) : Reader :=
  match frames with
  | [] => ⟨[], .done value⟩
  | .array items :: outer => ⟨.array (value :: items) :: outer, .afterValue⟩
  | .object members (some key) :: outer => ⟨.object ((key, value) :: members) none :: outer, .afterValue⟩
  | .object members none :: outer => ⟨.object members none :: outer, .afterValue⟩

/-- A key has been read. -/
def deliverKey (frames : List Frame) (key : String) : Reader :=
  match frames with
  | .object members _ :: outer => ⟨.object members (some key) :: outer, .colon⟩
  | frames => ⟨frames, .colon⟩

/-- The four blank characters of JSON. -/
def isBlank (b : UInt8) : Bool :=
  b == 0x20 || b == 0x09 || b == 0x0A || b == 0x0D

/-- The value of a hexadecimal digit of either case. -/
def hexDigit? (b : UInt8) : Option Nat :=
  if 0x30 ≤ b ∧ b ≤ 0x39 then some (b.toNat - 0x30)
  else if 0x41 ≤ b ∧ b ≤ 0x46 then some (b.toNat - 0x37)
  else if 0x61 ≤ b ∧ b ≤ 0x66 then some (b.toNat - 0x57)
  else none

/-- The byte that a one-letter escape stands for. -/
def escaped? (b : UInt8) : Option UInt8 :=
  if b = 0x22 ∨ b = 0x5C ∨ b = 0x2F then some b
  else if b = 0x62 then some 0x08
  else if b = 0x66 then some 0x0C
  else if b = 0x6E then some 0x0A
  else if b = 0x72 then some 0x0D
  else if b = 0x74 then some 0x09
  else none

/-- A complete `\u` escape: a leading surrogate waits for its partner, a trailing one needs it. -/
def codeUnit? (lead : Option Nat) (unit : Nat) (content : Bytes) : Option (StringPlace × Bytes) :=
  let isTrail := 0xDC00 ≤ unit ∧ unit ≤ 0xDFFF
  match lead with
  | some high =>
    if isTrail then
      let point := 0x10000 + (high - 0xD800) * 0x400 + (unit - 0xDC00)
      some (.plain, (String.utf8EncodeChar (Char.ofNat point)).reverse ++ content)
    else none
  | none =>
    if isTrail then none
    else if 0xD800 ≤ unit ∧ unit ≤ 0xDBFF then some (.lead unit, content)
    else some (.plain, (String.utf8EncodeChar (Char.ofNat unit)).reverse ++ content)

/-- One byte inside a string, other than the quote that ends it. -/
def stringStep? (place : StringPlace) (content : Bytes) (b : UInt8) : Option (StringPlace × Bytes) :=
  match place with
  | .plain =>
    if b = 0x5C then some (.escape, content)
    else if b < 0x20 then none
    else some (.plain, b :: content)
  | .escape =>
    if b = 0x75 then some (.code 4 0 none, content)
    else (escaped? b).map fun e => (.plain, e :: content)
  | .code missing value lead =>
    match hexDigit? b with
    | none => none
    | some d =>
      let value := value * 16 + d
      if missing ≤ 1 then codeUnit? lead value content
      else some (.code (missing - 1) value lead, content)
  | .lead surrogate => if b = 0x5C then some (.leadEscape surrogate, content) else none
  | .leadEscape surrogate => if b = 0x75 then some (.code 4 0 (some surrogate), content) else none

/-- The first byte of a value. -/
def beginValue? (frames : List Frame) (b : UInt8) : Option Reader :=
  if b = 0x22 then some ⟨frames, .string false .plain []⟩
  else if b = 0x5B then
    if frames.length < nestingLimit then some ⟨.array [] :: frames, .firstItem⟩ else none
  else if b = 0x7B then
    if frames.length < nestingLimit then some ⟨.object [] none :: frames, .firstKey⟩ else none
  else if b = 0x6E then some ⟨frames, .word [0x75, 0x6C, 0x6C] .null⟩
  else if b = 0x74 then some ⟨frames, .word [0x72, 0x75, 0x65] (.bool true)⟩
  else if b = 0x66 then some ⟨frames, .word [0x61, 0x6C, 0x73, 0x65] (.bool false)⟩
  else (Numeral.start? b).map fun literal => ⟨frames, .number literal⟩

/-- The innermost array is complete. -/
def closeArray? (frames : List Frame) : Option Reader :=
  match frames with
  | .array items :: outer => some (deliver outer (.array items.reverse))
  | _ => none

/-- The innermost object is complete. -/
def closeObject? (frames : List Frame) : Option Reader :=
  match frames with
  | .object members _ :: outer => some (deliver outer (.object members.reverse))
  | _ => none

/-- A comma behind a value. -/
def comma? (frames : List Frame) : Option Reader :=
  match frames with
  | .array _ :: _ => some ⟨frames, .value⟩
  | .object .. :: _ => some ⟨frames, .nextKey⟩
  | [] => none

/-- One byte that is not part of a number literal. -/
def plainStep? (r : Reader) (b : UInt8) : Option Reader :=
  match r.mode with
  | .value => if isBlank b then some r else beginValue? r.frames b
  | .firstItem =>
    if isBlank b then some r
    else if b = 0x5D then closeArray? r.frames
    else beginValue? r.frames b
  | .firstKey =>
    if isBlank b then some r
    else if b = 0x7D then closeObject? r.frames
    else if b = 0x22 then some ⟨r.frames, .string true .plain []⟩
    else none
  | .nextKey =>
    if isBlank b then some r
    else if b = 0x22 then some ⟨r.frames, .string true .plain []⟩
    else none
  | .colon =>
    if isBlank b then some r
    else if b = 0x3A then some ⟨r.frames, .value⟩
    else none
  | .afterValue =>
    if isBlank b then some r
    else if b = 0x2C then comma? r.frames
    else if b = 0x5D then closeArray? r.frames
    else if b = 0x7D then closeObject? r.frames
    else none
  | .string isKey place content =>
    if b = 0x22 ∧ place = .plain then
      (Utf8.decode? content.reverse).map fun text =>
        if isKey then deliverKey r.frames text else deliver r.frames (.string text)
    else (stringStep? place content b).map fun next => ⟨r.frames, .string isKey next.1 next.2⟩
  | .word missing value =>
    match missing with
    | [] => none
    | expected :: rest =>
      if b = expected then
        if rest = [] then some (deliver r.frames value) else some ⟨r.frames, .word rest value⟩
      else none
  | .number _ => none
  | .done _ => if isBlank b then some r else none

/-- One byte. A byte that is refused leaves the reader where it stood; a number literal that the
byte ends counts as read. -/
def step (r : Reader) (b : UInt8) : Except Reader Reader :=
  let plain (r : Reader) : Except Reader Reader :=
    match plainStep? r b with
    | some next => .ok next
    | none => .error r
  match r.mode with
  | .number literal =>
    match literal.next b with
    | .more longer => .ok ⟨r.frames, .number longer⟩
    | .broken => .error r
    | .ended =>
      match literal.value? with
      | some value => plain (deliver r.frames (.number value))
      | none => .error r
  | _ => plain r

/-- Many bytes, up to the first that is refused. -/
def run (r : Reader) : Bytes → Except Reader Reader
  | [] => .ok r
  | b :: rest =>
    match r.step b with
    | .ok next => run next rest
    | .error stuck => .error stuck

/-- The value read, if the text may end here. -/
def finished? (r : Reader) : Option Json :=
  match r.mode with
  | .done value => some value
  | .number literal =>
    match r.frames with
    | [] => if literal.complete then literal.value?.map .number else none
    | _ => none
  | _ => none

/-- Whether a number literal is being read. -/
def inNumber (r : Reader) : Bool :=
  match r.mode with
  | .number _ => true
  | _ => false

/-- The members read of the outermost array or object, if it is an object: complete ones in the
order they are written, then the key whose value is to come. -/
def outermost? (r : Reader) : Option (List (String × Json) × Option String) :=
  match r.mode, r.frames.getLast? with
  | .done (.object members), _ => some (members, none)
  | _, some (.object members key) => some (members.reverse, key)
  | _, _ => none

end Reader

/-- The value that a text denotes, if it is JSON. -/
def parse? (text : Bytes) : Option Json :=
  match Reader.initial.run text with
  | .ok r => r.finished?
  | .error _ => none

end Verdicts.Json
