/-
UTF-8 as a machine over single bytes. `Utf8.decode?` reads a whole text and refuses anything that
is not UTF-8; `Utf8.lossy` reads any bytes, putting U+FFFD for each longest piece that starts no
character. Both take one byte at a time, so they never look ahead.
-/

namespace Verdicts

/-- What the engine writes and the decoder reads: a sequence of bytes. -/
abbrev Bytes := List UInt8

namespace Utf8

/-- The bytes of a text. -/
def encode (text : String) : Bytes :=
  text.toList.flatMap String.utf8EncodeChar

/-- Where the machine stands between two bytes. -/
inductive State where
  /-- Between two characters. -/
  | start
  /-- Inside a character: the next byte lies between `low` and `high`, and `later` more follow it.
  `value` is made of the bits read so far. -/
  | inside (later : Nat) (value : Nat) (low high : UInt8)
  deriving DecidableEq, Repr

/-- What one byte does to the machine. -/
inductive Step where
  | char (c : Char)
  | more (state : State)
  | refuse
  deriving DecidableEq, Repr

/-- The first byte of a character. -/
def first (b : UInt8) : Step :=
  if b < 0x80 then .char (Char.ofNat b.toNat)
  else if b < 0xC2 then .refuse
  else if b < 0xE0 then .more (.inside 0 (b.toNat - 0xC0) 0x80 0xBF)
  else if b = 0xE0 then .more (.inside 1 0 0xA0 0xBF)
  else if b = 0xED then .more (.inside 1 0x0D 0x80 0x9F)
  else if b < 0xF0 then .more (.inside 1 (b.toNat - 0xE0) 0x80 0xBF)
  else if b = 0xF0 then .more (.inside 2 0 0x90 0xBF)
  else if b < 0xF4 then .more (.inside 2 (b.toNat - 0xF0) 0x80 0xBF)
  else if b = 0xF4 then .more (.inside 2 4 0x80 0x8F)
  else .refuse

/-- One byte. -/
def step : State → UInt8 → Step
  | .start, b => first b
  | .inside later value low high, b =>
    if low ≤ b ∧ b ≤ high then
      let value := value * 64 + (b.toNat - 0x80)
      match later with
      | 0 => .char (Char.ofNat value)
      | later + 1 => .more (.inside later value 0x80 0xBF)
    else .refuse

/-- The characters that `bytes` encode from `state` on, if they are UTF-8. -/
def decodeFrom? : State → Bytes → Option (List Char)
  | .start, [] => some []
  | .inside .., [] => none
  | state, b :: rest =>
    match step state b with
    | .char c => (decodeFrom? .start rest).map (c :: ·)
    | .more next => decodeFrom? next rest
    | .refuse => none

/-- The text that `bytes` encode, if they are UTF-8. -/
def decode? (bytes : Bytes) : Option String :=
  (decodeFrom? .start bytes).map String.ofList

/-- The mark put in place of bytes that are not UTF-8. -/
def replacement : Char := '\uFFFD'

/-- The characters of any bytes, with `replacement` for each piece that is not UTF-8. A byte that
cannot continue the character begun before it may still begin one itself. -/
def lossyFrom : State → Bytes → List Char
  | .start, [] => []
  | .inside .., [] => [replacement]
  | state, b :: rest =>
    match step state b with
    | .char c => c :: lossyFrom .start rest
    | .more next => lossyFrom next rest
    | .refuse =>
      match state with
      | .start => replacement :: lossyFrom .start rest
      | .inside .. =>
        replacement ::
          match first b with
          | .char c => c :: lossyFrom .start rest
          | .more next => lossyFrom next rest
          | .refuse => replacement :: lossyFrom .start rest

/-- The text of any bytes. -/
def lossy (bytes : Bytes) : String :=
  String.ofList (lossyFrom .start bytes)

end Utf8

end Verdicts
