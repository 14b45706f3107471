/-
Strings, numbers, truth values and dates of TOML documents.
-/
import Verdicts.Number.RealText
import Verdicts.Text.Decimal
import Verdicts.Toml.Cursor

namespace Verdicts.Toml

namespace Parse

/-! ## Strings -/

/-- The value of a hexadecimal digit. -/
def hexValue? (c : Char) : Option Nat :=
  if c.isDigit then some (c.toNat - '0'.toNat)
  else if 'a' ≤ c ∧ c ≤ 'f' then some (c.toNat - 'a'.toNat + 10)
  else if 'A' ≤ c ∧ c ≤ 'F' then some (c.toNat - 'A'.toNat + 10)
  else none

/-- The number that a run of hexadecimal digits denotes. -/
def hexNumber? (digits : List Char) : Option Nat :=
  digits.foldl (fun n c => do return (← n) * 16 + (← hexValue? c)) (some 0)

/-- Whether a number is the code point of a character. -/
def isScalarValue (n : Nat) : Bool := n < 0xD800 || (0xDFFF < n && n < 0x110000)

/-- A character given by its code point in a fixed number of digits. -/
def codePoint (count : Nat) : Parse Char := do
  let text ← get
  let digits := text.take count
  match hexNumber? digits with
  | some n =>
    if digits.length = count ∧ isScalarValue n then
      set (text.drop count)
      return Char.ofNat n
    else fail "invalid escape sequence"
  | none => fail "invalid escape sequence"

/-- The character that stands behind a backslash, and what it means. -/
def simpleEscapes : List (Char × Char) :=
  [('b', '\x08'), ('t', '\t'), ('n', '\n'), ('f', '\x0c'), ('r', '\r'), ('\"', '\"'), ('\\', '\\')]

/-- An escape; the backslash has been taken. -/
def escape : Parse Char := do
  match ← get with
  | 'u' :: rest => set rest; codePoint 4
  | 'U' :: rest => set rest; codePoint 8
  | c :: rest =>
    match simpleEscapes.lookup c with
    | some meant => set rest; return meant
    | none =>
      fail (expectation (some "escape sequence")
        ["`b`", "`f`", "`n`", "`r`", "`t`", "`u`", "`U`", "`\\`", "`\"`"])
  | [] => fail (expectation (some "basic string") [])

/-- Whether a character may stand in a string as it is. -/
def isStringChar (c : Char) : Bool :=
  c == '\t' || (0x20 ≤ c.toNat && c.toNat ≠ 0x7F)

/-- The inside of a string in double quotes on one line, and its closing quote. -/
def basicBody : Nat → Parse (List Char)
  | 0 => fail (expectation (some "basic string") [])
  | fuel + 1 => do
    if ← accept '\"' then return []
    else if ← accept '\\' then
      let c ← escape
      return c :: (← basicBody fuel)
    else
      match ← get with
      | c :: rest =>
        if isStringChar c then
          set rest
          return c :: (← basicBody fuel)
        else fail (expectation (some "basic string") [])
      | [] => fail (expectation (some "basic string") [])

/-- The inside of a string in single quotes on one line, and its closing quote. -/
def literalBody : Parse (List Char) := do
  let body ← takeWhile fun c => c != '\'' && isStringChar c
  unless ← accept '\'' do fail (expectation (some "literal string") [])
  return body

/-- The end of a string over many lines: three quotes, with up to two more before them. -/
def closing? (quote : Char) : Parse (Option (List Char)) := do
  let text ← get
  let count := (text.takeWhile (· == quote)).length
  if 3 ≤ count then
    let extra := min (count - 3) 2
    set (text.drop (extra + 3))
    return some (List.replicate extra quote)
  else return none

/-- Blanks and line breaks behind a backslash at the end of a line. -/
def continuation : Parse Bool := do
  let text ← get
  match text.dropWhile fun c => c == ' ' || c == '\t' with
  | '\n' :: rest => set (rest.dropWhile isLineBlank); return true
  | '\r' :: '\n' :: rest => set (rest.dropWhile isLineBlank); return true
  | _ => return false
where
  /-- Blanks within a line and line breaks. -/
  isLineBlank (c : Char) : Bool := c == ' ' || c == '\t' || c == '\n' || c == '\r'

/-- The inside of a string over many lines; line breaks are kept as line feeds. -/
def multiLineBody (quote : Char) (escapes : Bool) (label : String) : Nat → Parse (List Char)
  | 0 => fail (expectation (some label) [])
  | fuel + 1 => do
    match ← closing? quote with
    | some extra => return extra
    | none =>
      if ← lineBreak then return '\n' :: (← multiLineBody quote escapes label fuel)
      else if escapes && (← accept '\\') then
        if ← continuation then multiLineBody quote escapes label fuel
        else
          let c ← escape
          return c :: (← multiLineBody quote escapes label fuel)
      else
        match ← get with
        | c :: rest =>
          if isStringChar c then
            set rest
            return c :: (← multiLineBody quote escapes label fuel)
          else fail (expectation (some label) [])
        | [] => fail (expectation (some label) [])

/-- A string over many lines; its opening quotes have been taken. -/
def multiLine (quote : Char) (escapes : Bool) (label : String) : Parse String := do
  let _ ← lineBreak
  let fuel ← mark
  return String.ofList (← multiLineBody quote escapes label (fuel + 1))

/-- A string on one line; the opening quote is still there. -/
def lineString : Parse String := do
  if ← accept '\"' then
    let fuel ← mark
    return String.ofList (← basicBody (fuel + 1))
  else
    let _ ← accept '\''
    return String.ofList (← literalBody)

/-- Any string; the opening quotes are still there. -/
def string : Parse String := do
  if ← acceptAll ['\"', '\"', '\"'] then multiLine '\"' true "multiline basic string"
  else if ← acceptAll ['\'', '\'', '\''] then multiLine '\'' false "multiline literal string"
  else lineString

/-! ## Numbers -/

/-- Digits with single underscores between them, without the underscores. -/
def grouped (isDigit : Char → Bool) : Bool → List Char → Option (List Char)
  | _, [] => none
  | afterDigit, '_' :: rest => if afterDigit then grouped isDigit false rest else none
  | _, [c] => if isDigit c then some [c] else none
  | _, c :: rest => if isDigit c then (grouped isDigit true rest).map (c :: ·) else none

/-- The number that digits of a base denote. -/
def inBase (base : Nat) (digits : List Char) : Nat :=
  digits.foldl (fun n c => n * base + (hexValue? c).getD 0) 0

/-- The digits of an integer in base ten, which have no zero in front. -/
def plainDigits? (text : List Char) : Option (List Char) :=
  match grouped Char.isDigit false text with
  | some ('0' :: _ :: _) => none
  | digits => digits

/-- A sign and what stands behind it. -/
def signed : List Char → Bool × List Char
  | '-' :: rest => (true, rest)
  | '+' :: rest => (false, rest)
  | text => (false, text)

/-- An integer of 64 bits with its sign. -/
def ofSign (negative : Bool) (n : Nat) : Option Int :=
  let value : Int := if negative then -n else n
  if -0x8000000000000000 ≤ value ∧ value < 0x8000000000000000 then some value else none

/-- The integer that a word denotes. -/
def integer? (word : List Char) : Option Int :=
  match word with
  | '0' :: 'x' :: digits => (grouped (fun c => (hexValue? c).isSome) false digits).bind
      (ofSign false <| inBase 16 ·)
  | '0' :: 'o' :: digits => (grouped (fun c => '0' ≤ c && c ≤ '7') false digits).bind
      (ofSign false <| inBase 8 ·)
  | '0' :: 'b' :: digits => (grouped (fun c => c == '0' || c == '1') false digits).bind
      (ofSign false <| inBase 2 ·)
  | _ =>
    let (negative, digits) := signed word
    (plainDigits? digits).bind fun digits => ofSign negative (Decimal.value digits)

/-- The digits of an exponent, with its sign. -/
def exponent? (text : List Char) : Option (List Char) :=
  let (negative, digits) := signed text
  (grouped Char.isDigit false digits).map fun digits => if negative then '-' :: digits else digits

/-- A text at its first `e`. -/
def atExponent (text : List Char) : List Char × Option (List Char) :=
  match text.dropWhile fun c => c ≠ 'e' ∧ c ≠ 'E' with
  | [] => (text, none)
  | _ :: rest => (text.takeWhile fun c => c ≠ 'e' ∧ c ≠ 'E', some rest)

/-- The number that a word with a fraction or an exponent denotes. -/
def fractional? (word : List Char) : Option Binary64 := do
  let (negative, text) := signed word
  let (mantissa, power) := atExponent text
  let power ← match power with
    | none => some []
    | some digits => (exponent? digits).map ('e' :: ·)
  let whole := mantissa.takeWhile (· ≠ '.')
  let fraction ← match mantissa.dropWhile (· ≠ '.') with
    | [] => if power.isEmpty then none else some []
    | _ :: digits => (grouped Char.isDigit false digits).map ('.' :: ·)
  let digits ← plainDigits? whole
  let x ← RealText.real? (String.ofList
    ((if negative then ['-'] else []) ++ digits ++ fraction ++ power))
  if x = .infinite false then none else some x

/-- The number that a word denotes which is not written in digits. -/
def special? (word : List Char) : Option Binary64 :=
  let (negative, text) := signed word
  if text = ['i', 'n', 'f'] then some (.infinite negative)
  else if text = ['n', 'a', 'n'] then some .nan
  else none

/-! ## Dates -/

/-- A number of exactly two digits below a limit. -/
def twoDigits? (low high : Nat) : List Char → Option (Nat × List Char)
  | a :: b :: rest =>
    match Decimal.digits? [a, b] with
    | some n => if low ≤ n ∧ n ≤ high then some (n, rest) else none
    | none => none
  | _ => none

/-- What stands behind a character that has to come next. -/
def behind? (c : Char) : List Char → Option (List Char)
  | d :: rest => if c = d then some rest else none
  | [] => none

/-- How many days a month has. -/
def daysIn (year month : Nat) : Nat :=
  if month = 2 then
    if year % 4 = 0 ∧ (year % 100 ≠ 0 ∨ year % 400 = 0) then 29 else 28
  else if month ∈ [4, 6, 9, 11] then 30 else 31

/-- What stands behind a date. -/
def date? (text : List Char) : Option (List Char) := do
  let year ← Decimal.digits? (text.take 4)
  if text.length < 4 then none
  let rest ← behind? '-' (text.drop 4)
  let (month, rest) ← twoDigits? 1 12 rest
  let rest ← behind? '-' rest
  let (_, rest) ← twoDigits? 1 (daysIn year month) rest
  return rest

/-- What stands behind a time of day. -/
def time? (text : List Char) : Option (List Char) := do
  let (_, rest) ← twoDigits? 0 23 text
  let rest ← behind? ':' rest
  let (_, rest) ← twoDigits? 0 59 rest
  let rest ← behind? ':' rest
  let (_, rest) ← twoDigits? 0 60 rest
  match rest with
  | '.' :: digits =>
    if (digits.takeWhile Char.isDigit).isEmpty then none else some (digits.dropWhile Char.isDigit)
  | _ => some rest

/-- What stands behind an offset from universal time, if there is one. -/
def offset (text : List Char) : Option (List Char) :=
  match text with
  | 'Z' :: rest => some rest
  | 'z' :: rest => some rest
  | c :: rest =>
    if c = '+' ∨ c = '-' then do
      let (_, rest) ← twoDigits? 0 23 rest
      let rest ← behind? ':' rest
      let (_, rest) ← twoDigits? 0 59 rest
      return rest
    else some text
  | [] => some []

/-- What stands behind a date, a time of day, or both. -/
def moment? (text : List Char) : Option (List Char) :=
  match date? text with
  | none => time? text
  | some rest =>
    match rest with
    | 'T' :: time => (time? time).bind offset
    | 't' :: time => (time? time).bind offset
    | ' ' :: c :: time => if c.isDigit then (time? (c :: time)).bind offset else some rest
    | _ => some rest

/-! ## Any scalar -/

/-- Whether a character may stand in a word that is a number or a truth value. -/
def isWordChar (c : Char) : Bool :=
  c.isAlphanum || c == '_' || c == '+' || c == '-' || c == '.'

/-- The scalar that a word denotes. -/
def ofWord? (word : List Char) : Option Scalar :=
  if word = ['t', 'r', 'u', 'e'] then some (.boolean true)
  else if word = ['f', 'a', 'l', 's', 'e'] then some (.boolean false)
  else
    match integer? word with
    | some n => some (.integer n)
    | none => ((fractional? word).or (special? word)).map .float

/-- What is said where no value begins. -/
def noValue : String := expectation (some "string") ["`\"`", "`'`"]

/-- A scalar. -/
def scalar : Parse Scalar := do
  match ← peek? with
  | some '\"' => return .text (← string)
  | some '\'' => return .text (← string)
  | _ =>
    let text ← get
    match moment? text with
    | some rest =>
      set rest
      return .moment (String.ofList (text.take (text.length - rest.length)))
    | none =>
      let word := text.takeWhile isWordChar
      match ofWord? word with
      | some value =>
        set (text.dropWhile isWordChar)
        return value
      | none => fail noValue

end Parse

end Verdicts.Toml
