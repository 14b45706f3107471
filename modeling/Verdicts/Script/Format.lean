/-
Formatted output of shell scripts: `echo` and `printf`.
-/
import Verdicts.Number.Fixed
import Verdicts.Number.RealText
import Verdicts.Text.Decimal
import Verdicts.Text.Utf8

namespace Verdicts.Script

/-- Whether a character is an octal digit. -/
def isOctal (c : Char) : Bool := '0' ≤ c && c ≤ '7'

/-- The byte that octal digits denote. -/
def octalByte (digits : List Char) : UInt8 :=
  UInt8.ofNat (digits.foldl (fun n c => n * 8 + (c.toNat - 48)) 0)

/-- The byte that a letter behind a backslash stands for. -/
def escapes : List (Char × UInt8) :=
  [('a', 7), ('b', 8), ('f', 12), ('n', 10), ('r', 13), ('t', 9), ('v', 11), ('\\', 92)]

/-- The bytes of a character. -/
def charBytes (c : Char) : Bytes := String.utf8EncodeChar c

/-- The bytes of a text with escapes, and whether the output shall stop there. An octal escape has a
zero in front. -/
def unescape : Nat → List Char → Bytes × Bool
  | 0, _ => ([], false)
  | _, [] => ([], false)
  | fuel + 1, '\\' :: c :: rest =>
    if c = 'c' then ([], true)
    else if c = '0' then
      let digits := (rest.takeWhile isOctal).take 3
      let (bytes, stop) := unescape fuel (rest.drop digits.length)
      (octalByte digits :: bytes, stop)
    else
      let (bytes, stop) := unescape fuel rest
      match escapes.lookup c with
      | some b => (b :: bytes, stop)
      | none => (92 :: charBytes c ++ bytes, stop)
  | fuel + 1, c :: rest =>
    let (bytes, stop) := unescape fuel rest
    (charBytes c ++ bytes, stop)

/-- What `echo` writes for its arguments. -/
def echo (args : List String) : Bytes :=
  let (newline, args) := match args with
    | "-n" :: rest => (false, rest)
    | _ => (true, args)
  let text := (String.intercalate " " args).toList
  let (bytes, stop) := unescape (text.length + 1) text
  bytes ++ if newline && !stop then [10] else []

/-! ## Formats -/

/-- A directive of a format. -/
structure Directive where
  /-- Put the text at the left of its field. -/
  left : Bool := false
  zeros : Bool := false
  plus : Bool := false
  blank : Bool := false
  width : Nat := 0
  precision : Option Nat := none
  conversion : Char := 's'
  deriving DecidableEq, Repr, Inhabited

/-- Put a text into a field. -/
def Directive.fill (d : Directive) (text : Bytes) : Bytes :=
  let blanks := List.replicate (d.width - text.length) (32 : UInt8)
  if d.left then text ++ blanks else blanks ++ text

/-- Put digits with a sign into a field. -/
def Directive.fillNumber (d : Directive) (sign : String) (digits : String) : Bytes :=
  let digits := match d.precision with
    | some n => String.ofList (List.replicate (n - digits.length) '0') ++ digits
    | none =>
      if d.zeros && !d.left then
        String.ofList (List.replicate (d.width - sign.length - digits.length) '0') ++ digits
      else digits
  d.fill (Utf8.encode (sign ++ digits))

/-- The value of a digit of a base up to sixteen. -/
def digitIn? (base : Nat) (c : Char) : Option Nat :=
  let n := if c.isDigit then c.toNat - 48
    else if 'a' ≤ c && c ≤ 'f' then c.toNat - 87
    else if 'A' ≤ c && c ≤ 'F' then c.toNat - 55
    else 16
  if n < base then some n else none

/-- The number that the digits at the front of a text denote, and what stands behind them. -/
def leadingNumber (base : Nat) (text : List Char) : Nat × List Char :=
  let digits := text.takeWhile fun c => (digitIn? base c).isSome
  (digits.foldl (fun n c => n * base + (digitIn? base c).getD 0) 0, text.drop digits.length)

/-- How well an argument fits. -/
inductive Fit where
  | whole
  /-- Something stands behind the number. -/
  | front
  | none
  deriving DecidableEq, Repr, Inhabited

/-- What is said of an argument that does not fit. -/
def Fit.complaint? (arg : String) : Fit → Option String
  | whole => Option.none
  | front => some (arg ++ ": not completely converted")
  | none => some (arg ++ ": expected numeric value")

/-- The integer that an argument denotes. It may be written in octal or hexadecimal digits; a quote in
front asks for the code of a character. -/
def integerArg (text : String) : Int × Fit :=
  let unsigned (digits : List Char) : Nat × Fit :=
    let (base, digits) : Nat × List Char := match digits with
      | '0' :: 'x' :: rest => (16, rest)
      | '0' :: 'X' :: rest => (16, rest)
      | '0' :: _ => (8, digits)
      | _ => (10, digits)
    let (n, rest) := leadingNumber base digits
    (n, if rest.length = digits.length then .none else if rest.isEmpty then .whole else .front)
  match text.toList with
  | [] => (0, .whole)
  | '\'' :: c :: _ => (c.toNat, .whole)
  | '\"' :: c :: _ => (c.toNat, .whole)
  | '-' :: digits => ((-(unsigned digits).1 : Int), (unsigned digits).2)
  | '+' :: digits => ((unsigned digits).1, (unsigned digits).2)
  | digits => ((unsigned digits).1, (unsigned digits).2)

/-- The sign in front of a number. -/
def Directive.sign (d : Directive) (negative : Bool) : String :=
  if negative then "-" else if d.plus then "+" else if d.blank then " " else ""

/-- The digits of a number in a base. -/
def baseDigits (base n : Nat) : String := String.ofList (Nat.toDigits base n)

/-- What a directive makes of an argument; also how well the argument fits, and whether the output
shall stop there. -/
def Directive.apply (d : Directive) (arg : String) : Bytes × Fit × Bool :=
  match d.conversion with
  | 'd' | 'i' =>
    let (n, ok) := integerArg arg
    (d.fillNumber (d.sign (n < 0)) (Nat.repr n.natAbs), ok, false)
  | 'u' =>
    let (n, ok) := integerArg arg
    (d.fillNumber "" (Nat.repr n.natAbs), ok, false)
  | 'o' =>
    let (n, ok) := integerArg arg
    (d.fillNumber "" (baseDigits 8 n.natAbs), ok, false)
  | 'x' =>
    let (n, ok) := integerArg arg
    (d.fillNumber "" (baseDigits 16 n.natAbs), ok, false)
  | 'X' =>
    let (n, ok) := integerArg arg
    (d.fillNumber "" (baseDigits 16 n.natAbs).toUpper, ok, false)
  | 'c' => (d.fill (Utf8.encode (String.ofList (arg.toList.take 1))), .whole, false)
  | 'b' =>
    let (bytes, stop) := unescape (arg.length + 1) arg.toList
    (d.fill bytes, .whole, stop)
  | 'f' =>
    match RealText.real? arg with
    | some x => (d.fill (Utf8.encode (x.fixedText (d.precision.getD 6))), .whole, false)
    | none =>
      (d.fill (Utf8.encode ((Binary64.zero false).fixedText (d.precision.getD 6))),
        if arg.isEmpty then .whole else .none, false)
  | _ =>
    let text := match d.precision with
      | some n => (Utf8.encode arg).take n
      | none => Utf8.encode arg
    (d.fill text, .whole, false)

/-- The flags of a directive. -/
def flags (d : Directive) : List Char → Directive × List Char
  | '-' :: rest => flags { d with left := true } rest
  | '0' :: rest => flags { d with zeros := true } rest
  | '+' :: rest => flags { d with plus := true } rest
  | ' ' :: rest => flags { d with blank := true } rest
  | '#' :: rest => flags d rest
  | text => (d, text)

/-- A number in a directive, which may be taken from the arguments. -/
def size (text : List Char) (args : List String) : Nat × List Char × List String :=
  match text with
  | '*' :: rest => ((integerArg (args.head?.getD "")).1.natAbs, rest, args.drop 1)
  | _ => (Decimal.value (text.takeWhile Char.isDigit), text.dropWhile Char.isDigit, args)

/-- The state of formatting. -/
structure Formatted where
  bytes : Bytes := []
  args : List String
  /-- What is said of arguments that do not fit. -/
  complaints : List String := []
  /-- Whether the output shall stop. -/
  stopped : Bool := false
  /-- Whether the format itself is wrong. -/
  broken : Bool := false
  deriving Repr, Inhabited

/-- The letters of directives. -/
def conversions : List Char := ['d', 'i', 'u', 'o', 'x', 'X', 'c', 'b', 'f', 's']

/-- Go through a format once. -/
def formatOnce : Nat → List Char → Formatted → Formatted
  | 0, _, f => f
  | _, [], f => f
  | fuel + 1, '%' :: '%' :: rest, f => formatOnce fuel rest { f with bytes := f.bytes ++ [37] }
  | fuel + 1, '%' :: rest, f =>
    let (d, rest) := flags {} rest
    let (width, rest, args) := size rest f.args
    let (precision, rest, args) : Option Nat × List Char × List String := match rest with
      | '.' :: rest =>
        let (n, rest, args) := size rest args
        (some n, rest, args)
      | _ => (none, rest, args)
    match rest with
    | c :: rest =>
      let d := { d with width, precision, conversion := c }
      let arg := args.head?.getD ""
      let (bytes, fit, stop) := d.apply arg
      if !conversions.contains c then
        { f with
          complaints := f.complaints ++ [String.ofList ['%', c] ++ ": invalid directive"]
          stopped := true
          broken := true }
      else
      let f : Formatted :=
        { bytes := f.bytes ++ bytes
          args := args.drop 1
          complaints := f.complaints ++ (fit.complaint? arg).toList
          stopped := stop }
      if stop then f else formatOnce fuel rest f
    | [] =>
      { f with
        complaints := f.complaints ++ ["missing format character"], stopped := true, broken := true }
  | fuel + 1, '\\' :: c :: rest, f =>
    if isOctal c then
      let digits := ((c :: rest).takeWhile isOctal).take 3
      formatOnce fuel ((c :: rest).drop digits.length) { f with bytes := f.bytes ++ [octalByte digits] }
    else
      let bytes := match escapes.lookup c with
        | some b => [b]
        | none => 92 :: charBytes c
      formatOnce fuel rest { f with bytes := f.bytes ++ bytes }
  | fuel + 1, c :: rest, f => formatOnce fuel rest { f with bytes := f.bytes ++ charBytes c }

/-- Go through a format as often as there are arguments left. -/
def formatAll (format : List Char) : Nat → Formatted → Formatted
  | 0, f => f
  | fuel + 1, f =>
    let next := formatOnce (format.length + 1) format f
    if next.stopped ∨ next.args.isEmpty ∨ f.args.length ≤ next.args.length then next
    else formatAll format fuel next

/-- What `printf` makes of a format and arguments. -/
def printf (format : String) (args : List String) : Formatted :=
  formatAll format.toList (args.length + 1) { args }

end Verdicts.Script
