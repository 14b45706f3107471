/-
Natural numbers as decimal digits. Reading accepts a run of ASCII digits of any length; leading
zeros do not matter and nothing wraps, since a limit is compared with the number itself.
-/

namespace Verdicts.Decimal

/-- The number that a digit stands for. -/
def digitValue (c : Char) : Nat := c.toNat - '0'.toNat

/-- One more digit behind the digits of `n`. -/
def snoc (n : Nat) (c : Char) : Nat := n * 10 + digitValue c

/-- The number that a run of digits denotes. -/
def value (digits : List Char) : Nat := digits.foldl snoc 0

/-- The number denoted by a text that is one or more ASCII digits. -/
def digits? (text : List Char) : Option Nat :=
  if text ≠ [] ∧ text.all Char.isDigit then some (value text) else none

/-- The number below `limit` denoted by digits behind an optional plus sign. -/
def unsigned? (limit : Nat) (text : List Char) : Option Nat :=
  let digits := match text with
    | '+' :: rest => rest
    | _ => text
  match digits? digits with
  | some n => if n < limit then some n else none
  | none => none

/-- One more than the largest number of 64 bits. -/
def limit64 : Nat := 1 <<< 64

/-- One more than the largest number of 32 bits. -/
def limit32 : Nat := 1 <<< 32

/-- The decimal digits of a number. -/
def digits (n : Nat) : List Char := Nat.toDigits 10 n

/-- The decimal text of an integer. -/
def int (n : Int) : String :=
  match n with
  | .ofNat n => Nat.repr n
  | .negSucc n => "-" ++ Nat.repr (n + 1)

/-- Two lower-case hexadecimal digits. -/
def hexByte (b : UInt8) : String :=
  let digit (n : Nat) : Char := if n < 10 then Char.ofNat (48 + n) else Char.ofNat (87 + n)
  String.ofList [digit (b.toNat / 16), digit (b.toNat % 16)]

end Verdicts.Decimal
