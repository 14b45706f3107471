/-
The number that a real value of a trace denotes. A real is written as a decimal, perhaps with an
exponent, as infinity or as no number at all, or as a fraction of two of these. A decimal gives the
nearest double.
-/
import Verdicts.Number.Binary64
import Verdicts.Text.Blank
import Verdicts.Text.Decimal

namespace Verdicts.RealText

/-- Digits at the front of a text, and the rest. -/
def takeDigits (text : List Char) : List Char × List Char :=
  text.span Char.isDigit

/-- A sign at the front of a text, and the rest. -/
def takeSign : List Char → Bool × List Char
  | '-' :: rest => (true, rest)
  | '+' :: rest => (false, rest)
  | text => (false, text)

/-- An exponent that ends a text: the letter, a sign or none, and one or more digits. No exponent
counts as zero. -/
def power? : List Char → Option Int
  | [] => some 0
  | c :: rest =>
    if c = 'e' ∨ c = 'E' then
      let (negative, digits) := takeSign rest
      (Decimal.digits? digits).map fun n => if negative then -(n : Int) else n
    else none

/-- A decimal without its sign: digits with a point among them or at either end, and perhaps an
exponent. -/
def magnitude? (negative : Bool) (text : List Char) : Option Binary64 :=
  let (whole, rest) := takeDigits text
  let (fraction, rest) := match rest with
    | '.' :: rest => takeDigits rest
    | rest => ([], rest)
  if whole = [] ∧ fraction = [] then none
  else (power? rest).map fun power =>
    Binary64.ofDecimal negative (Decimal.value (whole ++ fraction)) (power - fraction.length)

/-- The number that a text denotes, if it is a decimal, `inf`, `infinity` or `nan`, in letters of
either case and with a sign or without. -/
def number? (text : List Char) : Option Binary64 :=
  let (negative, text) := takeSign text
  let word := String.ofList (text.map Char.toLower)
  if word = "inf" ∨ word = "infinity" then some (.infinite negative)
  else if word = "nan" then some .nan
  else magnitude? negative text

/-- The two sides of the first slash, if there is one. -/
def splitSlash? (text : List Char) : Option (List Char × List Char) :=
  match text.span (· ≠ '/') with
  | (front, _ :: back) => some (front, back)
  | (_, []) => none

/-- The number that a real denotes. Blanks around it and around the parts of a fraction do not
count, and a fraction over zero denotes nothing. -/
def real? (text : String) : Option Binary64 :=
  let text := Text.trim text.toList
  match splitSlash? text with
  | none => number? text
  | some (front, back) =>
    match number? (Text.trim front), number? (Text.trim back) with
    | some num, some den => if den.isZero then none else some (num.div den)
    | _, _ => none

end Verdicts.RealText
