/-
The shortest decimal text that reads back as a number: of all decimals that round to it, those with
the fewest digits, and of these the one nearest to it. `JSON` numbers are written this way.
-/
import Verdicts.Number.Binary64

namespace Verdicts.Binary64

/-- The greatest `power` with `10 ^ power ≤ num / den`, for positive arguments. -/
def decade (num den : Nat) : Int :=
  let guess : Int := (digitCount num : Int) - digitCount den
  if powerLe 10 guess num den then guess else guess - 1

/-- How the product `a * 10 ^ p` compares with `b * 2 ^ e`. -/
def compareScaled (a : Nat) (p : Int) (b : Nat) (e : Int) : Ordering :=
  compare ((a * Nat.pow 10 p.toNat) <<< (-e).toNat) ((b * Nat.pow 10 (-p).toNat) <<< e.toNat)

/-- Whether `digits * 10 ^ power` rounds to the finite number `significand * 2 ^ exponent`. The
decimals that do lie between the midpoints to the two neighbours, which are included exactly when
the significand is even; below a power of two the lower neighbour is at half the distance. -/
def roundsTo (significand : Nat) (exponent : Int) (digits : Nat) (power : Int) : Bool :=
  let low := 4 * significand -
    (if significand = 1 <<< 52 ∧ leastExponent < exponent then 1 else 2)
  let high := 4 * significand + 2
  let even := significand % 2 == 0
  (match compareScaled digits power low (exponent - 2) with
    | .gt => true
    | .eq => even
    | .lt => false)
  && (match compareScaled digits power high (exponent - 2) with
    | .lt => true
    | .eq => even
    | .gt => false)

/-- A decimal of at most `count` digits that rounds to the number, if one of its two neighbours
with that many digits does; of two the nearer, and of two equally near the even one. `top` is the
decade of the number. -/
def withDigits? (significand : Nat) (exponent top : Int) (count : Nat) : Option (Nat × Int) :=
  let power := top - count + 1
  let (num, den) := ratio significand exponent
  let (num, den) := scaled num den 10 power
  let below := num / den
  let above := below + 1
  match roundsTo significand exponent below power,
      roundsTo significand exponent above power with
  | true, false => some (below, power)
  | false, true => some (above, power)
  | false, false => none
  | true, true =>
    match compare (2 * num) ((2 * below + 1) * den) with
    | .lt => some (below, power)
    | .gt => some (above, power)
    | .eq => some (if below % 2 = 0 then below else above, power)

/-- The first success among `count`, `count + 1`, … within `fuel` tries. -/
def searchDigits (significand : Nat) (exponent top : Int) : Nat → Nat → Nat × Int
  | 0, _ => (significand, exponent)
  | fuel + 1, count =>
    match withDigits? significand exponent top count with
    | some found => found
    | none => searchDigits significand exponent top fuel (count + 1)

/-- The digits of the shortest decimal, and the power of ten of the first of them. Seventeen digits
always suffice. -/
def shortest (significand : Nat) (exponent : Int) : List Char × Int :=
  let (num, den) := ratio significand exponent
  let (digits, power) := searchDigits significand exponent (decade num den) 17 1
  let text := Nat.toDigits 10 digits
  let kept := (text.reverse.dropWhile (· == '0')).reverse
  (kept, power + text.length - 1)

/-- Digits as text, positional for powers of ten from -5 to 15 and scientific outside. -/
def decimalText (digits : List Char) (power : Int) : String :=
  let zeros (n : Nat) := List.replicate n '0'
  let text :=
    if -5 ≤ power ∧ power < 0 then
      '0' :: '.' :: zeros (-power - 1).toNat ++ digits
    else if 0 ≤ power ∧ power < 16 then
      let whole := power.toNat + 1
      if digits.length ≤ whole then
        digits ++ zeros (whole - digits.length) ++ ['.', '0']
      else digits.take whole ++ '.' :: digits.drop whole
    else
      let mantissa := match digits with
        | first :: second :: rest => first :: '.' :: second :: rest
        | few => few
      let sign := if power < 0 then '-' else '+'
      mantissa ++ 'e' :: sign :: Nat.toDigits 10 power.natAbs
  String.ofList text

/-- The text of a finite number in a JSON document. A number that is not finite has none there and
is written `null`. -/
def shortestText : Binary64 → String
  | .finite negative significand exponent =>
    let sign := if negative then "-" else ""
    if significand = 0 then sign ++ "0.0"
    else
      let (digits, power) := shortest significand exponent
      sign ++ decimalText digits power
  | _ => "null"

end Verdicts.Binary64
