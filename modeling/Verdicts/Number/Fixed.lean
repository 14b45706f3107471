/-
A number with a fixed count of decimal places. The exact binary value is rounded, a half going to
the even neighbour, so the text is right in every digit whatever the count.
-/
import Verdicts.Number.Binary64

namespace Verdicts.Binary64

/-- Digits with `places` of them behind the point, and at least one in front of it. -/
def pointed (places : Nat) (digits : List Char) : List Char :=
  let digits := List.replicate (places + 1 - digits.length) '0' ++ digits
  let whole := digits.length - places
  if places = 0 then digits
  else digits.take whole ++ '.' :: digits.drop whole

/-- The text with `places` decimal places. The sign of zero is kept. -/
def fixedText (places : Nat) : Binary64 → String
  | .nan => "NaN"
  | .infinite negative => if negative then "-inf" else "inf"
  | .finite negative significand exponent =>
    let (num, den) := ratio significand exponent
    let units := roundDiv (num * Nat.pow 10 places) den
    (if negative then "-" else "") ++ String.ofList (pointed places (Nat.toDigits 10 units))

end Verdicts.Binary64
