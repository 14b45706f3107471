/-
Double-precision binary floating-point numbers, kept as sign, significand and exponent, so that
every operation is exact arithmetic on natural numbers followed by one rounding to nearest, ties to
even. A finite number is `significand * 2 ^ exponent`; results of the operations here have
`-1074 ≤ exponent ≤ 971` and `significand < 2 ^ 53`, and are either normal (`2 ^ 52 ≤ significand`)
or have the least exponent, so that each value is written in one way only.
-/

namespace Verdicts

/-- A double-precision number. -/
inductive Binary64 where
  | nan
  | infinite (negative : Bool)
  | finite (negative : Bool) (significand : Nat) (exponent : Int)
  deriving DecidableEq, Repr, Inhabited

namespace Binary64

/-- The exponent of the numbers next to zero. -/
def leastExponent : Int := -1074

/-- The exponent of the largest numbers. -/
def greatestExponent : Int := 971

/-- Zero with a sign. -/
def zero (negative : Bool) : Binary64 := .finite negative 0 leastExponent

/-- The quotient rounded to the nearest integer, a half going to the even neighbour. -/
def roundDiv (num den : Nat) : Nat :=
  let q := num / den
  let r := num % den
  if 2 * r < den then q
  else if den < 2 * r then q + 1
  else if q % 2 = 0 then q else q + 1

/-- Whether `base ^ power ≤ num / den`. -/
def powerLe (base : Nat) (power : Int) (num den : Nat) : Bool :=
  if 0 ≤ power then decide (base.pow power.toNat * den ≤ num)
  else decide (den ≤ num * base.pow (-power).toNat)

/-- The greatest `power` with `2 ^ power ≤ num / den`, for positive arguments. -/
def binade (num den : Nat) : Int :=
  let guess : Int := (num.log2 : Int) - den.log2
  if powerLe 2 guess num den then guess else guess - 1

/-- `num / den / base ^ power` as a fraction. -/
def scaled (num den : Nat) (base : Nat) (power : Int) : Nat × Nat :=
  if 0 ≤ power then (num, den * base.pow power.toNat)
  else (num * base.pow (-power).toNat, den)

/-- A rounded significand with its exponent: a carry out of 53 bits moves the exponent up, and an
exponent beyond the greatest gives infinity. -/
def ofRounded (negative : Bool) (significand : Nat) (exponent : Int) : Binary64 :=
  let carried := significand = 1 <<< 53
  let significand := if carried then 1 <<< 52 else significand
  let exponent := if carried then exponent + 1 else exponent
  if greatestExponent < exponent then .infinite negative
  else .finite negative significand exponent

/-- The number nearest to `num / den`, ties to even. -/
def ofRatio (negative : Bool) (num den : Nat) : Binary64 :=
  if num = 0 then zero negative
  else
    let exponent := max (binade num den - 52) leastExponent
    let (num, den) := scaled num den 2 exponent
    ofRounded negative (roundDiv num den) exponent

/-- The number nearest to a natural number. -/
def ofNat (n : Nat) : Binary64 := ofRatio false n 1

/-- The number nearest to an integer. -/
def ofInt (n : Int) : Binary64 := ofRatio (decide (n < 0)) n.natAbs 1

/-- The magnitude of a finite number as a fraction. -/
def ratio (significand : Nat) (exponent : Int) : Nat × Nat :=
  scaled significand 1 2 (-exponent)

/-- How many decimal digits a number has; zero has one. -/
def digitCount (n : Nat) : Nat := (Nat.toDigits 10 n).length

/-- The number nearest to `digits * 10 ^ power`. A power far outside the range is settled by the
number of digits, without computing the power. -/
def ofDecimal (negative : Bool) (digits : Nat) (power : Int) : Binary64 :=
  if digits = 0 then zero negative
  else
    let top := digitCount digits + power
    if 310 < top then .infinite negative
    else if top < -330 then zero negative
    else
      let (num, den) := scaled digits 1 10 (-power)
      ofRatio negative num den

/-- Whether a number is zero of either sign. -/
def isZero : Binary64 → Bool
  | .finite _ significand _ => significand == 0
  | _ => false

/-- Whether a number is infinite. -/
def isInfinite : Binary64 → Bool
  | .infinite _ => true
  | _ => false

/-- The number with the other sign. -/
def neg : Binary64 → Binary64
  | .nan => .nan
  | .infinite negative => .infinite !negative
  | .finite negative significand exponent => .finite (!negative) significand exponent

/-- The product. -/
def mul : Binary64 → Binary64 → Binary64
  | .nan, _ | _, .nan => .nan
  | .infinite s, .infinite t => .infinite (s != t)
  | .infinite s, .finite t m _ | .finite s m _, .infinite t =>
    if m = 0 then .nan else .infinite (s != t)
  | .finite s m e, .finite t n f =>
    let (num, den) := ratio (m * n) (e + f)
    ofRatio (s != t) num den

/-- The quotient. -/
def div : Binary64 → Binary64 → Binary64
  | .nan, _ | _, .nan => .nan
  | .infinite _, .infinite _ => .nan
  | .infinite s, .finite t _ _ => .infinite (s != t)
  | .finite s _ _, .infinite t => zero (s != t)
  | .finite s m e, .finite t n f =>
    if n = 0 then if m = 0 then .nan else .infinite (s != t)
    else
      let (num, den) := ratio m (e - f)
      ofRatio (s != t) num (den * n)

/-- The 64 bits of a number in the interchange format. -/
def toBits : Binary64 → Nat
  | .nan => 0x7FF8 <<< 48
  | .infinite negative => (if negative then 1 <<< 63 else 0) + 0x7FF <<< 52
  | .finite negative significand exponent =>
    let sign := if negative then 1 <<< 63 else 0
    if significand < 1 <<< 52 then sign + significand
    else sign + (exponent + 1075).toNat <<< 52 + (significand - 1 <<< 52)

end Binary64

end Verdicts
