/-
The number literals of JSON, read one byte at a time. `Numeral.next` is the grammar: which byte may
follow. `Numeral.value?` is the meaning: an integer where the literal has neither fraction nor
exponent and fits, otherwise a double. The double is computed from as many leading digits as fit in
64 bits, by one multiplication with or division by a power of ten; a literal too large for a double
has no value.
-/
import Verdicts.Json.Basic
import Verdicts.Text.Decimal

namespace Verdicts.Json

/-- What has been read of a number literal last. -/
inductive Numeral.Place where
  /-- The minus sign. -/
  | sign
  /-- A zero in front, which no digit may follow. -/
  | zero
  | whole
  | point
  | fraction
  /-- The letter that begins the exponent. -/
  | mark
  | markSign
  | power
  deriving DecidableEq, Repr

/-- A number literal read so far. Digits are kept newest first. -/
structure Numeral where
  place : Numeral.Place
  negative : Bool
  whole : List Nat
  fraction : List Nat
  powerNegative : Bool
  power : List Nat
  deriving DecidableEq, Repr

namespace Numeral

/-- The value of an ASCII digit. -/
def digit? (b : UInt8) : Option Nat :=
  if 0x30 ≤ b ∧ b ≤ 0x39 then some (b.toNat - 0x30) else none

/-- A literal that consists of one byte, if it may begin one. -/
def start? (b : UInt8) : Option Numeral :=
  if b = 0x2D then some ⟨.sign, true, [], [], false, []⟩
  else match digit? b with
    | some 0 => some ⟨.zero, false, [0], [], false, []⟩
    | some d => some ⟨.whole, false, [d], [], false, []⟩
    | none => none

/-- What a byte behind a literal is. -/
inductive Next where
  /-- Part of the literal. -/
  | more (literal : Numeral)
  /-- Not part of the literal, which may end here. -/
  | ended
  /-- Not part of the literal, which may not end here. -/
  | broken

/-- Behind a digit, a byte that is not one more digit. -/
def afterDigits (n : Numeral) (b : UInt8) : Next :=
  if b = 0x2E ∧ (n.place = .zero ∨ n.place = .whole) then .more { n with place := .point }
  else if (b = 0x65 ∨ b = 0x45) ∧ n.place ≠ .power then .more { n with place := .mark }
  else .ended

/-- One more byte. -/
def next (n : Numeral) (b : UInt8) : Next :=
  match n.place, digit? b with
  | .sign, some 0 => .more { n with place := .zero, whole := [0] }
  | .sign, some d => .more { n with place := .whole, whole := [d] }
  | .sign, none => .broken
  | .zero, some _ => .broken
  | .whole, some d => .more { n with whole := d :: n.whole }
  | .point, some d => .more { n with place := .fraction, fraction := [d] }
  | .point, none => .broken
  | .fraction, some d => .more { n with fraction := d :: n.fraction }
  | .mark, some d => .more { n with place := .power, power := [d] }
  | .mark, none =>
    if b = 0x2B then .more { n with place := .markSign }
    else if b = 0x2D then .more { n with place := .markSign, powerNegative := true }
    else .broken
  | .markSign, some d => .more { n with place := .power, power := [d] }
  | .markSign, none => .broken
  | .power, some d => .more { n with power := d :: n.power }
  | .zero, none | .whole, none | .fraction, none | .power, none => n.afterDigits b

/-- Whether the literal may end. -/
def complete (n : Numeral) : Bool :=
  match n.place with
  | .zero | .whole | .fraction | .power => true
  | .sign | .point | .mark | .markSign => false

/-- Append digits to `significand` as long as it stays below `2 ^ 64`; also says how many digits
were left over. -/
def absorb (significand : Nat) : List Nat → Nat × Nat
  | [] => (significand, 0)
  | d :: rest =>
    if significand * 10 + d < Decimal.limit64 then absorb (significand * 10 + d) rest
    else (significand, rest.length + 1)

/-- `10 ^ power` as a double. -/
def powerOfTen (power : Nat) : Binary64 := Binary64.ofDecimal false 1 power

/-- `x * 10 ^ power` with the rounding of one operation, dividing by `10 ^ 308` first for as long as
the power is out of range; none where the result is too large. -/
def scale : Nat → Binary64 → Int → Option Binary64
  | 0, x, _ => some x
  | fuel + 1, x, power =>
    if power.natAbs ≤ 308 then
      if 0 ≤ power then
        let y := x.mul (powerOfTen power.natAbs)
        if y.isInfinite then none else some y
      else some (x.div (powerOfTen power.natAbs))
    else if x.isZero then some x
    else if 0 ≤ power then none
    else scale fuel (x.div (powerOfTen 308)) (power + 308)

/-- The number that digits denote. -/
def digitsValue (digits : List Nat) : Nat := digits.foldl (fun n d => n * 10 + d) 0

/-- The exponent beyond which a literal counts as too large, or as zero, whatever its digits. -/
def powerLimit : Nat := 1 <<< 31

/-- The value of a complete literal, unless it is too large. Three divisions bring every
significand down to zero, so `scale` needs no more than four steps. -/
def value? (n : Numeral) : Option Number :=
  let (significand, spare) := absorb 0 n.whole.reverse
  if n.fraction = [] ∧ n.power = [] ∧ spare = 0 then
    if n.negative then
      if significand = 0 then some (.float (.zero true))
      else if significand ≤ 1 <<< 63 then some (.int (-significand))
      else some (.float (.ofRatio true significand 1))
    else some (.int significand)
  else
    let (significand, unread) := absorb significand n.fraction.reverse
    let shift : Int := (spare : Int) - (n.fraction.length - unread : Nat)
    let power := digitsValue n.power.reverse
    let signed (x : Binary64) : Number := .float (if n.negative then x.neg else x)
    if powerLimit ≤ power then
      if significand ≠ 0 ∧ ¬n.powerNegative then none else some (signed (.zero false))
    else
      let power : Int := if n.powerNegative then shift - power else shift + power
      (scale 4 (.ofNat significand) power).map signed

end Numeral

end Verdicts.Json
